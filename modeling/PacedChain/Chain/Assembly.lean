import PacedChain.Chain.Execution
import PacedChain.Text.Quoted

/-!
# Assembly

A chain is put together from its parts. Queue, oracle and engine have to be given, and the fallback
spacing must not be zero, since nothing else keeps syncs apart whose engine recommends nothing.
-/
namespace PacedChain

/-- Why the parts make no chain. -/
inductive AssemblyError where
  | missing (parts : List String)
  | zeroFallback
  deriving DecidableEq

def AssemblyError.message : AssemblyError → String
  | .missing parts =>
    s!"Missing collaborators: {Text.quotedList parts}. These must be set before build()."
  | .zeroFallback => "fallback delay must be positive"

/-- The parts of a chain that are given so far. -/
structure Assembly (σ : Type) where
  queue : Option σ := none
  oracle : Option Boundary := none
  engine : Option Boundary := none
  guard : Option Guard := none
  /-- How calls elsewhere have left the lock of the guard. -/
  lock : Lock := {}
  policy : ChainPolicy := {}
  status : Option Status := none

namespace Assembly

variable {σ : Type}

/-- The names of the parts that have to be given and are not. -/
def missing (a : Assembly σ) : List String :=
  (if a.queue.isNone then ["queue"] else []) ++
    (if a.oracle.isNone then ["oracle"] else []) ++
    (if a.engine.isNone then ["engine"] else [])

/-- The chain and its queue, if the parts are complete. -/
def build (a : Assembly σ) : Except AssemblyError (Chain × σ) :=
  match a.queue, a.oracle, a.engine with
  | some queue, some oracle, some engine =>
    if a.policy.fallback.isZero then .error .zeroFallback
    else .ok ({
      policy := a.policy, oracle, engine
      guard := a.guard.getD ⟨0⟩, lock := a.lock, status := a.status.getD {} }, queue)
  | _, _, _ => .error (.missing a.missing)

end Assembly

end PacedChain
