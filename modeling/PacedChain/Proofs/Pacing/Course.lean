import PacedChain.Chain.Host
import PacedChain.Proofs.Queue.Lone

/-!
# Courses

The course of a chain is the row of its executions, said without a queue and without workers: each
execution and the answer that it gets decide the next one (`Turn.next`).
-/
namespace PacedChain

/-- An execution: when it starts, of which task and job, and which attempt at the task it is. -/
structure Turn where
  time : Nat
  task : TaskId
  job : Job
  attempt : Nat
  deriving DecidableEq

/-- What decides the spacing of turns: the fallback of a chain, how often a task may be tried again,
and how long it waits after each attempt. -/
structure Pace where
  fallback : Delay
  allowsRetry : Nat → Bool
  wait : Nat → Nat

/-- The turn after an answer. A recommendation is followed by the first attempt at a new sync, and
anything else by the next attempt at the same task, if there is to be one. -/
def Turn.next (pace : Pace) (turn : Turn) : Answer → Option Turn
  | .recommends secs =>
    let spacing : Nat := match turn.job with
      | .bootstrap => (max 0 secs).toNat
      | .sync => if 0 < secs then secs.toNat else pace.fallback.secs
    some ⟨Clock.after turn.time (Clock.ofSecs spacing), ⟨turn.task.number + 1⟩, .sync, 1⟩
  | .fails _ | .crashes _ =>
    if pace.allowsRetry turn.attempt then
      some ⟨Clock.after turn.time (pace.wait turn.attempt), turn.task, turn.job, turn.attempt + 1⟩
    else none

/-- The first turns from a given one on, at most so many. Bootstraps are answered by the oracle and
syncs by the engine. -/
def course (pace : Pace) : Nat → Boundary → Boundary → Turn → List Turn
  | 0, _, _, _ => []
  | n + 1, oracle, engine, turn =>
    match turn.job with
    | .bootstrap =>
      match turn.next pace (oracle.answer oracle.calls) with
      | none => [turn]
      | some following => turn :: course pace n oracle.call.2 engine following
    | .sync =>
      match turn.next pace (engine.answer engine.calls) with
      | none => [turn]
      | some following => turn :: course pace n oracle engine.call.2 following

/-- The execution that a lease starts. -/
def Entry.turn? : Nat × Entry → Option Turn
  | (now, .lease taken) => some ⟨now, taken.envelope.task, taken.envelope.job, taken.attempt⟩
  | _ => none

/-- The executions so far, the first one first. -/
def Desk.turns (d : Desk) : List Turn := (d.journal.filterMap Entry.turn?).reverse

namespace Desk

variable {d : Desk} {q : Queue}

theorem turns_enter_lease (lease : Lease) : (d.enter q (.lease lease)).turns =
    d.turns ++ [⟨d.now, lease.envelope.task, lease.envelope.job, lease.attempt⟩] := by
  simp only [turns, enter, List.filterMap_cons, Entry.turn?, List.reverse_cons]

theorem turns_enter {entry : Entry} (other : Entry.turn? (d.now, entry) = none) :
    (d.enter q entry).turns = d.turns := by
  simp only [turns, enter, List.filterMap_cons, other]

end Desk

end PacedChain
