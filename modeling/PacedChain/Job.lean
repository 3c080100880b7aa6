import PacedChain.Identifier
import PacedChain.Named

/-!
# Jobs

A queued task runs one of the two kinds of link of a chain. Tasks that are enqueued under one key
are duplicates of each other, and a task that holds a key keeps it until it is finished.
-/
namespace PacedChain

/-- Which link of the chain a task runs. -/
inductive Job where
  /-- Ask the oracle once and schedule the first sync. -/
  | bootstrap
  /-- Run the engine and schedule the next sync. -/
  | sync
  deriving DecidableEq, Inhabited

instance : Named Job where
  all := [.bootstrap, .sync]
  text
    | .bootstrap => "bootstrap"
    | .sync => "sync"

/-- The identity under which enqueued tasks are duplicates of each other. -/
structure Key where
  text : String
  deriving DecidableEq

namespace Key

/-- The key of bootstraps where no other is configured. -/
def standard : Key := ⟨"chain_bootstrap"⟩

instance : Inhabited Key := ⟨standard⟩

end Key

/-- What an enqueue under a key does while a task holds that key. -/
inductive HolderPolicy where
  /-- The holder stays and nothing is enqueued. -/
  | keepExisting
  /-- The new task takes the place of a holder that is not running. -/
  | replace
  deriving DecidableEq, Inhabited

instance : Named HolderPolicy where
  all := [.keepExisting, .replace]
  text
    | .keepExisting => "keep_existing"
    | .replace => "replace"

/-- What a queue keeps of a task to hand it out again. -/
structure Envelope where
  task : TaskId
  job : Job
  deriving DecidableEq

end PacedChain
