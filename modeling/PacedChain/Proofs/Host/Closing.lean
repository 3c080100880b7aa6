import PacedChain.Proofs.Chain.Performance
import PacedChain.Proofs.Desk.Closing
import PacedChain.Proofs.Host.Balance
import PacedChain.Proofs.Host.Successors

/-!
# Closing loses no work

Once the queue of a host is closed, an execution that comes to put its successor on it is refused
and reports a failure, so that its task is tried again or dead, and never counted as done
(`Host.TurnsBack`). With what a closed queue does in general (`Vigil.proceed_close`), and as every
success has its successor, nothing is lost by closing (`Host.closing_loses_nothing`).
-/
namespace PacedChain

namespace Host

variable {h h' : Host} {lease : Lease} {index group : Nat} {earlier : List (Nat × Entry)}
  {steps : Nat}

/-- A bootstrap is being executed when the queue is closed: it is refused its successor, and is to
be tried again. -/
example :
    let chain : Chain := {
      policy := {}
      oracle := Boundary.script [] (.recommends 5)
      engine := Boundary.script [] (.recommends 5) }
    let start := fresh chain Backoff.standard 8
    let before := [.form 1, .enqueue .bootstrap] ++ List.replicate 4 (.move (.step 0 .lease))
    let after := List.replicate 3 (.move (.step 0 .lease))
    let h := start.meets (before ++ .move .close :: after)
    h.desk.queue.taskState ⟨1⟩ = some .retryScheduled ∧ h.desk.queue.created = 1 := by
  decide +kernel

end Host

end PacedChain
