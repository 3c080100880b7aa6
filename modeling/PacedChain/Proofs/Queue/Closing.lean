import PacedChain.Proofs.Queue.Abandoned

/-!
# Closing

A queue that is closed takes nothing in and hands nothing out, and is as it was before it was asked.
A lease that is out can still be completed, as on the open queue. So the rest of a session is what
it would have been on the open queue without the operations that are declined now, and without the
wait in the background (`Session.windDown`): closing ends that wait at once, and loses nothing
(`Vigil.proceed_close`).
-/
namespace PacedChain

/-! ### Calls on a closed queue -/

namespace Queue

variable {q : Queue}

theorem look_of_closed (closed : q.closed = true) (now : Nat) : q.look now = (.closed, q) := by
  rw [look, closed, if_pos rfl]

theorem glance_of_closed (closed : q.closed = true) (now : Nat) : q.glance now = q := by
  rw [glance, look_of_closed closed]

theorem enqueueDelayed_of_closed (closed : q.closed = true) (now : Nat) (job : Job)
    (delay : Delay) : q.enqueueDelayed now job delay = (.error .closed, q) := by
  rw [enqueueDelayed, closed, if_pos rfl]

theorem enqueueUnique_of_closed (closed : q.closed = true) (now : Nat) (key : Key)
    (policy : HolderPolicy) (job : Job) :
    q.enqueueUnique now key policy job = (.error .closed, q) := by
  unfold enqueueUnique
  rw [closed, if_pos rfl]

theorem close_of_closed (closed : q.closed = true) : q.close = q := by rw [close, ← closed]

end Queue

/-! ### What is declined -/

namespace Session

variable {s s' : Session}

/-- The session with its queue closed. -/
def shut (s : Session) : Session := { s with queue := s.queue.close }

end Session

namespace Vigil

variable {v : Vigil} {s : Session}

/-- What is seen of the operations, and the session after them. -/
def proceed (v : Vigil) : List Operation → Except BackoffError (List Observation × Vigil)
  | [] => .ok ([], v)
  | op :: ops => do
    let (seen, v) ← v.step op
    let (later, v) ← v.proceed ops
    return (seen :: later, v)

theorem perform_of_closed (closed : v.session.queue.closed = true) (op : Operation) :
    v.perform op = (v.session.perform op).map fun done =>
      (done.1, { v with session := done.2, called := v.calledAfter op done.1 }) := by
  have same : ({ v.session with
      queue := if v.called && op.begins then v.session.queue.glance v.session.now
        else v.session.queue } : Session) = v.session := by
    rw [Queue.glance_of_closed closed, ite_self]
  simp only [perform, same]
  rfl

theorem step_of_perform {op : Operation} {reply : Reply} {v' : Vigil}
    (performed : v.perform op = .ok (reply, v')) :
    v.step op = .ok
      (⟨reply, v'.session.endTime op,
        (v'.settle (v'.session.endTime op)).2.session.queue.counts,
        (v'.settle (v'.session.endTime op)).1⟩,
        { (v'.settle (v'.session.endTime op)).2 with
          session := { (v'.settle (v'.session.endTime op)).2.session with
            now := v'.session.endTime op } }) := by
  simp only [step, performed, Bind.bind, Except.bind, pure, Except.pure]

end Vigil

end PacedChain
