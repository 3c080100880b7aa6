import PacedChain.Proofs.Desk.Punctual

/-!
# Looks that find nothing

Who waits for a lease looks at the queue again and again. However many wait at once, the looks of
theirs that found nothing cannot be told from the other calls: leaving out any of them leaves the
journal as it is, and the queue but for stale entries (`Usage.Skips.same`). This takes the other
looks as given; that a look may be missing because another wait was called, is a matter of the
`Lobby`.
-/
namespace PacedChain.Usage

variable {u v : Usage}

/-- The desk without the stale entries of its queue. -/
def tidy (u : Usage) : Usage := { u with desk := { u.desk with queue := u.desk.queue.tidy } }

/-- A sound desk whose schedule is in order. -/
structure Proper (u : Usage) : Prop where
  sound : u.Sound
  ordered : u.desk.queue.Ordered

namespace Proper

theorem queue (proper : u.Proper) : u.desk.queue.Proper :=
  ⟨proper.sound.kept, ⟨_, proper.sound.placed⟩, proper.ordered⟩

theorem perform (proper : u.Proper) (call : Call) : (u.perform call).Proper :=
  ⟨proper.sound.perform call, ordered_perform proper.ordered call⟩

theorem start (backoff : Backoff) (limit : Nat) : (start backoff limit).Proper :=
  ⟨sound_start backoff limit, Queue.ordered_empty backoff limit⟩

end Proper

/-- Desks that are the same when tidy differ in their queues only. -/
theorem of_tidy_eq (alike : u.tidy = v.tidy) :
    ∃ q, v = { u with desk := { u.desk with queue := q } } ∧ u.desk.queue.tidy = q.tidy := by
  obtain ⟨⟨now, p, journal⟩, out⟩ := u
  obtain ⟨⟨now', q, journal'⟩, out'⟩ := v
  simp only [tidy, Usage.mk.injEq, Desk.mk.injEq] at alike
  obtain ⟨⟨rfl, same, rfl⟩, rfl⟩ := alike
  exact ⟨q, rfl, same⟩

/-- A call comes to the same at desks that differ in stale entries only. -/
theorem perform_congr (proper : u.Proper) (proper' : v.Proper) (alike : u.tidy = v.tidy)
    (call : Call) : (u.perform call).tidy = (v.perform call).tidy := by
  obtain ⟨q, rfl, same⟩ := of_tidy_eq alike
  cases call with
  | enqueue job =>
    have enqueued := Queue.enqueueDelayed_congr proper.queue proper'.queue same u.desk.now job
      Delay.zero
    obtain ⟨r, p₁, q₁, here, there, same₁⟩ := prod_map_eq_cases enqueued
    simp [perform, Desk.enqueue, Queue.enqueue, Desk.enter, tidy, here, there, same₁]
  | enqueueDelayed job delay =>
    have enqueued := Queue.enqueueDelayed_congr proper.queue proper'.queue same u.desk.now job delay
    obtain ⟨r, p₁, q₁, here, there, same₁⟩ := prod_map_eq_cases enqueued
    simp [perform, TaskQueue.enqueueDelayed, Desk.enter, tidy, here, there, same₁]
  | enqueueUnique key policy job =>
    have enqueued := Queue.enqueueUnique_congr proper.queue proper'.queue same u.desk.now key policy
      job
    obtain ⟨r, p₁, q₁, here, there, same₁⟩ := prod_map_eq_cases enqueued
    simp [perform, TaskQueue.enqueueUnique, Desk.enter, tidy, here, there, same₁]
  | look =>
    have looked := Queue.look_congr proper.queue proper'.queue same u.desk.now
    rcases here : u.desk.queue.look u.desk.now with ⟨seen, p₁⟩
    rcases there : q.look u.desk.now with ⟨seen', q₁⟩
    rw [here, there] at looked
    simp only [Prod.map, Prod.mk.injEq] at looked
    obtain ⟨seen_eq, same₁⟩ := looked
    cases seen <;> cases seen' <;> simp only [Look.withoutWake, reduceCtorEq, Look.leased.injEq]
      at seen_eq
    · simp [perform, Desk.look, Desk.enter, tidy, here, there, same₁]
    · subst seen_eq
      simp [perform, Desk.look, Desk.enter, tidy, here, there, same₁]
    · simp [perform, Desk.look, tidy, here, there, same₁]
  | complete lease outcome =>
    by_cases out : lease ∈ u.out
    · obtain ⟨task, known, runs, _⟩ := proper.sound.leased lease out
      have completed := Queue.complete_congr proper.queue proper'.queue same known runs u.desk.now
        outcome
      obtain ⟨r, p₁, q₁, here, there, same₁⟩ := prod_map_eq_cases completed
      simp [perform, out, Desk.complete, Desk.enter, tidy, here, there, same₁]
    · simp [perform, out, tidy, same]
  | drop lease => simp [perform, tidy, same]
  | close =>
    simp [perform, tidy, Queue.close_congr same]
  | pass duration => simp [perform, tidy, same]

/-- A look that finds nothing drops stale entries at most. -/
theorem tidy_perform_of_idle (proper : u.Proper) {wake : Option Nat}
    (nothing : u.desk.look.1 = .idle wake) : (u.perform .look).tidy = u.tidy := by
  rcases seen : u.desk.queue.look u.desk.now with ⟨_ | _ | _, q⟩ <;>
    simp only [Desk.look, seen] at nothing
  · cases nothing
  · cases nothing
  · rw [perform_look_idle seen]
    simp [tidy, (Queue.idle_of_look proper.queue seen).alike]

/-- Calls, and the same calls without some of the looks that find nothing. -/
inductive Skips : Usage → List Call → List Call → Prop
  | nil (u : Usage) : Skips u [] []
  | call {u : Usage} {calls fewer : List Call} (call : Call) :
    Skips (u.perform call) calls fewer → Skips u (call :: calls) (call :: fewer)
  | look {u : Usage} {wake : Option Nat} {calls fewer : List Call} :
    u.desk.look.1 = .idle wake → Skips (u.perform .look) calls fewer →
    Skips u (.look :: calls) fewer

/-- No other call can tell whether looks that found nothing were made. -/
theorem Skips.same {calls fewer : List Call} (skips : u.Skips calls fewer) (proper : u.Proper)
    (proper' : v.Proper) (alike : u.tidy = v.tidy) : (u.run calls).tidy = (v.run fewer).tidy := by
  induction skips generalizing v with
  | nil => exact alike
  | call call _ ih =>
    exact ih (proper.perform call) (proper'.perform call)
      (perform_congr proper proper' alike call)
  | look nothing _ ih =>
    exact ih (proper.perform .look) proper' ((tidy_perform_of_idle proper nothing).trans alike)

end PacedChain.Usage
