import Mathlib.Data.List.Chain
import PacedChain.Proofs.Desk.Glances
import PacedChain.Proofs.Queue.Line

/-!
# The moments of a run

A look lets the tasks that are due fall due one after the other before it hands out the first task
that is ready. To say which of two tasks was queued first, a run is therefore cut into moments
(`Usage.timeline`): the states between its calls, and within a look those between one task that
falls due and the next one. From each moment to the next one something happens that is small enough
to be looked at alone (`Usage.Next`), and the desk is proper all the time (`Usage.proper_timeline`).
-/
namespace PacedChain

/-- The queues that a promotion goes through, one task after the other falling due. -/
def Queue.ripening (now : Nat) : List Wakeup → Queue → List Queue
  | [], _ => []
  | w :: rest, q =>
    if w.notBefore ≤ now then q.ripen now w rest :: ripening now rest (q.ripen now w rest) else []

namespace Usage

variable {u v : Usage} {w : Wakeup} {rest : List Wakeup}

def withQueue (u : Usage) (q : Queue) : Usage := { u with desk := { u.desk with queue := q } }

/-- The moments within a call, before its end. All calls but looks are done at once. -/
def within (u : Usage) : Call → List Usage
  | .look =>
    if u.desk.queue.closed then []
    else (Queue.ripening u.desk.now u.desk.queue.scheduled u.desk.queue).map u.withQueue
  | _ => []

/-- All moments of a row of calls, the first one first. -/
def timeline (u : Usage) : List Call → List Usage
  | [] => [u]
  | call :: calls => u :: (u.within call ++ timeline (u.perform call) calls)

/-- What can happen from one moment to the next one. -/
inductive Next (u : Usage) : Usage → Prop
  | call {call : Call} : call ≠ .look → Next u (u.perform call)
  /-- The first task that waits falls due. -/
  | due {w : Wakeup} {rest : List Wakeup} : u.desk.queue.scheduled = w :: rest →
    Next u (u.withQueue (u.desk.queue.ripen u.desk.now w rest))
  /-- A look ends once nothing is due any more. -/
  | look : u.desk.queue.closed = true ∨ u.desk.queue.promoteDue u.desk.now = u.desk.queue →
    Next u (u.perform .look)

theorem perform_look_due (opened : u.desk.queue.closed = false)
    (all : u.desk.queue.scheduled = w :: rest) (due : w.notBefore ≤ u.desk.now) :
    (u.withQueue (u.desk.queue.ripen u.desk.now w rest)).perform .look =
      u.perform .look := by
  have same := Queue.look_ripen opened all due
  rcases seen : u.desk.queue.look u.desk.now with ⟨_ | lease | wake, q⟩
  · rw [perform_look_closed seen, perform_look_closed (same.trans seen)]
    rfl
  · rw [perform_look_leased seen, perform_look_leased (same.trans seen)]
    rfl
  · rw [perform_look_idle seen, perform_look_idle (same.trans seen)]
    rfl

/-- The moments of a look follow each other, down to its end. -/
theorem isChain_within (opened : u.desk.queue.closed = false) {later : List Usage}
    (chain : (u.perform .look :: later).IsChain Next) :
    (u :: ((Queue.ripening u.desk.now u.desk.queue.scheduled u.desk.queue).map u.withQueue ++
      u.perform .look :: later)).IsChain Next := by
  generalize all : u.desk.queue.scheduled = ws
  -- Along the schedule: either its first task falls due, or the look is at its end.
  induction ws generalizing u with
  | nil => exact chain.cons_cons (.look (Or.inr (Queue.promoteDue_of_scheduled_nil all)))
  | cons w rest ih =>
    unfold Queue.ripening
    by_cases due : w.notBefore ≤ u.desk.now
    · have same := perform_look_due opened all due
      rw [if_pos due]
      refine List.IsChain.cons_cons (.due all) ?_
      have later := @ih (u.withQueue (u.desk.queue.ripen u.desk.now w rest))
        (Queue.closed_ripen.trans opened) (by rwa [same]) Queue.scheduled_ripen
      rwa [same] at later
    · rw [if_neg due]
      exact chain.cons_cons (.look (Or.inr (Queue.promoteDue_of_early all due)))

theorem timeline_eq (u : Usage) (calls : List Call) : ∃ later, u.timeline calls = u :: later := by
  cases calls with
  | nil => exact ⟨[], rfl⟩
  | cons call calls => exact ⟨_, rfl⟩

theorem isChain_timeline (u : Usage) (calls : List Call) : (u.timeline calls).IsChain Next := by
  induction calls generalizing u with
  | nil => exact .singleton u
  | cons call calls ih =>
    have chain := ih (u.perform call)
    obtain ⟨later, all⟩ := timeline_eq (u.perform call) calls
    rw [timeline, all]
    rw [all] at chain
    cases call with
    | look =>
      unfold within
      cases opened : u.desk.queue.closed with
      | true => exact chain.cons_cons (.look (Or.inl opened))
      | false =>
        rw [if_neg Bool.false_ne_true]
        exact isChain_within opened chain
    | enqueue | enqueueDelayed | enqueueUnique | complete | drop | close | pass =>
      exact chain.cons_cons (.call nofun)

/-- The last moment is the state that the calls lead to. -/
theorem getLast_timeline (u : Usage) (calls : List Call) :
    (u.timeline calls).getLast? = some (u.run calls) := by
  induction calls generalizing u with
  | nil => rfl
  | cons call calls ih =>
    rw [timeline, List.getLast?_cons, List.getLast?_append, ih]
    rfl

theorem Proper.due (proper : u.Proper) (all : u.desk.queue.scheduled = w :: rest) :
    (u.withQueue (u.desk.queue.ripen u.desk.now w rest)).Proper where
  sound :=
    { kept := proper.sound.kept.wake
      placed := proper.sound.placed.wake all
      indexed := proper.sound.indexed.wake
      leased := by
        intro lease out
        obtain ⟨task, known, runs, same⟩ := proper.sound.leased lease out
        exact ⟨task, Queue.task?_ripen_of_running known runs, runs, same⟩
      noted := proper.sound.noted
      once := proper.sound.once }
  ordered := by
    have order := proper.ordered
    unfold Queue.Ordered at order ⊢
    rw [all] at order
    change Queue.InOrder (u.desk.queue.ripen u.desk.now w rest).scheduled
    rw [Queue.scheduled_ripen]
    exact (List.pairwise_cons.mp order).2

theorem Proper.next (proper : u.Proper) (next : u.Next v) : v.Proper := by
  cases next with
  | call => exact proper.perform _
  | due all => exact proper.due all
  | look => exact proper.perform .look

/-- What holds at first and from each moment to the next one holds at all moments. -/
theorem timeline_induction {P : Usage → Prop} (step : ∀ u v, u.Next v → P u → P v) (first : P u)
    (calls : List Call) : ∀ v ∈ u.timeline calls, P v := by
  obtain ⟨later, all⟩ := timeline_eq u calls
  refine (isChain_timeline u calls).induction P _ (fun u v next => step u v next) fun _ => ?_
  simp only [all, List.head_cons]
  exact first

theorem proper_timeline (proper : u.Proper) (calls : List Call) :
    ∀ v ∈ u.timeline calls, v.Proper :=
  timeline_induction (fun _ _ next proper => proper.next next) proper calls

end Usage

end PacedChain
