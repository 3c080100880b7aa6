import PacedChain.Proofs.Desk.Fares
import PacedChain.Proofs.Queue.Counting

/-!
# Tasks that wait

A task that is put on the queue with a delay waits as it is until its time has come, and there is no
attempt at it before (`Desk.HoldsBack`), as long as no task is replaced. So the syncs that are to
wait until a later time or longer do not get fewer before that time (`Usage.Sound.resting_run`).
-/
namespace PacedChain

/-- A sync that waits for its first time, which does not come before `time`. -/
def Task.isResting (time : Nat) (task : Task) : Bool :=
  task.job == .sync && task.state == .delayed && task.notBefore.any (time ≤ ·)

theorem Task.of_isResting {time : Nat} {task : Task} (rests : task.isResting time = true) :
    task.job = .sync ∧ task.state = .delayed ∧
      ∃ due, task.notBefore = some due ∧ time ≤ due := by
  simp only [isResting, Bool.and_eq_true, beq_iff_eq, Option.any_eq_true,
    decide_eq_true_eq] at rests
  exact ⟨rests.1.1, rests.1.2, rests.2⟩

namespace Queue

/-- The syncs that are to wait until `time` or longer. -/
def resting (q : Queue) (time : Nat) : Nat := q.countTasks (·.isResting time)

theorem resting_le_unfinished (q : Queue) (time : Nat) : q.resting time ≤ q.unfinished .sync := by
  refine List.countP_mono_left fun entry _ rests => ?_
  obtain ⟨job, waits, _⟩ := Task.of_isResting rests
  change (entry.2.job == .sync && !entry.2.state.isTerminal) = true
  rw [job, waits]
  rfl

/-- A sync that is put on the queue with a delay is one more that rests. -/
theorem resting_enqueueDelayed {q q' : Queue} {now time : Nat} {delay : Delay} {id : TaskId}
    (placed : q.enqueueDelayed now .sync delay = (.ok id, q')) (positive : delay.isZero = false)
    (late : time ≤ Clock.deadline now delay.duration) : q'.resting time = q.resting time + 1 := by
  rcases enqueueDelayed_cases q now .sync delay with ⟨_, same⟩ | ⟨_, same⟩ <;>
    cases same.symm.trans placed
  have rests : (Task.fresh .sync none delay now).isResting time = true := by
    rw [Task.fresh, positive]
    simp [Task.isResting, Task.holdBack, Task.create, late]
  rw [resting, countTasks_insert, rests]
  rfl

end Queue

namespace Desk

/-- A task waits for a time, before which there is no attempt at it. -/
structure HoldsBack (d : Desk) (id : TaskId) (time : Nat) : Prop where
  waits : d.now < time → ∃ task, d.queue.task? id = some task ∧ task.state = .delayed ∧
    task.notBefore = some time
  attempts : ∀ entry ∈ d.attempts id, time ≤ entry.1

/-- No entry is of a time to come. -/
def Timely (d : Desk) : Prop := ∀ entry ∈ d.journal, entry.1 ≤ d.now

theorem queue_of_enqueueDelayed {d d' : Desk} {job : Job} {delay : Delay}
    {result : Except QueueError TaskId}
    (placed : TaskQueue.enqueueDelayed d job delay = (result, d')) :
    d.queue.enqueueDelayed d.now job delay = (result, d'.queue) := by
  cases placed
  rfl

/-- A new task waits for as long as its delay says. -/
theorem holdsBack_enqueueDelayed {d d' : Desk} {job : Job} {delay : Delay} {id : TaskId}
    (kept : d.queue.Kept) (unborn : ∀ id, d.Unborn id)
    (placed : TaskQueue.enqueueDelayed d job delay = (.ok id, d')) :
    d'.HoldsBack id (Clock.deadline d.now delay.duration) := by
  have enqueued := queue_of_enqueueDelayed placed
  have now : d'.now = d.now := congrArg (fun r => Desk.now r.2) placed.symm
  have attempts : d'.attempts id = d.attempts id := by
    rw [show d' = (TaskQueue.enqueueDelayed d job delay).2 from (congrArg Prod.snd placed).symm]
    exact attempts_enter_of_not rfl
  rcases Queue.enqueueDelayed_cases d.queue d.now job delay with ⟨_, same⟩ | ⟨_, same⟩ <;>
    rw [enqueued, Prod.mk.injEq] at same <;> obtain ⟨number, queue⟩ := same
  · cases number
  · cases number
    refine ⟨fun early => ⟨Task.fresh job none delay d.now, ?_, ?_⟩, ?_⟩
    · rw [queue, Queue.task?_insert kept, if_pos rfl]
    -- Without a delay, the time has come already.
    · have positive : delay.isZero = false := by
        rw [Bool.eq_false_iff]
        intro zero
        rw [Delay.isZero_iff.mp zero, now] at early
        exact absurd early (Nat.lt_irrefl _)
      rw [Task.fresh, positive]
      exact ⟨rfl, rfl⟩
    · rw [attempts, unborn _ (Nat.lt_succ_self _)]
      intro entry member
      cases member

end Desk

namespace Usage

variable {u : Usage} {call : Call} {id : TaskId} {task : Task} {time : Nat}

theorem now_perform (u : Usage) (call : Call) : u.desk.now ≤ (u.perform call).desk.now := by
  cases call with
  | look =>
    rcases seen : u.desk.queue.look u.desk.now with ⟨_ | _ | _, q⟩
    · rw [perform_look_closed seen]
      exact Nat.le_refl _
    · rw [perform_look_leased seen]
      exact Nat.le_refl _
    · rw [perform_look_idle seen]
  | complete lease outcome =>
    rw [perform]
    split <;> exact Nat.le_refl _
  | pass duration => exact Nat.le_add_right _ _
  | enqueue | enqueueDelayed | enqueueUnique | drop | close => exact Nat.le_refl _

theorem timely_perform (timely : u.desk.Timely) (call : Call) : (u.perform call).desk.Timely := by
  intro entry member
  refine Nat.le_trans ?_ (now_perform u call)
  rcases u.journal_perform_cases call with same | ⟨last, same⟩ <;> rw [same] at member
  · exact timely entry member
  · rcases List.mem_cons.mp member with rfl | earlier
    · exact Nat.le_refl _
    · exact timely entry earlier

theorem not_replaces_of_isGentle (gentle : call.isGentle = true) : ¬u.Replaces call id := by
  rintro ⟨key, policy, job, new, rfl, replaced⟩
  cases policy with
  | replace => cases gentle
  | keepExisting =>
    rcases Queue.enqueueUnique_cases u.desk.queue u.desk.now key .keepExisting job with
      ⟨_, same⟩ | ⟨_, _, same⟩ | ⟨_, _, _, _, _, same⟩ | ⟨_, _, _, _, replaces, _⟩
    · rw [same] at replaced
      cases replaced
    · rw [same] at replaced
      cases replaced
    · rw [same] at replaced
      cases replaced
    · cases replaces

namespace Sound

/-- Before its time has come, a call changes nothing about a task that waits. -/
theorem stays (sound : u.Sound) (gentle : call.isGentle = true)
    (known : u.desk.queue.task? id = some task) (waits : task.state = .delayed)
    (until_ : task.notBefore = some time) (early : u.desk.now < time) :
    (u.perform call).desk.queue.task? id = some task := by
  cases sound.fares call id with
  | lapses lapses =>
    rw [known] at lapses
    exact lapses.eq_some_of_delayed (not_replaces_of_isGentle gentle) waits until_ early
  | created _ _ _ new =>
    have old := sound.kept.numbered id task known
    rw [new] at old
    exact absurd old (Nat.not_succ_le_self _)
  | leased _ _ queued lapses =>
    rw [known] at lapses
    cases lapses.eq_some_of_delayed not_false waits until_ early
    cases queued.symm.trans waits
  | completed _ _ found runs =>
    cases known.symm.trans found
    cases runs.symm.trans waits
  | dropped same =>
    rw [same] at gentle
    cases gentle

/-- The time of a task that is held back has come when it is attempted. -/
theorem holdsBack_perform (sound : u.Sound) (gentle : call.isGentle = true)
    (held : u.desk.HoldsBack id time) : (u.perform call).desk.HoldsBack id time := by
  refine ⟨fun early => ?_, ?_⟩
  · have before := Nat.lt_of_le_of_lt (now_perform u call) early
    obtain ⟨task, known, waits, until_⟩ := held.waits before
    exact ⟨task, sound.stays gentle known waits until_ before, waits, until_⟩
  · have entered : ∀ entry, time ≤ u.desk.now →
        ∀ e ∈ (u.desk.now, entry) :: u.desk.attempts id, time ≤ e.1 := by
      intro entry come e member
      rcases List.mem_cons.mp member with rfl | earlier
      · exact come
      · exact held.attempts e earlier
    cases sound.fares call id with
    | lapses _ same | created _ _ _ _ _ same =>
      rw [same]
      exact held.attempts
    | leased _ _ queued lapses _ same =>
      rw [same]
      refine entered _ (Nat.not_lt.mp fun early => ?_)
      obtain ⟨task, known, waits, until_⟩ := held.waits early
      rw [known] at lapses
      cases lapses.eq_some_of_delayed not_false waits until_ early
      cases queued.symm.trans waits
    | completed _ _ found runs _ _ same =>
      rw [same]
      refine entered _ (Nat.not_lt.mp fun early => ?_)
      obtain ⟨task, known, waits, _⟩ := held.waits early
      cases known.symm.trans found
      cases runs.symm.trans waits
    | dropped same =>
      rw [same] at gentle
      cases gentle

/-- Before `time`, no call makes the syncs fewer that rest until then. -/
theorem resting_perform (sound : u.Sound) (gentle : call.isGentle = true)
    (early : u.desk.now < time) :
    u.desk.queue.resting time ≤ (u.perform call).desk.queue.resting time := by
  refine Queue.countTasks_le sound.kept (sound.perform call).kept fun id task known rests => ?_
  obtain ⟨_, waits, due, until_, late⟩ := Task.of_isResting rests
  exact sound.stays gentle known waits until_ (Nat.lt_of_lt_of_le early late)

theorem resting_run (sound : u.Sound) {calls : List Call}
    (gentle : ∀ call ∈ calls, call.isGentle = true) (early : (u.run calls).desk.now < time) :
    u.desk.queue.resting time ≤ (u.run calls).desk.queue.resting time := by
  refine (run_induction_of (P := fun v => v.Sound ∧ (v.desk.now < time →
    u.desk.queue.resting time ≤ v.desk.queue.resting time)) ?_ ⟨sound, fun _ => Nat.le_refl _⟩
    gentle).2 early
  rintro v call gentle ⟨sound, more⟩
  refine ⟨sound.perform call, fun early => ?_⟩
  have before := Nat.lt_of_le_of_lt (now_perform v call) early
  exact Nat.le_trans (more before) (sound.resting_perform gentle before)

end Sound

end Usage

end PacedChain
