import Mathlib.Data.List.Infix
import PacedChain.Proofs.Desk.Usage

/-!
# Every task in its place

Whatever is done with a desk, no task is lost and none stands twice in line: a queued task stands
once in `ready`, a waiting one once in `scheduled` under the time it waits for, a running one
nowhere. The other entries are left over from tasks that were replaced, and none of these ever runs
again (`Usage.every_task_in_its_place`).
-/
namespace PacedChain

namespace Queue

/-- The times at which a task is scheduled. -/
def wakeups (q : Queue) (id : TaskId) : List Nat :=
  (q.scheduled.filter (·.task = id)).map (·.notBefore)

variable {q : Queue} {id : TaskId} {task : Task}

theorem wakeups_eq_nil (absent : id ∉ q.scheduled.map (·.task)) : q.wakeups id = [] := by
  rw [wakeups, List.map_eq_nil_iff, List.filter_eq_nil_iff]
  intro w member same
  exact absent (List.mem_map.mpr ⟨w, member, of_decide_eq_true same⟩)

theorem wakeups_eq_singleton {t : Nat} (once : (q.scheduled.map (·.task)).Nodup)
    (member : ⟨t, id⟩ ∈ q.scheduled) : q.wakeups id = [t] := by
  unfold wakeups
  generalize q.scheduled = scheduled at once member
  induction scheduled with
  | nil => cases member
  | cons w rest ih =>
    rw [List.map_cons, List.nodup_cons] at once
    rcases List.mem_cons.mp member with rfl | later
    -- No later wake-up is of this task.
    · have none : rest.filter (·.task = id) = [] := by
        rw [List.filter_eq_nil_iff]
        intro v other same
        exact once.1 (List.mem_map.mpr ⟨v, other, of_decide_eq_true same⟩)
      rw [List.filter_cons_of_pos (by simp), none]
      rfl
    · have other : w.task ≠ id := by
        rintro rfl
        exact once.1 (List.mem_map.mpr ⟨_, later, rfl⟩)
      rw [List.filter_cons_of_neg (by simpa using other)]
      exact ih once.2 later

end Queue

namespace Usage

/-! ### Withdrawn for good -/

/-- A call makes one entry at most, at the time of the call. -/
theorem journal_perform_cases (u : Usage) (call : Call) :
    (u.perform call).desk.journal = u.desk.journal ∨
      ∃ entry, (u.perform call).desk.journal = (u.desk.now, entry) :: u.desk.journal := by
  cases call with
  | look =>
    rcases seen : u.desk.queue.look u.desk.now with ⟨_ | lease | wake, q⟩
    · rw [perform_look_closed seen]
      exact Or.inr ⟨_, rfl⟩
    · rw [perform_look_leased seen]
      exact Or.inr ⟨_, rfl⟩
    · rw [perform_look_idle seen]
      exact Or.inl rfl
  | complete lease outcome =>
    rw [perform]
    split
    · exact Or.inr ⟨_, rfl⟩
    · exact Or.inl rfl
  | enqueue | enqueueDelayed | enqueueUnique => exact Or.inr ⟨_, rfl⟩
  | drop | close | pass => exact Or.inl rfl

theorem journal_perform (u : Usage) (call : Call) :
    u.desk.journal <:+ (u.perform call).desk.journal := by
  rcases u.journal_perform_cases call with same | ⟨entry, same⟩ <;> rw [same]
  exact List.suffix_cons _ _

theorem journal_run (u : Usage) (calls : List Call) :
    u.desk.journal <:+ (u.run calls).desk.journal :=
  run_induction (P := fun later => u.desk.journal <:+ later.desk.journal)
    (fun later call longer => longer.trans (later.journal_perform call)) (List.suffix_refl _) calls

theorem withdrew_run {u : Usage} {id : TaskId} (withdrew : u.desk.Withdrew id) (calls : List Call) :
    (u.run calls).desk.Withdrew id := by
  obtain ⟨entry, member, withdraws⟩ := withdrew
  exact ⟨entry, (u.journal_run calls).subset member, withdraws⟩

/-- What was withdrawn is cancelled or forgotten, and is not handed out. -/
theorem Sound.withdrawn {u : Usage} {id : TaskId} (sound : u.Sound)
    (withdrew : u.desk.Withdrew id) :
    (u.desk.queue.taskState id = none ∨ u.desk.queue.taskState id = some .cancelled) ∧
      ∀ lease, u.desk.look.1 = .leased lease → lease.envelope.task ≠ id := by
  refine ⟨((sound.placed.stands id).withdrawn withdrew).2, ?_⟩
  rintro lease handed rfl
  rcases seen : u.desk.queue.look u.desk.now with ⟨_ | other | wake, q⟩
  · simp only [Desk.look, seen] at handed
    cases handed
  · simp only [Desk.look, seen, Look.leased.injEq] at handed
    subst handed
    -- After the look the task would run, but it is withdrawn still.
    have later := withdrew_run withdrew [.look]
    have after := sound.perform .look
    rw [run_singleton] at later
    rw [perform_look_leased seen] at later after
    obtain ⟨task, known, runs, _⟩ := after.leased other List.mem_cons_self
    have cancelled := (after.placed.stands _).cancelled later known
    rw [runs] at cancelled
    cases cancelled
  · simp only [Desk.look, seen] at handed
    cases handed

/-! ### The places -/

/-- Where the tasks of a desk stand. -/
structure InPlace (u : Usage) : Prop where
  /-- No two tasks share an identifier. -/
  unique : (u.desk.queue.tasks.map Prod.fst).Nodup
  queued : ∀ id task, (id, task) ∈ u.desk.queue.tasks → task.state = .queued →
    u.desk.queue.ready.count id = 1 ∧ u.desk.queue.wakeups id = []
  waiting : ∀ id task, (id, task) ∈ u.desk.queue.tasks →
    task.state = .delayed ∨ task.state = .retryScheduled →
    ∃ notBefore, task.notBefore = some notBefore ∧ u.desk.queue.wakeups id = [notBefore] ∧
      id ∉ u.desk.queue.ready
  running : ∀ id task, (id, task) ∈ u.desk.queue.tasks → task.state = .running →
    id ∉ u.desk.queue.ready ∧ u.desk.queue.wakeups id = []
  /-- Any other entry is left over from a task that was replaced: it is cancelled or forgotten,
  stays so whatever is done next, and is not handed out. -/
  stale : ∀ id ∈ u.desk.queue.named,
    (∀ task, (id, task) ∈ u.desk.queue.tasks →
      task.state ≠ .queued ∧ task.state ≠ .delayed ∧ task.state ≠ .retryScheduled) →
    u.desk.Withdrew id ∧ ∀ more,
      ((u.run more).desk.queue.taskState id = none ∨
        (u.run more).desk.queue.taskState id = some .cancelled) ∧
      ∀ lease, (u.run more).desk.look.1 = .leased lease → lease.envelope.task ≠ id

theorem Sound.inPlace {u : Usage} (sound : u.Sound) : u.InPlace where
  unique := sound.kept.unique
  queued := by
    intro id task member state
    have known := sound.kept.mem_iff.mp member
    have once := sound.placed.once
    have stands := (sound.placed.stands id).queued (by rw [Queue.taskState_of_task? known, state])
    rw [Queue.named, List.nodup_append] at once
    refine ⟨List.count_eq_one_of_mem once.1 stands, Queue.wakeups_eq_nil ?_⟩
    exact fun elsewhere => once.2.2 id stands id elsewhere rfl
  waiting := by
    intro id task member state
    have known := sound.kept.mem_iff.mp member
    have once := sound.placed.once
    have waits : task.state.isWaiting = true := by
      rcases state with state | state <;> rw [state] <;> rfl
    obtain ⟨t, time, entry⟩ := (sound.placed.stands id).waiting task known waits
    rw [Queue.named, List.nodup_append] at once
    refine ⟨t, time, Queue.wakeups_eq_singleton once.2.1 entry, ?_⟩
    exact fun elsewhere => once.2.2 id elsewhere id (List.mem_map.mpr ⟨_, entry, rfl⟩) rfl
  running := by
    intro id task member state
    have unnamed := sound.placed.not_named (sound.kept.mem_iff.mp member) state
    exact ⟨fun ready => unnamed (List.mem_append_left _ ready),
      Queue.wakeups_eq_nil fun entry => unnamed (List.mem_append_right _ entry)⟩
  stale := by
    intro id member other
    -- Its entry belongs to no task that is queued or waits, so the task was withdrawn.
    have withdrew : u.desk.Withdrew id := by
      rcases List.mem_append.mp member with ready | scheduled
      · rcases (sound.placed.stands id).ready ready with queued | withdrew
        · obtain ⟨task, known, state⟩ := Option.map_eq_some_iff.mp queued
          exact absurd state (other task (Queue.mem_tasks_of_task? known)).1
        · exact withdrew
      · rcases (sound.placed.stands id).scheduled scheduled with ⟨task, known, waits⟩ | withdrew
        · have apart := (other task (Queue.mem_tasks_of_task? known)).2
          cases state : task.state <;> simp [state, TaskState.isWaiting] at waits apart
        · exact withdrew
    exact ⟨withdrew, fun more => (sound_run sound more).withdrawn (withdrew_run withdrew more)⟩

/-- No task is lost or doubled on any way from a desk without tasks. -/
theorem every_task_in_its_place (backoff : Backoff) (historyLimit : Nat) (calls : List Call) :
    ((start backoff historyLimit).run calls).InPlace :=
  (sound_run (sound_start backoff historyLimit) calls).inPlace

end Usage

end PacedChain
