import Mathlib.Data.List.Nodup
import PacedChain.Queue.Lease

/-!
# Kept tasks

A queue read as a map from identifiers to tasks (`Queue.task?`), and what its operations do to that
map. Tasks are kept under distinct numbers that have been given out, and the finished ones among
them are listed once each (`Queue.Kept`). A task that is not finished is never forgotten.
-/
namespace PacedChain

namespace TaskState

theorem isTerminal_of_isWaiting {s : TaskState} (h : s.isWaiting = true) :
    s.isTerminal = false := by
  cases s <;> first | rfl | cases h

theorem eq_queued_of_isRunnable {s : TaskState} (h : s.isRunnable = true) : s = .queued := by
  cases s <;> first | rfl | cases h

end TaskState

namespace Queue

variable {q : Queue} {id i : TaskId} {task : Task} {f : Task → Task}

theorem mem_tasks_of_task? (known : q.task? id = some task) : (id, task) ∈ q.tasks := by
  simp only [task?, Option.map_eq_some_iff] at known
  obtain ⟨entry, found, rfl⟩ := known
  have same : entry.1 = id := by simpa using List.find?_some found
  have member := List.mem_of_find?_eq_some found
  rwa [← same]

theorem task?_of_mem (unique : (q.tasks.map Prod.fst).Nodup) (member : (id, task) ∈ q.tasks) :
    q.task? id = some task := by
  unfold task?
  generalize q.tasks = tasks at unique member
  -- Along the list of tasks: the first one under the number is the only one.
  induction tasks with
  | nil => cases member
  | cons entry rest ih =>
    rw [List.map_cons, List.nodup_cons] at unique
    rcases List.mem_cons.mp member with rfl | later
    · simp
    · have other : entry.1 ≠ id := by
        rintro rfl
        exact unique.1 (List.mem_map.mpr ⟨_, later, rfl⟩)
      rw [List.find?_cons_of_neg (by simpa using other)]
      exact ih unique.2 later

theorem task?_modify (q : Queue) (id : TaskId) (f : Task → Task) (i : TaskId) :
    (q.modify id f).task? i = if i = id then (q.task? i).map f else q.task? i := by
  unfold task? modify
  generalize q.tasks = tasks
  induction tasks with
  | nil => simp
  | cons entry rest ih =>
    -- The first task may be the one that is asked for, the one that changes, both or neither.
    by_cases here : entry.1 = i
    · by_cases changed : entry.1 = id
      · have same : i = id := here.symm.trans changed
        simp [changed, same]
      · have other : i ≠ id := fun same => changed (here.trans same)
        simp [here, other]
    · by_cases changed : entry.1 = id
      · have other : i ≠ id := fun same => here (changed.trans same.symm)
        simpa [changed, other, Ne.symm other] using ih
      · simpa [here, changed] using ih

theorem task?_modify_self (known : q.task? id = some task) :
    (q.modify id f).task? id = some (f task) := by
  rw [task?_modify, if_pos rfl, known, Option.map_some]

theorem task?_modify_of_ne (other : i ≠ id) : (q.modify id f).task? i = q.task? i := by
  rw [task?_modify, if_neg other]

/-- Tasks in different states are different tasks. -/
theorem ne_of_state_ne {other : Task} (known : q.task? id = some task)
    (found : q.task? i = some other) (differ : other.state ≠ task.state) : i ≠ id := by
  rintro rfl
  rw [known, Option.some.injEq] at found
  exact differ (congrArg Task.state found.symm)

theorem map_fst_modify (q : Queue) (id : TaskId) (f : Task → Task) :
    (q.modify id f).tasks.map Prod.fst = q.tasks.map Prod.fst := by
  rw [modify, List.map_map]
  apply List.map_congr_left
  intro entry _
  by_cases same : entry.1 = id <;> simp [same]

/-! ### Finishing a task -/

/-- The tasks that are forgotten when one more task has finished. -/
def evicted (q : Queue) (id : TaskId) : List TaskId :=
  (q.finished ++ [id]).take ((q.finished ++ [id]).length - q.historyLimit)

/-- A task that ends by `f` is booked as finished. -/
def finish (q : Queue) (id : TaskId) (f : Task → Task) : Queue := (q.modify id f).retire id

theorem evicted_append_lastOf (q : Queue) (id : TaskId) :
    q.evicted id ++ lastOf q.historyLimit (q.finished ++ [id]) = q.finished ++ [id] :=
  List.take_append_drop _ _

theorem addTotal?_of_isTerminal (totals : Totals) {s : TaskState} (ends : s.isTerminal = true) :
    ∃ more, addTotal? totals s = some more := by
  cases s <;> first | exact ⟨_, rfl⟩ | cases ends

/-- Finishing a task changes the tasks, the list of finished ones and the totals. -/
theorem finish_eq (known : q.task? id = some task) (ends : (f task).state.isTerminal = true) :
    ∃ totals, addTotal? q.totals (f task).state = some totals ∧
      q.finish id f = { q with
        totals
        finished := lastOf q.historyLimit (q.finished ++ [id])
        tasks := (q.modify id f).tasks.filter fun entry => !(q.evicted id).contains entry.1 } := by
  obtain ⟨totals, booked⟩ := addTotal?_of_isTerminal q.totals ends
  have found : ((q.modify id f).task? id).bind (fun task => addTotal? q.totals task.state) =
      some totals := by
    rw [task?_modify_self known, Option.bind_some, booked]
  refine ⟨totals, booked, ?_⟩
  unfold finish retire
  -- The totals are looked up in the state that the task has ended in.
  split
  · next none =>
    cases found.symm.trans none
  · next other some =>
    cases found.symm.trans some
    rfl

@[simp] theorem created_finish (q : Queue) (id : TaskId) (f : Task → Task) :
    (q.finish id f).created = q.created := by
  unfold finish retire
  split <;> rfl

@[simp] theorem ready_finish (q : Queue) (id : TaskId) (f : Task → Task) :
    (q.finish id f).ready = q.ready := by
  unfold finish retire
  split <;> rfl

@[simp] theorem scheduled_finish (q : Queue) (id : TaskId) (f : Task → Task) :
    (q.finish id f).scheduled = q.scheduled := by
  unfold finish retire
  split <;> rfl

@[simp] theorem holders_finish (q : Queue) (id : TaskId) (f : Task → Task) :
    (q.finish id f).holders = q.holders := by
  unfold finish retire
  split <;> rfl

@[simp] theorem closed_finish (q : Queue) (id : TaskId) (f : Task → Task) :
    (q.finish id f).closed = q.closed := by
  unfold finish retire
  split <;> rfl

@[simp] theorem backoff_finish (q : Queue) (id : TaskId) (f : Task → Task) :
    (q.finish id f).backoff = q.backoff := by
  unfold finish retire
  split <;> rfl

theorem task?_filter (q : Queue) (gone : List TaskId) (i : TaskId) :
    ({ q with tasks := q.tasks.filter fun entry => !gone.contains entry.1 } : Queue).task? i =
      if i ∈ gone then none else q.task? i := by
  unfold task?
  generalize q.tasks = tasks
  induction tasks with
  | nil => simp
  | cons entry rest ih =>
    -- Whether the first task is dropped, and then whether it is the one that is asked for.
    by_cases dropped : entry.1 ∈ gone
    · rw [List.filter_cons_of_neg (by simpa using dropped)]
      by_cases here : entry.1 = i
      · subst here
        simpa [dropped] using ih
      · simpa [here] using ih
    · rw [List.filter_cons_of_pos (by simpa using dropped)]
      by_cases here : entry.1 = i
      · subst here
        simp [dropped]
      · simpa [here] using ih

theorem task?_finish (known : q.task? id = some task) (ends : (f task).state.isTerminal = true)
    (i : TaskId) :
    (q.finish id f).task? i =
      if i ∈ q.evicted id then none else if i = id then some (f task) else q.task? i := by
  obtain ⟨totals, _, same⟩ := finish_eq known ends
  rw [same]
  change ({ q.modify id f with
    tasks := (q.modify id f).tasks.filter fun entry => !(q.evicted id).contains entry.1 } :
      Queue).task? i = _
  rw [task?_filter, task?_modify]
  by_cases here : i = id
  · subst here
    simp only [if_true, known, Option.map_some]
  · simp only [if_neg here]

theorem releaseKey_eq (known : q.task? id = some task) :
    q.releaseKey id = { q with
      holders := q.holders.filter fun h => !decide (task.key = some h.1 ∧ h.2 = id) } := by
  unfold releaseKey
  rw [known, Option.bind_some]
  cases kept : task.key with
  | none => simp
  | some key =>
    have same : q.holders.filter (· ≠ (key, id)) =
        q.holders.filter fun h => !decide (some key = some h.1 ∧ h.2 = id) := by
      apply List.filter_congr
      rintro ⟨other, holder⟩ _
      simp only [ne_eq, Prod.mk.injEq, Option.some.injEq, decide_not, eq_comm]
    simp only [same]

/-! ### The invariant -/

/-- How a queue keeps its tasks: each under a number of its own that has been given out, and the
finished ones listed once. -/
structure Kept (q : Queue) : Prop where
  unique : (q.tasks.map Prod.fst).Nodup
  numbered : ∀ id task, q.task? id = some task → id.number ≤ q.created
  once : q.finished.Nodup
  finished : ∀ id, id ∈ q.finished ↔ ∃ task, q.task? id = some task ∧ task.state.isTerminal = true

theorem kept_empty (backoff : Backoff) (limit : Nat) : (empty backoff limit).Kept where
  unique := List.nodup_nil
  numbered := by
    intro id task known
    cases known
  once := List.nodup_nil
  finished := by
    intro id
    constructor
    · intro member
      cases member
    · rintro ⟨task, known, _⟩
      cases known

namespace Kept

/-- Whether tasks are kept depends on the tasks, their count and the finished ones only. -/
theorem congr {q' : Queue} (kept : q.Kept) (tasks : q'.tasks = q.tasks)
    (created : q'.created = q.created) (finished : q'.finished = q.finished) : q'.Kept := by
  have view : ∀ i, q'.task? i = q.task? i := by
    intro i
    rw [task?, task?, tasks]
  refine ⟨?_, ?_, ?_, ?_⟩
  · rw [tasks]
    exact kept.unique
  · intro i other known
    rw [view] at known
    rw [created]
    exact kept.numbered i other known
  · rw [finished]
    exact kept.once
  · intro i
    rw [finished, view]
    exact kept.finished i

theorem mem_iff (kept : q.Kept) : (id, task) ∈ q.tasks ↔ q.task? id = some task :=
  ⟨task?_of_mem kept.unique, mem_tasks_of_task?⟩

theorem not_mem_finished (kept : q.Kept) (known : q.task? id = some task)
    (live : task.state.isTerminal = false) : id ∉ q.finished := by
  intro member
  obtain ⟨other, found, ended⟩ := (kept.finished id).mp member
  rw [known, Option.some.injEq] at found
  subst found
  rw [live] at ended
  cases ended

theorem task?_next (kept : q.Kept) : q.task? ⟨q.created + 1⟩ = none := by
  cases known : q.task? ⟨q.created + 1⟩ with
  | none => rfl
  | some task =>
    have bound := kept.numbered _ _ known
    simp only at bound
    omega

/-- A task that goes on may change. -/
theorem modify (kept : q.Kept) (known : q.task? id = some task)
    (live : task.state.isTerminal = false) (goes : (f task).state.isTerminal = false) :
    (q.modify id f).Kept where
  unique := by
    rw [map_fst_modify]
    exact kept.unique
  numbered := by
    intro i other found
    -- The changed task has kept its number.
    by_cases here : i = id
    · subst here
      exact kept.numbered i task known
    · rw [task?_modify_of_ne here] at found
      exact kept.numbered i other found
  once := kept.once
  finished := by
    intro i
    change i ∈ q.finished ↔ _
    -- The changed task is not listed, and has not ended either.
    by_cases here : i = id
    · subst here
      constructor
      · intro member
        exact absurd member (kept.not_mem_finished known live)
      · rintro ⟨other, found, ended⟩
        rw [task?_modify_self known, Option.some.injEq] at found
        subst found
        rw [goes] at ended
        cases ended
    · rw [kept.finished i, task?_modify_of_ne here]

/-- What is forgotten had finished. -/
theorem of_mem_evicted (kept : q.Kept) (member : i ∈ q.evicted id) :
    i = id ∨ ∃ task, q.task? i = some task ∧ task.state.isTerminal = true := by
  have listed : i ∈ q.finished ++ [id] := List.mem_of_mem_take member
  rw [List.mem_append, List.mem_singleton] at listed
  rcases listed with old | new
  · exact Or.inr ((kept.finished i).mp old)
  · exact Or.inl new

/-- A task that goes on is kept while another one finishes. -/
theorem task?_finish_of_live (kept : q.Kept) (known : q.task? id = some task)
    (ends : (f task).state.isTerminal = true) {other : Task} (found : q.task? i = some other)
    (live : other.state.isTerminal = false) (ne : i ≠ id) :
    (q.finish id f).task? i = some other := by
  rw [task?_finish known ends, if_neg ne]
  have stays : i ∉ q.evicted id := by
    -- Only what has finished is forgotten, and this task has not.
    intro member
    rcases kept.of_mem_evicted member with same | ⟨gone, found', ended⟩
    · exact ne same
    · rw [found, Option.some.injEq] at found'
      subst found'
      rw [live] at ended
      cases ended
  rw [if_neg stays, found]

theorem finish (kept : q.Kept) (known : q.task? id = some task)
    (live : task.state.isTerminal = false) (ends : (f task).state.isTerminal = true) :
    (q.finish id f).Kept := by
  have absent := kept.not_mem_finished known live
  have listed : (q.finished ++ [id]).Nodup := by
    rw [List.nodup_append]
    refine ⟨kept.once, List.nodup_singleton _, ?_⟩
    intro old member new here same
    rw [List.mem_singleton] at here
    exact absent (here ▸ same ▸ member)
  -- The list of finished tasks is cut in two: what is forgotten and what stays.
  have split := q.evicted_append_lastOf id
  rw [← split] at listed
  obtain ⟨_, stayOnce, apart⟩ := List.nodup_append.mp listed
  have view := task?_finish (f := f) known ends
  obtain ⟨totals, _, same⟩ := finish_eq (f := f) known ends
  have finished_eq : (q.finish id f).finished = lastOf q.historyLimit (q.finished ++ [id]) := by
    rw [same]
  refine ⟨?_, ?_, ?_, ?_⟩
  -- Fewer tasks than before are kept, under the same numbers.
  · rw [same]
    have sub : ((q.modify id f).tasks.filter fun entry =>
        !(q.evicted id).contains entry.1).map Prod.fst |>.Sublist
        ((q.modify id f).tasks.map Prod.fst) := List.filter_sublist.map _
    rw [map_fst_modify] at sub
    exact kept.unique.sublist sub
  · intro i other found
    have created : (q.finish id f).created = q.created := by rw [same]
    rw [created]
    rw [view] at found
    split at found
    · cases found
    · split at found
      · next here => exact here ▸ kept.numbered id task known
      · exact kept.numbered i other found
  · rw [finished_eq]
    exact stayOnce
  -- A task is listed and kept, or neither: what is forgotten leaves the list at the same time.
  · intro i
    rw [finished_eq, view]
    have whole : i ∈ q.evicted id ∨ i ∈ lastOf q.historyLimit (q.finished ++ [id]) ↔
        i ∈ q.finished ∨ i = id := by
      rw [← List.mem_append, split, List.mem_append, List.mem_singleton]
    by_cases forgotten : i ∈ q.evicted id
    · rw [if_pos forgotten]
      constructor
      · intro stays
        exact absurd rfl (apart i forgotten i stays)
      · rintro ⟨other, found, _⟩
        cases found
    · rw [if_neg forgotten]
      have stays : i ∈ lastOf q.historyLimit (q.finished ++ [id]) ↔ i ∈ q.finished ∨ i = id := by
        rw [← whole]
        exact ⟨Or.inr, fun either => either.resolve_left forgotten⟩
      rw [stays]
      by_cases here : i = id
      · rw [if_pos here]
        exact ⟨fun _ => ⟨f task, rfl, ends⟩, fun _ => Or.inr here⟩
      · rw [if_neg here, kept.finished i]
        exact ⟨fun either => either.resolve_right here, Or.inl⟩

end Kept

end Queue

end PacedChain
