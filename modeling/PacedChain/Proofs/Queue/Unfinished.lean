import PacedChain.Proofs.Queue.Counting

/-!
# Unfinished tasks

A queue read as the list of its unfinished tasks, oldest first (`Queue.live`), and what the
operations do to that list: a new task is put at its end, a task that ends is taken out, and any
other call changes at most one task in its place. What is forgotten is not seen. The agenda of a
queue leaves out of that list what only the queue needs to know (`Queue.agenda`), so that wake-ups
and retries do not change it.
-/
namespace PacedChain

/-- The lease that a look hands out. -/
def Look.lease? : Look → Option Lease
  | .leased lease => some lease
  | _ => none

namespace Queue

variable {q : Queue} {id i : TaskId} {task : Task} {f : Task → Task} {now : Nat}

/-- The tasks that are not finished, oldest first. -/
def live (q : Queue) : List (TaskId × Task) :=
  q.tasks.filter fun entry => !entry.2.state.isTerminal

theorem mem_live_iff (kept : q.Kept) :
    (id, task) ∈ q.live ↔ q.task? id = some task ∧ task.state.isTerminal = false := by
  rw [live, List.mem_filter, kept.mem_iff, Bool.not_eq_true']

/-- A task that goes on changes in its place. -/
theorem live_modify (kept : q.Kept) (known : q.task? id = some task)
    (goes : (f task).state.isTerminal = task.state.isTerminal) :
    (q.modify id f).live = q.live.map fun entry =>
      if entry.1 = id then (id, f entry.2) else entry := by
  rw [live, modify, List.filter_map, live]
  congr 1
  apply List.filter_congr
  rintro ⟨i, other⟩ member
  by_cases here : i = id
  · subst here
    have found := kept.mem_iff.mp member
    rw [known, Option.some.injEq] at found
    subst found
    simp only [Function.comp_apply, if_true, goes]
  · simp only [Function.comp_apply, if_neg here]

theorem live_insert (q : Queue) (now : Nat) (job : Job) (delay : Delay) (key : Option Key) :
    (q.insert now job delay key).2.live =
      q.live ++ [(⟨q.created + 1⟩, Task.fresh job key delay now)] := by
  obtain ⟨log, same⟩ := insert_eq q now job delay key
  rw [same, live, List.filter_append, live]
  simp

/-- The task that ends leaves the list, and what is forgotten was not on it. -/
theorem live_finish (kept : q.Kept) (known : q.task? id = some task)
    (ends : (f task).state.isTerminal = true) :
    (q.finish id f).live = q.live.filter (·.1 ≠ id) := by
  obtain ⟨totals, _, same⟩ := finish_eq (f := f) known ends
  obtain ⟨before, after, split, notBefore, notAfter⟩ := tasks_eq_append kept.unique known
  have changed : (q.modify id f).tasks = before ++ (id, f task) :: after := by
    rw [modify, split, List.map_append, List.map_cons, map_change_of_ne notBefore,
      map_change_of_ne notAfter, if_pos rfl]
  -- On the tasks before and after, nothing is left out that is not finished.
  have stays : ∀ entry ∈ q.tasks, entry.1 ≠ id →
      (!entry.2.state.isTerminal && !(q.evicted id).contains entry.1) =
        (decide (entry.1 ≠ id) && !entry.2.state.isTerminal) := by
    rintro ⟨i, other⟩ member here
    have found := kept.mem_iff.mp member
    by_cases ended : other.state.isTerminal = true
    · simp [ended]
    · have remembered : i ∉ q.evicted id := by
        intro forgotten
        rcases kept.of_mem_evicted forgotten with itself | ⟨gone, found', past⟩
        · exact here itself
        · rw [found, Option.some.injEq] at found'
          exact ended (found' ▸ past)
      simp [remembered, here]
  have kept_before := List.filter_congr fun entry (member : entry ∈ before) =>
    stays entry (by rw [split]; exact List.mem_append_left _ member) (notBefore entry member)
  have kept_after := List.filter_congr fun entry (member : entry ∈ after) =>
    stays entry (by rw [split]; exact List.mem_append_right _ (List.mem_cons_of_mem _ member))
      (notAfter entry member)
  rw [same, live, live, changed, split, List.filter_filter, List.filter_filter, List.filter_append,
    List.filter_append, kept_before, List.filter_cons_of_neg (by simp [ends]), kept_after,
    List.filter_cons_of_neg (by simp)]

theorem live_settle (kept : q.Kept) (known : q.task? id = some task)
    (ends : (f task).state.isTerminal = true) :
    (q.settle id task f).live = q.live.filter (·.1 ≠ id) := live_finish kept known ends

/-! ### The agenda -/

/-- An unfinished task as it is seen from outside the queue. -/
structure Item where
  task : TaskId
  job : Job
  key : Option Key
  /-- Attempts started so far. -/
  attempts : Nat
  deriving DecidableEq

def Item.of (entry : TaskId × Task) : Item :=
  ⟨entry.1, entry.2.job, entry.2.key, entry.2.attempts⟩

/-- The item once a task has been started again. -/
def Item.started (id : TaskId) (item : Item) : Item :=
  if item.task = id then { item with attempts := item.attempts + 1 } else item

@[simp] theorem Item.task_started (id : TaskId) (item : Item) :
    (item.started id).task = item.task := by
  unfold started
  split <;> rfl

@[simp] theorem Item.job_started (id : TaskId) (item : Item) :
    (item.started id).job = item.job := by
  unfold started
  split <;> rfl

@[simp] theorem Item.key_started (id : TaskId) (item : Item) :
    (item.started id).key = item.key := by
  unfold started
  split <;> rfl

theorem Item.attempts_started (item : Item) :
    (item.started item.task).attempts = item.attempts + 1 := by
  unfold started
  rw [if_pos rfl]

/-- The unfinished tasks of a queue, oldest first. -/
def agenda (q : Queue) : List Item := q.live.map Item.of

/-- An item is of a task that goes on. -/
theorem mem_agenda_iff (kept : q.Kept) {item : Item} : item ∈ q.agenda ↔
    ∃ task, q.task? item.task = some task ∧ task.state.isTerminal = false ∧
      item.job = task.job ∧ item.key = task.key ∧ item.attempts = task.attempts := by
  rw [agenda, List.mem_map]
  constructor
  · rintro ⟨⟨id, task⟩, member, rfl⟩
    obtain ⟨known, going⟩ := (mem_live_iff kept).mp member
    exact ⟨task, known, going, rfl, rfl, rfl⟩
  · rintro ⟨task, known, going, job, key, attempts⟩
    refine ⟨(item.task, task), (mem_live_iff kept).mpr ⟨known, going⟩, ?_⟩
    rw [Item.of, ← job, ← key, ← attempts]

theorem unfinished_eq_countP (q : Queue) (job : Job) :
    q.unfinished job = q.agenda.countP (·.job == job) := by
  rw [agenda, List.countP_map, live, List.countP_filter]
  rfl

theorem unfinished_pos_iff {job : Job} :
    0 < q.unfinished job ↔ ∃ item ∈ q.agenda, item.job = job := by
  rw [unfinished_eq_countP, List.countP_pos_iff]
  simp only [beq_iff_eq]

theorem unfinished_add_unfinished (q : Queue) :
    q.unfinished .bootstrap + q.unfinished .sync = q.agenda.length := by
  have rest : q.agenda.countP (·.job == .sync) =
      q.agenda.countP fun item => decide ¬(item.job == .bootstrap) = true :=
    List.countP_congr fun item _ => by cases item.job <;> decide
  rw [unfinished_eq_countP, unfinished_eq_countP, rest, ← List.length_eq_countP_add_countP]

/-- A change that is not seen from outside leaves the agenda as it is. -/
theorem agenda_modify (kept : q.Kept) (known : q.task? id = some task)
    (goes : (f task).state.isTerminal = task.state.isTerminal) (job : (f task).job = task.job)
    (key : (f task).key = task.key) (attempts : (f task).attempts = task.attempts) :
    (q.modify id f).agenda = q.agenda := by
  rw [agenda, live_modify kept known goes, List.map_map, agenda]
  apply List.map_congr_left
  rintro ⟨i, other⟩ member
  by_cases here : i = id
  · subst here
    have found := ((mem_live_iff kept).mp member).1
    rw [known, Option.some.injEq] at found
    subst found
    simp only [Function.comp_apply, if_true, Item.of, job, key, attempts]
  · simp only [Function.comp_apply, if_neg here]

theorem agenda_start (kept : q.Kept) (known : q.task? id = some task)
    (going : task.state.isTerminal = false) (now : Nat) :
    (q.modify id (·.start now)).agenda = q.agenda.map (Item.started id) := by
  rw [agenda, live_modify (f := (·.start now)) kept known going.symm, List.map_map, agenda,
    List.map_map]
  apply List.map_congr_left
  rintro ⟨i, other⟩ _
  by_cases here : i = id
  · subst here
    simp only [Function.comp_apply, if_true, Item.of, Item.started, Task.start]
  · simp only [Function.comp_apply, here, if_false, Item.of, Item.started]

theorem agenda_insert (q : Queue) (now : Nat) (job : Job) (delay : Delay) (key : Option Key) :
    (q.insert now job delay key).2.agenda = q.agenda ++ [⟨⟨q.created + 1⟩, job, key, 0⟩] := by
  rw [agenda, live_insert, List.map_append, agenda]
  simp only [List.map_cons, List.map_nil, Item.of, Task.job_fresh, Task.key_fresh,
    Task.attempts_fresh]

theorem agenda_settle (kept : q.Kept) (known : q.task? id = some task)
    (ends : (f task).state.isTerminal = true) :
    (q.settle id task f).agenda = q.agenda.filter (·.task ≠ id) := by
  rw [agenda, live_settle kept known ends, agenda, List.filter_map]
  rfl

theorem agenda_promoteDue (kept : q.Kept) (now : Nat) : (q.promoteDue now).agenda = q.agenda := by
  -- Each single wake-up needs the tasks to be kept, so both are carried along.
  have both : (q.promoteDue now).Kept ∧ (q.promoteDue now).agenda = q.agenda := by
    refine promoteDue_induction (P := fun p => p.Kept ∧ p.agenda = q.agenda) ?_ ⟨kept, rfl⟩
    rintro p w rest _ ⟨kept, same⟩
    refine ⟨kept.wake, ?_⟩
    rw [wake_with_scheduled]
    rcases wake_cases now p w with ⟨task, known, waiting, woken⟩ | ⟨_, passed⟩
    · have changed := agenda_modify (f := (·.requeue now)) kept known
        (TaskState.isTerminal_of_isWaiting waiting).symm rfl rfl rfl
      rw [woken, ← same]
      exact changed
    · rw [passed]
      exact same
  exact both.2

/-- A look starts the task of one item, if it hands out a lease at all. -/
theorem agenda_look (kept : q.Kept) (now : Nat) :
    (∃ lease item, (q.look now).1 = .leased lease ∧ item ∈ q.agenda ∧
      item.task = lease.envelope.task ∧ item.job = lease.envelope.job ∧
      (q.look now).2.agenda = q.agenda.map (Item.started lease.envelope.task)) ∨
    ((q.look now).1.lease? = none ∧ (q.look now).2.agenda = q.agenda) := by
  have woken := kept.promoteDue now
  have same := agenda_promoteDue kept now
  rcases look_cases q now with ⟨_, seen⟩ | ⟨_, id, task, _, _, _, known, state, _, seen⟩ |
    ⟨_, _, seen⟩
  · rw [seen]
    exact Or.inr ⟨rfl, rfl⟩
  · have going : task.state.isTerminal = false := by rw [state]; rfl
    have started := agenda_start woken known going now
    rw [seen, ← same]
    refine Or.inl ⟨_, Item.of (id, task), rfl, ?_, rfl, rfl, started⟩
    exact (mem_agenda_iff woken).mpr ⟨task, known, going, rfl, rfl, rfl⟩
  · rw [seen]
    exact Or.inr ⟨rfl, same⟩

/-- A completed attempt takes its task off the agenda, or leaves the agenda as it is. -/
theorem agenda_complete (kept : q.Kept) (known : q.task? id = some task)
    (going : task.state.isTerminal = false) (now : Nat) (outcome : Outcome) :
    (q.complete now id outcome).2.agenda =
      match (q.complete now id outcome).1 with
      | .ok .succeeded | .ok (.dead _) => q.agenda.filter (·.task ≠ id)
      | _ => q.agenda := by
  rcases complete_cases known now outcome with
    ⟨_, same⟩ | ⟨_, same⟩ | ⟨_, delay, same⟩ | ⟨_, error, same⟩
  · rw [same]
    exact agenda_settle kept known rfl
  · rw [same]
    exact agenda_settle kept known rfl
  · rw [same]
    exact agenda_modify (f := (·.scheduleRetry (Clock.deadline now delay) now)) kept known
      going.symm rfl rfl rfl
  · rw [same]

end Queue

end PacedChain
