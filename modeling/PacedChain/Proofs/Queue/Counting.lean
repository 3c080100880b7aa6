import Mathlib.Data.List.Perm.Subperm
import PacedChain.Proofs.Queue.Calls
import PacedChain.Queue.Tally

/-!
# How calls change a count

A count of tasks goes up by one when a task that counts is created, and down by one when it ends.
The tasks that are forgotten have ended, so that a count of unfinished tasks does not see them go.
-/
namespace PacedChain.Queue

variable {q : Queue} {id : TaskId} {task : Task} {f : Task → Task} {p : Task → Bool} {now : Nat}

theorem tasks_eq_append (unique : (q.tasks.map Prod.fst).Nodup) (known : q.task? id = some task) :
    ∃ before after, q.tasks = before ++ (id, task) :: after ∧
      (∀ entry ∈ before, entry.1 ≠ id) ∧ (∀ entry ∈ after, entry.1 ≠ id) := by
  obtain ⟨before, after, split⟩ := List.append_of_mem (mem_tasks_of_task? known)
  refine ⟨before, after, split, ?_⟩
  rw [split, List.map_append, List.map_cons, List.nodup_append, List.nodup_cons] at unique
  obtain ⟨_, ⟨notAfter, _⟩, apart⟩ := unique
  constructor
  · intro entry member same
    exact apart _ (List.mem_map.mpr ⟨entry, member, rfl⟩) _ List.mem_cons_self same
  · intro entry member same
    exact notAfter (List.mem_map.mpr ⟨entry, member, same⟩)

/-- Where there is no task of a number, a change of that task does nothing. -/
theorem map_change_of_ne {entries : List (TaskId × Task)} (other : ∀ entry ∈ entries, entry.1 ≠ id)
    (f : Task → Task) :
    entries.map (fun entry => if entry.1 = id then (id, f entry.2) else entry) = entries := by
  conv_rhs => rw [← List.map_id entries]
  apply List.map_congr_left
  intro entry member
  rw [if_neg (other entry member), id_eq]

/-- Changing one task changes a count by that task only. -/
theorem countTasks_modify (unique : (q.tasks.map Prod.fst).Nodup) (known : q.task? id = some task)
    (f : Task → Task) (p : Task → Bool) :
    (q.modify id f).countTasks p + (p task).toNat = q.countTasks p + (p (f task)).toNat := by
  obtain ⟨before, after, split, notBefore, notAfter⟩ := tasks_eq_append unique known
  have changed : (q.modify id f).tasks = before ++ (id, f task) :: after := by
    rw [modify, split, List.map_append, List.map_cons, map_change_of_ne notBefore,
      map_change_of_ne notAfter, if_pos rfl]
  rw [countTasks, countTasks, changed, split, List.countP_append, List.countP_append,
    List.countP_cons, List.countP_cons]
  cases p task <;> cases p (f task) <;> simp <;> omega

/-- A count does not go down where the tasks that count stay as they are. -/
theorem countTasks_le {q' : Queue} (kept : q.Kept) (kept' : q'.Kept)
    (stays : ∀ id task, q.task? id = some task → p task = true → q'.task? id = some task) :
    q.countTasks p ≤ q'.countTasks p := by
  have once : (q.tasks.filter fun entry => p entry.2).Nodup :=
    (List.Nodup.of_map _ kept.unique).filter _
  have subset : (q.tasks.filter fun entry => p entry.2) ⊆
      q'.tasks.filter fun entry => p entry.2 := by
    rintro ⟨id, task⟩ member
    obtain ⟨listed, counts⟩ := List.mem_filter.mp member
    have known := stays id task (kept.mem_iff.mp listed) counts
    exact List.mem_filter.mpr ⟨kept'.mem_iff.mpr known, counts⟩
  rw [countTasks, countTasks, List.countP_eq_length_filter, List.countP_eq_length_filter]
  exact (List.subperm_of_subset once subset).length_le

theorem countTasks_insert (q : Queue) (now : Nat) (job : Job) (delay : Delay) (key : Option Key)
    (p : Task → Bool) :
    (q.insert now job delay key).2.countTasks p =
      q.countTasks p + (p (Task.fresh job key delay now)).toNat := by
  obtain ⟨log, same⟩ := insert_eq q now job delay key
  rw [same, countTasks, countTasks, List.countP_append, List.countP_singleton]
  cases p (Task.fresh job key delay now) <;> rfl

/-- What is forgotten when a task ends is not seen by a count that leaves ended tasks out. -/
theorem countTasks_finish (kept : q.Kept) (known : q.task? id = some task)
    (ends : (f task).state.isTerminal = true)
    (unfinished : ∀ other, p other = true → other.state.isTerminal = false) :
    (q.finish id f).countTasks p + (p task).toNat = q.countTasks p := by
  have modified := countTasks_modify kept.unique known f p
  have ended : p (f task) = false := by
    cases counts : p (f task) with
    | false => rfl
    | true =>
      rw [unfinished _ counts] at ends
      cases ends
  have stays : (q.finish id f).countTasks p = (q.modify id f).countTasks p := by
    obtain ⟨totals, _, same⟩ := finish_eq (f := f) known ends
    have unique : ((q.modify id f).tasks.map Prod.fst).Nodup := by
      rw [map_fst_modify]
      exact kept.unique
    rw [same, countTasks, countTasks, List.countP_filter]
    apply List.countP_congr
    rintro ⟨i, other⟩ member
    simp only [Bool.and_eq_true, Bool.not_eq_true', List.contains_eq_mem, decide_eq_false_iff_not,
      and_iff_left_iff_imp]
    -- A task that counts is not finished, so it is not forgotten either.
    intro counts forgotten
    have found := task?_of_mem unique member
    have going := unfinished other counts
    rcases kept.of_mem_evicted forgotten with rfl | ⟨gone, known', past⟩
    · rw [task?_modify_self known, Option.some.injEq] at found
      rw [← found, ends] at going
      cases going
    · by_cases here : i = id
      · subst here
        rw [task?_modify_self known, Option.some.injEq] at found
        rw [← found, ends] at going
        cases going
      · rw [task?_modify_of_ne here, known', Option.some.injEq] at found
        rw [← found, past] at going
        cases going
  rw [stays, modified, ended]
  rfl

/-! ### Unfinished tasks of a job -/

theorem unfinished_insert (q : Queue) (now : Nat) (job : Job) (delay : Delay) (key : Option Key)
    (j : Job) : (q.insert now job delay key).2.unfinished j =
      q.unfinished j + (job == j).toNat := by
  rw [unfinished, countTasks_insert, Task.job_fresh, Task.isTerminal_fresh, Bool.not_false,
    Bool.and_true]
  rfl

theorem unfinished_modify (kept : q.Kept) (known : q.task? id = some task)
    (job : (f task).job = task.job)
    (goes : (f task).state.isTerminal = task.state.isTerminal) (j : Job) :
    (q.modify id f).unfinished j = q.unfinished j := by
  have counted := countTasks_modify kept.unique known f
    fun task => task.job == j && !task.state.isTerminal
  rw [job, goes] at counted
  exact Nat.add_right_cancel counted

theorem unfinished_finish (kept : q.Kept) (known : q.task? id = some task)
    (live : task.state.isTerminal = false) (ends : (f task).state.isTerminal = true) (j : Job) :
    (q.finish id f).unfinished j + (task.job == j).toNat = q.unfinished j := by
  have counted := countTasks_finish (p := fun task => task.job == j && !task.state.isTerminal) kept
    known ends ?_
  · rw [live, Bool.not_false, Bool.and_true] at counted
    exact counted
  · intro other counts
    simpa using (Bool.and_eq_true_iff.mp counts).2

theorem unfinished_promoteDue (kept : q.Kept) (now : Nat) (j : Job) :
    (q.promoteDue now).unfinished j = q.unfinished j := by
  -- Each single wake-up needs the tasks to be kept, so both are carried along.
  have both : (q.promoteDue now).Kept ∧ (q.promoteDue now).unfinished j = q.unfinished j := by
    refine promoteDue_induction (P := fun p => p.Kept ∧ p.unfinished j = q.unfinished j) ?_
      ⟨kept, rfl⟩
    rintro p w rest _ ⟨kept, same⟩
    refine ⟨kept.wake, ?_⟩
    rw [wake_with_scheduled]
    rcases wake_cases now p w with ⟨task, known, waiting, woken⟩ | ⟨_, passed⟩
    · have changed := unfinished_modify (f := (·.requeue now)) kept known rfl
        (TaskState.isTerminal_of_isWaiting waiting).symm j
      rw [woken, ← same]
      exact changed
    · rw [passed]
      exact same
  exact both.2

theorem unfinished_look (kept : q.Kept) (now : Nat) (j : Job) :
    (q.look now).2.unfinished j = q.unfinished j := by
  have woken := kept.promoteDue now
  have same := unfinished_promoteDue kept now j
  rcases look_cases q now with ⟨_, seen⟩ | ⟨_, id, task, _, _, _, known, state, _, seen⟩ |
    ⟨_, _, seen⟩
  · rw [seen]
  · have changed := unfinished_modify (f := (·.start now)) woken known rfl (by rw [state]; rfl) j
    rw [seen, ← same]
    exact changed
  · rw [seen]
    exact same

theorem unfinished_enqueueDelayed (q : Queue) (now : Nat) (job : Job) (delay : Delay) (j : Job) :
    (q.enqueueDelayed now job delay).2.unfinished j = q.unfinished j +
      ((q.enqueueDelayed now job delay).1.isOk && job == j).toNat := by
  rcases enqueueDelayed_cases q now job delay with ⟨_, same⟩ | ⟨_, same⟩
  · rw [same]
    rfl
  · rw [same]
    exact unfinished_insert q now job delay none j

/-- An enqueue under a key that keeps what holds the key adds to its own job at most. -/
theorem unfinished_enqueueUnique_keepExisting (q : Queue) (now : Nat) (key : Key) (job : Job)
    {j : Job} (other : job ≠ j) :
    (q.enqueueUnique now key .keepExisting job).2.unfinished j = q.unfinished j := by
  rcases enqueueUnique_cases q now key .keepExisting job with
    ⟨_, same⟩ | ⟨_, _, same⟩ | ⟨_, _, _, _, _, same⟩ | ⟨_, _, _, _, replaces, _⟩
  · rw [same]
  · rw [same, unfinished_insert, beq_eq_false_iff_ne.mpr other]
    rfl
  · rw [same]
  · cases replaces

end PacedChain.Queue
