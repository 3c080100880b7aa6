import PacedChain.Proofs.Queue.Counting

/-!
# What a queue has on record

A queue keeps the last enqueues and the last finished tasks, and only counts the others. What it
keeps is compared with the whole history, that is with all tasks that were created and with all that
have ended, in this order (`Queue.Recorded`). Creating a task adds to the one, ending a task adds to
the other, and a change of a task that goes on adds to neither.
-/
namespace PacedChain

/-- A task is of one of the two jobs. -/
theorem Job.of_one (job : Job) : (job == .bootstrap).toNat + (job == .sync).toNat = 1 := by
  cases job <;> rfl

/-! ### The last members of a list -/

section lastOf

variable {α : Type}

theorem length_lastOf (limit : Nat) (l : List α) :
    (lastOf limit l).length = min limit l.length := by
  rw [lastOf, List.length_drop]
  omega

/-- What was dropped before is dropped anyway when more is added. -/
theorem lastOf_lastOf_append (limit : Nat) (l more : List α) :
    lastOf limit (lastOf limit l ++ more) = lastOf limit (l ++ more) := by
  have kept : lastOf limit l ++ more = (l ++ more).drop (l.length - limit) := by
    rw [lastOf, List.drop_append_of_le_length (Nat.sub_le _ _)]
  rw [lastOf, kept, List.drop_drop, lastOf]
  congr 1
  simp only [List.length_drop, List.length_append]
  omega

end lastOf

/-! ### Totals and log entries -/

/-- The totals of the states in which tasks have ended. -/
def Totals.of (states : List TaskState) : Totals where
  succeeded := states.count .succeeded
  dead := states.count .dead
  cancelled := states.count .cancelled

/-- What the log says of a task that is created at `now`. -/
def LogEntry.of (now : Nat) (job : Job) (delay : Delay) (task : TaskId) : LogEntry where
  task
  job
  delay
  enqueuedAt := now
  notBefore := Clock.deadline now delay.duration

theorem Totals.sum_of {states : List TaskState}
    (ended : ∀ state ∈ states, state.isTerminal = true) :
    (Totals.of states).succeeded + (Totals.of states).dead + (Totals.of states).cancelled =
      states.length := by
  induction states with
  | nil => rfl
  | cons state states ih =>
    have rest := ih fun other member => ended other (List.mem_cons_of_mem _ member)
    have first := ended state List.mem_cons_self
    simp only [Totals.of, List.length_cons] at rest ⊢
    cases state with
    | succeeded | dead | cancelled => simp at rest ⊢; omega
    | queued | delayed | running | retryScheduled => cases first

namespace Queue

variable {q q' : Queue} {id : TaskId} {task : Task} {f : Task → Task} {now limit : Nat}
  {accepted : List LogEntry} {ended : List (TaskId × TaskState)}

theorem addTotal?_of {states : List TaskState} {state : TaskState} {totals : Totals}
    (booked : addTotal? (Totals.of states) state = some totals) :
    totals = Totals.of (states ++ [state]) := by
  cases state with
  | succeeded | dead | cancelled => cases booked; simp [Totals.of, List.count_append]
  | queued | delayed | running | retryScheduled => cases booked

theorem log_insert (q : Queue) (now : Nat) (job : Job) (delay : Delay) (key : Option Key) :
    (q.insert now job delay key).2.log =
      lastOf q.historyLimit (q.log ++ [LogEntry.of now job delay ⟨q.created + 1⟩]) := by
  unfold insert
  cases key <;> cases delay.isZero <;> rfl

/-! ### The counts of unfinished tasks -/

/-- Each task that goes on is in one of four states and is of one of two jobs. -/
theorem pending_eq_unfinished (q : Queue) :
    q.counts.pending = q.unfinished .bootstrap + q.unfinished .sync := by
  unfold Counts.pending counts unfinished countTasks
  induction q.tasks with
  | nil => rfl
  | cons entry rest ih =>
    obtain ⟨id, ⟨job, key, state, attempts, notBefore, createdAt, updatedAt⟩⟩ := entry
    simp only [List.countP_cons] at ih ⊢
    cases state <;> cases job <;> simp [TaskState.isTerminal] at ih ⊢ <;> omega

/-- What is kept is not finished, or it is listed as finished. -/
theorem retained_eq (kept : q.Kept) : q.retained = q.counts.pending + q.finished.length := by
  have going : q.counts.pending = q.countTasks fun task => !task.state.isTerminal := by
    rw [pending_eq_unfinished]
    unfold unfinished countTasks
    induction q.tasks with
    | nil => rfl
    | cons entry rest ih =>
      simp only [List.countP_cons] at ih ⊢
      cases job : entry.2.job <;> cases entry.2.state.isTerminal <;> simp at ih ⊢ <;> omega
  have past : q.finished.length = (q.tasks.filter (·.2.state.isTerminal)).length := by
    have unique : ((q.tasks.filter (·.2.state.isTerminal)).map Prod.fst).Nodup :=
      kept.unique.sublist (List.filter_sublist.map _)
    have same : q.finished.Perm ((q.tasks.filter (·.2.state.isTerminal)).map Prod.fst) := by
      refine (List.perm_ext_iff_of_nodup kept.once unique).mpr fun id => ?_
      simp only [kept.finished, List.mem_map, List.mem_filter, Prod.exists, exists_and_right,
        exists_eq_right, kept.mem_iff]
    rw [same.length_eq, List.length_map]
  have all := List.length_eq_countP_add_countP (fun entry : TaskId × Task =>
    entry.2.state.isTerminal) (l := q.tasks)
  simp only [Bool.not_eq_true, Bool.decide_eq_false] at all
  rw [retained, all, going, past, countTasks, List.countP_eq_length_filter (l := q.tasks),
    Nat.add_comm]

/-! ### The record -/

/-- What a queue keeps and counts is what remains of its whole history: of the tasks that were
created, and of those that have ended. -/
structure Recorded (q : Queue) (limit : Nat) (accepted : List LogEntry)
    (ended : List (TaskId × TaskState)) : Prop where
  limited : q.historyLimit = limit
  log : q.log = lastOf limit accepted
  finished : q.finished = lastOf limit (ended.map Prod.fst)
  totals : q.totals = Totals.of (ended.map Prod.snd)
  numbered : accepted.map (·.task) = (List.range q.created).map fun n => ⟨n + 1⟩
  /-- Every task that was created goes on or has ended. -/
  whole : q.unfinished .bootstrap + q.unfinished .sync + ended.length = q.created
  once : (ended.map Prod.fst).Nodup
  known : ∀ entry ∈ ended, entry.1.number ≤ q.created
  terminal : ∀ entry ∈ ended, entry.2.isTerminal = true
  /-- What has ended is forgotten, or has stayed in the state in which it ended. -/
  settled : ∀ entry ∈ ended, ∀ task, q.task? entry.1 = some task → task.state = entry.2

theorem recorded_empty (backoff : Backoff) (limit : Nat) :
    (empty backoff limit).Recorded limit [] [] where
  limited := rfl
  log := by simp [empty, lastOf]
  finished := by simp [empty, lastOf]
  totals := rfl
  numbered := rfl
  whole := rfl
  once := List.nodup_nil
  known := by simp
  terminal := by simp
  settled := by simp

namespace Recorded

/-- Where tasks stand and who holds a key is not on record. -/
theorem congr (recorded : q.Recorded limit accepted ended) (tasks : q'.tasks = q.tasks)
    (same_limit : q'.historyLimit = q.historyLimit) (log : q'.log = q.log)
    (finished : q'.finished = q.finished) (totals : q'.totals = q.totals)
    (created : q'.created = q.created) : q'.Recorded limit accepted ended where
  limited := same_limit.trans recorded.limited
  log := log.trans recorded.log
  finished := finished.trans recorded.finished
  totals := totals.trans recorded.totals
  numbered := by
    rw [created]
    exact recorded.numbered
  whole := by
    simp only [unfinished, countTasks, tasks, created]
    exact recorded.whole
  once := recorded.once
  known := by
    rw [created]
    exact recorded.known
  terminal := recorded.terminal
  settled := by
    simp only [task?, tasks]
    exact recorded.settled

/-- A task that goes on has not ended before. -/
theorem not_mem_ended (recorded : q.Recorded limit accepted ended) (known : q.task? id = some task)
    (live : task.state.isTerminal = false) : id ∉ ended.map Prod.fst := by
  intro member
  obtain ⟨entry, listed, rfl⟩ := List.mem_map.mp member
  have same := recorded.settled entry listed task known
  have terminal := recorded.terminal entry listed
  rw [← same, live] at terminal
  cases terminal

theorem insert (recorded : q.Recorded limit accepted ended) (kept : q.Kept) (now : Nat) (job : Job)
    (delay : Delay) (key : Option Key) :
    (q.insert now job delay key).2.Recorded limit
      (accepted ++ [LogEntry.of now job delay ⟨q.created + 1⟩]) ended := by
  have log := log_insert q now job delay key
  have view := task?_insert kept now job delay key
  have grown := unfinished_insert q now job delay key
  obtain ⟨_, same⟩ := insert_eq q now job delay key
  have created : (q.insert now job delay key).2.created = q.created + 1 := by rw [same]
  constructor
  case limited =>
    rw [same]
    exact recorded.limited
  case log => rw [log, recorded.log, recorded.limited, lastOf_lastOf_append]
  case finished =>
    rw [same]
    exact recorded.finished
  case totals =>
    rw [same]
    exact recorded.totals
  case numbered =>
    rw [created, List.range_succ, List.map_append, List.map_append, recorded.numbered]
    rfl
  case whole =>
    have before := recorded.whole
    have one := job.of_one
    rw [created, grown, grown]
    omega
  case once => exact recorded.once
  case known =>
    intro entry member
    rw [created]
    exact Nat.le_succ_of_le (recorded.known entry member)
  case terminal => exact recorded.terminal
  case settled =>
    intro entry member
    -- What has ended has an older number than the new task.
    have old : entry.1 ≠ ⟨q.created + 1⟩ := by
      intro new
      have bound := recorded.known entry member
      rw [new] at bound
      exact Nat.not_succ_le_self _ bound
    rw [view, if_neg old]
    exact recorded.settled entry member

theorem finish (recorded : q.Recorded limit accepted ended) (kept : q.Kept)
    (known : q.task? id = some task) (live : task.state.isTerminal = false)
    (ends : (f task).state.isTerminal = true) :
    (q.finish id f).Recorded limit accepted (ended ++ [(id, (f task).state)]) := by
  have new := recorded.not_mem_ended known live
  have view := task?_finish (f := f) known ends
  have fewer := unfinished_finish (f := f) kept known live ends
  obtain ⟨totals, booked, same⟩ := finish_eq (f := f) known ends
  constructor
  case limited =>
    rw [same]
    exact recorded.limited
  case log =>
    rw [same]
    exact recorded.log
  case finished =>
    rw [same, List.map_append]
    simp only [recorded.finished, recorded.limited]
    exact lastOf_lastOf_append limit _ _
  case totals =>
    rw [recorded.totals] at booked
    rw [same, addTotal?_of booked, List.map_append]
    rfl
  case numbered =>
    rw [created_finish]
    exact recorded.numbered
  case whole =>
    have before := recorded.whole
    have bootstraps := fewer .bootstrap
    have syncs := fewer .sync
    have one := task.job.of_one
    rw [created_finish, List.length_append, List.length_singleton]
    omega
  case once =>
    rw [List.map_append, List.nodup_append]
    refine ⟨recorded.once, List.nodup_singleton _, ?_⟩
    rintro old member last listed rfl
    rw [List.map_singleton, List.mem_singleton] at listed
    subst listed
    exact new member
  case known =>
    intro entry member
    rw [created_finish]
    rcases List.mem_append.mp member with old | last
    · exact recorded.known entry old
    · rw [List.mem_singleton.mp last]
      exact kept.numbered id task known
  case terminal =>
    intro entry member
    rcases List.mem_append.mp member with old | last
    · exact recorded.terminal entry old
    · rw [List.mem_singleton.mp last]
      exact ends
  case settled =>
    intro entry member other found
    rw [view] at found
    split at found
    · cases found
    · rcases List.mem_append.mp member with old | last
      -- What had ended before is another task, which has not changed.
      · have apart : entry.1 ≠ id := by
          rintro rfl
          exact new (List.mem_map_of_mem old)
        rw [if_neg apart] at found
        exact recorded.settled entry old other found
      · rw [List.mem_singleton.mp last, if_pos rfl, Option.some.injEq] at found
        rw [List.mem_singleton.mp last, ← found]

/-- A task that goes on may change. -/
theorem modify (recorded : q.Recorded limit accepted ended) (kept : q.Kept)
    (known : q.task? id = some task) (live : task.state.isTerminal = false)
    (goes : (f task).state.isTerminal = false) (job : (f task).job = task.job) :
    (q.modify id f).Recorded limit accepted ended where
  limited := recorded.limited
  log := recorded.log
  finished := recorded.finished
  totals := recorded.totals
  numbered := recorded.numbered
  whole := by
    have same := unfinished_modify (f := f) kept known job (goes.trans live.symm)
    rw [same, same]
    exact recorded.whole
  once := recorded.once
  known := recorded.known
  terminal := recorded.terminal
  settled := by
    intro entry member
    have apart : entry.1 ≠ id := by
      rintro rfl
      exact recorded.not_mem_ended known live (List.mem_map_of_mem member)
    rw [task?_modify_of_ne apart]
    exact recorded.settled entry member

theorem promoteDue (recorded : q.Recorded limit accepted ended) (kept : q.Kept) (now : Nat) :
    (q.promoteDue now).Recorded limit accepted ended := by
  -- Each single wake-up needs the tasks to be kept, so both are carried along.
  suffices both : (q.promoteDue now).Kept ∧ (q.promoteDue now).Recorded limit accepted ended from
    both.2
  refine promoteDue_induction (P := fun p => p.Kept ∧ p.Recorded limit accepted ended) ?_
    ⟨kept, recorded⟩
  rintro p w rest _ ⟨kept, recorded⟩
  refine ⟨kept.wake, ?_⟩
  rw [wake_with_scheduled]
  rcases wake_cases now p w with ⟨task, known, waiting, woken⟩ | ⟨_, passed⟩
  · have changed := recorded.modify (f := (·.requeue now)) kept known
      (TaskState.isTerminal_of_isWaiting waiting) rfl rfl
    rw [woken]
    exact changed.congr rfl rfl rfl rfl rfl rfl
  · rw [passed]
    exact recorded.congr rfl rfl rfl rfl rfl rfl

theorem look (recorded : q.Recorded limit accepted ended) (kept : q.Kept) (now : Nat) :
    (q.look now).2.Recorded limit accepted ended := by
  have woken := recorded.promoteDue kept now
  rcases look_cases q now with ⟨_, seen⟩ | ⟨_, id, task, _, _, _, known, state, _, seen⟩ |
    ⟨_, _, seen⟩ <;> rw [seen]
  · exact recorded
  · have started := woken.modify (f := (·.start now)) (kept.promoteDue now) known
      (by rw [state]; rfl) rfl rfl
    exact started.congr rfl rfl rfl rfl rfl rfl
  · exact woken.congr rfl rfl rfl rfl rfl rfl

end Recorded

end Queue

end PacedChain
