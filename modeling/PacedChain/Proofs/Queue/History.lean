import PacedChain.Proofs.Queue.Indexed
import PacedChain.Proofs.Queue.Unfinished

/-!
# History

A queue remembers finished tasks and past enqueues up to a limit, but does not work by them. Taking
all history out of a queue (`Queue.withoutHistory`) makes it one whose limit is zero, and each
operation comes to the same before and after that: it answers the same and leaves the same queue,
but for its history.
-/
namespace PacedChain.Queue

variable {q : Queue} {i : TaskId} {task : Task} {f : Task → Task} {now : Nat}

/-- The queue as if it had never kept any history. -/
def withoutHistory (q : Queue) : Queue :=
  { q with historyLimit := 0, tasks := q.live, log := [], finished := [] }

theorem task?_withoutHistory (kept : q.Kept) (i : TaskId) :
    q.withoutHistory.task? i = (q.task? i).filter fun task => !task.state.isTerminal := by
  have unique : (q.withoutHistory.tasks.map Prod.fst).Nodup :=
    kept.unique.sublist (List.filter_sublist.map _)
  -- What is found without the history is what is found with it, as long as it is not finished.
  have found_iff : ∀ task, q.withoutHistory.task? i = some task ↔
      q.task? i = some task ∧ task.state.isTerminal = false := fun task =>
    ⟨fun found => (mem_live_iff kept).mp (mem_tasks_of_task? found),
      fun going => task?_of_mem unique ((mem_live_iff kept).mpr going)⟩
  ext task
  rw [found_iff, Option.filter_eq_some_iff, Bool.not_eq_true']

theorem task?_withoutHistory_of_going (kept : q.Kept) (known : q.task? i = some task)
    (going : task.state.isTerminal = false) : q.withoutHistory.task? i = some task := by
  rw [task?_withoutHistory kept, known, Option.filter_some, going]
  rfl

theorem task?_withoutHistory_of_ended (kept : q.Kept) (known : q.task? i = some task)
    (ended : task.state.isTerminal = true) : q.withoutHistory.task? i = none := by
  rw [task?_withoutHistory kept, known, Option.filter_some, ended]
  rfl

/-! ### Changing and finishing a task -/

theorem withoutHistory_modify (kept : q.Kept) (known : q.task? i = some task)
    (goes : (f task).state.isTerminal = task.state.isTerminal) :
    (q.modify i f).withoutHistory = q.withoutHistory.modify i f := by
  rw [withoutHistory, live_modify kept known goes]
  rfl

/-- Once a task has ended, the queue without its history has no trace of it. -/
theorem withoutHistory_finish (kept : q.Kept) (known : q.task? i = some task)
    (going : task.state.isTerminal = false) (ends : (f task).state.isTerminal = true) :
    (q.finish i f).withoutHistory = q.withoutHistory.finish i f := by
  obtain ⟨totals, booked, same⟩ := finish_eq (f := f) known ends
  obtain ⟨totals', booked', same'⟩ :=
    finish_eq (f := f) (task?_withoutHistory_of_going kept known going) ends
  have totals_eq : totals' = totals := Option.some.inj (booked'.symm.trans booked)
  have forgotten : q.withoutHistory.evicted i = [i] := rfl
  have left : (q.withoutHistory.modify i f).tasks.filter
      (fun entry => !(q.withoutHistory.evicted i).contains entry.1) =
        q.live.filter (·.1 ≠ i) := by
    rw [forgotten, modify, List.filter_map]
    have others : ∀ entry ∈ q.live,
        ((fun entry => !([i] : List TaskId).contains entry.1) ∘ fun entry =>
          if entry.1 = i then (i, f entry.2) else entry) entry = decide (entry.1 ≠ i) := by
      intro entry _
      by_cases here : entry.1 = i <;> simp [here]
    change ((q.live.filter _).map _) = _
    rw [List.filter_congr others]
    exact map_change_of_ne (fun entry member => by simpa using (List.mem_filter.mp member).2) f
  rw [same', left, totals_eq, ← live_finish kept known ends, same]
  rfl

theorem withoutHistory_settle (kept : q.Kept) (known : q.task? i = some task)
    (going : task.state.isTerminal = false) (ends : (f task).state.isTerminal = true) :
    (q.settle i task f).withoutHistory = q.withoutHistory.settle i task f := by
  rw [settle, settle, ← withoutHistory_finish kept known going ends]
  rfl

/-! ### Enqueuing -/

theorem withoutHistory_insert (q : Queue) (now : Nat) (job : Job) (delay : Delay)
    (key : Option Key) : q.withoutHistory.insert now job delay key =
      Prod.map id withoutHistory (q.insert now job delay key) := by
  have grown := live_insert q now job delay key
  unfold insert at grown ⊢
  -- In each of the four cases the task is added behind the unfinished ones.
  cases key <;> cases atOnce : delay.isZero <;>
    simp only [atOnce, Bool.false_eq_true, if_true, if_false, Task.fresh] at grown ⊢ <;>
    simp only [Prod.map, withoutHistory, grown] <;>
    rfl

theorem withoutHistory_enqueueDelayed (q : Queue) (now : Nat) (job : Job) (delay : Delay) :
    q.withoutHistory.enqueueDelayed now job delay =
      Prod.map id withoutHistory (q.enqueueDelayed now job delay) := by
  have inserted := withoutHistory_insert q now job delay none
  unfold enqueueDelayed
  change (if q.closed then _ else _) = _
  cases q.closed with
  | true => rfl
  | false =>
    simp only [Bool.false_eq_true, if_false, inserted]
    rfl

/-- A finished task held its key no longer, whether or not it is still kept. -/
theorem liveHolder_withoutHistory (kept : q.Kept) (key : Key) :
    q.withoutHistory.liveHolder key = q.liveHolder key := by
  unfold liveHolder
  change (q.holders.find? (·.1 = key)).bind _ = (q.holders.find? (·.1 = key)).bind _
  congr 1
  funext holder
  obtain ⟨_, i⟩ := holder
  change (q.withoutHistory.task? i).bind _ = (q.task? i).bind _
  rw [task?_withoutHistory kept]
  cases q.task? i with
  | none => rfl
  | some task =>
    rw [Option.filter_some, Option.bind_some]
    cases ended : task.state.isTerminal with
    | true => rfl
    | false =>
      simp only [Bool.not_false, if_true, Option.bind_some, ended]

theorem withoutHistory_enqueueUnique (kept : q.Kept) (now : Nat) (key : Key)
    (policy : HolderPolicy) (job : Job) :
    q.withoutHistory.enqueueUnique now key policy job =
      Prod.map id withoutHistory (q.enqueueUnique now key policy job) := by
  have holders := liveHolder_withoutHistory kept key
  have inserted := fun q : Queue => withoutHistory_insert q now job Delay.zero (some key)
  unfold enqueueUnique
  change (if q.closed then _ else _) = _
  rw [holders]
  cases q.closed with
  | true => rfl
  | false =>
    rw [if_neg Bool.false_ne_true, if_neg Bool.false_ne_true]
    cases held : q.liveHolder key with
    | none =>
      simp only [inserted]
      rfl
    | some found =>
      obtain ⟨holder, state⟩ := found
      cases policy with
      | keepExisting => rfl
      | replace =>
        obtain ⟨_, task, known, _, going⟩ := of_liveHolder held
        have cancelled := withoutHistory_finish (f := (·.cancel now)) kept known going rfl
        have replaced := inserted (q.finish holder (·.cancel now))
        rw [cancelled] at replaced
        by_cases runs : state = .running
        · subst runs
          rfl
        · have same := congrArg (fun r : TaskId × Queue =>
            ((.ok (.replaced holder r.1) : Except QueueError Placement), r.2)) replaced
          cases state <;> first | exact absurd rfl runs | exact same

/-! ### Leasing -/

theorem withoutHistory_wake (kept : q.Kept) (now : Nat) (w : Wakeup) :
    (wake now q w).withoutHistory = wake now q.withoutHistory w := by
  rcases wake_cases now q w with ⟨task, known, waiting, woken⟩ | ⟨passed, same⟩
  · have going := TaskState.isTerminal_of_isWaiting waiting
    have found := task?_withoutHistory_of_going kept known going
    have changed := withoutHistory_modify (f := (·.requeue now)) kept known going.symm
    rw [woken, wake, found]
    simp only [waiting, if_true, ← changed]
    rfl
  -- What is passed over with its history is passed over without.
  · rcases wake_cases now q.withoutHistory w with ⟨task, found, waiting, _⟩ | ⟨_, same'⟩
    · rw [task?_withoutHistory kept, Option.filter_eq_some_iff] at found
      rw [passed task found.1] at waiting
      cases waiting
    · rw [same, same']

theorem withoutHistory_promoteDue (kept : q.Kept) (now : Nat) :
    (q.promoteDue now).withoutHistory = q.withoutHistory.promoteDue now := by
  -- The row of wake-ups is generalized; each of them leaves the tasks kept.
  suffices row : ∀ (due : List Wakeup) (q : Queue), q.Kept →
      (due.foldl (wake now) q).withoutHistory = due.foldl (wake now) q.withoutHistory by
    exact row _ { q with scheduled := q.scheduled.dropWhile (·.notBefore ≤ now) }
      (kept.congr rfl rfl rfl)
  intro due
  induction due with
  | nil => exact fun _ _ => rfl
  | cons w due ih =>
    intro q kept
    have woken : (wake now q w).Kept := kept.wake
    rw [List.foldl_cons, List.foldl_cons, ih _ woken, withoutHistory_wake kept]

/-- A finished task is passed over like one that is not there. -/
theorem firstRunnable_withoutHistory (kept : q.Kept) (ids : List TaskId) :
    q.withoutHistory.firstRunnable ids = q.firstRunnable ids := by
  induction ids with
  | nil => rfl
  | cons i ids ih =>
    unfold firstRunnable
    cases known : q.task? i with
    | none =>
      rw [task?_withoutHistory kept, known]
      exact ih
    | some task =>
      cases ended : task.state.isTerminal with
      | true =>
        have stays : task.state.isRunnable = false := by
          cases state : task.state <;> first | rfl | (rw [state] at ended; cases ended)
        rw [task?_withoutHistory_of_ended kept known ended]
        simp only [stays, ih, Bool.false_eq_true, if_false]
      | false =>
        rw [task?_withoutHistory_of_going kept known ended]
        simp only [ih]

theorem withoutHistory_look (kept : q.Kept) (now : Nat) :
    q.withoutHistory.look now = Prod.map id withoutHistory (q.look now) := by
  have woken := kept.promoteDue now
  have same := withoutHistory_promoteDue kept now
  have first : (q.promoteDue now).withoutHistory.firstRunnable
      (q.promoteDue now).withoutHistory.ready = _ :=
    firstRunnable_withoutHistory woken (q.promoteDue now).ready
  unfold look
  change (if q.closed then _ else _) = _
  cases q.closed with
  | true => rfl
  | false =>
    rw [if_neg Bool.false_ne_true, if_neg Bool.false_ne_true, ← same]
    simp only [first]
    rcases firstRunnable_cases (q.promoteDue now) (q.promoteDue now).ready with
      ⟨i, task, _, rest, found, _, known, state, _⟩ | ⟨none, _⟩
    · have started := withoutHistory_modify (f := (·.start now)) woken known (by rw [state]; rfl)
      simp only [found, ← started]
      rfl
    · simp only [none]
      rfl

/-! ### Completing -/

/-- A task that goes on is completed alike. -/
theorem withoutHistory_complete (kept : q.Kept) (known : q.task? i = some task)
    (going : task.state.isTerminal = false) (now : Nat) (outcome : Outcome) :
    q.withoutHistory.complete now i outcome =
      Prod.map id withoutHistory (q.complete now i outcome) := by
  have found := task?_withoutHistory_of_going kept known going
  cases outcome with
  | success =>
    have ended := withoutHistory_settle (f := (·.succeed now)) kept known going rfl
    rw [complete_success known, complete_success found, ← ended]
    rfl
  | retry =>
    by_cases allowed : q.backoff.allowsRetry task.attempts = true
    · rcases wait : q.backoff.nextDelay task.attempts with error | delay
      · rw [complete_noDelay known now allowed wait, complete_noDelay found now allowed wait]
        rfl
      · have retried := withoutHistory_modify
          (f := (·.scheduleRetry (Clock.deadline now delay) now)) kept known going.symm
        rw [complete_retry known now allowed wait, complete_retry found now allowed wait, ← retried]
        rfl
    · have spent : q.backoff.allowsRetry task.attempts = false := Bool.eq_false_iff.mpr allowed
      have ended := withoutHistory_settle (f := (·.die now)) kept known going rfl
      rw [complete_dead known now spent, complete_dead found now spent, ← ended]
      rfl

/-! ### Waiting for a lease -/

section Waiting

variable {q' : Queue} {deadline : Nat}

theorem leaseBy_of_closed (seen : q.look now = (.closed, q')) :
    q.leaseBy now deadline = (.closed, q') := by
  rw [leaseBy]
  split <;> next other => cases seen.symm.trans other <;> rfl

theorem leaseBy_of_leased {lease : Lease} (seen : q.look now = (.leased lease, q')) :
    q.leaseBy now deadline = (.leased lease now, q') := by
  rw [leaseBy]
  split <;> next other => cases seen.symm.trans other <;> rfl

theorem leaseBy_of_idle {wake : Option Nat} (seen : q.look now = (.idle wake, q')) :
    q.leaseBy now deadline =
      match wake with
      | none => (.timedOut, q')
      | some wake =>
        if Clock.wholeMilli wake ≤ deadline then q'.leaseBy (Clock.wholeMilli wake) deadline
        else (.timedOut, q') := by
  rw [leaseBy]
  split <;> next other => cases seen.symm.trans other <;> rfl

theorem withoutHistory_leaseBy (kept : q.Kept) (now deadline : Nat) :
    q.withoutHistory.leaseBy now deadline =
      Prod.map id withoutHistory (q.leaseBy now deadline) := by
  fun_induction q.leaseBy now deadline with
  | case1 q now q' seen =>
    have same := withoutHistory_look kept now
    rw [seen] at same
    rw [leaseBy_of_closed same]
    rfl
  | case2 q now lease q' seen =>
    have same := withoutHistory_look kept now
    rw [seen] at same
    rw [leaseBy_of_leased same]
    rfl
  | case3 q now q' seen =>
    have same := withoutHistory_look kept now
    rw [seen] at same
    rw [leaseBy_of_idle same]
    rfl
  | case4 q now wake q' seen next inTime ih =>
    have same := withoutHistory_look kept now
    have after := kept.look now
    rw [seen] at same after
    rw [leaseBy_of_idle same]
    exact (if_pos inTime).trans (ih after)
  | case5 q now wake q' seen next late =>
    have same := withoutHistory_look kept now
    rw [seen] at same
    rw [leaseBy_of_idle same]
    exact if_neg late

end Waiting

/-! ### What is read off a queue -/

theorem countTasks_withoutHistory (q : Queue) {p : Task → Bool}
    (unfinished : ∀ task, p task = true → task.state.isTerminal = false) :
    q.withoutHistory.countTasks p = q.countTasks p := by
  rw [countTasks, countTasks, withoutHistory, live, List.countP_filter]
  apply List.countP_congr
  intro entry _
  simp only [Bool.and_eq_true, Bool.not_eq_true', and_iff_left_iff_imp]
  exact unfinished entry.2

theorem unfinished_withoutHistory (q : Queue) (job : Job) :
    q.withoutHistory.unfinished job = q.unfinished job :=
  q.countTasks_withoutHistory fun task counts => by simpa using (Bool.and_eq_true_iff.mp counts).2

theorem counts_withoutHistory (q : Queue) : q.withoutHistory.counts = q.counts := by
  have same (state : TaskState) (going : state.isTerminal = false) :=
    q.countTasks_withoutHistory (p := (·.state == state)) fun task counts => by
      rw [eq_of_beq counts, going]
  rw [counts, counts, same .queued rfl, same .delayed rfl, same .running rfl,
    same .retryScheduled rfl]
  rfl

theorem taskState_withoutHistory (kept : q.Kept) (i : TaskId) :
    q.withoutHistory.taskState i = (q.taskState i).filter fun state => !state.isTerminal := by
  rw [taskState, taskState, task?_withoutHistory kept, Option.filter_map]
  rfl

end PacedChain.Queue
