import PacedChain.Proofs.Queue.Kept
import PacedChain.Queue.Tally

/-!
# Calls on a queue

What each operation of a queue can do, said once: an enqueue adds one task (`insert_eq`), waking
the tasks that are due is a row of single steps (`promoteDue_induction`), and a look, a completion
and an enqueue under a key have a few cases each (`look_cases`, `complete_cases`,
`enqueueUnique_cases`).
-/
namespace PacedChain

/-- A new task that may run after `delay`. -/
def Task.fresh (job : Job) (key : Option Key) (delay : Delay) (now : Nat) : Task :=
  if delay.isZero then Task.create job key now
  else (Task.create job key now).holdBack (Clock.deadline now delay.duration) now

namespace Task

variable (job : Job) (key : Option Key) (delay : Delay) (now : Nat)

@[simp] theorem job_fresh : (fresh job key delay now).job = job := by
  unfold fresh
  split <;> rfl

@[simp] theorem key_fresh : (fresh job key delay now).key = key := by
  unfold fresh
  split <;> rfl

@[simp] theorem attempts_fresh : (fresh job key delay now).attempts = 0 := by
  unfold fresh
  split <;> rfl

@[simp] theorem isTerminal_fresh : (fresh job key delay now).state.isTerminal = false := by
  unfold fresh
  split <;> rfl

theorem fresh_not_running : (fresh job key delay now).state ≠ .running := by
  unfold fresh
  split <;> nofun

end Task

namespace Queue

variable {q : Queue} {id : TaskId} {task : Task} {now : Nat}

/-! ### Enqueuing -/

theorem addWakeup_perm (w : Wakeup) (ws : List Wakeup) : (addWakeup w ws).Perm (w :: ws) := by
  induction ws with
  | nil => exact List.Perm.refl _
  | cons v rest ih =>
    unfold addWakeup
    split
    · exact List.Perm.refl _
    · exact (ih.cons v).trans (List.Perm.swap w v rest)

/-- An enqueue adds one task under the next number, either ready or scheduled. -/
theorem insert_eq (q : Queue) (now : Nat) (job : Job) (delay : Delay) (key : Option Key) :
    ∃ log, q.insert now job delay key = (⟨q.created + 1⟩, { q with
      tasks := q.tasks ++ [(⟨q.created + 1⟩, Task.fresh job key delay now)]
      ready := if delay.isZero then q.ready ++ [⟨q.created + 1⟩] else q.ready
      scheduled := if delay.isZero then q.scheduled
        else addWakeup ⟨Clock.deadline now delay.duration, ⟨q.created + 1⟩⟩ q.scheduled
      holders := (q.hold key ⟨q.created + 1⟩).holders
      log
      created := q.created + 1 }) := by
  unfold insert Task.fresh
  -- In each of the four cases the log is whatever it is.
  cases key with
  | none =>
    by_cases atOnce : delay.isZero = true
    · simp only [atOnce, if_true]
      exact ⟨_, rfl⟩
    · simp only [atOnce]
      exact ⟨_, rfl⟩
  | some key =>
    by_cases atOnce : delay.isZero = true
    · simp only [atOnce, if_true]
      exact ⟨_, rfl⟩
    · simp only [atOnce]
      exact ⟨_, rfl⟩

theorem task?_insert (kept : q.Kept) (now : Nat) (job : Job) (delay : Delay) (key : Option Key)
    (i : TaskId) :
    (q.insert now job delay key).2.task? i =
      if i = ⟨q.created + 1⟩ then some (Task.fresh job key delay now) else q.task? i := by
  obtain ⟨log, same⟩ := insert_eq q now job delay key
  rw [same]
  by_cases new : i = ⟨q.created + 1⟩
  -- The new task stands last, and no task before it has its number.
  · have absent : q.tasks.find? (·.1 = i) = none := by
      have free := kept.task?_next
      rw [← new] at free
      simpa only [task?, Option.map_eq_none_iff] using free
    simp only [task?, List.find?_append, absent, Option.none_or]
    simp [new]
  · have other : ¬(⟨q.created + 1⟩ : TaskId) = i := fun same => new same.symm
    simp [task?, List.find?_append, other, new]

theorem Kept.insert (kept : q.Kept) (now : Nat) (job : Job) (delay : Delay) (key : Option Key) :
    (q.insert now job delay key).2.Kept := by
  have view := task?_insert kept now job delay key
  have free := kept.task?_next
  obtain ⟨log, same⟩ := insert_eq q now job delay key
  refine ⟨?_, ?_, ?_, ?_⟩
  -- A task with the new number would have been known before.
  · rw [same, List.map_append, List.nodup_append]
    refine ⟨kept.unique, List.nodup_singleton _, ?_⟩
    intro old member new here equal
    rw [List.map_cons, List.map_nil, List.mem_singleton] at here
    obtain ⟨⟨i, task⟩, listed, rfl⟩ := List.mem_map.mp member
    have known := task?_of_mem kept.unique listed
    have next : i = ⟨q.created + 1⟩ := equal.trans here
    rw [next, free] at known
    cases known
  · intro i task known
    have created : (q.insert now job delay key).2.created = q.created + 1 := by rw [same]
    rw [created]
    rw [view] at known
    split at known
    · next new => exact Nat.le_of_eq (congrArg TaskId.number new)
    · exact Nat.le_succ_of_le (kept.numbered i task known)
  · rw [same]
    exact kept.once
  · intro i
    have finished : (q.insert now job delay key).2.finished = q.finished := by rw [same]
    rw [finished, view, kept.finished i]
    -- The new task is not listed, as it has not ended.
    by_cases new : i = ⟨q.created + 1⟩
    · rw [if_pos new, new, free]
      constructor
      · rintro ⟨task, known, _⟩
        cases known
      · rintro ⟨task, known, ended⟩
        rw [Option.some.injEq] at known
        subst known
        rw [Task.isTerminal_fresh] at ended
        cases ended
    · rw [if_neg new]

/-! ### Waking -/

/-- A wake-up makes a waiting task ready, and is passed over otherwise. -/
theorem wake_cases (now : Nat) (q : Queue) (w : Wakeup) :
    (∃ task, q.task? w.task = some task ∧ task.state.isWaiting = true ∧
      wake now q w = { q.modify w.task (·.requeue now) with ready := q.ready ++ [w.task] }) ∨
    ((∀ task, q.task? w.task = some task → task.state.isWaiting = false) ∧ wake now q w = q) := by
  unfold wake
  cases known : q.task? w.task with
  | none =>
    right
    exact ⟨fun task found => (Option.some_ne_none task found.symm).elim, rfl⟩
  | some task =>
    by_cases waiting : task.state.isWaiting = true
    · left
      exact ⟨task, rfl, waiting, if_pos waiting⟩
    · right
      refine ⟨?_, if_neg waiting⟩
      intro other found
      rw [Option.some.injEq] at found
      subst found
      exact Bool.eq_false_iff.mpr waiting

/-- Waking does not depend on what else is scheduled. -/
theorem wake_with_scheduled (now : Nat) (q : Queue) (w : Wakeup) (ws : List Wakeup) :
    wake now { q with scheduled := ws } w = { wake now q w with scheduled := ws } := by
  have same : ({ q with scheduled := ws } : Queue).task? w.task = q.task? w.task := rfl
  unfold wake
  rw [same]
  cases q.task? w.task with
  | none => rfl
  | some task =>
    by_cases waiting : task.state.isWaiting = true
    · simp only [waiting, if_true]
      rfl
    · simp only [waiting]
      rfl

/-- What every single wake-up of a task that is due keeps is kept when all of them become ready. -/
theorem promoteDue_induction_of_due {P : Queue → Prop} {now : Nat}
    (step : ∀ q w rest, q.scheduled = w :: rest → w.notBefore ≤ now → P q →
      P (wake now { q with scheduled := rest } w))
    (h : P q) : P (q.promoteDue now) := by
  -- The row of tasks that are due is generalized, with what is scheduled after it.
  suffices row : ∀ due rest (q : Queue), (∀ w ∈ due, w.notBefore ≤ now) →
      q.scheduled = due ++ rest → P q →
      P (due.foldl (wake now) { q with scheduled := rest }) by
    refine row _ _ q (fun w member => ?_) List.takeWhile_append_dropWhile.symm h
    exact of_decide_eq_true (List.all_eq_true.mp List.all_takeWhile w member)
  intro due rest
  induction due with
  | nil =>
    intro q _ all h
    rw [List.nil_append] at all
    rw [List.foldl_nil, ← all]
    exact h
  | cons w due ih =>
    intro q passed all h
    -- One step on the queue that still has the rest of the row scheduled, then the rest of the row.
    have next := step q w (due ++ rest) all (passed w List.mem_cons_self) h
    have left : (wake now { q with scheduled := due ++ rest } w).scheduled = due ++ rest := by
      rw [wake_with_scheduled]
    have go := ih (wake now { q with scheduled := due ++ rest } w)
      (fun v member => passed v (List.mem_cons_of_mem _ member)) left next
    rw [wake_with_scheduled] at go
    rw [List.foldl_cons, wake_with_scheduled]
    exact go

/-- What every single wake-up keeps is kept when all tasks that are due become ready. -/
theorem promoteDue_induction {P : Queue → Prop} {now : Nat}
    (step : ∀ q w rest, q.scheduled = w :: rest → P q → P (wake now { q with scheduled := rest } w))
    (h : P q) : P (q.promoteDue now) :=
  promoteDue_induction_of_due (fun q w rest all _ => step q w rest all) h

/-- Waking the tasks that are due changes the tasks and where they wait, and nothing else. -/
theorem promoteDue_eq (q : Queue) (now : Nat) :
    ∃ tasks ready scheduled, q.promoteDue now = { q with tasks, ready, scheduled } := by
  refine promoteDue_induction
    (P := fun p => ∃ tasks ready scheduled, p = { q with tasks, ready, scheduled }) ?_
    ⟨_, _, _, rfl⟩
  rintro p w rest _ ⟨tasks, ready, scheduled, rfl⟩
  rw [wake_with_scheduled]
  rcases wake_cases now { q with tasks, ready, scheduled } w with ⟨_, _, _, woken⟩ | ⟨_, stays⟩
  · rw [woken]
    exact ⟨_, _, _, rfl⟩
  · rw [stays]
    exact ⟨_, _, _, rfl⟩

/-! ### Looking for a lease -/

/-- The first queued task of a row, with what is before and after it. -/
theorem firstRunnable_cases (q : Queue) (ids : List TaskId) :
    (∃ id task skipped rest, q.firstRunnable ids = some (id, task, rest) ∧
      ids = skipped ++ id :: rest ∧ q.task? id = some task ∧ task.state = .queued ∧
      ∀ i ∈ skipped, q.taskState i ≠ some .queued) ∨
    (q.firstRunnable ids = none ∧ ∀ i ∈ ids, q.taskState i ≠ some .queued) := by
  induction ids with
  | nil =>
    right
    exact ⟨rfl, fun i member => (List.not_mem_nil member).elim⟩
  | cons id ids ih =>
    -- Either the first one can run, or the row is as good as its rest.
    by_cases runs : ∃ task, q.task? id = some task ∧ task.state.isRunnable = true
    · obtain ⟨task, known, runnable⟩ := runs
      left
      refine ⟨id, task, [], ids, ?_, rfl, known, TaskState.eq_queued_of_isRunnable runnable, ?_⟩
      · simp only [firstRunnable, known, runnable, if_true]
      · intro i member
        cases member
    · have passed : q.firstRunnable (id :: ids) = q.firstRunnable ids := by
        cases known : q.task? id with
        | none => simp only [firstRunnable, known]
        | some task =>
          have stays : ¬task.state.isRunnable = true := fun runnable => runs ⟨task, known, runnable⟩
          simp only [firstRunnable, known, stays, Bool.false_eq_true, if_false]
      have other : q.taskState id ≠ some .queued := by
        intro queued
        simp only [taskState, Option.map_eq_some_iff] at queued
        obtain ⟨task, known, state⟩ := queued
        exact runs ⟨task, known, by rw [state]; rfl⟩
      rcases ih with ⟨first, task, skipped, rest, found, split, known, state, before⟩ | ⟨none, all⟩
      · left
        refine ⟨first, task, id :: skipped, rest, passed.trans found, by rw [split]; rfl, known,
          state, ?_⟩
        intro i member
        rcases List.mem_cons.mp member with rfl | later
        · exact other
        · exact before i later
      · right
        refine ⟨passed.trans none, ?_⟩
        intro i member
        rcases List.mem_cons.mp member with rfl | later
        · exact other
        · exact all i later

/-- A look ends the wait, hands out the first queued task that is ready, or finds none. -/
theorem look_cases (q : Queue) (now : Nat) :
    (q.closed = true ∧ q.look now = (.closed, q)) ∨
    (q.closed = false ∧ ∃ id task skipped rest,
      (q.promoteDue now).ready = skipped ++ id :: rest ∧
      (q.promoteDue now).task? id = some task ∧ task.state = .queued ∧
      (∀ i ∈ skipped, (q.promoteDue now).taskState i ≠ some .queued) ∧
      q.look now = (.leased ⟨⟨id, task.job⟩, task.attempts + 1, ⟨(q.promoteDue now).leases + 1⟩⟩,
        { (q.promoteDue now).modify id (·.start now) with
          ready := rest
          leases := (q.promoteDue now).leases + 1 })) ∨
    (q.closed = false ∧ (∀ i ∈ (q.promoteDue now).ready,
        (q.promoteDue now).taskState i ≠ some .queued) ∧
      q.look now = (.idle ((q.promoteDue now).scheduled.head?.map (·.notBefore)),
        { q.promoteDue now with ready := [] })) := by
  unfold look
  by_cases shut : q.closed = true
  · left
    exact ⟨shut, if_pos shut⟩
  · right
    rw [if_neg shut]
    rcases firstRunnable_cases (q.promoteDue now) (q.promoteDue now).ready with
      ⟨id, task, skipped, rest, found, split, known, state, before⟩ | ⟨none, all⟩
    · left
      refine ⟨Bool.eq_false_iff.mpr shut, id, task, skipped, rest, split, known, state, before, ?_⟩
      simp only [found]
    · right
      refine ⟨Bool.eq_false_iff.mpr shut, all, ?_⟩
      simp only [none]

/-- A look changes the tasks, where they wait and how many leases there were, and nothing else. -/
theorem look_eq (q : Queue) (now : Nat) :
    ∃ tasks ready scheduled leases,
      (q.look now).2 = { q with tasks, ready, scheduled, leases } := by
  obtain ⟨_, _, _, woken⟩ := q.promoteDue_eq now
  rcases look_cases q now with ⟨_, seen⟩ | ⟨_, _, _, _, _, _, _, _, _, seen⟩ | ⟨_, _, seen⟩
  · rw [seen]
    exact ⟨_, _, _, _, rfl⟩
  · rw [seen, woken]
    exact ⟨_, _, _, _, rfl⟩
  · rw [seen, woken]
    exact ⟨_, _, _, _, rfl⟩

/-! ### Completing -/

def settle (q : Queue) (id : TaskId) (task : Task) (f : Task → Task) : Queue :=
  { q.finish id f with
    holders := q.holders.filter fun h => !decide (task.key = some h.1 ∧ h.2 = id) }

/-- Ending a task, giving up its key and booking it, in this order. -/
theorem retire_releaseKey_modify (known : q.task? id = some task) {f : Task → Task}
    (key : (f task).key = task.key) (ends : (f task).state.isTerminal = true) :
    ((q.modify id f).releaseKey id).retire id = q.settle id task f := by
  have changed := task?_modify_self (f := f) known
  obtain ⟨totals, booked, same⟩ := finish_eq (f := f) known ends
  rw [releaseKey_eq changed, key, settle, same]
  have found : ({ q.modify id f with
      holders := q.holders.filter fun h => !decide (task.key = some h.1 ∧ h.2 = id) } :
        Queue).task? id = some (f task) := changed
  have noted : (Option.bind (({ q.modify id f with
      holders := q.holders.filter fun h => !decide (task.key = some h.1 ∧ h.2 = id) } :
        Queue).task? id) fun task => addTotal? q.totals task.state) = some totals := by
    rw [found, Option.bind_some, booked]
  unfold retire
  -- Giving up the key has changed no task, so that the same totals are booked.
  split
  · next none =>
    cases noted.symm.trans none
  · next other some =>
    cases noted.symm.trans some
    rfl

theorem complete_success (known : q.task? id = some task) (now : Nat) :
    q.complete now id .success = (.ok .succeeded, q.settle id task (·.succeed now)) := by
  simp only [complete, known]
  rw [retire_releaseKey_modify known rfl rfl]

theorem complete_dead (known : q.task? id = some task) (now : Nat)
    (spent : q.backoff.allowsRetry task.attempts = false) :
    q.complete now id .retry = (.ok (.dead task.attempts), q.settle id task (·.die now)) := by
  unfold complete
  rw [known, ← retire_releaseKey_modify known rfl rfl]
  exact if_pos (by rw [spent]; rfl)

theorem complete_retry (known : q.task? id = some task) (now : Nat)
    (allowed : q.backoff.allowsRetry task.attempts = true) {delay : Nat}
    (wait : q.backoff.nextDelay task.attempts = .ok delay) :
    q.complete now id .retry = (.ok (.retryScheduled task.attempts (Clock.secs delay)),
      (q.modify id (·.scheduleRetry (Clock.deadline now delay) now)).schedule
        (Clock.deadline now delay) id) := by
  simp only [complete, known, allowed, wait, Bool.not_true, Bool.false_eq_true, if_false]

theorem complete_noDelay (known : q.task? id = some task) (now : Nat)
    (allowed : q.backoff.allowsRetry task.attempts = true) {error : BackoffError}
    (wait : q.backoff.nextDelay task.attempts = .error error) :
    q.complete now id .retry = (.error (.noDelay error), q) := by
  simp only [complete, known, allowed, wait, Bool.not_true, Bool.false_eq_true, if_false]

/-- A completed attempt ends its task, has it tried again after a wait, or is not reported since
that wait cannot be computed. -/
theorem complete_cases (known : q.task? id = some task) (now : Nat) (outcome : Outcome) :
    (outcome = .success ∧
      q.complete now id outcome = (.ok .succeeded, q.settle id task (·.succeed now))) ∨
    (outcome = .retry ∧
      q.complete now id outcome = (.ok (.dead task.attempts), q.settle id task (·.die now))) ∨
    (outcome = .retry ∧ ∃ delay,
      q.complete now id outcome = (.ok (.retryScheduled task.attempts (Clock.secs delay)),
        (q.modify id (·.scheduleRetry (Clock.deadline now delay) now)).schedule
          (Clock.deadline now delay) id)) ∨
    (outcome = .retry ∧ ∃ error,
      q.complete now id outcome = (.error (.noDelay error), q)) := by
  cases outcome with
  | success => exact Or.inl ⟨rfl, complete_success known now⟩
  | retry =>
    right
    by_cases allowed : q.backoff.allowsRetry task.attempts = true
    · right
      rcases wait : q.backoff.nextDelay task.attempts with error | delay
      · exact Or.inr ⟨rfl, error, complete_noDelay known now allowed wait⟩
      · exact Or.inl ⟨rfl, delay, complete_retry known now allowed wait⟩
    · exact Or.inl ⟨rfl, complete_dead known now (Bool.eq_false_iff.mpr allowed)⟩

/-! ### Refused and accepted enqueues -/

theorem enqueueDelayed_cases (q : Queue) (now : Nat) (job : Job) (delay : Delay) :
    (q.closed = true ∧ q.enqueueDelayed now job delay = (.error .closed, q)) ∨
    (q.closed = false ∧ q.enqueueDelayed now job delay =
      (.ok ⟨q.created + 1⟩, (q.insert now job delay none).2)) := by
  unfold enqueueDelayed
  cases q.closed with
  | true => exact Or.inl ⟨rfl, rfl⟩
  | false => exact Or.inr ⟨rfl, rfl⟩

/-- An enqueue under a key creates a task, keeps the holder or replaces it. -/
theorem enqueueUnique_cases (q : Queue) (now : Nat) (key : Key) (policy : HolderPolicy)
    (job : Job) :
    (q.closed = true ∧ q.enqueueUnique now key policy job = (.error .closed, q)) ∨
    (q.closed = false ∧ q.liveHolder key = none ∧ q.enqueueUnique now key policy job =
      (.ok (.enqueued ⟨q.created + 1⟩), (q.insert now job Delay.zero (some key)).2)) ∨
    (q.closed = false ∧ ∃ holder state, q.liveHolder key = some (holder, state) ∧
      (policy = .keepExisting ∨ state = .running) ∧
      q.enqueueUnique now key policy job = (.ok (.keptExisting holder), q)) ∨
    (q.closed = false ∧ ∃ previous state, q.liveHolder key = some (previous, state) ∧
      policy = .replace ∧ state ≠ .running ∧
      q.enqueueUnique now key policy job = (.ok (.replaced previous ⟨q.created + 1⟩),
        ((q.finish previous (·.cancel now)).insert now job Delay.zero (some key)).2)) := by
  unfold enqueueUnique
  cases q.closed with
  | true => exact Or.inl ⟨rfl, rfl⟩
  | false =>
    right
    rw [if_neg Bool.false_ne_true]
    cases held : q.liveHolder key with
    | none => exact Or.inl ⟨rfl, rfl, rfl⟩
    | some found =>
      right
      obtain ⟨holder, state⟩ := found
      cases policy with
      | keepExisting => exact Or.inl ⟨rfl, holder, state, rfl, Or.inl rfl, rfl⟩
      | replace =>
        by_cases runs : state = .running
        · subst runs
          exact Or.inl ⟨rfl, holder, .running, rfl, Or.inr rfl, rfl⟩
        · right
          refine ⟨rfl, holder, state, rfl, rfl, runs, ?_⟩
          -- Cancelling the old task gives out no number.
          rw [← created_finish q holder (·.cancel now)]
          cases state <;> first | exact absurd rfl runs | rfl

/-- What holds a key is a task that is not finished. -/
theorem of_liveHolder {key : Key} {state : TaskState} (held : q.liveHolder key = some (id, state)) :
    q.holders.find? (·.1 = key) = some (key, id) ∧
      ∃ task, q.task? id = some task ∧ task.state = state ∧ task.state.isTerminal = false := by
  unfold liveHolder at held
  cases found : q.holders.find? (·.1 = key) with
  | none =>
    rw [found] at held
    cases held
  | some entry =>
    obtain ⟨other, holder⟩ := entry
    have same : other = key := by simpa using List.find?_some found
    subst same
    rw [found] at held
    change (q.task? holder).bind _ = _ at held
    rw [Option.bind_eq_some_iff] at held
    obtain ⟨task, known, held⟩ := held
    by_cases ended : task.state.isTerminal = true
    · rw [if_pos ended] at held
      cases held
    · rw [if_neg ended, Option.some.injEq, Prod.mk.injEq] at held
      obtain ⟨rfl, state⟩ := held
      exact ⟨rfl, task, known, state, Bool.eq_false_iff.mpr ended⟩

/-! ### Kept tasks after a call -/

namespace Kept

theorem wake {w : Wakeup} {rest : List Wakeup} (kept : q.Kept) :
    (Queue.wake now { q with scheduled := rest } w).Kept := by
  rw [wake_with_scheduled]
  rcases wake_cases now q w with ⟨task, known, waiting, same⟩ | ⟨_, same⟩
  · have changed := kept.modify (f := (·.requeue now)) known
      (TaskState.isTerminal_of_isWaiting waiting) rfl
    rw [same]
    exact changed.congr rfl rfl rfl
  · rw [same]
    exact kept.congr rfl rfl rfl

theorem promoteDue (kept : q.Kept) (now : Nat) : (q.promoteDue now).Kept :=
  promoteDue_induction (P := Kept) (fun _ _ _ _ kept => kept.wake) kept

theorem look (kept : q.Kept) (now : Nat) : (q.look now).2.Kept := by
  have woken := kept.promoteDue now
  rcases look_cases q now with ⟨_, same⟩ | ⟨_, id, task, _, _, _, known, state, _, same⟩ |
    ⟨_, _, same⟩
  · rw [same]
    exact kept
  · have started := woken.modify (f := (·.start now)) known (by rw [state]; rfl) rfl
    rw [same]
    exact started.congr rfl rfl rfl
  · rw [same]
    exact woken.congr rfl rfl rfl

theorem complete (kept : q.Kept) (known : q.task? id = some task)
    (live : task.state.isTerminal = false) (now : Nat) (outcome : Outcome) :
    (q.complete now id outcome).2.Kept := by
  rcases complete_cases known now outcome with
    ⟨_, same⟩ | ⟨_, same⟩ | ⟨_, delay, same⟩ | ⟨_, error, same⟩
  · have ended := kept.finish (f := (·.succeed now)) known live rfl
    rw [same]
    exact ended.congr rfl rfl rfl
  · have ended := kept.finish (f := (·.die now)) known live rfl
    rw [same]
    exact ended.congr rfl rfl rfl
  · have changed :=
      kept.modify (f := (·.scheduleRetry (Clock.deadline now delay) now)) known live rfl
    rw [same]
    exact changed.congr rfl rfl rfl
  · rw [same]
    exact kept

theorem enqueueDelayed (kept : q.Kept) (now : Nat) (job : Job) (delay : Delay) :
    (q.enqueueDelayed now job delay).2.Kept := by
  rcases enqueueDelayed_cases q now job delay with ⟨_, same⟩ | ⟨_, same⟩
  · rw [same]
    exact kept
  · rw [same]
    exact kept.insert now job delay none

theorem enqueueUnique (kept : q.Kept) (now : Nat) (key : Key) (policy : HolderPolicy) (job : Job) :
    (q.enqueueUnique now key policy job).2.Kept := by
  rcases enqueueUnique_cases q now key policy job with
    ⟨_, same⟩ | ⟨_, _, same⟩ | ⟨_, _, _, _, _, same⟩ | ⟨_, previous, state, held, _, _, same⟩
  · rw [same]
    exact kept
  · rw [same]
    exact kept.insert now job Delay.zero (some key)
  · rw [same]
    exact kept
  · obtain ⟨_, task, known, _, live⟩ := of_liveHolder held
    rw [same]
    exact (kept.finish known live rfl).insert now job Delay.zero (some key)

end Kept

/-! ### Running tasks are left alone -/

variable {i : TaskId} {other : Task}

theorem task?_insert_of_known (kept : q.Kept) (known : q.task? i = some other) (now : Nat)
    (job : Job) (delay : Delay) (key : Option Key) :
    (q.insert now job delay key).2.task? i = some other := by
  have old : i ≠ ⟨q.created + 1⟩ := by
    rintro rfl
    rw [kept.task?_next] at known
    cases known
  rw [task?_insert kept, if_neg old, known]

theorem task?_promoteDue_of_running (known : q.task? i = some other) (runs : other.state = .running)
    (now : Nat) : (q.promoteDue now).task? i = some other := by
  refine promoteDue_induction (P := fun q => q.task? i = some other) ?_ known
  intro q w rest _ known
  rw [wake_with_scheduled]
  rcases wake_cases now q w with ⟨task, found, waiting, same⟩ | ⟨_, same⟩
  · have apart : i ≠ w.task := by
      refine ne_of_state_ne found known ?_
      rw [runs]
      intro state
      rw [← state] at waiting
      cases waiting
    rw [same]
    exact (task?_modify_of_ne (f := (·.requeue now)) apart).trans known
  · rw [same]
    exact known

theorem task?_look_of_running (known : q.task? i = some other) (runs : other.state = .running)
    (now : Nat) : (q.look now).2.task? i = some other := by
  have stays := task?_promoteDue_of_running known runs now
  rcases look_cases q now with ⟨_, same⟩ | ⟨_, id, task, _, _, _, found, state, _, same⟩ |
    ⟨_, _, same⟩
  · rw [same]
    exact known
  · have apart : i ≠ id := ne_of_state_ne found stays (by rw [runs, state]; decide)
    rw [same]
    exact (task?_modify_of_ne (f := (·.start now)) apart).trans stays
  · rw [same]
    exact stays

/-- Completing an attempt at one task leaves every other unfinished task as it was. -/
theorem task?_complete_of_live (kept : q.Kept) (known : q.task? id = some task)
    (found : q.task? i = some other) (live : other.state.isTerminal = false) (ne : i ≠ id)
    (now : Nat) (outcome : Outcome) : (q.complete now id outcome).2.task? i = some other := by
  rcases complete_cases known now outcome with
    ⟨_, same⟩ | ⟨_, same⟩ | ⟨_, delay, same⟩ | ⟨_, error, same⟩
  · rw [same]
    exact kept.task?_finish_of_live known rfl found live ne
  · rw [same]
    exact kept.task?_finish_of_live known rfl found live ne
  · rw [same]
    have apart := task?_modify_of_ne (q := q)
      (f := (·.scheduleRetry (Clock.deadline now delay) now)) ne
    exact apart.trans found
  · rw [same]
    exact found

theorem task?_enqueueDelayed_of_known (kept : q.Kept) (known : q.task? i = some other) (now : Nat)
    (job : Job) (delay : Delay) : (q.enqueueDelayed now job delay).2.task? i = some other := by
  rcases enqueueDelayed_cases q now job delay with ⟨_, same⟩ | ⟨_, same⟩
  · rw [same]
    exact known
  · rw [same]
    exact task?_insert_of_known kept known now job delay none

theorem task?_enqueueUnique_of_running (kept : q.Kept) (known : q.task? i = some other)
    (runs : other.state = .running) (now : Nat) (key : Key) (policy : HolderPolicy) (job : Job) :
    (q.enqueueUnique now key policy job).2.task? i = some other := by
  rcases enqueueUnique_cases q now key policy job with
    ⟨_, same⟩ | ⟨_, _, same⟩ | ⟨_, _, _, _, _, same⟩ | ⟨_, previous, state, held, _, idle, same⟩
  · rw [same]
    exact known
  · rw [same]
    exact task?_insert_of_known kept known now job Delay.zero (some key)
  · rw [same]
    exact known
  · obtain ⟨_, task, found, rfl, live⟩ := of_liveHolder held
    -- The task that is replaced does not run.
    have apart : i ≠ previous := ne_of_state_ne found known fun same => idle (same ▸ runs)
    have stays := kept.task?_finish_of_live (f := (·.cancel now)) found rfl known
      (by rw [runs]; rfl) apart
    rw [same]
    exact task?_insert_of_known (kept.finish found live rfl) stays now job Delay.zero (some key)

end Queue

end PacedChain
