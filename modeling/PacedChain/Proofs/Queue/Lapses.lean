import Mathlib.Logic.Relation
import PacedChain.Proofs.Queue.Placed

/-!
# How tasks fare

What a call on a queue does to each single task. Unless it is handed out or completed, a task can
only lapse (`Task.Lapse`): its time comes, or it is withdrawn, or it is forgotten once it has ended.
A look hands out one task and lets the others lapse (`Queue.look_fares`), and so does a completion
(`Queue.complete_fares`), which leads from a running task to what its outcome makes of it
(`Task.Completes`).
-/
namespace PacedChain

namespace Task

/-- What may happen to a task that is neither handed out nor completed. No task stands for one that
is forgotten. Only a task that is withdrawn is cancelled. -/
inductive Lapse (withdrawn : Prop) (now : Nat) : Option Task → Option Task → Prop
  /-- The time of a waiting task has come. -/
  | due {task : Task} {notBefore : Nat} : task.state.isWaiting = true →
    task.notBefore = some notBefore → notBefore ≤ now →
    Lapse withdrawn now (some task) (some (task.requeue now))
  | cancel {task : Task} : withdrawn → task.state.isTerminal = false → task.state ≠ .running →
    Lapse withdrawn now (some task) (some (task.cancel now))
  | forget {task : Task} : task.state.isTerminal = true → Lapse withdrawn now (some task) none

def Lapses (withdrawn : Prop) (now : Nat) : Option Task → Option Task → Prop :=
  Relation.ReflTransGen (Lapse withdrawn now)

/-- What the outcome of an attempt makes of a running task. -/
inductive Completes (b : Backoff) (now : Nat) (task : Task) :
    Outcome → Except CompleteError Completion → Task → Prop
  | success : Completes b now task .success (.ok .succeeded) (task.succeed now)
  | dead : b.allowsRetry task.attempts = false →
    Completes b now task .retry (.ok (.dead task.attempts)) (task.die now)
  | again {delay : Nat} : b.allowsRetry task.attempts = true →
    b.nextDelay task.attempts = .ok delay →
    Completes b now task .retry (.ok (.retryScheduled task.attempts (Clock.secs delay)))
      (task.scheduleRetry (Clock.deadline now delay) now)
  /-- The wait cannot be computed, and nothing happens to the task. -/
  | noDelay {error : BackoffError} : b.allowsRetry task.attempts = true →
    b.nextDelay task.attempts = .error error →
    Completes b now task .retry (.error (.noDelay error)) task

/-- Where the wait can be computed, a task that is completed has ended or waits. -/
theorem Completes.ends_or_waits {b : Backoff} {now : Nat} {task after : Task} {outcome : Outcome}
    {result : Except CompleteError Completion}
    (completes : Completes b now task outcome result after)
    (waits : ∃ delay, b.nextDelay task.attempts = .ok delay) :
    after.state.isTerminal = true ∨
      (after.state = .retryScheduled ∧ after.attempts = task.attempts) := by
  cases completes with
  | success | dead => exact Or.inl rfl
  | again => exact Or.inr ⟨rfl, rfl⟩
  | noDelay _ failed =>
    obtain ⟨delay, computed⟩ := waits
    cases failed.symm.trans computed

/-- The attempt with this number is over: the task has ended, another attempt has begun, or this one
does not run. -/
def Passed (task : Task) (attempt : Nat) : Prop :=
  task.state.isTerminal = true ∨ attempt < task.attempts ∨
    (attempt = task.attempts ∧ task.state ≠ .running)

theorem Passed.earlier {task : Task} {attempt : Nat} (passed : task.Passed attempt)
    (runs : task.state = .running) : attempt < task.attempts := by
  rcases passed with ended | earlier | ⟨_, idle⟩
  · rw [runs] at ended
    cases ended
  · exact earlier
  · exact absurd runs idle

variable {withdrawn withdrawn' : Prop} {now : Nat} {o o' : Option Task} {task : Task}

namespace Lapses

theorem refl (withdrawn : Prop) (now : Nat) (o : Option Task) : Lapses withdrawn now o o :=
  Relation.ReflTransGen.refl

theorem single (lapse : Lapse withdrawn now o o') : Lapses withdrawn now o o' :=
  Relation.ReflTransGen.single lapse

theorem trans {o'' : Option Task} (first : Lapses withdrawn now o o')
    (second : Lapses withdrawn now o' o'') : Lapses withdrawn now o o'' :=
  Relation.ReflTransGen.trans first second

/-- What each single lapse keeps is kept by any number of them. -/
theorem keeps {P : Option Task → Prop} (step : ∀ o o', Lapse withdrawn now o o' → P o → P o')
    (lapses : Lapses withdrawn now o o') (first : P o) : P o' := by
  induction lapses with
  | refl => exact first
  | tail _ last ih => exact step _ _ last ih

theorem mono (lapses : Lapses withdrawn now o o') (weaker : withdrawn → withdrawn') :
    Lapses withdrawn' now o o' := by
  refine Relation.ReflTransGen.mono (fun a b lapse => ?_) _ _ lapses
  cases lapse with
  | due waits time passed => exact .due waits time passed
  | cancel gone live idle => exact .cancel (weaker gone) live idle
  | forget ended => exact .forget ended

/-- What is forgotten stays so. -/
theorem eq_none (lapses : Lapses withdrawn now none o) : o = none := by
  refine lapses.keeps (P := fun o => o = none) ?_ rfl
  rintro _ _ lapse rfl
  cases lapse

theorem eq_some_of_running (runs : task.state = .running)
    (lapses : Lapses withdrawn now (some task) o) : o = some task := by
  refine lapses.keeps (P := fun o => o = some task) ?_ rfl
  rintro _ _ lapse rfl
  cases lapse with
  | due waits _ _ =>
    rw [runs] at waits
    cases waits
  | cancel _ _ idle => exact absurd runs idle
  | forget ended =>
    rw [runs] at ended
    cases ended

/-- A task that waits for a time to come stays as it is, unless it is withdrawn. -/
theorem eq_some_of_delayed {time : Nat} (stands : ¬withdrawn) (waits : task.state = .delayed)
    (until_ : task.notBefore = some time) (early : now < time)
    (lapses : Lapses withdrawn now (some task) o) : o = some task := by
  refine lapses.keeps (P := fun o => o = some task) ?_ rfl
  rintro _ _ lapse rfl
  cases lapse with
  | due _ known past =>
    cases until_.symm.trans known
    exact absurd early (Nat.not_lt.mpr past)
  | cancel gone => exact absurd gone stands
  | forget ended =>
    rw [waits] at ended
    cases ended

/-- No task begins to run by a lapse. -/
theorem eq_of_running (runs : task.state = .running)
    (lapses : Lapses withdrawn now o (some task)) : o = some task := by
  generalize same : some task = o' at lapses
  cases lapses with
  | refl => rfl
  | tail _ last =>
    cases last with
    | due | cancel =>
      cases same
      cases runs
    | forget => cases same

/-- A task that has ended, or is forgotten, stays so. -/
theorem isTerminal (lapses : Lapses withdrawn now o o')
    (ended : ∀ task, o = some task → task.state.isTerminal = true) :
    ∀ task, o' = some task → task.state.isTerminal = true := by
  refine lapses.keeps (P := fun o => ∀ task, o = some task → task.state.isTerminal = true) ?_ ended
  intro _ _ lapse before task same
  cases lapse with
  | due waits _ _ =>
    have live := TaskState.isTerminal_of_isWaiting waits
    rw [before _ rfl] at live
    cases live
  | cancel =>
    cases same
    rfl
  | forget => cases same

/-- What is over stays so: a task that lapses does not run. -/
theorem passed {attempt : Nat} (lapses : Lapses withdrawn now o o')
    (before : ∀ task, o = some task → task.Passed attempt) :
    ∀ task, o' = some task → task.Passed attempt := by
  refine lapses.keeps (P := fun o => ∀ task, o = some task → task.Passed attempt) ?_ before
  intro _ _ lapse before task same
  cases lapse with
  | @due old _ waits _ _ =>
    cases same
    rcases before old rfl with ended | earlier | ⟨last, _⟩
    · rw [TaskState.isTerminal_of_isWaiting waits] at ended
      cases ended
    · exact Or.inr (Or.inl earlier)
    · exact Or.inr (Or.inr ⟨last, nofun⟩)
  | cancel =>
    cases same
    exact Or.inl rfl
  | forget => cases same

end Lapses

end Task

namespace Queue

variable {q : Queue} {id i : TaskId} {task : Task} {now : Nat} {withdrawn : TaskId → Prop}

/-! ### Enqueuing -/

/-- A new task comes under a new number, and nothing else changes. -/
theorem insert_fares (kept : q.Kept) (now : Nat) (job : Job) (delay : Delay) (key : Option Key)
    (id : TaskId) :
    (q.insert now job delay key).2.task? id = q.task? id ∨
    (id = ⟨q.created + 1⟩ ∧
      (q.insert now job delay key).2.task? id = some (Task.fresh job key delay now)) := by
  rw [task?_insert kept]
  by_cases new : id = ⟨q.created + 1⟩
  · exact Or.inr ⟨new, if_pos new⟩
  · exact Or.inl (if_neg new)

theorem enqueueDelayed_fares (kept : q.Kept) (now : Nat) (job : Job) (delay : Delay) (id : TaskId) :
    (q.enqueueDelayed now job delay).2.task? id = q.task? id ∨
    (id = ⟨q.created + 1⟩ ∧
      (q.enqueueDelayed now job delay).2.task? id = some (Task.fresh job none delay now)) := by
  rcases enqueueDelayed_cases q now job delay with ⟨_, same⟩ | ⟨_, same⟩ <;> rw [same]
  · exact Or.inl rfl
  · exact insert_fares kept now job delay none id

/-- A task that ends and is booked may be forgotten at once, and so may any that has ended. -/
theorem lapses_finish (kept : q.Kept) (known : q.task? id = some task) {f : Task → Task}
    (ends : (f task).state.isTerminal = true) (gone : Prop) (now : Nat) :
    Task.Lapses gone now (some (f task)) ((q.finish id f).task? id) ∧
      ∀ i, i ≠ id → Task.Lapses gone now (q.task? i) ((q.finish id f).task? i) := by
  have view := task?_finish (f := f) known ends
  constructor
  · rw [view, if_pos rfl]
    split
    · exact .single (.forget ends)
    · exact .refl _ _ _
  · intro i other
    rw [view, if_neg other]
    split
    · next forgotten =>
      obtain ⟨old, found, ended⟩ := (kept.of_mem_evicted forgotten).resolve_left other
      rw [found]
      exact .single (.forget ended)
    · exact .refl _ _ _

/-- An enqueue under a key creates its task, and lets every other one lapse. Only a task that it
replaces is withdrawn. -/
theorem enqueueUnique_fares (kept : q.Kept) (now : Nat) (key : Key) (policy : HolderPolicy)
    (job : Job) (id : TaskId) :
    Task.Lapses (∃ new, (q.enqueueUnique now key policy job).1 = .ok (.replaced id new)) now
      (q.task? id) ((q.enqueueUnique now key policy job).2.task? id) ∨
    (id = ⟨q.created + 1⟩ ∧ (q.enqueueUnique now key policy job).2.task? id =
      some (Task.fresh job (some key) Delay.zero now)) := by
  rcases enqueueUnique_cases q now key policy job with
    ⟨_, same⟩ | ⟨_, _, same⟩ | ⟨_, _, _, _, _, same⟩ | ⟨_, previous, state, held, _, idle, same⟩ <;>
    rw [same]
  · exact Or.inl (.refl _ _ _)
  · refine (insert_fares kept now job Delay.zero (some key) id).imp_left fun stays => ?_
    rw [stays]
    exact .refl _ _ _
  · exact Or.inl (.refl _ _ _)
  · obtain ⟨_, task, known, rfl, live⟩ := of_liveHolder held
    have finished := kept.finish (f := (·.cancel now)) known live rfl
    have inserted := insert_fares finished now job Delay.zero (some key) id
    rw [created_finish] at inserted
    refine inserted.imp_left fun stays => ?_
    rw [stays]
    obtain ⟨itself, others⟩ := lapses_finish (f := (·.cancel now)) kept known rfl
      (∃ new, (Except.ok (.replaced previous ⟨q.created + 1⟩) : Except QueueError Placement) =
        .ok (.replaced id new)) now
    -- The old task is cancelled first, and may then be forgotten.
    by_cases here : id = previous
    · subst here
      rw [known]
      exact .trans (.single (.cancel ⟨_, rfl⟩ live idle)) itself
    · exact others id here

/-! ### Looking for a lease -/

/-- Waking the tasks that are due lets each of them lapse. -/
theorem lapses_promoteDue (placed : q.Placed withdrawn) (now : Nat) (id : TaskId) :
    Task.Lapses False now (q.task? id) ((q.promoteDue now).task? id) := by
  -- Where each task stands is carried along: its entry says when it is due.
  suffices both : (q.promoteDue now).Placed withdrawn ∧
      Task.Lapses False now (q.task? id) ((q.promoteDue now).task? id) from both.2
  refine promoteDue_induction_of_due (P := fun p => p.Placed withdrawn ∧
    Task.Lapses False now (q.task? id) (p.task? id)) ?_ ⟨placed, .refl _ _ _⟩
  rintro p w rest all passed ⟨placed, lapses⟩
  refine ⟨placed.wake all, lapses.trans ?_⟩
  have once := (List.nodup_append.mp placed.once).2.1
  rw [wake_with_scheduled]
  rcases wake_cases now p w with ⟨task, known, waiting, woken⟩ | ⟨_, stays⟩
  · rw [woken]
    change Task.Lapses False now (p.task? id) ((p.modify w.task (·.requeue now)).task? id)
    rw [task?_modify]
    by_cases here : id = w.task
    · subst here
      obtain ⟨notBefore, time, member⟩ := (placed.stands w.task).waiting task known waiting
      -- The task has one entry only, which is the one that is due.
      have first : (⟨notBefore, w.task⟩ : Wakeup) = w := by
        rw [all, List.map_cons, List.nodup_cons] at once
        rw [all] at member
        refine (List.mem_cons.mp member).resolve_right fun later => ?_
        exact once.1 (List.mem_map.mpr ⟨_, later, rfl⟩)
      have due : notBefore ≤ now := by
        rw [← first] at passed
        exact passed
      rw [if_pos rfl, known]
      exact .single (.due waiting time due)
    · rw [if_neg here]
      exact .refl _ _ _
  · rw [stays]
    exact .refl _ _ _

/-- A look hands a task out once it has lapsed into a queued one, or lets it lapse. -/
theorem look_fares (placed : q.Placed withdrawn) (now : Nat) (id : TaskId) :
    (∃ lease task, (q.look now).1 = .leased lease ∧ lease.envelope = ⟨id, task.job⟩ ∧
      lease.attempt = task.attempts + 1 ∧ task.state = .queued ∧
      Task.Lapses False now (q.task? id) (some task) ∧
      (q.look now).2.task? id = some (task.start now)) ∨
    ((∀ lease, (q.look now).1 = .leased lease → lease.envelope.task ≠ id) ∧
      Task.Lapses False now (q.task? id) ((q.look now).2.task? id)) := by
  have lapses := lapses_promoteDue placed now id
  rcases look_cases q now with ⟨_, same⟩ | ⟨_, first, task, _, _, _, known, state, _, same⟩ |
    ⟨_, _, same⟩ <;> rw [same]
  · refine Or.inr ⟨?_, .refl _ _ _⟩
    rintro lease ⟨⟩
  · by_cases here : first = id
    · subst here
      rw [known] at lapses
      have started := task?_modify_self (f := (·.start now)) known
      exact Or.inl ⟨_, task, rfl, rfl, rfl, state, lapses, started⟩
    · refine Or.inr ⟨?_, ?_⟩
      · rintro lease ⟨⟩
        exact here
      · have view : ((q.promoteDue now).modify first (·.start now)).task? id =
            (q.promoteDue now).task? id := task?_modify_of_ne (Ne.symm here)
        rw [← view] at lapses
        exact lapses
  · refine Or.inr ⟨?_, lapses⟩
    rintro lease ⟨⟩

/-! ### Completing -/

/-- A completion makes of its task what the outcome says, and lets every other task lapse. -/
theorem complete_fares (kept : q.Kept) (known : q.task? id = some task) (now : Nat)
    (outcome : Outcome) :
    ∃ after, Task.Completes q.backoff now task outcome (q.complete now id outcome).1 after ∧
      Task.Lapses False now (some after) ((q.complete now id outcome).2.task? id) ∧
      ∀ i, i ≠ id → Task.Lapses False now (q.task? i) ((q.complete now id outcome).2.task? i) := by
  have settled : ∀ f : Task → Task, (f task).state.isTerminal = true →
      Task.Lapses False now (some (f task)) ((q.settle id task f).task? id) ∧
        ∀ i, i ≠ id → Task.Lapses False now (q.task? i) ((q.settle id task f).task? i) :=
    fun f ends => lapses_finish kept known ends False now
  cases outcome with
  | success =>
    rw [complete_success known now]
    exact ⟨_, .success, settled (·.succeed now) rfl⟩
  | retry =>
    rcases allowed : q.backoff.allowsRetry task.attempts with _ | _
    · rw [complete_dead known now allowed]
      exact ⟨_, .dead allowed, settled (·.die now) rfl⟩
    · rcases wait : q.backoff.nextDelay task.attempts with error | delay
      · rw [complete_noDelay known now allowed wait]
        refine ⟨task, .noDelay allowed wait, ?_, fun i _ => .refl _ _ _⟩
        rw [known]
        exact .refl _ _ _
      · rw [complete_retry known now allowed wait]
        have view : ∀ i, ((q.modify id (·.scheduleRetry (Clock.deadline now delay) now)).schedule
            (Clock.deadline now delay) id).task? i =
              (q.modify id (·.scheduleRetry (Clock.deadline now delay) now)).task? i := fun _ => rfl
        refine ⟨_, .again allowed wait, ?_, fun i other => ?_⟩
        · rw [view, task?_modify_self known]
          exact .refl _ _ _
        · rw [view, task?_modify_of_ne other]
          exact .refl _ _ _

/-! ### The number of the last task -/

theorem created_look (q : Queue) (now : Nat) : (q.look now).2.created = q.created := by
  obtain ⟨_, _, _, _, same⟩ := q.look_eq now
  rw [same]

theorem created_insert (q : Queue) (now : Nat) (job : Job) (delay : Delay) (key : Option Key) :
    (q.insert now job delay key).2.created = q.created + 1 := by
  obtain ⟨_, inserted⟩ := insert_eq q now job delay key
  rw [inserted]

theorem created_enqueueDelayed (q : Queue) (now : Nat) (job : Job) (delay : Delay) :
    q.created ≤ (q.enqueueDelayed now job delay).2.created := by
  rcases enqueueDelayed_cases q now job delay with ⟨_, same⟩ | ⟨_, same⟩
  · exact Nat.le_of_eq (by rw [same])
  · rw [same, created_insert]
    exact Nat.le_succ _

theorem created_enqueueUnique (q : Queue) (now : Nat) (key : Key) (policy : HolderPolicy)
    (job : Job) : q.created ≤ (q.enqueueUnique now key policy job).2.created := by
  rcases enqueueUnique_cases q now key policy job with
    ⟨_, same⟩ | ⟨_, _, same⟩ | ⟨_, _, _, _, _, same⟩ | ⟨_, _, _, _, _, _, same⟩
  · exact Nat.le_of_eq (by rw [same])
  · rw [same, created_insert]
    exact Nat.le_succ _
  · exact Nat.le_of_eq (by rw [same])
  · rw [same, created_insert, created_finish]
    exact Nat.le_succ _

theorem created_complete (q : Queue) (now : Nat) (id : TaskId) (outcome : Outcome) :
    (q.complete now id outcome).2.created = q.created := by
  rcases known : q.task? id with _ | task
  · unfold complete
    rw [known]
  · rcases complete_cases known now outcome with
      ⟨_, same⟩ | ⟨_, same⟩ | ⟨_, _, same⟩ | ⟨_, _, same⟩ <;> rw [same]
    · exact created_finish q id (·.succeed now)
    · exact created_finish q id (·.die now)
    · rfl

end Queue

end PacedChain
