import PacedChain.Proofs.Queue.Ordered

/-!
# A queue without stale entries

A task that is withdrawn leaves its entry in `ready` or in `scheduled`, and the entry stays until it
is passed over. Dropping all such entries at once (`Queue.tidy`) changes nothing that matters: each
operation answers the same on the queue as it is and on the tidy one, and what it leaves is the same
but for stale entries. Only the time at which a look would look again may differ.
-/
namespace PacedChain

/-- What a look shows, but for the time of the next one. -/
def Look.withoutWake : Look → Look
  | .idle _ => .idle none
  | seen => seen

/-- Pairs that come to the same have the same first part. -/
theorem prod_map_eq_cases {α β γ δ : Type} {x : α × β} {y : α × γ} {f : β → δ} {g : γ → δ}
    (same : Prod.map id f x = Prod.map id g y) :
    ∃ a b c, x = (a, b) ∧ y = (a, c) ∧ f b = g c := by
  obtain ⟨a, b⟩ := x
  obtain ⟨a', c⟩ := y
  simp only [Prod.map, id_eq, Prod.mk.injEq] at same
  obtain ⟨rfl, same⟩ := same
  exact ⟨a, b, c, rfl, rfl, same⟩

namespace Queue

variable {p q : Queue} {i j : TaskId} {task : Task} {now : Nat}

/-- A queue in use: it keeps its tasks and names each where it belongs, with the schedule in
order. -/
structure Proper (q : Queue) : Prop where
  kept : q.Kept
  placed : ∃ withdrawn, q.Placed withdrawn
  ordered : q.Ordered

/-- The queue with the entries of queued and of waiting tasks only. -/
def tidy (q : Queue) : Queue :=
  { q with
    ready := q.ready.filter q.isQueued
    scheduled := q.scheduled.filter fun w => q.isWaiting w.task }

@[simp] theorem closed_tidy (q : Queue) : q.tidy.closed = q.closed := rfl

/-- Queues that are the same when tidy have the same tasks. -/
theorem task?_of_tidy_eq (alike : p.tidy = q.tidy) (id : TaskId) : p.task? id = q.task? id :=
  congrArg (·.task? id) alike

/-- What is tidy depends on the tasks, so that the rows may be tidied before. -/
theorem tidy_with_rows {ready ready' : List TaskId} {scheduled scheduled' : List Wakeup}
    (same_ready : ready.filter q.isQueued = ready'.filter q.isQueued)
    (same_scheduled : (scheduled.filter fun w => q.isWaiting w.task) =
      scheduled'.filter fun w => q.isWaiting w.task) :
    ({ q with ready, scheduled } : Queue).tidy =
      ({ q with ready := ready', scheduled := scheduled' } : Queue).tidy := by
  change ({ q with
    ready := ready.filter q.isQueued
    scheduled := scheduled.filter fun w => q.isWaiting w.task } : Queue) = _
  rw [same_ready, same_scheduled]
  rfl

/-- A stale entry need not be dropped twice. -/
theorem filter_filter_of_imp {α : Type} {l : List α} {before after : α → Bool}
    (stale : ∀ x ∈ l, after x = true → before x = true) :
    (l.filter before).filter after = l.filter after := by
  rw [List.filter_filter]
  apply List.filter_congr
  intro x member
  cases stays : after x with
  | false => simp
  | true => simp [stale x member stays]

@[simp] theorem tidy_tidy (q : Queue) : q.tidy.tidy = q.tidy :=
  tidy_with_rows (q := q) (filter_filter_of_imp fun _ _ stays => stays)
    (filter_filter_of_imp fun _ _ stays => stays)

/-- Where no entry is stale, tasks stand where they belong. -/
theorem Placed.tidy {withdrawn : TaskId → Prop} (placed : q.Placed withdrawn) :
    q.tidy.Placed withdrawn := by
  constructor
  case once =>
    refine placed.once.sublist (List.Sublist.append List.filter_sublist ?_)
    exact List.filter_sublist.map _
  case stands =>
    intro id
    have stands := placed.stands id
    constructor
    case queued =>
      intro queued
      apply List.mem_filter.mpr
      have queued : q.taskState id = some .queued := queued
      exact ⟨stands.queued queued, by simp [isQueued, queued]⟩
    case waiting =>
      intro task known waits
      obtain ⟨notBefore, time, member⟩ := stands.waiting task known waits
      refine ⟨notBefore, time, List.mem_filter.mpr ⟨member, ?_⟩⟩
      exact isWaiting_iff.mpr ⟨task, known, waits⟩
    case ready =>
      intro member
      exact stands.ready (List.mem_filter.mp member).1
    case scheduled =>
      intro member
      obtain ⟨w, listed, rfl⟩ := List.mem_map.mp member
      exact stands.scheduled (List.mem_map_of_mem (List.mem_filter.mp listed).1)
    case withdrawn => exact stands.withdrawn

/-- What comes to the same on a queue and on the tidy one does so on queues that are alike. -/
theorem congr_of_tidy {α : Type} {f : Queue → α × Queue} (alike : p.tidy = q.tidy)
    (here : Prod.map id tidy (f p.tidy) = Prod.map id tidy (f p))
    (there : Prod.map id tidy (f q.tidy) = Prod.map id tidy (f q)) :
    Prod.map id tidy (f p) = Prod.map id tidy (f q) := by
  rw [← here, ← there, alike]

/-! ### Queues in use -/

namespace Proper

theorem once (proper : q.Proper) : q.named.Nodup := by
  obtain ⟨_, placed⟩ := proper.placed
  exact placed.once

theorem once_scheduled (proper : q.Proper) : (q.scheduled.map (·.task)).Nodup :=
  (List.nodup_append.mp proper.once).2.1

theorem not_mem_scheduled (proper : q.Proper) (ready : i ∈ q.ready) :
    i ∉ q.scheduled.map (·.task) := by
  intro member
  exact (List.nodup_append.mp proper.once).2.2 i ready i member rfl

theorem next_not_mem (proper : q.Proper) :
    (⟨q.created + 1⟩ : TaskId) ∉ q.ready ∧ ∀ w ∈ q.scheduled, w.task ≠ ⟨q.created + 1⟩ := by
  obtain ⟨_, placed⟩ := proper.placed
  have unnamed := placed.not_mem_named_next proper.kept
  constructor
  · intro member
    exact unnamed (List.mem_append_left _ member)
  · intro w member same
    exact unnamed (List.mem_append_right _ (List.mem_map.mpr ⟨w, member, same⟩))

theorem not_mem_of_running (proper : q.Proper) (known : q.task? i = some task)
    (runs : task.state = .running) : ∀ w ∈ q.scheduled, w.task ≠ i := by
  obtain ⟨_, placed⟩ := proper.placed
  intro w member same
  exact placed.not_named known runs (List.mem_append_right _ (List.mem_map.mpr ⟨w, member, same⟩))

theorem look (proper : q.Proper) (now : Nat) : (q.look now).2.Proper := by
  obtain ⟨withdrawn, placed⟩ := proper.placed
  exact ⟨proper.kept.look now, ⟨withdrawn, placed.look now⟩, proper.ordered.look now⟩

theorem cancel (proper : q.Proper) (known : q.task? i = some task)
    (live : task.state.isTerminal = false) (now : Nat) :
    (q.finish i (·.cancel now)).Proper := by
  obtain ⟨withdrawn, placed⟩ := proper.placed
  refine ⟨proper.kept.finish known live rfl, ⟨fun j => withdrawn j ∨ j = i, ?_⟩,
    proper.ordered.finish i _⟩
  apply placed.finish proper.kept known rfl
  · intro j other
    simp [other]
  · intro _
    exact Or.inr rfl
  · intro _
    rfl

theorem tidy (proper : q.Proper) : q.tidy.Proper := by
  obtain ⟨withdrawn, placed⟩ := proper.placed
  exact ⟨proper.kept.congr rfl rfl rfl, ⟨withdrawn, placed.tidy⟩,
    proper.ordered.sublist List.filter_sublist⟩

end Proper

/-! ### Promoting and looking -/

theorem dueTasks_tidy (proper : q.Proper) (now : Nat) : q.tidy.dueTasks now = q.dueTasks now := by
  unfold dueTasks
  rw [takeWhile_due proper.ordered, takeWhile_due proper.tidy.ordered]
  simp only [tidy, List.filter_map, List.filter_filter]
  congr 1
  apply List.filter_congr
  intro w _
  change (q.isWaiting w.task && (decide (w.notBefore ≤ now) && q.isWaiting w.task)) =
    (q.isWaiting w.task && decide (w.notBefore ≤ now))
  cases q.isWaiting w.task <;> simp

/-- A promotion queues a task for an entry of the schedule whose time has come. -/
theorem entry_of_mem_dueTasks (ordered : InOrder q.scheduled) {now : Nat}
    (due : i ∈ q.dueTasks now) : ∃ w ∈ q.scheduled, w.notBefore ≤ now ∧ w.task = i := by
  have due := (List.mem_filter.mp due).1
  rw [takeWhile_due ordered] at due
  obtain ⟨w, listed, same⟩ := List.mem_map.mp due
  obtain ⟨member, early⟩ := List.mem_filter.mp listed
  exact ⟨w, member, of_decide_eq_true early, same⟩

/-- Of the tasks that are ready, a promotion leaves queued those that were, and adds what is due. -/
theorem filter_ready_promoteDue (proper : q.Proper) (now : Nat) :
    (q.promoteDue now).ready.filter (q.promoteDue now).isQueued =
      q.tidy.ready ++ q.dueTasks now := by
  have once := proper.once_scheduled
  have ready : (q.promoteDue now).ready = q.ready ++ q.dueTasks now := by
    rw [promoteDue_of_once once]
  rw [ready, List.filter_append]
  congr 1
  · apply List.filter_congr
    intro i member
    -- A task that is ready has no entry in the schedule.
    have absent : i ∉ q.dueTasks now := by
      intro due
      obtain ⟨w, listed, _, rfl⟩ := entry_of_mem_dueTasks proper.ordered due
      exact proper.not_mem_scheduled member (List.mem_map_of_mem listed)
    rw [isQueued, isQueued, taskState_promoteDue_of_not_due once absent]
  · rw [List.filter_eq_self]
    intro i due
    exact isQueued_promoteDue_of_due once due

/-- What is still to come after a promotion waits as it did before. -/
theorem filter_scheduled_promoteDue (proper : q.Proper) (now : Nat) :
    ((q.promoteDue now).scheduled.filter fun w => (q.promoteDue now).isWaiting w.task) =
      q.tidy.scheduled.dropWhile (·.notBefore ≤ now) := by
  have once := proper.once_scheduled
  rw [scheduled_promoteDue, dropWhile_due proper.ordered, dropWhile_due proper.tidy.ordered]
  simp only [tidy, List.filter_filter]
  apply List.filter_congr
  intro w member
  by_cases later : now < w.notBefore
  -- A task has one entry, and this one is not due.
  · have absent : w.task ∉ q.dueTasks now := by
      intro due
      obtain ⟨v, listed, early, same⟩ := entry_of_mem_dueTasks proper.ordered due
      have := List.inj_on_of_nodup_map once listed member same
      subst this
      omega
    simp [later, isWaiting, taskState_promoteDue_of_not_due once absent]
  · simp [later]

/-- It makes no difference whether stale entries are dropped before or after a promotion. -/
theorem tidy_promoteDue (proper : q.Proper) (now : Nat) :
    (q.promoteDue now).tidy = q.tidy.promoteDue now := by
  have whole := promoteDue_of_once proper.once_scheduled now
  calc (q.promoteDue now).tidy
      = { q.promoteDue now with
          ready := q.tidy.ready ++ q.dueTasks now
          scheduled := q.tidy.scheduled.dropWhile (·.notBefore ≤ now) } := by
        rw [tidy, filter_ready_promoteDue proper, filter_scheduled_promoteDue proper]
    _ = q.tidy.promoteDue now := by
        rw [whole, promoteDue_of_once proper.tidy.once_scheduled, dueTasks_tidy proper]
        rfl

theorem firstRunnable_tidy (q : Queue) (ids : List TaskId) :
    q.tidy.firstRunnable ids = q.firstRunnable ids := by
  induction ids with
  | nil => rfl
  | cons id ids ih =>
    have known : q.tidy.task? id = q.task? id := rfl
    simp only [firstRunnable, known, ih]

/-- Entries of tasks that are not queued are passed over. -/
theorem firstRunnable_filter (q : Queue) (ids : List TaskId) :
    q.firstRunnable (ids.filter q.isQueued) = (q.firstRunnable ids).map fun (id, task, rest) =>
      (id, task, rest.filter q.isQueued) := by
  induction ids with
  | nil => rfl
  | cons id ids ih =>
    cases known : q.task? id with
    | none =>
      have stale : q.isQueued id = false := by simp [isQueued, taskState, known]
      simp [firstRunnable, known, stale, ih]
    | some task =>
      cases runs : task.state.isRunnable with
      | true =>
        have queued : q.isQueued id = true :=
          isQueued_iff.mpr ⟨task, known, TaskState.eq_queued_of_isRunnable runs⟩
        simp [firstRunnable, known, queued, runs]
      | false =>
        have stale : q.isQueued id = false := by
          rw [Bool.eq_false_iff, ne_eq, isQueued_iff]
          rintro ⟨other, found, state⟩
          rw [known, Option.some.injEq] at found
          subst found
          rw [state] at runs
          cases runs
        simp [firstRunnable, known, stale, runs, ih]

/-- A task that starts leaves every other task as it was. -/
theorem isQueued_of_modify_start (h : (q.modify j (·.start now)).isQueued i = true) :
    q.isQueued i = true := by
  obtain ⟨task, known, state⟩ := isQueued_iff.mp h
  rw [task?_modify] at known
  split at known
  · obtain ⟨other, found, rfl⟩ := Option.map_eq_some_iff.mp known
    cases state
  · exact isQueued_iff.mpr ⟨task, known, state⟩

theorem isWaiting_of_modify_start (h : (q.modify j (·.start now)).isWaiting i = true) :
    q.isWaiting i = true := by
  obtain ⟨task, known, waits⟩ := isWaiting_iff.mp h
  rw [task?_modify] at known
  split at known
  · obtain ⟨other, found, rfl⟩ := Option.map_eq_some_iff.mp known
    cases waits
  · exact isWaiting_iff.mpr ⟨task, known, waits⟩

/-- A look comes to the same on the tidy queue. -/
theorem tidy_look (proper : q.Proper) (now : Nat) :
    Prod.map Look.withoutWake tidy (q.tidy.look now) =
      Prod.map Look.withoutWake tidy (q.look now) := by
  unfold look
  rw [closed_tidy]
  cases q.closed with
  | true => simp [Prod.map]
  | false =>
    simp only [Bool.false_eq_true, if_false, ← tidy_promoteDue proper]
    generalize q.promoteDue now = p
    have first : p.tidy.firstRunnable p.tidy.ready = _ :=
      (p.firstRunnable_tidy _).trans (p.firstRunnable_filter p.ready)
    rw [first]
    cases found : p.firstRunnable p.ready with
    | none =>
      simp only [Option.map_none, Prod.map, Look.withoutWake, Prod.mk.injEq, true_and]
      exact tidy_with_rows (q := p) rfl (filter_filter_of_imp fun _ _ waits => waits)
    | some hit =>
      obtain ⟨id, task, rest⟩ := hit
      simp only [Option.map_some, Prod.map, Prod.mk.injEq]
      refine ⟨rfl, ?_⟩
      -- The task that is handed out is neither queued nor waiting any more.
      refine tidy_with_rows (q := { p.modify id (·.start now) with leases := p.leases + 1 })
        (filter_filter_of_imp fun _ _ => ?_) (filter_filter_of_imp fun _ _ => ?_)
      · exact isQueued_of_modify_start (q := p)
      · exact isWaiting_of_modify_start (q := p)

/-! ### Enqueuing -/

/-- Where tasks stood before has no part in what an enqueue does, but for the two rows. -/
theorem insert_with_rows (q : Queue) (ready : List TaskId) (scheduled : List Wakeup) (now : Nat)
    (job : Job) (delay : Delay) (key : Option Key) :
    ({ q with ready, scheduled } : Queue).insert now job delay key =
      (⟨q.created + 1⟩, { (q.insert now job delay key).2 with
        ready := if delay.isZero then ready ++ [⟨q.created + 1⟩] else ready
        scheduled := if delay.isZero then scheduled
          else addWakeup ⟨Clock.deadline now delay.duration, ⟨q.created + 1⟩⟩ scheduled }) := by
  unfold insert
  cases key <;> cases atOnce : delay.isZero <;>
    simp only [Bool.false_eq_true, if_true, if_false] <;> rfl

theorem tidy_insert (proper : q.Proper) (now : Nat) (job : Job) (delay : Delay)
    (key : Option Key) :
    Prod.map id tidy (q.tidy.insert now job delay key) =
      Prod.map id tidy (q.insert now job delay key) := by
  obtain ⟨unready, unscheduled⟩ := proper.next_not_mem
  have known := task?_insert proper.kept now job delay key
  have here := insert_with_rows q q.ready q.scheduled now job delay key
  have there := insert_with_rows q q.tidy.ready q.tidy.scheduled now job delay key
  change q.insert now job delay key = _ at here
  change q.tidy.insert now job delay key = _ at there
  rw [here, there]
  generalize (q.insert now job delay key).2 = after at known
  -- An entry of another task than the new one is as stale as before.
  have queued : ∀ i ∈ q.ready, after.isQueued i = true → q.isQueued i = true := by
    intro i member
    have old : i ≠ ⟨q.created + 1⟩ := by
      rintro rfl
      exact unready member
    simp [isQueued, taskState, known, old]
  have waiting : ∀ w ∈ q.scheduled, after.isWaiting w.task = true → q.isWaiting w.task = true := by
    intro w member
    simp [isWaiting, taskState, known, unscheduled w member]
  simp only [Prod.map, Prod.mk.injEq, id_eq, true_and]
  cases atOnce : delay.isZero with
  | true =>
    apply tidy_with_rows (q := after)
    · simp only [if_true, List.filter_append]
      congr 1
      exact filter_filter_of_imp queued
    · exact filter_filter_of_imp waiting
  | false =>
    have waits : after.isWaiting ⟨q.created + 1⟩ = true := by
      rw [isWaiting_iff]
      refine ⟨_, (known _).trans (if_pos rfl), ?_⟩
      simp [Task.fresh, atOnce, Task.holdBack, TaskState.isWaiting]
    apply tidy_with_rows (q := after)
    · exact filter_filter_of_imp queued
    · simp only [Bool.false_eq_true, if_false]
      rw [filter_addWakeup proper.ordered waits, filter_addWakeup proper.tidy.ordered waits]
      congr 1
      exact filter_filter_of_imp waiting

theorem tidy_enqueueDelayed (proper : q.Proper) (now : Nat) (job : Job) (delay : Delay) :
    Prod.map id tidy (q.tidy.enqueueDelayed now job delay) =
      Prod.map id tidy (q.enqueueDelayed now job delay) := by
  have inserted := tidy_insert proper now job delay none
  unfold enqueueDelayed
  rw [closed_tidy]
  cases q.closed with
  | true => simp [Prod.map]
  | false =>
    simp only [Prod.map, Prod.mk.injEq, id_eq] at inserted
    simp [Prod.map, inserted]

/-- Finishing a task leaves the rows alone. -/
theorem finish_tidy (q : Queue) (i : TaskId) (f : Task → Task) :
    q.tidy.finish i f =
      { q.finish i f with ready := q.tidy.ready, scheduled := q.tidy.scheduled } := by
  have same : (q.tidy.modify i f).task? i = (q.modify i f).task? i := rfl
  unfold finish retire
  rw [same]
  have totals : (q.tidy.modify i f).totals = (q.modify i f).totals := rfl
  rw [totals]
  cases ((q.modify i f).task? i).bind fun task => addTotal? (q.modify i f).totals task.state <;> rfl

/-- A task that has ended is neither queued nor waiting, and the others are as they were. -/
theorem of_finish (known : q.task? i = some task) {f : Task → Task}
    (ends : (f task).state.isTerminal = true) :
    ((q.finish i f).isQueued j = true → q.isQueued j = true) ∧
      ((q.finish i f).isWaiting j = true → q.isWaiting j = true) := by
  have view := task?_finish (f := f) known ends j
  have ended : (f task).state ≠ .queued ∧ (f task).state.isWaiting = false := by
    cases state : (f task).state <;>
      simp [state, TaskState.isTerminal, TaskState.isWaiting] at ends ⊢
  constructor
  · intro queued
    obtain ⟨other, found, state⟩ := isQueued_iff.mp queued
    rw [view] at found
    split at found
    · cases found
    · split at found
      · cases found
        exact absurd state ended.1
      · exact isQueued_iff.mpr ⟨other, found, state⟩
  · intro waiting
    obtain ⟨other, found, waits⟩ := isWaiting_iff.mp waiting
    rw [view] at found
    split at found
    · cases found
    · split at found
      · cases found
        rw [ended.2] at waits
        cases waits
      · exact isWaiting_iff.mpr ⟨other, found, waits⟩

theorem tidy_finish (known : q.task? i = some task) {f : Task → Task}
    (ends : (f task).state.isTerminal = true) :
    (q.tidy.finish i f).tidy = (q.finish i f).tidy := by
  have rows : q.finish i f = { q.finish i f with ready := q.ready, scheduled := q.scheduled } := by
    rw [← ready_finish q i f, ← scheduled_finish q i f]
  rw [finish_tidy, rows]
  exact tidy_with_rows (q := q.finish i f)
    (filter_filter_of_imp fun j _ => (of_finish known ends).1)
    (filter_filter_of_imp fun w _ => (of_finish known ends).2)

/-- The holder of a key is looked up among the tasks. -/
theorem liveHolder_tidy (q : Queue) (key : Key) : q.tidy.liveHolder key = q.liveHolder key := rfl

theorem tidy_enqueueUnique (proper : q.Proper) (now : Nat) (key : Key) (policy : HolderPolicy)
    (job : Job) :
    Prod.map id tidy (q.tidy.enqueueUnique now key policy job) =
      Prod.map id tidy (q.enqueueUnique now key policy job) := by
  have inserted : ∀ {p : Queue}, p.Proper →
      Prod.map id tidy (p.tidy.insert now job Delay.zero (some key)) =
        Prod.map id tidy (p.insert now job Delay.zero (some key)) := fun proper =>
    tidy_insert proper now job Delay.zero (some key)
  unfold enqueueUnique
  rw [closed_tidy, liveHolder_tidy]
  cases q.closed with
  | true => simp [Prod.map]
  | false =>
    rw [if_neg Bool.false_ne_true, if_neg Bool.false_ne_true]
    cases held : q.liveHolder key with
    | none =>
      have inserted := inserted proper
      simp only [Prod.map, Prod.mk.injEq, id_eq] at inserted
      simp [Prod.map, inserted]
    | some found =>
      obtain ⟨holder, state⟩ := found
      cases policy with
      | keepExisting => simp [Prod.map]
      | replace =>
        obtain ⟨_, task, known, _, live⟩ := of_liveHolder held
        -- The old task is cancelled in both queues before the new one comes.
        have cancelled := tidy_finish (f := (·.cancel now)) known rfl
        have both := inserted (proper.tidy.cancel known live now)
        rw [cancelled, inserted (proper.cancel known live now)] at both
        have answers := congrArg (fun r : TaskId × Queue =>
          ((.ok (.replaced holder r.1) : Except QueueError Placement), r.2)) both.symm
        by_cases runs : state = .running
        · subst runs
          simp [Prod.map]
        · cases state <;> first | exact absurd rfl runs | exact answers

/-! ### Completing -/

theorem tidy_settle (known : q.task? i = some task) {f : Task → Task}
    (ends : (f task).state.isTerminal = true) :
    (q.tidy.settle i task f).tidy = (q.settle i task f).tidy := by
  have finished := tidy_finish known ends
  exact congrArg (fun p : Queue => { p with
    holders := q.holders.filter fun h => !decide (task.key = some h.1 ∧ h.2 = i) }) finished

/-- A task that is to be tried again waits, under the one entry that it has. -/
theorem tidy_retry (proper : q.Proper) (known : q.task? i = some task)
    (runs : task.state = .running) (t : Nat) :
    ((q.tidy.modify i (·.scheduleRetry t now)).schedule t i).tidy =
      ((q.modify i (·.scheduleRetry t now)).schedule t i).tidy := by
  have unscheduled := proper.not_mem_of_running known runs
  have here := task?_modify_self (f := (·.scheduleRetry t now)) known
  have view : ∀ j, (q.modify i (·.scheduleRetry t now)).task? j = _ :=
    task?_modify q i (·.scheduleRetry t now)
  apply tidy_with_rows (q := q.modify i (·.scheduleRetry t now))
  · apply filter_filter_of_imp
    intro j _ queued
    obtain ⟨other, found, state⟩ := isQueued_iff.mp queued
    by_cases same : j = i
    · subst same
      rw [here, Option.some.injEq] at found
      subst found
      cases state
    · rw [view, if_neg same] at found
      exact isQueued_iff.mpr ⟨other, found, state⟩
  · have waits : (q.modify i (·.scheduleRetry t now)).isWaiting i = true :=
      isWaiting_iff.mpr ⟨_, here, rfl⟩
    have added : ∀ {ws}, InOrder ws → _ = _ := fun {ws} order =>
      filter_addWakeup (w := ⟨t, i⟩)
        (p := fun w => (q.modify i (·.scheduleRetry t now)).isWaiting w.task) order waits
    refine (added proper.tidy.ordered).trans (Eq.trans ?_ (added proper.ordered).symm)
    congr 1
    apply filter_filter_of_imp
    intro w member waiting
    obtain ⟨other, found, waits⟩ := isWaiting_iff.mp waiting
    rw [view, if_neg (unscheduled w member)] at found
    exact isWaiting_iff.mpr ⟨other, found, waits⟩

/-- A running task is completed alike. -/
theorem tidy_complete (proper : q.Proper) (known : q.task? i = some task)
    (runs : task.state = .running) (now : Nat) (outcome : Outcome) :
    Prod.map id tidy (q.tidy.complete now i outcome) =
      Prod.map id tidy (q.complete now i outcome) := by
  have found : q.tidy.task? i = some task := known
  have sameBackoff : q.tidy.backoff = q.backoff := rfl
  cases outcome with
  | success =>
    rw [complete_success known, complete_success found]
    simp [Prod.map, tidy_settle (f := (·.succeed now)) known rfl]
  | retry =>
    cases allowed : q.backoff.allowsRetry task.attempts with
    | false =>
      rw [complete_dead known now allowed, complete_dead found now allowed]
      simp [Prod.map, tidy_settle (f := (·.die now)) known rfl]
    | true =>
      cases wait : q.backoff.nextDelay task.attempts with
      | error error =>
        rw [complete_noDelay known now allowed wait, complete_noDelay found now allowed wait]
        simp [Prod.map]
      | ok delay =>
        rw [complete_retry known now allowed wait, complete_retry found now allowed wait]
        simp [Prod.map, tidy_retry proper known runs]

/-! ### Queues that are alike -/

theorem enqueueDelayed_congr (proper : p.Proper) (proper' : q.Proper) (alike : p.tidy = q.tidy)
    (now : Nat) (job : Job) (delay : Delay) :
    Prod.map id tidy (p.enqueueDelayed now job delay) =
      Prod.map id tidy (q.enqueueDelayed now job delay) :=
  congr_of_tidy (f := (·.enqueueDelayed now job delay)) alike
    (tidy_enqueueDelayed proper now job delay) (tidy_enqueueDelayed proper' now job delay)

theorem enqueueUnique_congr (proper : p.Proper) (proper' : q.Proper) (alike : p.tidy = q.tidy)
    (now : Nat) (key : Key) (policy : HolderPolicy) (job : Job) :
    Prod.map id tidy (p.enqueueUnique now key policy job) =
      Prod.map id tidy (q.enqueueUnique now key policy job) :=
  congr_of_tidy (f := (·.enqueueUnique now key policy job)) alike
    (tidy_enqueueUnique proper now key policy job) (tidy_enqueueUnique proper' now key policy job)

theorem complete_congr (proper : p.Proper) (proper' : q.Proper) (alike : p.tidy = q.tidy)
    (known : p.task? i = some task) (runs : task.state = .running) (now : Nat)
    (outcome : Outcome) :
    Prod.map id tidy (p.complete now i outcome) = Prod.map id tidy (q.complete now i outcome) := by
  have known' : q.task? i = some task := by rw [← task?_of_tidy_eq alike, known]
  exact congr_of_tidy (f := (·.complete now i outcome)) alike
    (tidy_complete proper known runs now outcome) (tidy_complete proper' known' runs now outcome)

theorem look_congr (proper : p.Proper) (proper' : q.Proper) (alike : p.tidy = q.tidy) (now : Nat) :
    Prod.map Look.withoutWake tidy (p.look now) = Prod.map Look.withoutWake tidy (q.look now) := by
  rw [← tidy_look proper, ← tidy_look proper', alike]

theorem close_congr (alike : p.tidy = q.tidy) : p.close.tidy = q.close.tidy :=
  congrArg close alike

theorem counts_of_tidy_eq (alike : p.tidy = q.tidy) : p.counts = q.counts := by
  have counts : p.tidy.counts = q.tidy.counts := congrArg counts alike
  exact counts

theorem taskState_of_tidy_eq (alike : p.tidy = q.tidy) (i : TaskId) :
    p.taskState i = q.taskState i := by
  rw [taskState, taskState, task?_of_tidy_eq alike]

end Queue

end PacedChain
