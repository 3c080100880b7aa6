import Mathlib.Order.Bounds.Basic
import Mathlib.Order.Lattice.Nat
import PacedChain.Proofs.Queue.History
import PacedChain.Proofs.Queue.Tidy

/-!
# When a lease is handed out

A queued task is due at once and a waiting one at the time it waits for (`Queue.DueAt`). A look
hands out a task that is due, and if none is, it leaves all tasks alone and names a time that is not
later than that of any task. So a wait ends with the first look at which a task is due, however many
stale entries it has looked at in between (`Queue.leaseBy_awaited`), and stale entries make no
difference to it (`Queue.leaseBy_congr`).
-/
namespace PacedChain

/-- When a task can be handed out, as seen at `now`. -/
def Task.dueTime? (now : Nat) (task : Task) : Option Nat :=
  match task.state with
  | .queued => some now
  | .delayed | .retryScheduled => task.notBefore
  | _ => none

/-- The time of the look at which a task due at `due` is found from `now` on. -/
def Clock.lookFor (now due : Nat) : Nat := if due ≤ now then now else wholeMilli due

/-- Looks that are made at whole milliseconds only are as good as that. -/
theorem Clock.lookFor_of_le {now next due : Nat} (whole : wholeMilli next = next)
    (early : now < due) (reached : next ≤ wholeMilli due) : lookFor next due = lookFor now due := by
  unfold lookFor
  rw [if_neg (Nat.not_le.mpr early)]
  split
  · rename_i due_by_then
    have := wholeMilli_mono due_by_then
    omega
  · rfl

theorem Clock.wholeMilli_wholeMilli (t : Nat) : wholeMilli (wholeMilli t) = wholeMilli t :=
  wholeMilli_eq_self (milli_dvd_wholeMilli t)

namespace Queue

variable {p q q' : Queue} {i : TaskId} {task : Task} {now deadline due : Nat} {lease : Lease}

/-- A task that is kept is due at a time. -/
def DueAt (q : Queue) (now : Nat) (id : TaskId) (due : Nat) : Prop :=
  ∃ task, q.task? id = some task ∧ task.dueTime? now = some due

def dueTimes (q : Queue) (now : Nat) : Set Nat := { due | ∃ id, q.DueAt now id due }

theorem dueTimes_of_tidy_eq (alike : p.tidy = q.tidy) (now : Nat) :
    p.dueTimes now = q.dueTimes now := by
  simp only [dueTimes, DueAt, task?_of_tidy_eq alike]

theorem closed_of_tidy_eq (alike : p.tidy = q.tidy) : p.closed = q.closed := by
  have same : p.tidy.closed = q.tidy.closed := congrArg Queue.closed alike
  rwa [closed_tidy, closed_tidy] at same

theorem dueAt_of_queued (known : q.task? i = some task) (queued : task.state = .queued) :
    q.DueAt now i now :=
  ⟨task, known, by simp [Task.dueTime?, queued]⟩

theorem dueAt_of_waiting (known : q.task? i = some task) (waits : task.state.isWaiting = true)
    (time : task.notBefore = some due) : q.DueAt now i due := by
  refine ⟨task, known, ?_⟩
  cases state : task.state <;> simp_all [TaskState.isWaiting, Task.dueTime?]

/-- A task that is due at a time is queued or waits for that time. -/
theorem DueAt.cases (h : q.DueAt now i due) :
    ∃ task, q.task? i = some task ∧
      (task.state = .queued ∧ due = now ∨
        task.state.isWaiting = true ∧ task.notBefore = some due) := by
  obtain ⟨task, known, time⟩ := h
  refine ⟨task, known, ?_⟩
  unfold Task.dueTime? at time
  cases state : task.state <;> simp_all [TaskState.isWaiting]

/-- Where no task is queued, it does not matter when one asks. -/
theorem DueAt.later (h : q.DueAt now i due) (none_queued : ∀ i, q.isQueued i = false) (next : Nat) :
    q.DueAt next i due := by
  obtain ⟨task, known, ⟨queued, _⟩ | ⟨waits, time⟩⟩ := h.cases
  · have queued := isQueued_iff.mpr ⟨task, known, queued⟩
    rw [none_queued] at queued
    cases queued
  · exact dueAt_of_waiting known waits time

/-! ### What is due and what a promotion finds -/

/-- In the schedule, a waiting task stands under the time that it waits for. -/
theorem Proper.entry (proper : q.Proper) (known : q.task? i = some task)
    (waits : task.state.isWaiting = true) :
    ∃ notBefore, task.notBefore = some notBefore ∧ ⟨notBefore, i⟩ ∈ q.scheduled := by
  obtain ⟨_, placed⟩ := proper.placed
  exact (placed.stands i).waiting task known waits

/-- Each task has one entry only, so an entry of a waiting task has the time that it waits for. -/
theorem Proper.time_of_entry (proper : q.Proper) {w : Wakeup} (member : w ∈ q.scheduled)
    (waiting : q.isWaiting w.task = true) :
    ∃ task, q.task? w.task = some task ∧ task.state.isWaiting = true ∧
      task.notBefore = some w.notBefore := by
  obtain ⟨task, known, waits⟩ := isWaiting_iff.mp waiting
  obtain ⟨notBefore, time, listed⟩ := proper.entry known waits
  have same := List.inj_on_of_nodup_map proper.once_scheduled listed member rfl
  exact ⟨task, known, waits, by rw [time, ← same]⟩

/-- A promotion queues the waiting tasks whose time has come, and no others. -/
theorem mem_dueTasks_iff (proper : q.Proper) : i ∈ q.dueTasks now ↔
    ∃ task notBefore, q.task? i = some task ∧ task.state.isWaiting = true ∧
      task.notBefore = some notBefore ∧ notBefore ≤ now := by
  simp only [dueTasks, takeWhile_due proper.ordered, List.mem_filter, List.mem_map,
    decide_eq_true_eq]
  constructor
  · rintro ⟨⟨w, ⟨listed, early⟩, rfl⟩, waiting⟩
    obtain ⟨task, known, waits, time⟩ := proper.time_of_entry listed waiting
    exact ⟨task, w.notBefore, known, waits, time, early⟩
  · rintro ⟨task, notBefore, known, waits, time, early⟩
    obtain ⟨_, time', member⟩ := proper.entry known waits
    rw [time, Option.some.injEq] at time'
    subst time'
    exact ⟨⟨_, ⟨member, early⟩, rfl⟩, isWaiting_iff.mpr ⟨task, known, waits⟩⟩

/-- What is queued after a promotion was due. -/
theorem dueAt_of_isQueued_promoteDue (proper : q.Proper)
    (queued : (q.promoteDue now).isQueued i = true) : ∃ due, q.DueAt now i due ∧ due ≤ now := by
  by_cases among : i ∈ q.dueTasks now
  · obtain ⟨task, notBefore, known, waits, time, early⟩ := (mem_dueTasks_iff proper).mp among
    exact ⟨notBefore, dueAt_of_waiting known waits time, early⟩
  · rw [isQueued, taskState_promoteDue_of_not_due proper.once_scheduled among] at queued
    obtain ⟨task, known, state⟩ := isQueued_iff.mp queued
    exact ⟨now, dueAt_of_queued known state, Nat.le_refl _⟩

/-- What is due is queued after a promotion. -/
theorem isQueued_promoteDue (proper : q.Proper) (h : q.DueAt now i due) (early : due ≤ now) :
    (q.promoteDue now).isQueued i = true := by
  have once := proper.once_scheduled
  by_cases among : i ∈ q.dueTasks now
  · exact isQueued_promoteDue_of_due once among
  · obtain ⟨task, known, ⟨queued, _⟩ | ⟨waits, time⟩⟩ := h.cases
    · rw [isQueued, taskState_promoteDue_of_not_due once among]
      exact isQueued_iff.mpr ⟨task, known, queued⟩
    · exact absurd ((mem_dueTasks_iff proper).mpr ⟨task, due, known, waits, time, early⟩) among

/-! ### A look -/

/-- A task that is handed out is due. -/
theorem dueAt_of_look_leased (proper : q.Proper) (seen : q.look now = (.leased lease, q')) :
    ∃ due, q.DueAt now lease.envelope.task due ∧ due ≤ now := by
  rcases look_cases q now with ⟨_, same⟩ | ⟨_, i, task, _, _, _, known, state, _, same⟩ |
    ⟨_, _, same⟩ <;> rw [same] at seen <;> cases seen
  exact dueAt_of_isQueued_promoteDue proper (isQueued_iff.mpr ⟨task, known, state⟩)

theorem opened_of_look {seen : Look} (h : q.look now = (seen, q')) (goes_on : seen ≠ .closed) :
    q.closed = false := by
  rcases look_cases q now with ⟨_, same⟩ | ⟨opened, _⟩ | ⟨opened, _⟩
  · cases same.symm.trans h
    exact absurd rfl goes_on
  · exact opened
  · exact opened

/-- Entries of a schedule in order come after its first one. -/
theorem InOrder.head_le {ws : List Wakeup} {w : Wakeup} (order : InOrder ws) (member : w ∈ ws) :
    ∃ wake, ws.head?.map (·.notBefore) = some wake ∧ wake ≤ w.notBefore := by
  cases ws with
  | nil => cases member
  | cons v rest =>
    refine ⟨v.notBefore, rfl, ?_⟩
    rcases List.mem_cons.mp member with rfl | behind
    · exact Nat.le_refl _
    · exact (List.pairwise_cons.mp order).1 w behind

/-- A look that finds nothing has dropped stale entries only, and no task is due before the time
that it names. -/
structure Idle (q : Queue) (now : Nat) (wake : Option Nat) (q' : Queue) : Prop where
  proper : q'.Proper
  alike : q'.tidy = q.tidy
  later : ∀ due ∈ q.dueTimes now, now < due ∧ ∃ t, wake = some t ∧ t ≤ due

/-- Nothing is due yet. -/
def Early (q : Queue) (now : Nat) : Prop := ∀ i due, q.DueAt now i due → now < due

namespace Early

theorem none_queued (early : q.Early now) (i : TaskId) : q.isQueued i = false := by
  rw [Bool.eq_false_iff, ne_eq, isQueued_iff]
  rintro ⟨task, known, state⟩
  exact absurd (early i now (dueAt_of_queued known state)) (Nat.lt_irrefl _)

theorem of_task (early : q.Early now) (known : q.task? i = some task)
    (waits : task.state.isWaiting = true) (time : task.notBefore = some due) : now < due :=
  early i due (dueAt_of_waiting known waits time)

/-- A promotion before its time drops stale entries only. -/
theorem promoteDue (early : q.Early now) (proper : q.Proper) :
    q.promoteDue now = { q with scheduled := q.scheduled.filter fun w => now < w.notBefore } := by
  have no_tasks : q.dueTasks now = [] := by
    rw [List.eq_nil_iff_forall_not_mem]
    intro i among
    obtain ⟨task, notBefore, known, waits, time, late⟩ := (mem_dueTasks_iff proper).mp among
    have := early.of_task known waits time
    omega
  rw [promoteDue_of_once proper.once_scheduled, no_tasks, dropWhile_due proper.ordered]
  simp [revise, requeueAmong]

/-- The first entry after a promotion is not later than any task. -/
theorem wake_le (early : q.Early now) (proper : q.Proper) (h : q.DueAt now i due) :
    ∃ wake, (q.promoteDue now).scheduled.head?.map (·.notBefore) = some wake ∧ wake ≤ due := by
  have order : InOrder (q.scheduled.filter fun w => now < w.notBefore) :=
    proper.ordered.sublist List.filter_sublist
  obtain ⟨task, known, ⟨queued, _⟩ | ⟨waits, time⟩⟩ := h.cases
  · have queued := isQueued_iff.mpr ⟨task, known, queued⟩
    rw [early.none_queued] at queued
    cases queued
  · obtain ⟨_, time', listed⟩ := proper.entry known waits
    rw [time, Option.some.injEq] at time'
    subst time'
    rw [early.promoteDue proper]
    exact order.head_le (List.mem_filter.mpr ⟨listed, decide_eq_true (early i due h)⟩)

end Early

/-- Where nothing is queued after a promotion, nothing was due. -/
theorem early_of_promoteDue (proper : q.Proper)
    (nothing : ∀ i, (q.promoteDue now).isQueued i = false) : q.Early now := by
  intro i due h
  by_contra late
  have queued := isQueued_promoteDue proper h (Nat.not_lt.mp late)
  rw [nothing] at queued
  cases queued

theorem idle_of_look (proper : q.Proper) {wake : Option Nat}
    (seen : q.look now = (.idle wake, q')) : q.Idle now wake q' := by
  have after := proper.look now
  rw [seen] at after
  rcases look_cases q now with ⟨_, same⟩ | ⟨_, _, _, _, _, _, _, _, _, same⟩ |
    ⟨_, none, same⟩ <;> rw [same] at seen <;> cases seen
  have early : q.Early now := by
    obtain ⟨_, placed⟩ := proper.placed
    apply early_of_promoteDue proper
    intro i
    rw [Bool.eq_false_iff]
    intro queued
    have queued : (q.promoteDue now).taskState i = some .queued := by
      simpa [isQueued] using queued
    exact none i (((placed.promoteDue now).stands i).queued queued) queued
  refine ⟨after, ?_, ?_⟩
  · rw [early.promoteDue proper]
    apply tidy_with_rows (q := q)
    · symm
      simpa using fun i _ => early.none_queued i
    · apply filter_filter_of_imp
      intro w member waiting
      obtain ⟨task, known, waits, time⟩ := proper.time_of_entry member waiting
      exact decide_eq_true (early.of_task known waits time)
  · rintro due ⟨i, h⟩
    exact ⟨early i due h, early.wake_le proper h⟩

/-- Where no task is queued, the times at which tasks fall due stay the same. -/
theorem dueTimes_later (none_queued : ∀ i, q.isQueued i = false) (now next : Nat) :
    q.dueTimes next = q.dueTimes now := by
  ext due
  constructor
  · rintro ⟨i, h⟩
    exact ⟨i, h.later none_queued now⟩
  · rintro ⟨i, h⟩
    exact ⟨i, h.later none_queued next⟩

/-! ### A wait -/

/-- How a wait for a lease can end. -/
inductive Awaited (q : Queue) (now deadline : Nat) : Wait × Queue → Prop
  | closed : q.closed = true → Awaited q now deadline (.closed, q)
  /-- A task is due in time. It is found by a look at a queue that differs in stale entries only. -/
  | leased {first : Nat} {p q' : Queue} {lease : Lease} (opened : q.closed = false)
    (least : IsLeast (q.dueTimes now) first)
    (in_time : first ≤ now ∨ Clock.wholeMilli first ≤ deadline)
    (proper : p.Proper) (alike : p.tidy = q.tidy)
    (seen : p.look (Clock.lookFor now first) = (.leased lease, q')) :
    Awaited q now deadline (.leased lease (Clock.lookFor now first), q')
  | timedOut {q' : Queue} (opened : q.closed = false) (alike : q'.tidy = q.tidy)
    (late : ∀ due ∈ q.dueTimes now, now < due ∧ deadline < Clock.wholeMilli due) :
    Awaited q now deadline (.timedOut, q')

/-- A wait that begins at a later time, before which nothing falls due, comes to the same. -/
theorem Awaited.earlier {next : Nat} {r : Wait × Queue} (awaited : p.Awaited next deadline r)
    (alike : p.tidy = q.tidy) (opened : q.closed = false) (whole : Clock.wholeMilli next = next)
    (in_time : next ≤ deadline)
    (reached : ∀ due ∈ q.dueTimes now, now < due ∧ next ≤ Clock.wholeMilli due) :
    q.Awaited now deadline r := by
  have early : q.Early now := fun i due h => (reached due ⟨i, h⟩).1
  have times : p.dueTimes next = q.dueTimes now :=
    (dueTimes_of_tidy_eq alike next).trans (dueTimes_later early.none_queued now next)
  cases awaited with
  | closed shut =>
    rw [closed_of_tidy_eq alike, opened] at shut
    cases shut
  | leased _ least soon proper alike' seen =>
    rw [times] at least
    obtain ⟨later, after⟩ := reached _ least.1
    rw [Clock.lookFor_of_le whole later after] at seen ⊢
    refine .leased opened least (Or.inr ?_) proper (alike'.trans alike) seen
    rcases soon with by_then | soon
    · have := Clock.wholeMilli_mono by_then
      rw [whole] at this
      omega
    · exact soon
  | timedOut _ alike' late =>
    rw [times] at late
    refine .timedOut opened (alike'.trans alike) ?_
    intro due member
    exact ⟨(reached due member).1, (late due member).2⟩

/-- To go on waiting after a look that found nothing is to wait from the start. -/
theorem Idle.awaited {wake : Nat} (idle : q.Idle now (some wake) q') (opened : q.closed = false)
    (in_time : Clock.wholeMilli wake ≤ deadline) {r : Wait × Queue}
    (awaited : q'.Awaited (Clock.wholeMilli wake) deadline r) : q.Awaited now deadline r := by
  refine awaited.earlier idle.alike opened (Clock.wholeMilli_wholeMilli wake) in_time ?_
  intro due member
  obtain ⟨later, t, named, early⟩ := idle.later due member
  cases named
  exact ⟨later, Clock.wholeMilli_mono early⟩

/-- A wait ends with the first look at which a task is due, or at the deadline. -/
theorem leaseBy_awaited (proper : q.Proper) (now deadline : Nat) :
    q.Awaited now deadline (q.leaseBy now deadline) := by
  fun_induction q.leaseBy now deadline with
  | case1 q now q' seen =>
    rcases look_cases q now with ⟨shut, same⟩ | ⟨_, _, _, _, _, _, _, _, _, same⟩ |
      ⟨_, _, same⟩ <;> rw [same] at seen <;> cases seen
    exact .closed shut
  | case2 q now lease q' seen =>
    obtain ⟨due, h, early⟩ := dueAt_of_look_leased proper seen
    have least : IsLeast (q.dueTimes now) (sInf (q.dueTimes now)) :=
      ⟨Nat.sInf_mem ⟨due, _, h⟩, fun _ => Nat.sInf_le⟩
    have at_once : sInf (q.dueTimes now) ≤ now := Nat.le_trans (least.2 ⟨_, h⟩) early
    have now_eq : Clock.lookFor now (sInf (q.dueTimes now)) = now := if_pos at_once
    have awaited : q.Awaited now deadline
        (.leased lease (Clock.lookFor now (sInf (q.dueTimes now))), q') :=
      .leased (opened_of_look seen (by simp)) least (Or.inl at_once) proper rfl
        (by rw [now_eq]; exact seen)
    rwa [now_eq] at awaited
  | case3 q now q' seen =>
    have idle := idle_of_look proper seen
    refine .timedOut (opened_of_look seen (by simp)) idle.alike ?_
    intro due member
    obtain ⟨_, t, named, _⟩ := idle.later due member
    cases named
  | case4 q now wake q' seen next in_time ih =>
    have idle := idle_of_look proper seen
    exact idle.awaited (opened_of_look seen (by simp)) in_time (ih idle.proper)
  | case5 q now wake q' seen next late =>
    have idle := idle_of_look proper seen
    refine .timedOut (opened_of_look seen (by simp)) idle.alike ?_
    intro due member
    obtain ⟨later, t, named, early⟩ := idle.later due member
    cases named
    have := Clock.wholeMilli_mono early
    exact ⟨later, by omega⟩

/-! ### Stale entries make no difference -/

/-- How a wait ends is settled by when tasks are due, but for stale entries. -/
theorem Awaited.unique {r r' : Wait × Queue} (here : p.Awaited now deadline r)
    (there : q.Awaited now deadline r') (alike : p.tidy = q.tidy) :
    Prod.map id tidy r = Prod.map id tidy r' := by
  have closed := closed_of_tidy_eq alike
  have times := dueTimes_of_tidy_eq alike now
  cases here with
  | closed shut =>
    cases there with
    | closed => simp [Prod.map, alike]
    | leased opened | timedOut opened =>
      rw [closed, opened] at shut
      cases shut
  | @leased first p₁ p₂ lease opened least in_time proper₁ alike₁ seen =>
    rw [times] at least
    cases there with
    | closed shut =>
      rw [closed, shut] at opened
      cases opened
    | @leased first' q₁ q₂ lease' _ least' _ proper₂ alike₂ seen' =>
      -- Both are handed out by a look at the same time.
      obtain rfl := least.unique least'
      have same := look_congr proper₁ proper₂ (alike₁.trans (alike.trans alike₂.symm))
        (Clock.lookFor now first)
      rw [seen, seen'] at same
      simp only [Prod.map, Look.withoutWake, Prod.mk.injEq, Look.leased.injEq] at same
      simp [Prod.map, same]
    | timedOut _ _ late =>
      have := late first least.1
      omega
  | timedOut opened alike₁ late =>
    rw [times] at late
    cases there with
    | closed shut =>
      rw [closed, shut] at opened
      cases opened
    | @leased first' _ _ _ _ least in_time =>
      have := late first' least.1
      omega
    | timedOut _ alike₂ => simp [Prod.map, alike₁, alike₂, alike]

/-- A wait comes to the same on queues that differ in stale entries only. -/
theorem leaseBy_congr (proper : p.Proper) (proper' : q.Proper) (alike : p.tidy = q.tidy)
    (now deadline : Nat) :
    Prod.map id tidy (p.leaseBy now deadline) = Prod.map id tidy (q.leaseBy now deadline) :=
  (leaseBy_awaited proper now deadline).unique (leaseBy_awaited proper' now deadline) alike

/-- A wait may as well begin later, at a whole millisecond before which nothing falls due. -/
theorem leaseBy_later {next : Nat} (proper : p.Proper) (proper' : q.Proper)
    (alike : p.tidy = q.tidy) (opened : q.closed = false) (whole : Clock.milli ∣ next)
    (in_time : next ≤ deadline)
    (reached : ∀ due ∈ q.dueTimes now, now < due ∧ next ≤ Clock.wholeMilli due) :
    Prod.map id tidy (p.leaseBy next deadline) = Prod.map id tidy (q.leaseBy now deadline) := by
  have begun := (leaseBy_awaited proper next deadline).earlier alike opened
    (Clock.wholeMilli_eq_self whole) in_time reached
  exact begun.unique (leaseBy_awaited proper' now deadline) rfl

end Queue

end PacedChain
