import PacedChain.Proofs.Queue.Tidy
import PacedChain.Proofs.Queue.Unfinished

/-!
# The line

The tasks that are named in a queue stand in one line: first those that are ready, then those that
wait, in the order in which they fall due. What a step can do to the line is said once for all steps
(`Queue.Shift`): a task joins the one row or the other, the first one that waits falls due, or a
look passes over the head of the line. So a task that stands before another one stays before it
until it is handed out (`Queue.Shift.before`).
-/
namespace PacedChain

section pair

variable {α : Type} {a b c : α} {l₁ l₂ : List α}

theorem pair_of_append (absent : a ∉ l₁) (pair : [a, b].Sublist (l₁ ++ l₂)) :
    [a, b].Sublist l₂ := by
  induction l₁ with
  | nil => exact pair
  | cons c l₁ ih =>
    rw [List.mem_cons, not_or] at absent
    exact ih absent.2 (List.Sublist.of_cons_of_ne absent.1 pair)

theorem pair_append (first : a ∈ l₁) (second : b ∈ l₂) : [a, b].Sublist (l₁ ++ l₂) :=
  (List.singleton_sublist.mpr first).append (List.singleton_sublist.mpr second)

/-- A third member between the two may be left out. -/
theorem pair_remove [DecidableEq α] (first : a ≠ c) (second : b ≠ c)
    (pair : [a, b].Sublist (l₁ ++ c :: l₂)) : [a, b].Sublist (l₁ ++ l₂) := by
  have others := pair.filter (fun d => decide (d ≠ c))
  simp only [List.filter_append, ne_eq, first, second, not_false_eq_true, decide_true,
    List.filter_cons_of_pos, List.filter_nil, not_true_eq_false, decide_false, Bool.false_eq_true,
    List.filter_cons_of_neg] at others
  exact others.trans (List.filter_sublist.append List.filter_sublist)

end pair

namespace Queue

variable {q q' : Queue} {i j id : TaskId} {task : Task} {now : Nat} {v w : Wakeup}
  {ws : List Wakeup} {handed : Option TaskId} {withdrawn : TaskId → Prop}

/-! ### Adding to the schedule -/

theorem sublist_addWakeup (w : Wakeup) (ws : List Wakeup) : ws.Sublist (addWakeup w ws) := by
  induction ws with
  | nil => exact List.nil_sublist _
  | cons v rest ih =>
    unfold addWakeup
    split
    · exact List.sublist_cons_self w _
    · exact ih.cons_cons v

/-- A wake-up is added behind those that are not later. -/
theorem pair_addWakeup (order : InOrder ws) (member : v ∈ ws) (le : v.notBefore ≤ w.notBefore) :
    [v, w].Sublist (addWakeup w ws) := by
  induction ws with
  | nil => cases member
  | cons u rest ih =>
    obtain ⟨first, later⟩ := List.pairwise_cons.mp order
    unfold addWakeup
    split
    · next early =>
      -- The first wake-up is not later than any, so that none is as early as the new one.
      rcases List.mem_cons.mp member with rfl | behind
      · omega
      · have := first v behind
        omega
    · rcases List.mem_cons.mp member with rfl | behind
      · have added : w ∈ addWakeup w rest := (addWakeup_perm w rest).mem_iff.mpr List.mem_cons_self
        exact (List.singleton_sublist.mpr added).cons_cons v
      · exact (ih later behind).cons u

/-- In order, the earlier one of two wake-ups comes first. -/
theorem pair_of_lt (order : InOrder ws) (first : v ∈ ws) (second : w ∈ ws)
    (lt : v.notBefore < w.notBefore) : [v, w].Sublist ws := by
  induction ws with
  | nil => cases first
  | cons u rest ih =>
    obtain ⟨least, later⟩ := List.pairwise_cons.mp order
    rcases List.mem_cons.mp first with rfl | behind
    · rcases List.mem_cons.mp second with rfl | after
      · omega
      · exact (List.singleton_sublist.mpr after).cons_cons v
    · rcases List.mem_cons.mp second with rfl | after
      · have := least v behind
        omega
      · exact (ih later behind after).cons u

/-! ### One task falls due -/

variable {rest : List Wakeup}

/-- The first task of the schedule falls due. -/
def ripen (q : Queue) (now : Nat) (w : Wakeup) (rest : List Wakeup) : Queue :=
  wake now { q with scheduled := rest } w

@[simp] theorem scheduled_ripen : (q.ripen now w rest).scheduled = rest := scheduled_wake now _ w

@[simp] theorem closed_ripen : (q.ripen now w rest).closed = q.closed := by
  unfold ripen
  rcases wake_cases now { q with scheduled := rest } w with ⟨_, _, _, same⟩ | ⟨_, same⟩ <;>
    rw [same]
  rfl

theorem promoteDue_of_scheduled_nil (none : q.scheduled = []) : q.promoteDue now = q := by
  rw [promoteDue, none, List.takeWhile_nil, List.dropWhile_nil, List.foldl_nil, ← none]

theorem promoteDue_of_early (all : q.scheduled = w :: rest) (early : ¬w.notBefore ≤ now) :
    q.promoteDue now = q := by
  rw [promoteDue, all, List.takeWhile_cons_of_neg (by simpa using early),
    List.dropWhile_cons_of_neg (by simpa using early), List.foldl_nil, ← all]

/-- Once the first task has fallen due, the same is left to be promoted. -/
theorem promoteDue_ripen (all : q.scheduled = w :: rest) (due : w.notBefore ≤ now) :
    (q.ripen now w rest).promoteDue now = q.promoteDue now := by
  rw [promoteDue, scheduled_ripen, ripen, ← wake_with_scheduled, promoteDue, all,
    List.takeWhile_cons_of_pos (by simpa using due),
    List.dropWhile_cons_of_pos (by simpa using due), List.foldl_cons]

/-- A look comes to the same once the first task has fallen due. -/
theorem look_ripen (opened : q.closed = false) (all : q.scheduled = w :: rest)
    (due : w.notBefore ≤ now) : (q.ripen now w rest).look now = q.look now := by
  unfold look
  rw [closed_ripen, promoteDue_ripen all due]
  simp only [opened, Bool.false_eq_true, if_false]

theorem task?_ripen_of_running {i : TaskId} {task : Task} (known : q.task? i = some task)
    (runs : task.state = .running) : (q.ripen now w rest).task? i = some task := by
  rw [ripen, wake_with_scheduled]
  rcases wake_cases now q w with ⟨other, found, waits, same⟩ | ⟨_, same⟩
  · have apart : i ≠ w.task := by
      refine ne_of_state_ne found known ?_
      rw [runs]
      intro state
      rw [← state] at waits
      cases waits
    rw [same]
    exact (task?_modify_of_ne (f := (·.requeue now)) apart).trans known
  · rw [same]
    exact known

/-! ### What a step does to the line -/

/-- What one step can do to the rows of a queue, and the task that it hands out. -/
inductive Shift (q q' : Queue) : Option TaskId → Prop
  | stays : q'.ready = q.ready → q'.scheduled = q.scheduled → Shift q q' none
  | joins (id : TaskId) : q'.ready = q.ready ++ [id] → q'.scheduled = q.scheduled → Shift q q' none
  | waits (w : Wakeup) : q'.ready = q.ready → q'.scheduled = addWakeup w q.scheduled →
    Shift q q' none
  /-- The first task that waits is ready. -/
  | due (w : Wakeup) : q'.ready = q.ready ++ [w.task] → q.scheduled = w :: q'.scheduled →
    Shift q q' none
  /-- The first entry of the schedule is of a task that does not wait any more. -/
  | stale (w : Wakeup) : q.isWaiting w.task = false → q'.ready = q.ready →
    q.scheduled = w :: q'.scheduled → Shift q q' none
  /-- Of the tasks that are passed over, one that is queued is handed out. -/
  | passes (passed : List TaskId) (handed : Option TaskId) : q.ready = passed ++ q'.ready →
    q'.scheduled = q.scheduled → (∀ id ∈ passed, q.isQueued id = true → handed = some id) →
    (∀ id, handed = some id → id ∈ passed) → Shift q q' handed

theorem shift_insert (q : Queue) (now : Nat) (job : Job) (delay : Delay) (key : Option Key) :
    q.Shift (q.insert now job delay key).2 none := by
  obtain ⟨log, same⟩ := insert_eq q now job delay key
  rw [same]
  cases atOnce : delay.isZero with
  | true => exact .joins _ rfl rfl
  | false => exact .waits _ rfl rfl

theorem shift_enqueueDelayed (q : Queue) (now : Nat) (job : Job) (delay : Delay) :
    q.Shift (q.enqueueDelayed now job delay).2 none := by
  rcases enqueueDelayed_cases q now job delay with ⟨_, same⟩ | ⟨_, same⟩ <;> rw [same]
  · exact .stays rfl rfl
  · exact shift_insert q now job delay none

theorem shift_enqueueUnique (q : Queue) (now : Nat) (key : Key) (policy : HolderPolicy)
    (job : Job) : q.Shift (q.enqueueUnique now key policy job).2 none := by
  rcases enqueueUnique_cases q now key policy job with
    ⟨_, same⟩ | ⟨_, _, same⟩ | ⟨_, _, _, _, _, same⟩ | ⟨_, previous, _, _, _, _, same⟩ <;> rw [same]
  · exact .stays rfl rfl
  · exact shift_insert q now job Delay.zero (some key)
  · exact .stays rfl rfl
  -- The old task keeps its entry when it is cancelled, and the new one joins those that are ready.
  · obtain ⟨log, inserted⟩ :=
      insert_eq (q.finish previous (·.cancel now)) now job Delay.zero (some key)
    rw [inserted]
    refine .joins ⟨(q.finish previous (·.cancel now)).created + 1⟩ ?_ ?_
    · simp [Delay.isZero, Delay.zero]
    · simp [Delay.isZero, Delay.zero]

theorem shift_complete (known : q.task? id = some task) (now : Nat) (outcome : Outcome) :
    q.Shift (q.complete now id outcome).2 none := by
  rcases complete_cases known now outcome with
    ⟨_, same⟩ | ⟨_, same⟩ | ⟨_, delay, same⟩ | ⟨_, error, same⟩ <;> rw [same]
  · exact .stays (ready_finish q id (·.succeed now)) (scheduled_finish q id (·.succeed now))
  · exact .stays (ready_finish q id (·.die now)) (scheduled_finish q id (·.die now))
  · exact .waits ⟨Clock.deadline now delay, id⟩ rfl rfl
  · exact .stays rfl rfl

theorem shift_ripen (all : q.scheduled = w :: rest) (now : Nat) :
    q.Shift (q.ripen now w rest) none := by
  rw [ripen, wake_with_scheduled]
  rcases wake_cases now q w with ⟨task, known, waits, woken⟩ | ⟨other, same⟩
  · rw [woken]
    exact .due w rfl all
  · rw [same]
    refine .stale w ?_ rfl all
    rw [Bool.eq_false_iff, ne_eq, isWaiting_iff]
    rintro ⟨task, known, waits⟩
    rw [other task known] at waits
    cases waits

/-- Once nothing is due any more, a look passes over the head of the line. -/
theorem shift_look (promoted : q.closed = true ∨ q.promoteDue now = q) :
    q.Shift (q.look now).2 ((q.look now).1.lease?.map (·.envelope.task)) := by
  rcases look_cases q now with ⟨_, seen⟩ |
    ⟨opened, id, task, skipped, rest, split, known, state, before, seen⟩ |
    ⟨opened, none, seen⟩ <;> rw [seen]
  · exact .stays rfl rfl
  · have promoted := promoted.resolve_left (by simp [opened])
    rw [promoted] at split before ⊢
    refine .passes (skipped ++ [id]) (some id) ?_ rfl ?_ ?_
    · simpa using split
    · intro i member queued
      rcases List.mem_append.mp member with early | last
      · have other := before i early
        rw [isQueued, beq_iff_eq] at queued
        exact absurd queued other
      · rw [List.mem_singleton.mp last]
    · rintro i ⟨⟩
      simp
  · have promoted := promoted.resolve_left (by simp [opened])
    rw [promoted] at none ⊢
    refine .passes q.ready Option.none (by simp) rfl ?_ (by simp)
    intro i member queued
    rw [isQueued, beq_iff_eq] at queued
    exact absurd queued (none i member)

/-! ### Who stands before whom -/

/-- A task is still to be handed out: it is queued, or it waits. -/
def Goes (q : Queue) (id : TaskId) : Prop := q.isQueued id = true ∨ q.isWaiting id = true

/-- A task that waits does so until this time. -/
def WaitsUntil (q : Queue) (id : TaskId) (time : Nat) : Prop :=
  ∃ task, q.task? id = some task ∧ task.state.isWaiting = true ∧ task.notBefore = some time

/-- A task stands in line before another one. -/
structure Before (q : Queue) (i j : TaskId) : Prop where
  goes : q.Goes i
  line : [i, j].Sublist q.named

theorem goes_iff : q.Goes i ↔
    ∃ task, q.task? i = some task ∧ (task.state = .queued ∨ task.state.isWaiting = true) := by
  rw [Goes, isQueued_iff, isWaiting_iff]
  constructor
  · rintro (⟨task, known, queued⟩ | ⟨task, known, waits⟩)
    · exact ⟨task, known, Or.inl queued⟩
    · exact ⟨task, known, Or.inr waits⟩
  · rintro ⟨task, known, queued | waits⟩
    · exact Or.inl ⟨task, known, queued⟩
    · exact Or.inr ⟨task, known, waits⟩

theorem WaitsUntil.isWaiting {time : Nat} (waits : q.WaitsUntil i time) : q.isWaiting i = true := by
  obtain ⟨task, known, state, _⟩ := waits
  exact isWaiting_iff.mpr ⟨task, known, state⟩

/-- A task that waits until a time is scheduled for it. -/
theorem WaitsUntil.entry (placed : q.Placed withdrawn) {time : Nat} (waits : q.WaitsUntil i time) :
    ⟨time, i⟩ ∈ q.scheduled := by
  obtain ⟨task, known, state, until_⟩ := waits
  obtain ⟨_, same, member⟩ := (placed.stands i).waiting task known state
  rw [until_, Option.some.injEq] at same
  rwa [← same] at member

theorem mem_ready_of_isQueued (placed : q.Placed withdrawn) (queued : q.isQueued i = true) :
    i ∈ q.ready :=
  (placed.stands i).queued (by rwa [isQueued, beq_iff_eq] at queued)

/-- A task that goes and is ready is queued, since those that wait stand elsewhere. -/
theorem isQueued_of_mem_ready (placed : q.Placed withdrawn) (member : i ∈ q.ready)
    (goes : q.Goes i) : q.isQueued i = true := by
  rcases goes with queued | waiting
  · exact queued
  · obtain ⟨task, known, waits⟩ := isWaiting_iff.mp waiting
    refine absurd member (placed.not_mem_ready known ?_ ?_)
    · exact TaskState.isTerminal_of_isWaiting waits
    · rintro queued
      rw [queued] at waits
      cases waits

/-- A task that goes and is scheduled waits, since those that are queued stand elsewhere. -/
theorem isWaiting_of_mem_scheduled (placed : q.Placed withdrawn) (member : w ∈ q.scheduled)
    (goes : q.Goes w.task) : q.isWaiting w.task = true := by
  rcases goes with queued | waiting
  · obtain ⟨task, known, state⟩ := isQueued_iff.mp queued
    refine absurd (List.mem_map_of_mem member) (placed.not_mem_scheduled known ?_ ?_)
    · rw [state]
      rfl
    · rw [state]
      rfl
  · exact waiting

/-- An entry of a task that does not wait is that of a withdrawn task. -/
theorem withdrawn_of_stale (placed : q.Placed withdrawn) (member : w ∈ q.scheduled)
    (stale : q.isWaiting w.task = false) : withdrawn w.task := by
  refine ((placed.stands w.task).scheduled (List.mem_map_of_mem member)).resolve_left ?_
  rintro ⟨task, known, waits⟩
  rw [isWaiting_iff.mpr ⟨task, known, waits⟩] at stale
  cases stale

/-- A task that stands before another one is handed out before it: a step hands out the first one,
or not the second one, which stays behind the first unless it is withdrawn. -/
theorem Shift.before (placed : q.Placed withdrawn) (shift : q.Shift q' handed)
    (before : q.Before i j) :
    handed = some i ∨ handed ≠ some j ∧ (withdrawn j ∨ [i, j].Sublist q'.named) := by
  have line := before.line
  unfold named at line ⊢
  cases shift with
  | stays ready scheduled =>
    rw [ready, scheduled]
    exact Or.inr ⟨nofun, Or.inr line⟩
  | joins id ready scheduled =>
    rw [ready, scheduled]
    exact Or.inr ⟨nofun, Or.inr (line.trans ((List.sublist_append_left _ _).append_right _))⟩
  | waits w ready scheduled =>
    rw [ready, scheduled]
    exact Or.inr ⟨nofun, Or.inr (line.trans (((sublist_addWakeup w _).map _).append_left _))⟩
  | due w ready scheduled =>
    rw [scheduled] at line
    rw [ready, List.append_assoc]
    exact Or.inr ⟨nofun, Or.inr line⟩
  | stale w stale ready scheduled =>
    have member : w ∈ q.scheduled := by
      rw [scheduled]
      exact List.mem_cons_self
    have other : i ≠ w.task := by
      rintro rfl
      rw [isWaiting_of_mem_scheduled placed member before.goes] at stale
      cases stale
    refine Or.inr ⟨nofun, ?_⟩
    by_cases gone : j = w.task
    · exact Or.inl (gone ▸ withdrawn_of_stale placed member stale)
    · rw [scheduled, List.map_cons] at line
      rw [ready]
      exact Or.inr (pair_remove other gone line)
  | passes passed handed ready scheduled queued taken =>
    by_cases among : i ∈ passed
    · have member : i ∈ q.ready := by
        rw [ready]
        exact List.mem_append_left _ among
      exact Or.inl (queued i among (isQueued_of_mem_ready placed member before.goes))
    · have once := placed.once
      rw [ready, List.append_assoc] at line
      rw [named, ready, List.append_assoc] at once
      have behind := pair_of_append among line
      rw [scheduled]
      refine Or.inr ⟨?_, Or.inr behind⟩
      -- The second one stands behind those that are passed over, and nobody stands there twice.
      intro second
      have late : j ∈ q'.ready ++ q.scheduled.map (·.task) := behind.subset (by simp)
      exact (List.nodup_append.mp once).2.2 j (taken j second) j late rfl

/-- A task that is ready and was not joins the end of the row. -/
theorem Shift.joins_ready (shift : q.Shift q' handed) (absent : i ∉ q.ready)
    (member : i ∈ q'.ready) : q'.ready = q.ready ++ [i] := by
  cases shift with
  | stays ready | waits _ ready | stale _ _ ready =>
    rw [ready] at member
    exact absurd member absent
  | joins id ready | due w ready =>
    rw [ready] at member
    have last := (List.mem_append.mp member).resolve_left absent
    rw [ready, List.mem_singleton.mp last]
  | passes passed _ ready =>
    rw [ready] at absent
    exact absurd (List.mem_append_right _ member) absent

/-- Tasks that are ready stay in their order. -/
theorem Shift.pair_ready (shift : q.Shift q' handed) (once : q.ready.Nodup)
    (pair : [i, j].Sublist q.ready) (member : i ∈ q'.ready) : [i, j].Sublist q'.ready := by
  cases shift with
  | stays ready | waits _ ready | stale _ _ ready =>
    rw [ready]
    exact pair
  | joins _ ready | due _ ready =>
    rw [ready]
    exact pair.trans (List.sublist_append_left _ _)
  | passes passed _ ready =>
    rw [ready] at pair once
    refine pair_of_append (fun early => ?_) pair
    exact (List.nodup_append.mp once).2.2 i early i member rfl

/-- An entry of the schedule that was not there is added in its place. -/
theorem Shift.joins_scheduled (shift : q.Shift q' handed) (absent : w ∉ q.scheduled)
    (member : w ∈ q'.scheduled) : q'.scheduled = addWakeup w q.scheduled := by
  cases shift with
  | stays _ scheduled | joins _ _ scheduled | passes _ _ _ scheduled =>
    rw [scheduled] at member
    exact absurd member absent
  | waits v _ scheduled =>
    rw [scheduled] at member
    have new := (List.mem_cons.mp ((addWakeup_perm v _).mem_iff.mp member)).resolve_right absent
    rw [scheduled, new]
  | due v _ scheduled | stale v _ _ scheduled =>
    rw [scheduled] at absent
    exact absurd (List.mem_cons_of_mem _ member) absent

/-- Entries of the schedule stay in their order. -/
theorem Shift.pair_scheduled (shift : q.Shift q' handed) (once : q.scheduled.Nodup)
    (pair : [v, w].Sublist q.scheduled) (member : v ∈ q'.scheduled) :
    [v, w].Sublist q'.scheduled := by
  cases shift with
  | stays _ scheduled | joins _ _ scheduled | passes _ _ _ scheduled =>
    rw [scheduled]
    exact pair
  | waits u _ scheduled =>
    rw [scheduled]
    exact pair.trans (sublist_addWakeup u _)
  | due u _ scheduled | stale u _ _ scheduled =>
    rw [scheduled] at pair once
    refine List.Sublist.of_cons_of_ne ?_ pair
    rintro rfl
    exact (List.nodup_cons.mp once).1 member

end Queue

end PacedChain
