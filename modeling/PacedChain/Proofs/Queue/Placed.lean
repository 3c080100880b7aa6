import Mathlib.Data.List.Perm.Basic
import PacedChain.Proofs.Queue.Calls

/-!
# Where tasks stand

A queued task stands in `ready`, a waiting one in `scheduled` under the time it waits for, each of
them once, and a running one in neither (`Queue.Placed`). The other entries of the two rows belong
to tasks that were withdrawn. What is withdrawn is a parameter: only a replacement adds to it.
-/
namespace PacedChain.Queue

/-- The tasks that are named in `ready` or in `scheduled`. -/
def named (q : Queue) : List TaskId := q.ready ++ q.scheduled.map (·.task)

/-- Where one task stands: in `ready` if it is queued, in `scheduled` if it waits. Any other entry
is that of a withdrawn task, and a withdrawn task is cancelled or forgotten. -/
structure Stands (q : Queue) (withdrawn : Prop) (id : TaskId) : Prop where
  queued : q.taskState id = some .queued → id ∈ q.ready
  waiting : ∀ task, q.task? id = some task → task.state.isWaiting = true →
    ∃ notBefore, task.notBefore = some notBefore ∧ ⟨notBefore, id⟩ ∈ q.scheduled
  ready : id ∈ q.ready → q.taskState id = some .queued ∨ withdrawn
  scheduled : id ∈ q.scheduled.map (·.task) →
    (∃ task, q.task? id = some task ∧ task.state.isWaiting = true) ∨ withdrawn
  withdrawn : withdrawn →
    id.number ≤ q.created ∧ (q.taskState id = none ∨ q.taskState id = some .cancelled)

/-- No task is named twice, and each stands where it belongs. -/
structure Placed (q : Queue) (withdrawn : TaskId → Prop) : Prop where
  once : q.named.Nodup
  stands : ∀ id, q.Stands (withdrawn id) id

variable {q q' : Queue} {id i : TaskId} {task : Task} {f : Task → Task} {gone : Prop}
  {withdrawn withdrawn' : TaskId → Prop} {now : Nat}

theorem taskState_of_task? (known : q.task? id = some task) : q.taskState id = some task.state := by
  rw [taskState, known, Option.map_some]

namespace Stands

theorem cancelled (stands : q.Stands gone id) (h : gone) (known : q.task? id = some task) :
    task.state = .cancelled := by
  rcases (stands.withdrawn h).2 with forgotten | cancelled
  · rw [taskState_of_task? known] at forgotten
    cases forgotten
  · rw [taskState_of_task? known, Option.some.injEq] at cancelled
    exact cancelled

theorem not_withdrawn (stands : q.Stands gone id) (known : q.task? id = some task)
    (live : task.state.isTerminal = false) : ¬gone := by
  intro h
  rw [stands.cancelled h known] at live
  cases live

/-- Where a task stands depends on the task, its entries and the count of tasks only. -/
theorem congr (stands : q.Stands gone id) (same : q'.task? id = q.task? id)
    (ready : id ∈ q'.ready ↔ id ∈ q.ready)
    (scheduled : ∀ t, ⟨t, id⟩ ∈ q'.scheduled ↔ ⟨t, id⟩ ∈ q.scheduled)
    (created : q.created ≤ q'.created) : q'.Stands gone id := by
  have state : q'.taskState id = q.taskState id := by rw [taskState, taskState, same]
  have entries : id ∈ q'.scheduled.map (·.task) ↔ id ∈ q.scheduled.map (·.task) := by
    simp only [List.mem_map]
    constructor
    · rintro ⟨⟨t, _⟩, member, rfl⟩
      exact ⟨⟨t, _⟩, (scheduled t).mp member, rfl⟩
    · rintro ⟨⟨t, _⟩, member, rfl⟩
      exact ⟨⟨t, _⟩, (scheduled t).mpr member, rfl⟩
  refine ⟨?_, ?_, ?_, ?_, ?_⟩
  · rw [state, ready]
    exact stands.queued
  · intro task known waiting
    rw [same] at known
    obtain ⟨t, time, member⟩ := stands.waiting task known waiting
    exact ⟨t, time, (scheduled t).mpr member⟩
  · rw [state, ready]
    exact stands.ready
  · rw [entries, same]
    exact stands.scheduled
  · intro h
    rw [state]
    exact ⟨Nat.le_trans (stands.withdrawn h).1 created, (stands.withdrawn h).2⟩

/-- Entries in `ready` of tasks that are not queued may be dropped. -/
theorem fewer (stands : q.Stands gone id) (same : q'.task? id = q.task? id)
    (sub : id ∈ q'.ready → id ∈ q.ready)
    (kept : q.taskState id = some .queued → id ∈ q.ready → id ∈ q'.ready)
    (scheduled : q'.scheduled = q.scheduled) (created : q'.created = q.created) :
    q'.Stands gone id := by
  have state : q'.taskState id = q.taskState id := by rw [taskState, taskState, same]
  refine ⟨?_, ?_, ?_, ?_, ?_⟩
  · rw [state]
    exact fun queued => kept queued (stands.queued queued)
  · rw [same, scheduled]
    exact stands.waiting
  · rw [state]
    exact fun member => stands.ready (sub member)
  · rw [same, scheduled]
    exact stands.scheduled
  · rw [state, created]
    exact stands.withdrawn

/-- A task that has ended may be forgotten. -/
theorem forget (stands : q.Stands gone id) (forgotten : q'.task? id = none)
    (ended : ∀ task, q.task? id = some task → task.state.isTerminal = true)
    (ready : q'.ready = q.ready) (scheduled : q'.scheduled = q.scheduled)
    (created : q.created ≤ q'.created) : q'.Stands gone id := by
  have state : q'.taskState id = none := by rw [taskState, forgotten, Option.map_none]
  refine ⟨?_, ?_, ?_, ?_, ?_⟩
  -- A task that is forgotten is neither queued nor waiting any more,
  · intro queued
    rw [state] at queued
    cases queued
  · intro task known
    rw [forgotten] at known
    cases known
  -- and it was neither before, so that its entries are those of a withdrawn task.
  · intro member
    rw [ready] at member
    rcases stands.ready member with queued | h
    · simp only [taskState, Option.map_eq_some_iff] at queued
      obtain ⟨task, known, queued⟩ := queued
      have ends := ended task known
      rw [queued] at ends
      cases ends
    · exact Or.inr h
  · intro member
    rw [scheduled] at member
    rcases stands.scheduled member with ⟨task, known, waiting⟩ | h
    · have ends := ended task known
      rw [TaskState.isTerminal_of_isWaiting waiting] at ends
      cases ends
    · exact Or.inr h
  · intro h
    exact ⟨Nat.le_trans (stands.withdrawn h).1 created, Or.inl state⟩

theorem of_queued (known : q.task? id = some task) (state : task.state = .queued)
    (ready : id ∈ q.ready) (elsewhere : id ∉ q.scheduled.map (·.task)) (stays : ¬gone) :
    q.Stands gone id := by
  refine ⟨fun _ => ready, ?_, ?_, ?_, fun h => absurd h stays⟩
  · intro task' known' waiting
    rw [known, Option.some.injEq] at known'
    subst known'
    rw [state] at waiting
    cases waiting
  · intro _
    left
    rw [taskState_of_task? known, state]
  · intro member
    exact absurd member elsewhere

theorem of_waiting (known : q.task? id = some task) (state : task.state.isWaiting = true) {t : Nat}
    (time : task.notBefore = some t) (scheduled : ⟨t, id⟩ ∈ q.scheduled) (elsewhere : id ∉ q.ready)
    (stays : ¬gone) : q.Stands gone id := by
  refine ⟨?_, ?_, ?_, ?_, fun h => absurd h stays⟩
  · intro queued
    rw [taskState_of_task? known, Option.some.injEq] at queued
    rw [queued] at state
    cases state
  · intro task' known' _
    rw [known, Option.some.injEq] at known'
    subst known'
    exact ⟨t, time, scheduled⟩
  · intro member
    exact absurd member elsewhere
  · intro _
    exact Or.inl ⟨task, known, state⟩

theorem of_unnamed (known : q.task? id = some task) (unnamed : id ∉ q.named)
    (queued : task.state ≠ .queued) (waiting : task.state.isWaiting = false) (stays : ¬gone) :
    q.Stands gone id := by
  refine ⟨?_, ?_, ?_, ?_, fun h => absurd h stays⟩
  · intro state
    rw [taskState_of_task? known, Option.some.injEq] at state
    exact absurd state queued
  · intro task' known' state
    rw [known, Option.some.injEq] at known'
    subst known'
    rw [waiting] at state
    cases state
  · intro member
    exact absurd (List.mem_append_left _ member) unnamed
  · intro member
    exact absurd (List.mem_append_right _ member) unnamed

end Stands

theorem placed_empty (backoff : Backoff) (limit : Nat) :
    (empty backoff limit).Placed fun _ => False where
  once := List.nodup_nil
  stands := by
    intro id
    refine ⟨?_, ?_, ?_, ?_, False.elim⟩
    · intro queued
      cases queued
    · intro task known
      cases known
    · intro member
      cases member
    · intro member
      cases member

namespace Placed

theorem not_mem_ready (placed : q.Placed withdrawn) (known : q.task? id = some task)
    (live : task.state.isTerminal = false) (other : task.state ≠ .queued) : id ∉ q.ready := by
  intro member
  rcases (placed.stands id).ready member with queued | h
  · rw [taskState_of_task? known, Option.some.injEq] at queued
    exact other queued
  · exact (placed.stands id).not_withdrawn known live h

theorem not_mem_scheduled (placed : q.Placed withdrawn) (known : q.task? id = some task)
    (live : task.state.isTerminal = false) (other : task.state.isWaiting = false) :
    id ∉ q.scheduled.map (·.task) := by
  intro member
  rcases (placed.stands id).scheduled member with ⟨task', known', waiting⟩ | h
  · rw [known, Option.some.injEq] at known'
    subst known'
    rw [other] at waiting
    cases waiting
  · exact (placed.stands id).not_withdrawn known live h

theorem not_named (placed : q.Placed withdrawn) (known : q.task? id = some task)
    (runs : task.state = .running) : id ∉ q.named := by
  intro member
  rcases List.mem_append.mp member with ready | scheduled
  · exact placed.not_mem_ready known (by rw [runs]; rfl) (by rw [runs]; decide) ready
  · exact placed.not_mem_scheduled known (by rw [runs]; rfl) (by rw [runs]; rfl) scheduled

theorem number_le_of_mem_named (placed : q.Placed withdrawn) (kept : q.Kept)
    (member : id ∈ q.named) :
    id.number ≤ q.created := by
  rcases List.mem_append.mp member with ready | scheduled
  · rcases (placed.stands id).ready ready with queued | h
    · simp only [taskState, Option.map_eq_some_iff] at queued
      obtain ⟨task, known, _⟩ := queued
      exact kept.numbered id task known
    · exact ((placed.stands id).withdrawn h).1
  · rcases (placed.stands id).scheduled scheduled with ⟨task, known, _⟩ | h
    · exact kept.numbered id task known
    · exact ((placed.stands id).withdrawn h).1

theorem not_mem_named_next (placed : q.Placed withdrawn) (kept : q.Kept) :
    (⟨q.created + 1⟩ : TaskId) ∉ q.named := by
  intro member
  have bound := placed.number_le_of_mem_named kept member
  exact Nat.not_succ_le_self _ bound

/-! ### Enqueuing -/

theorem named_insert (q : Queue) (now : Nat) (job : Job) (delay : Delay) (key : Option Key) :
    (q.insert now job delay key).2.named.Perm (⟨q.created + 1⟩ :: q.named) := by
  obtain ⟨log, same⟩ := insert_eq q now job delay key
  rw [same]
  unfold named
  by_cases atOnce : delay.isZero = true
  · simp only [atOnce, if_true, List.append_assoc, List.singleton_append]
    exact List.perm_middle
  · simp only [atOnce]
    have added := (addWakeup_perm ⟨Clock.deadline now delay.duration, ⟨q.created + 1⟩⟩
      q.scheduled).map (·.task)
    exact (added.append_left q.ready).trans List.perm_middle

theorem insert (placed : q.Placed withdrawn) (kept : q.Kept) (now : Nat) (job : Job) (delay : Delay)
    (key : Option Key) : (q.insert now job delay key).2.Placed withdrawn := by
  have unnamed := placed.not_mem_named_next kept
  have view := task?_insert kept now job delay key
  have names := named_insert q now job delay key
  obtain ⟨log, same⟩ := insert_eq q now job delay key
  rw [same] at names view ⊢
  refine ⟨names.nodup_iff.mpr (List.nodup_cons.mpr ⟨unnamed, placed.once⟩), ?_⟩
  intro i
  -- The new task is ready or scheduled, and every other one stands where it stood.
  by_cases new : i = ⟨q.created + 1⟩
  · subst new
    have stays : ¬withdrawn ⟨q.created + 1⟩ := fun h =>
      Nat.not_succ_le_self _ ((placed.stands _).withdrawn h).1
    have unready : (⟨q.created + 1⟩ : TaskId) ∉ q.ready := fun member =>
      unnamed (List.mem_append_left _ member)
    have unscheduled : (⟨q.created + 1⟩ : TaskId) ∉ q.scheduled.map (·.task) := fun member =>
      unnamed (List.mem_append_right _ member)
    have known := view ⟨q.created + 1⟩
    rw [if_pos rfl] at known
    by_cases atOnce : delay.isZero = true
    · refine Stands.of_queued known ?_ ?_ ?_ stays
      · rw [Task.fresh, if_pos atOnce]
        rfl
      · simp only [atOnce, if_true, List.mem_append, List.mem_singleton, or_true]
      · simp only [atOnce, if_true]
        exact unscheduled
    · refine Stands.of_waiting known ?_ ?_ ?_ ?_ stays (t := Clock.deadline now delay.duration)
      · rw [Task.fresh, if_neg atOnce]
        rfl
      · rw [Task.fresh, if_neg atOnce]
        rfl
      · simp only [atOnce]
        exact (addWakeup_perm _ _).mem_iff.mpr List.mem_cons_self
      · simp only [atOnce]
        exact unready
  · refine (placed.stands i).congr ?_ ?_ ?_ (Nat.le_succ _)
    · rw [view, if_neg new]
    · simp only
      split
      · rw [List.mem_append, List.mem_singleton]
        exact ⟨fun either => either.resolve_right new, Or.inl⟩
      · exact Iff.rfl
    · intro t
      simp only
      split
      · exact Iff.rfl
      · rw [(addWakeup_perm _ _).mem_iff, List.mem_cons]
        refine ⟨fun either => either.resolve_left ?_, Or.inr⟩
        intro equal
        exact new (congrArg Wakeup.task equal)

/-! ### Waking and leasing -/

theorem wake {w : Wakeup} {rest : List Wakeup} (all : q.scheduled = w :: rest)
    (placed : q.Placed withdrawn) :
    (Queue.wake now { q with scheduled := rest } w).Placed withdrawn := by
  have once := placed.once
  -- The first wake-up is the only entry of its task.
  rw [named, all, List.map_cons] at once
  have apart := List.nodup_cons.mp (List.perm_middle.nodup_iff.mp once)
  have unready : w.task ∉ q.ready := fun member => apart.1 (List.mem_append_left _ member)
  have unscheduled : w.task ∉ rest.map (·.task) := fun member =>
    apart.1 (List.mem_append_right _ member)
  have others : ∀ i, i ≠ w.task → ∀ t, ⟨t, i⟩ ∈ rest ↔ ⟨t, i⟩ ∈ q.scheduled := by
    intro i other t
    rw [all, List.mem_cons]
    exact ⟨Or.inr, fun either =>
      either.resolve_left fun equal => other (congrArg Wakeup.task equal)⟩
  rw [wake_with_scheduled]
  rcases wake_cases now q w with ⟨task, known, waiting, same⟩ | ⟨other, same⟩
  -- The task waits: its entry goes over from one row to the other.
  · have view : ∀ i, ({ Queue.wake now q w with scheduled := rest } : Queue).task? i =
        (q.modify w.task (·.requeue now)).task? i := by
      intro i
      rw [same]
      rfl
    have ready : (Queue.wake now q w).ready = q.ready ++ [w.task] := by rw [same]
    have created : (Queue.wake now q w).created = q.created := by rw [same]; rfl
    refine ⟨?_, ?_⟩
    · simp only [named, ready, List.append_assoc, List.singleton_append]
      exact List.perm_middle.nodup_iff.mpr (List.nodup_cons.mpr apart)
    · intro i
      by_cases here : i = w.task
      · subst here
        have requeued := (view w.task).trans (task?_modify_self known)
        refine Stands.of_queued requeued rfl ?_ unscheduled ?_
        · simp only [ready, List.mem_append, List.mem_singleton, or_true]
        · have live := TaskState.isTerminal_of_isWaiting waiting
          exact (placed.stands w.task).not_withdrawn known live
      · refine (placed.stands i).congr ((view i).trans (task?_modify_of_ne here)) ?_ (others i here)
          (Nat.le_of_eq created.symm)
        simp only [ready, List.mem_append, List.mem_singleton, here, or_false]
  -- The task does not wait, so that its entry may as well be dropped.
  · rw [same]
    refine ⟨apart.2, ?_⟩
    intro i
    by_cases here : i = w.task
    · subst here
      have stands := placed.stands w.task
      refine ⟨stands.queued, ?_, stands.ready, fun member => absurd member unscheduled,
        stands.withdrawn⟩
      intro task known waiting
      rw [other task known] at waiting
      cases waiting
    · exact (placed.stands i).congr rfl Iff.rfl (others i here) (Nat.le_refl _)

theorem promoteDue (placed : q.Placed withdrawn) (now : Nat) :
    (q.promoteDue now).Placed withdrawn :=
  promoteDue_induction (P := fun q => q.Placed withdrawn) (fun _ _ _ all placed => placed.wake all)
    placed

/-- A look drops entries of withdrawn tasks, and hands out the task of another entry. -/
theorem look (placed : q.Placed withdrawn) (now : Nat) : (q.look now).2.Placed withdrawn := by
  have woken := placed.promoteDue now
  rcases look_cases q now with ⟨_, same⟩ |
    ⟨_, id, task, skipped, rest, split, known, state, before, same⟩ | ⟨_, none, same⟩
  · rw [same]
    exact placed
  · generalize q.promoteDue now = p at woken split known before same
    rw [same]
    have once := woken.once
    -- The entry that is handed out goes with all entries before it.
    rw [named, split] at once
    have shorter : (id :: (rest ++ p.scheduled.map (·.task))).Nodup := by
      rw [List.append_assoc, List.cons_append] at once
      exact (List.nodup_append.mp once).2.1
    have apart := List.nodup_cons.mp shorter
    refine ⟨apart.2, ?_⟩
    intro i
    have view : ({ p.modify id (·.start now) with ready := rest, leases := p.leases + 1 } :
        Queue).task? i = (p.modify id (·.start now)).task? i := rfl
    by_cases here : i = id
    · subst here
      refine Stands.of_unnamed (view.trans (task?_modify_self known)) apart.1 ?_ rfl ?_
      · exact TaskState.noConfusion
      · exact (woken.stands i).not_withdrawn known (by rw [state]; rfl)
    · refine (woken.stands i).fewer (view.trans (task?_modify_of_ne here)) ?_ ?_ rfl rfl
      · intro member
        rw [split]
        exact List.mem_append_right _ (List.mem_cons_of_mem _ member)
      -- What is passed over is not queued.
      · intro queued member
        rw [split] at member
        rcases List.mem_append.mp member with early | late
        · exact absurd queued (before i early)
        · exact (List.mem_cons.mp late).resolve_left here
  · generalize q.promoteDue now = p at woken none same
    rw [same]
    refine ⟨(List.nodup_append.mp woken.once).2.1, ?_⟩
    intro i
    refine (woken.stands i).fewer rfl ?_ ?_ rfl rfl
    · intro member
      cases member
    · intro queued member
      exact absurd queued (none i member)

/-! ### Ending and retrying -/

/-- A task ends. If it is still named, it is cancelled and counts as withdrawn from now on. -/
theorem finish (placed : q.Placed withdrawn) (kept : q.Kept) (known : q.task? id = some task)
    (ends : (f task).state.isTerminal = true)
    (others : ∀ i, i ≠ id → (withdrawn' i ↔ withdrawn i))
    (entry : id ∈ q.named → withdrawn' id)
    (cancelled : withdrawn' id → (f task).state = .cancelled) :
    (q.finish id f).Placed withdrawn' := by
  have ready := ready_finish q id f
  have scheduled := scheduled_finish q id f
  have created := created_finish q id f
  refine ⟨?_, ?_⟩
  · rw [named, ready, scheduled]
    exact placed.once
  · intro i
    have view := task?_finish known ends i
    by_cases here : i = id
    -- The task itself, which may be forgotten at once.
    · subst here
      have ended : ∀ other, (q.finish i f).task? i = some other → other = f task := by
        intro other found
        rw [view] at found
        split at found
        · cases found
        · rw [if_pos rfl, Option.some.injEq] at found
          exact found.symm
      refine ⟨?_, ?_, ?_, ?_, ?_⟩
      · intro queued
        simp only [taskState, Option.map_eq_some_iff] at queued
        obtain ⟨other, found, queued⟩ := queued
        rw [ended other found] at queued
        rw [queued] at ends
        cases ends
      · intro other found waiting
        rw [ended other found] at waiting
        rw [TaskState.isTerminal_of_isWaiting waiting] at ends
        cases ends
      · intro member
        rw [ready] at member
        exact Or.inr (entry (List.mem_append_left _ member))
      · intro member
        rw [scheduled] at member
        exact Or.inr (entry (List.mem_append_right _ member))
      · intro h
        rw [created]
        refine ⟨kept.numbered i task known, ?_⟩
        cases found : (q.finish i f).task? i with
        | none =>
          left
          rw [taskState, found, Option.map_none]
        | some other =>
          right
          rw [taskState_of_task? found, ended other found, cancelled h]
    -- Any other task is forgotten or stays as it was.
    · have unchanged : q.Stands (withdrawn' i) i := by
        rw [others i here]
        exact placed.stands i
      by_cases forgotten : i ∈ q.evicted id
      · rw [if_pos forgotten] at view
        refine unchanged.forget view ?_ ready scheduled (Nat.le_of_eq created.symm)
        intro other found
        rcases kept.of_mem_evicted forgotten with same | ⟨gone, found', ended⟩
        · exact absurd same here
        · rw [found, Option.some.injEq] at found'
          exact found' ▸ ended
      · rw [if_neg forgotten, if_neg here] at view
        refine unchanged.congr view ?_ ?_ (Nat.le_of_eq created.symm)
        · rw [ready]
        · intro t
          rw [scheduled]

theorem settle (placed : q.Placed withdrawn) (kept : q.Kept) (known : q.task? id = some task)
    (runs : task.state = .running) (ends : (f task).state.isTerminal = true) :
    (q.settle id task f).Placed withdrawn := by
  have live : task.state.isTerminal = false := by rw [runs]; rfl
  have finished : (q.finish id f).Placed withdrawn := placed.finish kept known ends
    (fun _ _ => Iff.rfl)
    (fun member => absurd member (placed.not_named known runs))
    (fun h => absurd h ((placed.stands id).not_withdrawn known live))
  exact ⟨finished.once, fun i =>
    (finished.stands i).congr rfl Iff.rfl (fun _ => Iff.rfl) (Nat.le_refl _)⟩

theorem retry (placed : q.Placed withdrawn) (known : q.task? id = some task)
    (runs : task.state = .running) (t : Nat) :
    ((q.modify id (·.scheduleRetry t now)).schedule t id).Placed withdrawn := by
  have unnamed := placed.not_named known runs
  have view : ∀ i, ((q.modify id (·.scheduleRetry t now)).schedule t id).task? i =
      (q.modify id (·.scheduleRetry t now)).task? i := fun _ => rfl
  refine ⟨?_, ?_⟩
  · have added := ((addWakeup_perm ⟨t, id⟩ q.scheduled).map (·.task)).append_left q.ready
    exact (added.trans List.perm_middle).nodup_iff.mpr
      (List.nodup_cons.mpr ⟨unnamed, placed.once⟩)
  · intro i
    by_cases here : i = id
    · subst here
      refine Stands.of_waiting ((view i).trans (task?_modify_self known)) rfl rfl ?_ ?_ ?_
      · exact (addWakeup_perm _ _).mem_iff.mpr List.mem_cons_self
      · exact fun member => unnamed (List.mem_append_left _ member)
      · exact (placed.stands i).not_withdrawn known (by rw [runs]; rfl)
    · refine (placed.stands i).congr ((view i).trans (task?_modify_of_ne here)) Iff.rfl ?_
        (Nat.le_refl _)
      intro s
      refine (addWakeup_perm _ _).mem_iff.trans (List.mem_cons.trans ?_)
      exact ⟨fun either =>
        either.resolve_left fun equal => here (congrArg Wakeup.task equal), Or.inr⟩

theorem complete (placed : q.Placed withdrawn) (kept : q.Kept) (known : q.task? id = some task)
    (runs : task.state = .running) (now : Nat) (outcome : Outcome) :
    (q.complete now id outcome).2.Placed withdrawn := by
  rcases complete_cases known now outcome with
    ⟨_, same⟩ | ⟨_, same⟩ | ⟨_, delay, same⟩ | ⟨_, error, same⟩
  · rw [same]
    exact placed.settle kept known runs rfl
  · rw [same]
    exact placed.settle kept known runs rfl
  · rw [same]
    exact placed.retry known runs _
  · rw [same]
    exact placed

/-! ### Enqueues that may be refused -/

theorem enqueueDelayed (placed : q.Placed withdrawn) (kept : q.Kept) (now : Nat) (job : Job)
    (delay : Delay) : (q.enqueueDelayed now job delay).2.Placed withdrawn := by
  rcases enqueueDelayed_cases q now job delay with ⟨_, same⟩ | ⟨_, same⟩
  · rw [same]
    exact placed
  · rw [same]
    exact placed.insert kept now job delay none

/-- An enqueue under a key withdraws the task that it replaces, and no other. -/
theorem enqueueUnique (placed : q.Placed withdrawn) (kept : q.Kept) (now : Nat) (key : Key)
    (policy : HolderPolicy) (job : Job) :
    (q.enqueueUnique now key policy job).2.Placed fun i =>
      withdrawn i ∨ ∃ new, (q.enqueueUnique now key policy job).1 = .ok (.replaced i new) := by
  rcases enqueueUnique_cases q now key policy job with
    ⟨_, same⟩ | ⟨_, _, same⟩ | ⟨_, _, _, _, _, same⟩ | ⟨_, previous, state, held, _, other, same⟩
  · rw [same]
    simpa using placed
  · rw [same]
    simpa using placed.insert kept now job Delay.zero (some key)
  · rw [same]
    simpa using placed
  · obtain ⟨_, task, known, rfl, live⟩ := of_liveHolder held
    rw [same]
    have cancelled : (q.finish previous (·.cancel now)).Placed fun i =>
        withdrawn i ∨ ∃ new, (Except.ok (.replaced previous ⟨q.created + 1⟩) :
          Except QueueError Placement) = .ok (.replaced i new) := by
      refine placed.finish kept known rfl ?_ ?_ ?_
      -- No other task is withdrawn by this answer.
      · intro i ne
        refine ⟨fun either => either.resolve_right ?_, Or.inl⟩
        rintro ⟨new, equal⟩
        simp only [Except.ok.injEq, Placement.replaced.injEq] at equal
        exact ne equal.1.symm
      · exact fun _ => Or.inr ⟨_, rfl⟩
      · exact fun _ => rfl
    exact cancelled.insert (kept.finish known live rfl) now job Delay.zero (some key)

end Placed

end PacedChain.Queue
