import Mathlib.Data.List.Nodup
import PacedChain.Proofs.Queue.Placed

/-!
# The order of the schedule

The wake-ups of a queue stand in the order of their times (`Queue.Ordered`), whatever is done with
the queue. So those that are due at a time are the first ones, and what a promotion does can be said
at once for all of them (`Queue.promoteDue_of_once`): it queues the tasks that are due and puts them
behind those that are ready, and leaves every other task as it is (`Queue.task?_promoteDue`).
-/
namespace PacedChain.Queue

variable {q : Queue} {id i : TaskId} {task : Task} {now : Nat} {w : Wakeup} {ws : List Wakeup}

/-! ### A schedule in order -/

def InOrder (ws : List Wakeup) : Prop := ws.Pairwise fun v w => v.notBefore ≤ w.notBefore

theorem inOrder_addWakeup (order : InOrder ws) (w : Wakeup) : InOrder (addWakeup w ws) := by
  induction ws with
  | nil => simp [InOrder, addWakeup]
  | cons v rest ih =>
    obtain ⟨first, later⟩ := List.pairwise_cons.mp order
    unfold addWakeup
    split
    · rename_i before
      apply List.pairwise_cons.mpr
      constructor
      · intro u member
        rcases List.mem_cons.mp member with rfl | behind
        · omega
        · have := first u behind
          omega
      · exact order
    · rename_i behind
      apply List.pairwise_cons.mpr
      constructor
      · intro u member
        have member := (addWakeup_perm w rest).mem_iff.mp member
        rcases List.mem_cons.mp member with rfl | old
        · omega
        · exact first u old
      · exact ih later

/-- What is due comes first. -/
theorem takeWhile_due (order : InOrder ws) (now : Nat) :
    ws.takeWhile (·.notBefore ≤ now) = ws.filter (·.notBefore ≤ now) := by
  induction ws with
  | nil => rfl
  | cons w rest ih =>
    obtain ⟨first, later⟩ := List.pairwise_cons.mp order
    by_cases due : w.notBefore ≤ now
    · simp [due, ih later]
    · have none_due : ∀ v ∈ rest, ¬v.notBefore ≤ now := by
        intro v member
        have := first v member
        omega
      simp only [List.takeWhile_cons, List.filter_cons, due, decide_false, Bool.false_eq_true,
        if_false]
      symm
      simpa using none_due

theorem dropWhile_due (order : InOrder ws) (now : Nat) :
    ws.dropWhile (·.notBefore ≤ now) = ws.filter (now < ·.notBefore) := by
  induction ws with
  | nil => rfl
  | cons w rest ih =>
    obtain ⟨first, later⟩ := List.pairwise_cons.mp order
    by_cases due : w.notBefore ≤ now
    · have not_later : ¬now < w.notBefore := by omega
      simp [due, not_later, ih later]
    · have all_later : ∀ v ∈ w :: rest, now < v.notBefore := by
        intro v member
        rcases List.mem_cons.mp member with rfl | behind
        · omega
        · have := first v behind
          omega
      rw [List.dropWhile_cons_of_neg (by simpa using due)]
      symm
      rw [List.filter_eq_self]
      simpa using all_later

/-- In order, a wake-up before all others is added in front. -/
theorem addWakeup_of_lt (before : ∀ v ∈ ws, w.notBefore < v.notBefore) :
    addWakeup w ws = w :: ws := by
  cases ws with
  | nil => rfl
  | cons v rest =>
    unfold addWakeup
    rw [if_pos (before v List.mem_cons_self)]

/-- It makes no difference whether entries are dropped before or after one is added. -/
theorem filter_addWakeup (order : InOrder ws) {p : Wakeup → Bool} (stays : p w = true) :
    (addWakeup w ws).filter p = addWakeup w (ws.filter p) := by
  induction ws with
  | nil => simp [addWakeup, stays]
  | cons v rest ih =>
    obtain ⟨first, later⟩ := List.pairwise_cons.mp order
    by_cases before : w.notBefore < v.notBefore
    · have in_front : ∀ u ∈ (v :: rest).filter p, w.notBefore < u.notBefore := by
        intro u member
        have member := (List.mem_filter.mp member).1
        rcases List.mem_cons.mp member with rfl | behind
        · exact before
        · have := first u behind
          omega
      rw [addWakeup_of_lt in_front, addWakeup, if_pos before, List.filter_cons_of_pos stays]
    · rw [addWakeup, if_neg before]
      by_cases kept : p v = true
      · rw [List.filter_cons_of_pos kept, List.filter_cons_of_pos kept, ih later, addWakeup,
          if_neg before]
      · rw [List.filter_cons_of_neg kept, List.filter_cons_of_neg kept, ih later]

/-! ### The schedule of a queue stays in order -/

def Ordered (q : Queue) : Prop := InOrder q.scheduled

theorem ordered_empty (backoff : Backoff) (limit : Nat) : (empty backoff limit).Ordered :=
  List.Pairwise.nil

namespace Ordered

theorem insert (order : q.Ordered) (now : Nat) (job : Job) (delay : Delay) (key : Option Key) :
    (q.insert now job delay key).2.Ordered := by
  obtain ⟨log, same⟩ := insert_eq q now job delay key
  rw [same]
  unfold Ordered
  simp only
  split
  · exact order
  · exact inOrder_addWakeup order _

theorem finish (order : q.Ordered) (id : TaskId) (f : Task → Task) : (q.finish id f).Ordered := by
  unfold Ordered
  rw [scheduled_finish]
  exact order

theorem look (order : q.Ordered) (now : Nat) : (q.look now).2.Ordered := by
  have shorter : InOrder (q.promoteDue now).scheduled := by
    rw [scheduled_promoteDue]
    exact order.sublist (List.dropWhile_sublist _)
  rcases look_cases q now with ⟨_, same⟩ | ⟨_, _, _, _, _, _, _, _, _, same⟩ | ⟨_, _, same⟩
  · rw [same]
    exact order
  · rw [same]
    exact shorter
  · rw [same]
    exact shorter

theorem complete (order : q.Ordered) (now : Nat) (id : TaskId) (outcome : Outcome) :
    (q.complete now id outcome).2.Ordered := by
  cases known : q.task? id with
  | none =>
    simp only [Queue.complete, known]
    exact order
  | some task =>
    rcases complete_cases known now outcome with
      ⟨_, same⟩ | ⟨_, same⟩ | ⟨_, delay, same⟩ | ⟨_, error, same⟩
    · rw [same]
      exact order.finish id _
    · rw [same]
      exact order.finish id _
    · rw [same]
      exact inOrder_addWakeup order _
    · rw [same]
      exact order

theorem enqueueDelayed (order : q.Ordered) (now : Nat) (job : Job) (delay : Delay) :
    (q.enqueueDelayed now job delay).2.Ordered := by
  rcases enqueueDelayed_cases q now job delay with ⟨_, same⟩ | ⟨_, same⟩
  · rw [same]
    exact order
  · rw [same]
    exact order.insert now job delay none

theorem enqueueUnique (order : q.Ordered) (now : Nat) (key : Key) (policy : HolderPolicy)
    (job : Job) : (q.enqueueUnique now key policy job).2.Ordered := by
  rcases enqueueUnique_cases q now key policy job with
    ⟨_, same⟩ | ⟨_, _, same⟩ | ⟨_, _, _, _, _, same⟩ | ⟨_, previous, _, _, _, _, same⟩
  · rw [same]
    exact order
  · rw [same]
    exact order.insert now job Delay.zero (some key)
  · rw [same]
    exact order
  · rw [same]
    exact (order.finish previous _).insert now job Delay.zero (some key)

theorem leaseBy (order : q.Ordered) (now deadline : Nat) :
    (q.leaseBy now deadline).2.Ordered := by
  fun_induction q.leaseBy now deadline with
  | case1 q now q' seen | case2 q now lease q' seen | case3 q now q' seen
  | case5 q now wake q' seen next late =>
    have after := order.look now
    rw [seen] at after
    exact after
  | case4 q now wake q' seen next inTime ih =>
    have after := order.look now
    rw [seen] at after
    exact ih after

end Ordered

/-! ### A promotion as a whole -/

def isQueued (q : Queue) (id : TaskId) : Bool := q.taskState id == some .queued

def isWaiting (q : Queue) (id : TaskId) : Bool := (q.taskState id).any (·.isWaiting)

theorem isQueued_iff : q.isQueued id = true ↔ ∃ task, q.task? id = some task ∧
    task.state = .queued := by
  simp [isQueued, taskState]

theorem isWaiting_iff : q.isWaiting id = true ↔ ∃ task, q.task? id = some task ∧
    task.state.isWaiting = true := by
  simp [isWaiting, taskState, Option.any_eq_true]

/-- A change of each task by its number. -/
def revise (q : Queue) (f : TaskId → Task → Task) : Queue :=
  { q with tasks := q.tasks.map fun entry => (entry.1, f entry.1 entry.2) }

theorem task?_revise (q : Queue) (f : TaskId → Task → Task) (id : TaskId) :
    (q.revise f).task? id = (q.task? id).map (f id) := by
  unfold task? revise
  simp only
  induction q.tasks with
  | nil => rfl
  | cons entry rest ih =>
    by_cases here : entry.1 = id
    · simp [here]
    · simpa [here] using ih

/-- The tasks that a promotion queues, in this order. -/
def dueTasks (q : Queue) (now : Nat) : List TaskId :=
  ((q.scheduled.takeWhile (·.notBefore ≤ now)).map (·.task)).filter q.isWaiting

/-- What becomes of a task by a promotion that queues those of a list. -/
def requeueAmong (due : List TaskId) (now : Nat) (id : TaskId) (task : Task) : Task :=
  if id ∈ due then task.requeue now else task

private theorem isWaiting_wake_of_ne (other : i ≠ w.task) :
    (wake now q w).isWaiting i = q.isWaiting i := by
  rcases wake_cases now q w with ⟨_, _, _, woken⟩ | ⟨_, same⟩
  · have view : (wake now q w).task? i = q.task? i := by
      rw [woken]
      exact task?_modify_of_ne (f := (·.requeue now)) other
    simp [isWaiting, taskState, view]
  · rw [same]

/-- A row of wake-ups of different tasks queues those of them that wait. -/
private theorem foldl_wake (once : (ws.map (·.task)).Nodup) (q : Queue) :
    ws.foldl (wake now) q =
      { q.revise (requeueAmong ((ws.map (·.task)).filter q.isWaiting) now) with
        ready := q.ready ++ (ws.map (·.task)).filter q.isWaiting } := by
  induction ws generalizing q with
  | nil => simp [revise, requeueAmong]
  | cons w ws ih =>
    rw [List.map_cons, List.nodup_cons] at once
    obtain ⟨alone, once⟩ := once
    have others : (ws.map (·.task)).filter (wake now q w).isWaiting =
        (ws.map (·.task)).filter q.isWaiting := by
      apply List.filter_congr
      intro i member
      apply isWaiting_wake_of_ne
      rintro rfl
      exact alone member
    rw [List.foldl_cons, ih once, others, List.map_cons]
    rcases wake_cases now q w with ⟨task, known, waits, woken⟩ | ⟨passed, same⟩
    · have waiting : q.isWaiting w.task = true := isWaiting_iff.mpr ⟨task, known, waits⟩
      have absent : w.task ∉ (ws.map (·.task)).filter q.isWaiting := fun member =>
        alone (List.mem_filter.mp member).1
      rw [woken, List.filter_cons_of_pos waiting]
      simp only [revise, modify, List.map_map, List.append_assoc, List.singleton_append]
      congr 1
      apply List.map_congr_left
      intro entry _
      -- The first task is requeued at once, and no later wake-up is for it.
      by_cases first : entry.1 = w.task
      · simp only [Function.comp_apply, requeueAmong, first, absent, List.mem_cons_self, if_true,
          if_false]
      · simp [requeueAmong, first]
    · have stays : ¬q.isWaiting w.task = true := by
        rw [isWaiting_iff]
        rintro ⟨task, known, waits⟩
        rw [passed task known] at waits
        cases waits
      rw [same, List.filter_cons_of_neg stays]

theorem promoteDue_of_once (once : (q.scheduled.map (·.task)).Nodup) (now : Nat) :
    q.promoteDue now = { q.revise (requeueAmong (q.dueTasks now) now) with
      ready := q.ready ++ q.dueTasks now
      scheduled := q.scheduled.dropWhile (·.notBefore ≤ now) } := by
  have shorter : ((q.scheduled.takeWhile (·.notBefore ≤ now)).map (·.task)).Nodup :=
    once.sublist ((List.takeWhile_sublist _).map _)
  rw [promoteDue, foldl_wake shorter]
  rfl

theorem task?_promoteDue (once : (q.scheduled.map (·.task)).Nodup) (now : Nat) (i : TaskId) :
    (q.promoteDue now).task? i = (q.task? i).map (requeueAmong (q.dueTasks now) now i) := by
  rw [promoteDue_of_once once]
  exact task?_revise q _ i

theorem taskState_promoteDue_of_not_due (once : (q.scheduled.map (·.task)).Nodup)
    (absent : i ∉ q.dueTasks now) : (q.promoteDue now).taskState i = q.taskState i := by
  unfold taskState
  rw [task?_promoteDue once, Option.map_map]
  congr 1
  funext task
  simp [requeueAmong, absent]

/-- What is due at `now` is queued then. -/
theorem isQueued_promoteDue_of_due (once : (q.scheduled.map (·.task)).Nodup)
    (due : i ∈ q.dueTasks now) : (q.promoteDue now).isQueued i = true := by
  obtain ⟨task, known, _⟩ := isWaiting_iff.mp (List.mem_filter.mp due).2
  rw [isQueued_iff]
  refine ⟨task.requeue now, ?_, rfl⟩
  rw [task?_promoteDue once, known, Option.map_some, requeueAmong, if_pos due]

end PacedChain.Queue
