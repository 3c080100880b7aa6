import PacedChain.Proofs.Queue.Calls

/-!
# One task at a time

A queue on which a single task is to come (`Queue.Lone`) hands it out when its time has come, and
nothing before. While that task runs nothing else stands on the queue (`Queue.Busy`); what happens
to it then, and what it puts on the queue, decides which task comes next and when.
-/
namespace PacedChain

/-- The first whole millisecond after a wait that starts at `t`; no wait is longer than the
longest. -/
def Clock.after (t wait : Nat) : Nat := wholeMilli (t + min wait longest)

namespace Clock

theorem le_after (t wait : Nat) : t ≤ after t wait :=
  Nat.le_trans (Nat.le_add_right _ _) (le_wholeMilli _)

theorem after_zero {t : Nat} (whole : milli ∣ t) : after t 0 = t := by
  rw [after, Nat.zero_min, Nat.add_zero, wholeMilli_eq_self whole]

end Clock

namespace Queue

/-- A queue that is open, with a given backoff. -/
structure Works (q : Queue) (b : Backoff) : Prop where
  kept : q.Kept
  isOpen : q.closed = false
  backoff : q.backoff = b

/-- Nothing is to come but one task, the last one created: either it is ready now, or it is
scheduled and can be handed out at `time`. -/
structure Lone (q : Queue) (b : Backoff) (now : Nat) (id : TaskId) (task : Task) (time : Nat) :
    Prop where
  works : q.Works b
  known : q.task? id = some task
  last : id = ⟨q.created⟩
  stands : (task.state = .queued ∧ q.ready = [id] ∧ q.scheduled = [] ∧ time = now) ∨
    ∃ t, task.state.isWaiting = true ∧ q.ready = [] ∧ q.scheduled = [⟨t, id⟩] ∧
      time = Clock.wholeMilli t ∧ now ≤ time

/-- The task that was created last runs, and nothing is to come. -/
structure Busy (q : Queue) (b : Backoff) (id : TaskId) (task : Task) : Prop where
  works : q.Works b
  known : q.task? id = some task
  last : id = ⟨q.created⟩
  runs : task.state = .running
  ready : q.ready = []
  scheduled : q.scheduled = []

/-- Nothing is to come. -/
structure Bare (q : Queue) : Prop where
  isOpen : q.closed = false
  ready : q.ready = []
  scheduled : q.scheduled = []

variable {q : Queue} {b : Backoff} {now time : Nat} {id i : TaskId} {task other : Task}
  {f : Task → Task}

/-! ### Looking -/

theorem promoteDue_eq_self (later : q.scheduled.takeWhile (·.notBefore ≤ now) = []) :
    q.promoteDue now = q := by
  have all : q.scheduled.dropWhile (·.notBefore ≤ now) = q.scheduled := by
    have split := List.takeWhile_append_dropWhile (p := (·.notBefore ≤ now)) (l := q.scheduled)
    rwa [later, List.nil_append] at split
  rw [promoteDue, later, all, List.foldl_nil]

theorem promoteDue_singleton {t : Nat} (scheduled : q.scheduled = [⟨t, id⟩]) (due : t ≤ now)
    (known : q.task? id = some task) (waits : task.state.isWaiting = true) :
    q.promoteDue now = { q.modify id (·.requeue now) with
      ready := q.ready ++ [id], scheduled := [] } := by
  have taken : q.scheduled.takeWhile (·.notBefore ≤ now) = [⟨t, id⟩] := by
    rw [scheduled]
    simp [due]
  have left : q.scheduled.dropWhile (·.notBefore ≤ now) = [] := by
    rw [scheduled]
    simp [due]
  rw [promoteDue, taken, left, List.foldl_cons, List.foldl_nil, wake_with_scheduled]
  rcases wake_cases now q ⟨t, id⟩ with ⟨_, _, _, woken⟩ | ⟨idle, _⟩
  · rw [woken]
  · rw [idle task known] at waits
    cases waits

theorem look_of_ready (isOpen : q.closed = false) (ready : (q.promoteDue now).ready = [id])
    (known : (q.promoteDue now).task? id = some task) (state : task.state = .queued) :
    q.look now = (.leased ⟨⟨id, task.job⟩, task.attempts + 1, ⟨(q.promoteDue now).leases + 1⟩⟩,
      { (q.promoteDue now).modify id (·.start now) with
        ready := [], leases := (q.promoteDue now).leases + 1 }) := by
  have first : (q.promoteDue now).firstRunnable (q.promoteDue now).ready = some (id, task, []) := by
    rw [ready, firstRunnable, known]
    simp only [state, TaskState.isRunnable, if_true]
  unfold look
  rw [isOpen]
  simp only [first, Bool.false_eq_true, if_false]

theorem look_of_none_ready (isOpen : q.closed = false) (ready : (q.promoteDue now).ready = []) :
    q.look now = (.idle ((q.promoteDue now).scheduled.head?.map (·.notBefore)),
      { q.promoteDue now with ready := [] }) := by
  unfold look
  rw [isOpen]
  simp only [ready, firstRunnable, Bool.false_eq_true, if_false]

theorem Bare.look (bare : q.Bare) (now : Nat) : q.look now = (.idle none, q) := by
  have same : q.promoteDue now = q := promoteDue_eq_self (by rw [bare.scheduled]; rfl)
  have ready : (q.promoteDue now).ready = [] := by
    rw [same]
    exact bare.ready
  rw [look_of_none_ready bare.isOpen ready, same, bare.scheduled, ← bare.ready]
  rfl

theorem Works.start (works : q.Works b) (known : q.task? id = some task)
    (state : task.state = .queued) (last : id = ⟨q.created⟩) (scheduled : q.scheduled = []) :
    Busy { q.modify id (·.start now) with ready := [], leases := q.leases + 1 } b id
      (task.start now) := by
  have kept := works.kept.modify (f := (·.start now)) known (by rw [state]; rfl) rfl
  refine ⟨⟨?_, works.isOpen, works.backoff⟩, ?_, last, rfl, rfl, scheduled⟩
  · exact kept.congr rfl rfl rfl
  · exact task?_modify_self (f := (·.start now)) known

/-- The one task to come is handed out at its time, and before that there is nothing to hand out. -/
theorem Lone.look (lone : q.Lone b now id task time) (whole : Clock.milli ∣ now) :
    (now = time ∧ ∃ lease q' running, q.look now = (.leased lease, q') ∧
      lease.envelope = ⟨id, task.job⟩ ∧ lease.attempt = task.attempts + 1 ∧
      q'.Busy b id running ∧ running.job = task.job ∧ running.attempts = task.attempts + 1) ∨
    (now < time ∧ ∃ t, q.look now = (.idle (some t), q) ∧ time = Clock.wholeMilli t) := by
  rcases lone.stands with ⟨state, ready, scheduled, rfl⟩ | ⟨t, waits, ready, scheduled, rfl, early⟩
  -- The task is ready already.
  · left
    have same : q.promoteDue time = q := promoteDue_eq_self (by rw [scheduled]; rfl)
    rw [← same] at ready
    have seen := look_of_ready lone.works.isOpen ready (by rw [same]; exact lone.known) state
    rw [same] at seen
    exact ⟨rfl, _, _, _, seen, rfl, rfl, lone.works.start lone.known state lone.last scheduled,
      rfl, rfl⟩
  · by_cases due : t ≤ now
    -- The task falls due with this look.
    · left
      -- Now is a whole millisecond, so the wait for it ends at once.
      have reached : now = Clock.wholeMilli t := by
        refine Nat.le_antisymm early ?_
        have sooner := Clock.wholeMilli_mono due
        rwa [Clock.wholeMilli_eq_self whole] at sooner
      have woken := promoteDue_singleton scheduled due lone.known waits
      have known := task?_modify_self (f := (·.requeue now)) lone.known
      have kept := lone.works.kept.modify (f := (·.requeue now)) lone.known
        (TaskState.isTerminal_of_isWaiting waits) rfl
      have works : Works (q.promoteDue now) b := by
        rw [woken]
        exact ⟨kept.congr rfl rfl rfl, lone.works.isOpen, lone.works.backoff⟩
      have found : (q.promoteDue now).task? id = some (task.requeue now) := by
        rw [woken]
        exact known
      have last : id = ⟨(q.promoteDue now).created⟩ := by
        rw [woken]
        exact lone.last
      have alone : (q.promoteDue now).ready = [id] := by
        rw [woken, ready]
        rfl
      have seen := look_of_ready lone.works.isOpen alone found rfl
      exact ⟨reached, _, _, _, seen, rfl, rfl,
        works.start found rfl last (by rw [woken]), rfl, rfl⟩
    -- The task is still to come, and the look says when.
    · right
      have later : q.scheduled.takeWhile (·.notBefore ≤ now) = [] := by
        rw [scheduled]
        simp [due]
      have same := promoteDue_eq_self later
      have none : (q.promoteDue now).ready = [] := by
        rw [same]
        exact ready
      have earlier := Clock.le_wholeMilli t
      refine ⟨by omega, t, ?_, rfl⟩
      rw [look_of_none_ready lone.works.isOpen none, same, scheduled, ← ready]
      rfl

theorem Lone.wait (lone : q.Lone b now id task time) (early : now < time) :
    q.Lone b time id task time := by
  refine ⟨lone.works, lone.known, lone.last, ?_⟩
  rcases lone.stands with ⟨_, _, _, reached⟩ | ⟨t, waits, ready, scheduled, same, _⟩
  · omega
  · exact Or.inr ⟨t, waits, ready, scheduled, same, Nat.le_refl _⟩

/-! ### A task to come -/

/-- The first task to be created while nothing is to come is the next to come. -/
theorem Works.insert (works : q.Works b) (ready : q.ready = []) (scheduled : q.scheduled = [])
    (job : Job) (key : Option Key) (delay : Delay) (whole : Clock.milli ∣ now) :
    (q.insert now job delay key).2.Lone b now ⟨q.created + 1⟩ (Task.fresh job key delay now)
      (Clock.after now delay.duration) := by
  have kept := works.kept.insert now job delay key
  have view := task?_insert works.kept now job delay key
  obtain ⟨log, same⟩ := insert_eq q now job delay key
  rw [same] at kept view ⊢
  refine ⟨⟨kept, works.isOpen, works.backoff⟩, ?_, rfl, ?_⟩
  · rw [view, if_pos rfl]
  -- Without a delay the task is ready, and otherwise it is the only one that is scheduled.
  · by_cases atOnce : delay.isZero = true
    · left
      have zero : delay = Delay.zero := Delay.isZero_iff.mp atOnce
      refine ⟨by rw [Task.fresh, if_pos atOnce]; rfl, ?_, ?_, ?_⟩
      · simp only [atOnce, if_true, ready, List.nil_append]
      · simp only [atOnce, if_true, scheduled]
      · rw [zero]
        exact Clock.after_zero whole
    · right
      refine ⟨Clock.deadline now delay.duration, by rw [Task.fresh, if_neg atOnce]; rfl, ?_, ?_,
        rfl, Clock.le_after _ _⟩
      · simp only [atOnce, Bool.false_eq_true, if_false, ready]
      · simp only [atOnce, Bool.false_eq_true, if_false, scheduled]
        rfl

/-! ### While a task runs -/

namespace Busy

/-- A task that is created while another one runs is the next to come. -/
theorem insert (busy : q.Busy b id task) (now : Nat) (job : Job) (delay : Delay)
    (whole : Clock.milli ∣ now) :
    (q.insert now job delay none).2.Lone b now ⟨q.created + 1⟩ (Task.fresh job none delay now)
        (Clock.after now delay.duration) ∧
      (q.insert now job delay none).2.task? id = some task :=
  ⟨busy.works.insert busy.ready busy.scheduled job none delay whole,
    task?_insert_of_known busy.works.kept busy.known now job delay none⟩

/-- A task that is to be tried again is the next to come. -/
theorem retry (busy : q.Busy b id task) (now wait : Nat) :
    ((q.modify id (·.scheduleRetry (Clock.deadline now wait) now)).schedule
        (Clock.deadline now wait) id).Lone b now id
      (task.scheduleRetry (Clock.deadline now wait) now) (Clock.after now wait) := by
  have kept := busy.works.kept.modify (f := (·.scheduleRetry (Clock.deadline now wait) now))
    busy.known (by rw [busy.runs]; rfl) rfl
  refine ⟨⟨kept.congr rfl rfl rfl, busy.works.isOpen, busy.works.backoff⟩, ?_, busy.last,
    Or.inr ⟨_, rfl, busy.ready, ?_, rfl, Clock.le_after _ _⟩⟩
  · exact task?_modify_self (f := (·.scheduleRetry (Clock.deadline now wait) now)) busy.known
  · change addWakeup _ q.scheduled = _
    rw [busy.scheduled]
    rfl

theorem settle (busy : q.Busy b id task) (f : Task → Task) : (q.settle id task f).Bare where
  isOpen := (closed_finish q id f).trans busy.works.isOpen
  ready := (ready_finish q id f).trans busy.ready
  scheduled := (scheduled_finish q id f).trans busy.scheduled

end Busy

/-- The end of another task leaves the one to come as it is. -/
theorem Lone.settle (lone : q.Lone b now id task time) (known : q.task? i = some other)
    (runs : other.state = .running) (ends : (f other).state.isTerminal = true) :
    (q.settle i other f).Lone b now id task time := by
  have going : task.state.isTerminal = false ∧ task.state ≠ .running := by
    rcases lone.stands with ⟨state, _⟩ | ⟨t, waits, _⟩
    · rw [state]
      decide
    · cases state : task.state <;> rw [state] at waits <;> first | decide | cases waits
  have apart : id ≠ i := ne_of_state_ne known lone.known fun same => going.2 (same.trans runs)
  have kept := lone.works.kept.finish (f := f) known (by rw [runs]; rfl) ends
  have stays := lone.works.kept.task?_finish_of_live (f := f) known ends lone.known going.1 apart
  refine ⟨⟨kept.congr rfl rfl rfl, (closed_finish q i f).trans lone.works.isOpen,
    (backoff_finish q i f).trans lone.works.backoff⟩, stays, ?_, ?_⟩
  · change id = ⟨(q.finish i f).created⟩
    rw [created_finish]
    exact lone.last
  · change (_ ∧ (q.finish i f).ready = _ ∧ (q.finish i f).scheduled = _ ∧ _) ∨
      ∃ t, _ ∧ (q.finish i f).ready = _ ∧ (q.finish i f).scheduled = _ ∧ _
    rw [ready_finish, scheduled_finish]
    exact lone.stands

end Queue

end PacedChain
