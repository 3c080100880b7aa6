import PacedChain.Proofs.Desk.Placement
import PacedChain.Proofs.Queue.Lapses

/-!
# How tasks fare at a desk

Everything that a call can do to one task at a desk and to the entries about its attempts
(`Usage.Fares`): the task lapses or is created, and no entry is made, or it is handed out or
completed, and one is (`Usage.Sound.fares`). So a task that has ended is done with for good, and so
is one whose lease was given up (`Usage.DoneWith`).
-/
namespace PacedChain

/-- Whether an entry is about an attempt at a task: its lease or its completion. -/
def Entry.isAttempt (id : TaskId) : Entry → Bool
  | .lease taken => decide (taken.envelope.task = id)
  | .complete task _ _ => decide (task = id)
  | _ => false

namespace Desk

/-- The entries about attempts at a task, the last one first. -/
def attempts (d : Desk) (id : TaskId) : List (Nat × Entry) :=
  d.journal.filter (·.2.isAttempt id)

variable {d : Desk} {q : Queue} {entry : Entry} {id : TaskId}

theorem attempts_enter (own : entry.isAttempt id = true) :
    (d.enter q entry).attempts id = (d.now, entry) :: d.attempts id :=
  List.filter_cons_of_pos own

theorem attempts_enter_of_not (other : entry.isAttempt id = false) :
    (d.enter q entry).attempts id = d.attempts id :=
  List.filter_cons_of_neg (by rw [other]; exact Bool.false_ne_true)

/-- There is no attempt at a task that is still to be created. -/
def Unborn (d : Desk) (id : TaskId) : Prop := d.queue.created < id.number → d.attempts id = []

end Desk

/-- The attempt of a lease is over, and its task is known by now or forgotten. -/
structure Queue.Past (q : Queue) (lease : Lease) : Prop where
  created : lease.envelope.task.number ≤ q.created
  passed : ∀ task, q.task? lease.envelope.task = some task → task.Passed lease.attempt

namespace Usage

/-- A call puts a new task in the place of this one. -/
def Replaces (u : Usage) (call : Call) (id : TaskId) : Prop :=
  ∃ key policy job new, call = .enqueueUnique key policy job ∧
    (u.desk.queue.enqueueUnique u.desk.now key policy job).1 = .ok (.replaced id new)

/-- What a call does to a task, and to the entries about attempts at it. -/
inductive Fares (u : Usage) (call : Call) (id : TaskId) : Prop
  | lapses :
    Task.Lapses (u.Replaces call id) u.desk.now (u.desk.queue.task? id)
      ((u.perform call).desk.queue.task? id) →
    (u.perform call).desk.attempts id = u.desk.attempts id →
    (∀ lease, lease.envelope.task = id → (lease ∈ (u.perform call).out ↔ lease ∈ u.out)) →
    Fares u call id
  | created (job : Job) (key : Option Key) (delay : Delay) :
    id = ⟨u.desk.queue.created + 1⟩ →
    (u.perform call).desk.queue.task? id = some (Task.fresh job key delay u.desk.now) →
    (u.perform call).desk.attempts id = u.desk.attempts id → Fares u call id
  | leased {lease : Lease} {task : Task} :
    lease.envelope = ⟨id, task.job⟩ → lease.attempt = task.attempts + 1 → task.state = .queued →
    Task.Lapses False u.desk.now (u.desk.queue.task? id) (some task) →
    (u.perform call).desk.queue.task? id = some (task.start u.desk.now) →
    (u.perform call).desk.attempts id = (u.desk.now, .lease lease) :: u.desk.attempts id →
    lease ∈ (u.perform call).out → Fares u call id
  | completed {lease : Lease} {task after : Task} {outcome : Outcome}
    {result : Except CompleteError Completion} :
    lease ∈ u.out → lease.envelope.task = id →
    u.desk.queue.task? id = some task → task.state = .running →
    Task.Completes u.desk.queue.backoff u.desk.now task outcome result after →
    Task.Lapses False u.desk.now (some after) ((u.perform call).desk.queue.task? id) →
    (u.perform call).desk.attempts id =
      (u.desk.now, .complete id outcome result) :: u.desk.attempts id → Fares u call id
  | dropped {lease : Lease} :
    call = .drop lease → lease ∈ u.out → lease.envelope.task = id → Fares u call id

variable {u : Usage} {id : TaskId} {lease : Lease}

/-- Numbers are given out in order, and never taken back. -/
theorem created_perform (u : Usage) (call : Call) :
    u.desk.queue.created ≤ (u.perform call).desk.queue.created := by
  cases call with
  | enqueue job => exact Queue.created_enqueueDelayed _ _ job Delay.zero
  | enqueueDelayed job delay => exact Queue.created_enqueueDelayed _ _ job delay
  | enqueueUnique key policy job => exact Queue.created_enqueueUnique _ _ key policy job
  | look =>
    have same := Queue.created_look u.desk.queue u.desk.now
    rcases seen : u.desk.queue.look u.desk.now with ⟨_ | _ | _, q⟩ <;> rw [seen] at same
    · rw [perform_look_closed seen]
      exact same.ge
    · rw [perform_look_leased seen]
      exact same.ge
    · rw [perform_look_idle seen]
      exact same.ge
  | complete lease outcome =>
    rw [perform]
    split
    · exact (Queue.created_complete _ _ _ outcome).ge
    · exact Nat.le_refl _
  | drop | close | pass => exact Nat.le_refl _

/-- Of the leases that are out, no two are of one task. -/
theorem Sound.ne_of_mem_erase (sound : u.Sound) (out : lease ∈ u.out) {other : Lease}
    (still : other ∈ u.out.erase lease) : other.envelope.task ≠ lease.envelope.task := by
  have once := (((List.perm_cons_erase out).map (·.envelope.task)).nodup_iff).mp sound.once
  rw [List.map_cons, List.nodup_cons] at once
  intro same
  exact once.1 (List.mem_map.mpr ⟨other, still, same⟩)

/-- A lease that goes takes no lease of another task with it. -/
theorem mem_erase_iff_of_task_ne {out : List Lease} {other : Lease}
    (apart : other.envelope.task ≠ lease.envelope.task) :
    other ∈ out.erase lease ↔ other ∈ out := by
  refine List.mem_erase_of_ne ?_
  rintro rfl
  exact apart rfl

theorem Sound.fares (sound : u.Sound) (call : Call) (id : TaskId) : u.Fares call id := by
  have kept := sound.kept
  cases call with
  | enqueue job =>
    rcases Queue.enqueueDelayed_fares kept u.desk.now job Delay.zero id with stays | ⟨new, comes⟩
    · refine .lapses ?_ (Desk.attempts_enter_of_not rfl) fun _ _ => Iff.rfl
      rw [show (u.perform (.enqueue job)).desk.queue.task? id = _ from stays]
      exact .refl _ _ _
    · exact .created job none Delay.zero new comes (Desk.attempts_enter_of_not rfl)
  | enqueueDelayed job delay =>
    rcases Queue.enqueueDelayed_fares kept u.desk.now job delay id with stays | ⟨new, comes⟩
    · refine .lapses ?_ (Desk.attempts_enter_of_not rfl) fun _ _ => Iff.rfl
      rw [show (u.perform (.enqueueDelayed job delay)).desk.queue.task? id = _ from stays]
      exact .refl _ _ _
    · exact .created job none delay new comes (Desk.attempts_enter_of_not rfl)
  | enqueueUnique key policy job =>
    rcases Queue.enqueueUnique_fares kept u.desk.now key policy job id with lapses | ⟨new, comes⟩
    · refine .lapses (lapses.mono ?_) (Desk.attempts_enter_of_not rfl) fun _ _ => Iff.rfl
      rintro ⟨new, replaced⟩
      exact ⟨key, policy, job, new, rfl, replaced⟩
    · exact .created job (some key) Delay.zero new comes (Desk.attempts_enter_of_not rfl)
  | look =>
    rcases seen : u.desk.queue.look u.desk.now with ⟨_ | handed | wake, q⟩
    all_goals
      have fares := Queue.look_fares sound.placed u.desk.now id
      rw [seen] at fares
    · have left := perform_look_closed seen
      obtain ⟨_, _, ⟨⟩, _⟩ | ⟨_, lapses⟩ := fares
      refine .lapses ?_ ?_ ?_ <;> rw [left]
      · exact lapses.mono False.elim
      · exact Desk.attempts_enter_of_not rfl
      · exact fun _ _ => Iff.rfl
    · have left := perform_look_leased seen
      obtain ⟨lease, task, same, envelope, number, queued, lapses, starts⟩ | ⟨other, lapses⟩ :=
        fares
      · cases same
        refine .leased envelope number queued lapses ?_ ?_ ?_ <;> rw [left]
        · exact starts
        · exact Desk.attempts_enter (decide_eq_true (congrArg Envelope.task envelope))
        · exact List.mem_cons_self
      · refine .lapses ?_ ?_ ?_ <;> rw [left]
        · exact lapses.mono False.elim
        · exact Desk.attempts_enter_of_not (decide_eq_false (other handed rfl))
        · rintro lease rfl
          refine ⟨fun out => (List.mem_cons.mp out).resolve_left ?_, List.mem_cons_of_mem _⟩
          rintro rfl
          exact other lease rfl rfl
    · have left := perform_look_idle seen
      obtain ⟨_, _, ⟨⟩, _⟩ | ⟨_, lapses⟩ := fares
      refine .lapses ?_ ?_ ?_ <;> rw [left]
      · exact lapses.mono False.elim
      · rfl
      · exact fun _ _ => Iff.rfl
  | complete lease outcome =>
    by_cases out : lease ∈ u.out
    · have left : u.perform (.complete lease outcome) = _ := if_pos out
      obtain ⟨task, known, runs, _⟩ := sound.leased lease out
      obtain ⟨after, completes, itself, others⟩ :=
        Queue.complete_fares kept known u.desk.now outcome
      by_cases here : id = lease.envelope.task
      · subst here
        refine .completed out rfl known runs completes ?_ ?_ <;> rw [left]
        · exact itself
        · exact Desk.attempts_enter (decide_eq_true rfl)
      · refine .lapses ?_ ?_ ?_ <;> rw [left]
        · exact (others id here).mono False.elim
        · exact Desk.attempts_enter_of_not (decide_eq_false (Ne.symm here))
        · rintro other rfl
          exact mem_erase_iff_of_task_ne here
    · have left : u.perform (.complete lease outcome) = _ := if_neg out
      refine .lapses ?_ ?_ ?_ <;> rw [left]
      · exact .refl _ _ _
      · exact fun _ _ => Iff.rfl
  | drop lease =>
    by_cases own : lease ∈ u.out ∧ lease.envelope.task = id
    · exact .dropped rfl own.1 own.2
    · refine .lapses (.refl _ _ _) rfl ?_
      rintro other rfl
      refine ⟨List.mem_of_mem_erase, fun out => ?_⟩
      refine (List.mem_erase_of_ne ?_).mpr out
      rintro rfl
      exact own ⟨out, rfl⟩
  | close | pass => exact .lapses (.refl _ _ _) rfl fun _ _ => Iff.rfl

theorem Sound.number_le_created (sound : u.Sound) {task : Task} {withdrawn : Prop} {now : Nat}
    (lapses : Task.Lapses withdrawn now (u.desk.queue.task? id) (some task)) :
    id.number ≤ u.desk.queue.created := by
  rcases known : u.desk.queue.task? id with _ | before
  · rw [known] at lapses
    cases lapses.eq_none
  · exact sound.kept.numbered id before known

theorem Sound.unborn_perform (sound : u.Sound) (unborn : u.desk.Unborn id) (call : Call) :
    (u.perform call).desk.Unborn id := by
  intro later
  have earlier := Nat.lt_of_le_of_lt (created_perform u call) later
  cases sound.fares call id with
  | lapses _ same | created _ _ _ _ _ same =>
    rw [same]
    exact unborn earlier
  | leased _ _ _ lapses => exact absurd earlier (Nat.not_lt.mpr (sound.number_le_created lapses))
  | completed _ _ known => exact absurd earlier (Nat.not_lt.mpr (sound.kept.numbered id _ known))
  | dropped same =>
    subst same
    exact unborn earlier

/-! ### Done with for good -/

/-- No attempt at a task is to come: it has ended and may be forgotten, or it runs under a lease
that was given up. -/
structure DoneWith (u : Usage) (id : TaskId) : Prop where
  created : id.number ≤ u.desk.queue.created
  finished : (∀ task, u.desk.queue.task? id = some task → task.state.isTerminal = true) ∨
    ((∃ task, u.desk.queue.task? id = some task ∧ task.state = .running) ∧
      ∀ lease ∈ u.out, lease.envelope.task ≠ id)

theorem DoneWith.perform (sound : u.Sound) (done : u.DoneWith id) (call : Call) :
    (u.perform call).DoneWith id ∧ (u.perform call).desk.attempts id = u.desk.attempts id := by
  have created := Nat.le_trans done.created (created_perform u call)
  cases sound.fares call id with
  | lapses lapses same out =>
    refine ⟨⟨created, done.finished.imp lapses.isTerminal ?_⟩, same⟩
    rintro ⟨⟨task, known, runs⟩, lost⟩
    rw [known] at lapses
    exact ⟨⟨task, lapses.eq_some_of_running runs, runs⟩,
      fun lease member own => lost lease ((out lease own).mp member) own⟩
  | created job key delay new =>
    have before := done.created
    rw [new] at before
    exact absurd before (Nat.not_succ_le_self _)
  | leased _ _ queued lapses =>
    rcases done.finished with ended | ⟨⟨running, known, runs⟩, _⟩
    · have terminal := lapses.isTerminal ended _ rfl
      rw [queued] at terminal
      cases terminal
    · rw [known] at lapses
      cases lapses.eq_some_of_running runs
      cases runs.symm.trans queued
  | completed out own known runs =>
    rcases done.finished with ended | ⟨_, lost⟩
    · have terminal := ended _ known
      rw [runs] at terminal
      cases terminal
    · exact absurd own (lost _ out)
  | dropped same out own =>
    subst same
    refine ⟨⟨created, done.finished.imp_right fun ⟨_, lost⟩ => ?_⟩, rfl⟩
    exact absurd own (lost _ out)

/-- Whatever is called, there is no further attempt at a task that is done with. -/
theorem DoneWith.attempts_run (sound : u.Sound) (done : u.DoneWith id) (calls : List Call) :
    (u.run calls).desk.attempts id = u.desk.attempts id := by
  refine (run_induction (P := fun v => v.Sound ∧ v.DoneWith id ∧
    v.desk.attempts id = u.desk.attempts id) ?_ ⟨sound, done, rfl⟩ calls).2.2
  rintro v call ⟨sound, done, same⟩
  obtain ⟨still, unchanged⟩ := done.perform sound call
  exact ⟨sound.perform call, still, unchanged.trans same⟩

/-! ### Attempts that are over -/

/-- Every task that runs does so under a lease that is out. -/
def Held (u : Usage) : Prop :=
  ∀ id task, u.desk.queue.task? id = some task → task.state = .running →
    ∃ lease ∈ u.out, lease.envelope.task = id

theorem Held.perform (sound : u.Sound)
    (waits : ∀ attempts, ∃ delay, u.desk.queue.backoff.nextDelay attempts = .ok delay)
    (held : u.Held) {call : Call} (kind : call.isDrop = false) : (u.perform call).Held := by
  intro id task known runs
  cases sound.fares call id with
  | lapses lapses _ out =>
    rw [known] at lapses
    obtain ⟨lease, member, own⟩ := held id task (lapses.eq_of_running runs) runs
    exact ⟨lease, (out lease own).mpr member, own⟩
  | created job key delay _ comes =>
    cases known.symm.trans comes
    exact absurd runs (Task.fresh_not_running job key delay _)
  | @leased lease _ envelope _ _ _ _ _ out => exact ⟨lease, out, congrArg Envelope.task envelope⟩
  | completed _ _ _ _ completes lapses =>
    rw [known] at lapses
    cases lapses.eq_of_running runs
    rcases completes.ends_or_waits (waits _) with ended | ⟨idle, _⟩
    · rw [runs] at ended
      cases ended
    · rw [runs] at idle
      cases idle
  | dropped same =>
    rw [same] at kind
    cases kind

theorem Sound.past_perform (sound : u.Sound) (past : u.desk.queue.Past lease) (call : Call) :
    (u.perform call).desk.queue.Past lease := by
  refine ⟨Nat.le_trans past.created (created_perform u call), ?_⟩
  cases sound.fares call lease.envelope.task with
  | lapses lapses => exact lapses.passed past.passed
  | created job key delay new =>
    have before := past.created
    rw [new] at before
    exact absurd before (Nat.not_succ_le_self _)
  | leased _ _ queued lapses starts =>
    intro task known
    cases known.symm.trans starts
    rcases lapses.passed past.passed _ rfl with ended | earlier | ⟨last, _⟩
    · rw [queued] at ended
      cases ended
    · exact Or.inr (Or.inl (Nat.lt_succ_of_lt earlier))
    · exact Or.inr (Or.inl (Nat.lt_succ_of_le last.le))
  | completed _ _ known runs completes lapses =>
    refine lapses.passed fun task same => ?_
    cases same
    have earlier := (past.passed _ known).earlier runs
    cases completes with
    | success | dead => exact Or.inl rfl
    | again | noDelay => exact Or.inr (Or.inl earlier)
  | dropped same =>
    subst same
    exact past.passed

/-- With its completion, the attempt of a lease is over. -/
theorem Sound.past_of_complete (sound : u.Sound)
    (waits : ∀ attempts, ∃ delay, u.desk.queue.backoff.nextDelay attempts = .ok delay)
    (out : lease ∈ u.out) (outcome : Outcome) :
    (u.desk.complete lease.envelope.task outcome).2.queue.Past lease := by
  obtain ⟨task, known, runs, _, attempts⟩ := sound.leased lease out
  have created := Queue.created_complete u.desk.queue u.desk.now lease.envelope.task outcome
  refine ⟨Nat.le_trans (sound.kept.numbered _ task known) created.ge, ?_⟩
  obtain ⟨after, completes, lapses, _⟩ := Queue.complete_fares sound.kept known u.desk.now outcome
  refine lapses.passed fun other same => ?_
  rw [Option.some.injEq] at same
  subst same
  refine (completes.ends_or_waits (waits _)).imp_right fun ⟨idle, stays⟩ => ?_
  exact Or.inr ⟨attempts.symm.trans stays.symm, by rw [idle]; nofun⟩

end Usage

end PacedChain
