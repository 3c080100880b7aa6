import PacedChain.Proofs.Backoff.Sign
import PacedChain.Proofs.Desk.Agenda
import PacedChain.Proofs.Host.Alone
import PacedChain.Proofs.Host.Phases

/-!
# No stall goes unnoticed

With one worker at a time, a phase that says that a task is to come is right about it: there is one,
apart from the one that is being executed; and a phase that says that a task is being executed is
right about that (`Host.Watched`). Each step of the worker keeps this, whichever of the events of
several chains are passed over on the way, and so does each trigger (`Watched.deed`). So, whenever
nothing is being executed, a chain that is not reported as stalled has a task left or has never been
started (`Host.no_stall_unnoticed`).
-/
namespace PacedChain

namespace Station

/-- The task whose execution has begun. -/
def engaged? : Station → Option TaskId
  | .executing _ .leased => none
  | .executing lease _ => some lease.envelope.task
  | _ => none

/-- The job of the task that is being executed, until the chain has been told how that ended. -/
def runs? : Station → Option Job
  | .executing lease .started | .executing lease (.answered _) | .executing lease (.placed _)
  | .executing lease (.settled (.error _)) | .completed lease (.retryScheduled _ _)
  | .completed lease (.dead _) => some lease.envelope.job
  | _ => none

/-- The job of a task that is on the queue now, and that the chain is to be told of. -/
def promised? : Station → Option Job
  | .executing _ (.placed _) => some .sync
  | .completed lease (.retryScheduled _ _) => some lease.envelope.job
  | _ => none

theorem runs?_of_isIdle {s : Station} (idle : s.isIdle = true) : s.runs? = none := by
  cases s <;> first | rfl | cases idle

end Station

/-- Nothing is to be shown where no job is named. -/
theorem Job.forall_of_eq_none {P : Job → Prop} {named : Option Job} (none : named = none) :
    ∀ job, named = some job → P job := by
  intro job told
  rw [none] at told
  cases told

def Entry.isAccepted : Entry → Bool
  | .enqueueUnique _ _ _ (.ok _) => true
  | _ => false

namespace Desk

/-- A task of the job is left, apart from the one whose execution has begun. -/
def Left (d : Desk) (s : Station) (job : Job) : Prop :=
  ∃ item ∈ d.agenda, item.job = job ∧ s.engaged? ≠ some item.task

/-- Some enqueue under a key was accepted. -/
def Triggered (d : Desk) : Prop :=
  ∃ entry ∈ d.journal, ∃ key policy job placement,
    entry.2 = .enqueueUnique key policy job (.ok placement)

variable {d d' : Desk} {s s' : Station} {job : Job}

theorem Left.mono (left : d.Left s job) (more : ∀ item ∈ d.agenda, item ∈ d'.agenda)
    (engaged : s'.engaged? = s.engaged?) : d'.Left s' job := by
  obtain ⟨item, member, same, free⟩ := left
  exact ⟨item, more item member, same, engaged ▸ free⟩

theorem Left.free (left : d.Left s job) (same : d'.agenda = d.agenda) (free : s'.engaged? = none) :
    d'.Left s' job := by
  obtain ⟨item, member, job_eq, _⟩ := left
  refine ⟨item, same ▸ member, job_eq, ?_⟩
  rw [free]
  exact (Option.some_ne_none _).symm

theorem Left.started {id : TaskId} (left : d.Left s job)
    (same : d'.agenda = d.agenda.map (Queue.Item.started id)) (engaged : s'.engaged? = s.engaged?) :
    d'.Left s' job := by
  obtain ⟨item, member, rfl, free⟩ := left
  refine ⟨item.started id, ?_, item.job_started id, ?_⟩
  · rw [same]
    exact List.mem_map_of_mem member
  · rw [engaged, item.task_started]
    exact free

/-- When the task that is executed leaves the agenda, what is left apart from it stays. -/
theorem Left.filter {id : TaskId} (left : d.Left s job) (engaged : s.engaged? = some id)
    (same : d'.agenda = d.agenda.filter (·.task ≠ id)) (free : s'.engaged? = none) :
    d'.Left s' job := by
  obtain ⟨item, member, rfl, other⟩ := left
  refine ⟨item, ?_, rfl, ?_⟩
  · rw [same, List.mem_filter, decide_eq_true_eq]
    exact ⟨member, fun equal => other (equal ▸ engaged)⟩
  · rw [free]
    exact (Option.some_ne_none _).symm

theorem not_triggered_cons {time : Nat} {entry : Entry} (untouched : ¬d.Triggered)
    (journal : d'.journal = (time, entry) :: d.journal)
    (other : entry.isAccepted = false) :
    ¬d'.Triggered := by
  rintro ⟨seen, member, key, policy, job, placement, accepted⟩
  rw [journal] at member
  rcases List.mem_cons.mp member with rfl | earlier
  · simp only at accepted
    rw [accepted] at other
    cases other
  · exact untouched ⟨seen, earlier, key, policy, job, placement, accepted⟩

end Desk

/-- What is executed had its number before. -/
theorem Desk.engaged?_ne_next {d : Desk} {s : Station}
    (sound : Usage.Sound ⟨d, s.lease?.toList⟩) : s.engaged? ≠ some ⟨d.queue.created + 1⟩ := by
  have known : ∀ id, s.engaged? = some id → ∃ lease ∈ s.lease?.toList, lease.envelope.task = id := by
    intro id engaged
    cases s with
    | executing lease stage =>
      cases stage <;> cases engaged <;> exact ⟨lease, List.mem_cons_self, rfl⟩
    | checking | waiting | completed | gone => cases engaged
  intro next
  obtain ⟨lease, out, same⟩ := known _ next
  obtain ⟨item, member, task, _⟩ := Queue.item_of_runs sound.kept (sound.leased lease out)
  exact Queue.task_ne_next sound.kept member (task.trans same)

namespace Host

/-- What the phase says of the queue and of the worker is right. -/
structure Watched (d : Desk) (p : Phase) (s : Station) : Prop where
  pending : ∀ job, p.pending? = some job → d.Left s job
  running : ∀ job, p.running? = some job → s.runs? = some job
  promised : ∀ job, s.promised? = some job → d.Left s job
  untouched : p = .notStarted → d.agenda = [] ∧ ¬d.Triggered

namespace Watched

variable {h h' : Host} {group : Nat} {s s' : Station}

/-- Where tasks are left, the chain has started. -/
theorem touched {d : Desk} {p : Phase} {item : Queue.Item} (watched : Watched d p s)
    (member : item ∈ d.agenda) : p ≠ .notStarted := by
  intro new
  rw [(watched.untouched new).1] at member
  cases member

/-- The worker starts an execution. What is to come next is of another job, if the event is passed
over. -/
theorem started {d : Desk} {status : Status} {lease : Lease}
    (watched : Watched d status.phase (.executing lease .leased)) (kept : d.queue.Kept)
    (runs : d.queue.Runs lease) :
    Watched d (status.start lease.envelope.job).phase (.executing lease .started) := by
  obtain ⟨pending, running, _, untouched⟩ := watched
  obtain ⟨item, member, task, job', _⟩ := Queue.item_of_runs kept runs
  rw [Status.phase_start]
  rcases Phase.after_start status.phase lease.envelope.job with
    ⟨_, after⟩ | ⟨other, after⟩ <;> rw [after]
  · refine ⟨Job.forall_of_eq_none (Phase.pending?_running _), fun job told => ?_,
      Job.forall_of_eq_none rfl, fun new => ?_⟩
    · rw [Phase.running?_running] at told
      exact told
    · exact absurd new (Phase.running_ne_notStarted _)
  · refine ⟨fun job told => ?_, fun job told => ?_, Job.forall_of_eq_none rfl, untouched⟩
    · obtain ⟨left, listed, rfl, _⟩ := pending job told
      refine ⟨left, listed, rfl, fun equal => ?_⟩
      have same : left.task = item.task := (Option.some.inj equal).symm.trans task.symm
      rw [Queue.eq_of_task_eq kept listed member same, job'] at told
      exact other told
    · cases running job told

/-- The queue is told of an execution, and what it makes of the task is promised. -/
theorem completed {d d' : Desk} {p : Phase} {lease : Lease} {result : Except ChainError Scheduled}
    {completion : Completion} (watched : Watched d p (.executing lease (.settled result)))
    (kept : d.queue.Kept) (runs : d.queue.Runs lease)
    (waits : ∀ attempts, ∃ delay, d.queue.backoff.nextDelay attempts = .ok delay)
    (done : d.complete lease.envelope.task (Chain.outcome result) = (.ok completion, d')) :
    Watched d' p (.completed lease completion) := by
  obtain ⟨item, member, task, job', _⟩ := Queue.item_of_runs kept runs
  have touched := watched.touched member
  obtain ⟨pending, running, _, _⟩ := watched
  obtain ⟨_, ⟨success, same, ended⟩ | ⟨retry, ⟨_, same⟩, ended⟩ |
    ⟨retry, ⟨_, _, same⟩, again⟩⟩ := Desk.complete_cases kept runs waits (Chain.outcome result) done
  · cases same
    cases result with
    | error error => cases success
    | ok successor =>
      refine ⟨fun job told => (pending job told).filter rfl ended rfl, fun job told => ?_,
        Job.forall_of_eq_none rfl, fun new => absurd new touched⟩
      cases running job told
  · cases same
    cases result with
    | ok successor => cases retry
    | error error =>
      exact ⟨fun job told => (pending job told).filter rfl ended rfl, running,
        Job.forall_of_eq_none rfl, fun new => absurd new touched⟩
  · cases same
    cases result with
    | ok successor => cases retry
    | error error =>
      refine ⟨fun job told => (pending job told).free again rfl, running, ?_,
        fun new => absurd new touched⟩
      rintro job ⟨⟩
      exact ⟨item, again ▸ member, job', (Option.some_ne_none _).symm⟩

/-- The chain is told of a completion. -/
theorem told {d : Desk} {status : Status} {lease : Lease} {completion : Completion}
    (watched : Watched d status.phase (.completed lease completion)) :
    Watched d (status.complete lease.envelope.job completion).phase .checking := by
  obtain ⟨pending, running, promised, untouched⟩ := watched
  rw [Status.phase_complete]
  cases completion with
  | succeeded =>
    refine ⟨pending, fun job told => ?_, Job.forall_of_eq_none rfl, untouched⟩
    cases running job told
  | retryScheduled attempt secs =>
    simp only
    rcases Phase.after_retry status.phase lease.envelope.job with
      ⟨_, after⟩ | ⟨other, after⟩ <;> rw [after]
    · refine ⟨fun job told => ?_, Job.forall_of_eq_none (Phase.running?_retry _),
        Job.forall_of_eq_none rfl, fun new => ?_⟩
      · rw [Phase.pending?_retry, Option.some.injEq] at told
        subst told
        exact promised lease.envelope.job rfl
      · exact absurd new (Phase.retry_ne_notStarted _)
    · refine ⟨pending, fun job told => ?_, Job.forall_of_eq_none rfl, untouched⟩
      have same := running job told
      exact absurd (told.trans same.symm) other
  | dead attempts =>
    simp only
    rcases Phase.after_gaveUp status.phase with ⟨_, after⟩ | ⟨none, after⟩ <;> rw [after]
    · exact ⟨Job.forall_of_eq_none rfl, Job.forall_of_eq_none rfl, Job.forall_of_eq_none rfl,
        fun new => by cases new⟩
    · exact ⟨pending, Job.forall_of_eq_none none, Job.forall_of_eq_none rfl, untouched⟩

/-- A step of the worker keeps what is watched. -/
theorem work (act : Act h group s s' h') (sound : Usage.Sound ⟨h.desk, s.lease?.toList⟩)
    (waits : ∀ attempts, ∃ delay, h.desk.queue.backoff.nextDelay attempts = .ok delay)
    (watched : Watched h.desk h.chain.status.phase s) :
    Watched h'.desk h'.chain.status.phase s' := by
  have touched {item} (member : item ∈ h.desk.agenda) := watched.touched member
  obtain ⟨pending, running, promised, untouched⟩ := watched
  have kept := sound.kept
  cases act with
  | stop | goOn | recheck | leave | fail | rest => exact ⟨pending, running, promised, untouched⟩
  | ask lease asked =>
    rw [Chain.status_ask asked]
    exact ⟨pending, running, Job.forall_of_eq_none rfl, untouched⟩
  | shut seen | idle seen =>
    obtain ⟨journal, same⟩ := Desk.agenda_look_of_not_leased kept seen rfl
    have more : ∀ item ∈ h.desk.agenda, item ∈ _ := fun _ member => same ▸ member
    refine ⟨fun job told => (pending job told).mono more rfl, running, Job.forall_of_eq_none rfl,
      fun new => ?_⟩
    obtain ⟨empty, silent⟩ := untouched new
    refine ⟨same.trans empty, ?_⟩
    rcases journal with journal | journal
    · rw [Desk.Triggered, journal]
      exact silent
    · exact Desk.not_triggered_cons silent journal rfl
  | lease seen =>
    obtain ⟨_, ⟨item, member, _⟩, same⟩ := Desk.agenda_look_leased kept seen
    exact ⟨fun job told => (pending job told).started same rfl, running,
      Job.forall_of_eq_none rfl, fun new => absurd new (touched member)⟩
  | start lease =>
    exact started ⟨pending, running, promised, untouched⟩ kept
      (sound.leased lease List.mem_cons_self)
  | @refuse lease answer secs error desk awaited refused =>
    have entered := Desk.enqueueDelayed_error refused
    subst entered
    refine ⟨pending, running, Job.forall_of_eq_none rfl, fun new => ?_⟩
    obtain ⟨empty, silent⟩ := untouched new
    exact ⟨empty, Desk.not_triggered_cons silent rfl rfl⟩
  | @place lease answer secs task desk awaited placed =>
    obtain ⟨rfl, same, journal⟩ := Desk.enqueueDelayed_ok placed
    obtain ⟨item, member, of, _⟩ :=
      Queue.item_of_runs kept (sound.leased lease List.mem_cons_self)
    have more : ∀ item ∈ h.desk.agenda, item ∈ desk.agenda := by
      intro item member
      rw [same]
      exact List.mem_append_left _ member
    refine ⟨fun job told => (pending job told).mono more rfl, running, ?_,
      fun new => absurd new (touched member)⟩
    rintro job ⟨⟩
    refine ⟨_, by rw [same]; exact List.mem_append_right _ List.mem_cons_self, rfl, ?_⟩
    exact Desk.engaged?_ne_next sound
  | note lease successor =>
    rw [Status.phase_schedule]
    rcases Phase.after_syncScheduled h.chain.status.phase with ⟨_, after⟩ | ⟨none, after⟩ <;>
      rw [after]
    · refine ⟨?_, Job.forall_of_eq_none rfl, Job.forall_of_eq_none rfl, fun new => by cases new⟩
      rintro job ⟨⟩
      exact (promised .sync rfl).mono (fun _ => id) rfl
    · exact ⟨fun job told => (pending job told).mono (fun _ => id) rfl, Job.forall_of_eq_none none,
        Job.forall_of_eq_none rfl, untouched⟩
  | @complete lease result completion desk done =>
    exact completed ⟨pending, running, promised, untouched⟩ kept
      (sound.leased lease List.mem_cons_self) waits done
  | drop done | lose done =>
    exact absurd done (Desk.complete_ne_error kept (sound.leased _ List.mem_cons_self) waits _ _)
  | tell lease completion => exact told ⟨pending, running, promised, untouched⟩

/-- A trigger keeps what is watched. -/
theorem trigger (h : Host) (signal : Trigger) (sound : Usage.Sound ⟨h.desk, s.lease?.toList⟩)
    (watched : Watched h.desk h.chain.status.phase s) :
    Watched (h.trigger signal).2.desk (h.trigger signal).2.chain.status.phase s := by
  have touched {item} (member : item ∈ h.desk.agenda) := watched.touched member
  obtain ⟨pending, running, promised, untouched⟩ := watched
  obtain ⟨result, d', answered, journal, cases⟩ := Desk.enqueueUnique_keepExisting_cases sound.kept
    sound.indexed h.chain.policy.key .bootstrap
  rw [trigger_eq signal answered]
  rcases cases with ⟨error, rfl, same⟩ | ⟨holder, rfl, same, item, member, _⟩ | ⟨_, rfl, same⟩
  -- Nothing is enqueued: the queue is closed, or a bootstrap is pending already.
  · have more : ∀ item ∈ h.desk.agenda, item ∈ d'.agenda := fun _ member => same ▸ member
    refine ⟨fun job told => (pending job told).mono more rfl, running,
      fun job told => (promised job told).mono more rfl, fun new => ?_⟩
    obtain ⟨empty, silent⟩ := untouched new
    exact ⟨same.trans empty, Desk.not_triggered_cons silent journal rfl⟩
  · have more : ∀ item ∈ h.desk.agenda, item ∈ d'.agenda := fun _ member => same ▸ member
    exact ⟨fun job told => (pending job told).mono more rfl, running,
      fun job told => (promised job told).mono more rfl, fun new => absurd new (touched member)⟩
  · have more : ∀ item ∈ h.desk.agenda, item ∈ d'.agenda := by
      intro item member
      rw [same]
      exact List.mem_append_left _ member
    have grown := fun job told => (promised job told).mono more rfl
    change Watched d' (h.chain.status.phase.after .bootstrapEnqueued) s
    rcases Phase.after_bootstrapEnqueued h.chain.status.phase with ⟨_, after⟩ | ⟨live, after⟩ <;>
      rw [after]
    · refine ⟨?_, Job.forall_of_eq_none rfl, grown, fun new => by cases new⟩
      rintro job ⟨⟩
      refine ⟨_, by rw [same]; exact List.mem_append_right _ List.mem_cons_self, rfl, ?_⟩
      exact Desk.engaged?_ne_next sound
    · refine ⟨fun job told => (pending job told).mono more rfl, running, grown, fun new => ?_⟩
      rw [new] at live
      cases live

/-- A move with one worker at a time keeps what is watched. -/
theorem deed {m : Move} {d : Desk} {c : Chain} (deed : Deed h m d c s)
    (sound : Usage.Sound ⟨h.desk, h.seat.lease?.toList⟩)
    (waits : ∀ attempts, ∃ delay, h.desk.queue.backoff.nextDelay attempts = .ok delay)
    (watched : Watched h.desk h.chain.status.phase h.seat) : Watched d c.status.phase s := by
  cases deed with
  | work _ _ act => exact watched.work act sound waits
  | trigger signal => exact watched.trigger h signal sound
  | pass | close | nothing =>
    exact ⟨watched.pending, watched.running, watched.promised, watched.untouched⟩
  | arrive n gone =>
    rw [gone] at watched
    exact ⟨watched.pending, watched.running, watched.promised, watched.untouched⟩

/-- What a phase says where nothing is being executed. -/
theorem of_isIdle {d : Desk} {p : Phase} (watched : Watched d p s) (idle : s.isIdle = true) :
    p ≠ .bootstrapRunning ∧ p ≠ .syncRunning ∧
      (p = .bootstrapPending ∨ p = .bootstrapRetry → 0 < d.queue.unfinished .bootstrap) ∧
      (p = .syncScheduled ∨ p = .syncRetry → 0 < d.queue.unfinished .sync) ∧
      (d.Triggered → d.queue.unfinished .bootstrap = 0 → d.queue.unfinished .sync = 0 →
        p = .stalled) := by
  obtain ⟨pending, running, _, untouched⟩ := watched
  have still : ∀ job, p.running? ≠ some job := by
    intro job told
    have runs := running job told
    rw [Station.runs?_of_isIdle idle] at runs
    cases runs
  have left : ∀ job, p.pending? = some job → 0 < d.queue.unfinished job := by
    intro job told
    obtain ⟨item, member, same, _⟩ := pending job told
    exact Queue.unfinished_pos_iff.mpr ⟨item, member, same⟩
  refine ⟨fun told => still .bootstrap (told ▸ rfl), fun told => still .sync (told ▸ rfl), ?_, ?_,
    fun triggered noBootstrap noSync => ?_⟩
  · rintro (rfl | rfl) <;> exact left .bootstrap rfl
  · rintro (rfl | rfl) <;> exact left .sync rfl
  · have noneLeft : ∀ job, p.pending? ≠ some job := by
      intro job told
      have more := left job told
      cases job <;> omega
    cases p with
    | stalled => rfl
    | notStarted => exact absurd triggered (untouched rfl).2
    | bootstrapPending | bootstrapRetry => exact absurd rfl (noneLeft .bootstrap)
    | syncScheduled | syncRetry => exact absurd rfl (noneLeft .sync)
    | bootstrapRunning => exact absurd rfl (still .bootstrap)
    | syncRunning => exact absurd rfl (still .sync)

end Watched

theorem watched_moves {chain : Chain} (new : chain.status = {}) (backoff : Backoff)
    (historyLimit : Nat) {ms : List Move}
    (waits : ∀ attempts, ∃ delay, backoff.nextDelay attempts = .ok delay)
    (alone : Alone (fresh chain backoff historyLimit).moves ms) :
    let h := (fresh chain backoff historyLimit).moves ms
    Watched h.desk h.chain.status.phase h.seat := by
  have first : Watched (fresh chain backoff historyLimit).desk chain.status.phase .gone := by
    rw [new]
    refine ⟨Job.forall_of_eq_none rfl, Job.forall_of_eq_none rfl, Job.forall_of_eq_none rfl,
      fun _ => ⟨rfl, ?_⟩⟩
    rintro ⟨entry, member, _⟩
    cases member
  have sound : (fresh chain backoff historyLimit).usage.Sound :=
    Usage.sound_start backoff historyLimit
  refine alone_induction (P := fun d c s => Watched d c.status.phase s) ?_ sound first alone
  intro before m d c s sound deed watched
  have same : ((fresh chain backoff historyLimit).moves before).desk.queue.backoff = backoff :=
    backoff_moves _ before
  refine watched.deed deed sound ?_
  rw [same]
  exact waits

/-- A stall never goes unnoticed. Whenever nothing is being executed, the phase of a chain is never
one of execution, and a phase that says that a task is to come is right: for one worker at a time,
any triggers, any answers of the boundaries, and a close at any time. So a chain that was started
and has no task left is reported as stalled. A trigger is one call here. Taken as its two steps, it
may be outrun by the worker, and then the phase is not right (`Traffic.pending_without_bootstrap`).
-/
theorem no_stall_unnoticed (chain : Chain) (backoff : Backoff) (historyLimit : Nat)
    (ms : List Move) (new : chain.status = {})
    (waits : ∀ attempts, ∃ delay, backoff.nextDelay attempts = .ok delay)
    (alone : Alone (fresh chain backoff historyLimit).moves ms)
    (rest : ((fresh chain backoff historyLimit).moves ms).atRest = true) :
    let h := (fresh chain backoff historyLimit).moves ms
    let phase := h.chain.status.phase
    let left := h.desk.queue.unfinished
    phase ≠ .bootstrapRunning ∧ phase ≠ .syncRunning ∧
      (phase = .bootstrapPending ∨ phase = .bootstrapRetry → 0 < left .bootstrap) ∧
      (phase = .syncScheduled ∨ phase = .syncRetry → 0 < left .sync) ∧
      (h.desk.Triggered → left .bootstrap = 0 → left .sync = 0 → phase = .stalled) :=
  (watched_moves new backoff historyLimit waits alone).of_isIdle (isIdle_seat rest)

/-- The first sync fails at its first attempt, and waits to be tried again. -/
theorem no_stall_unnoticed_after_failure :
    let chain : Chain := {
      policy := {}
      oracle := Boundary.script [] (.recommends 0)
      engine := Boundary.script [] (.fails "out of reach") }
    let h := (fresh chain Backoff.standard 0).moves
      ([.spawn 1, .trigger .bootCompleted] ++ List.replicate 15 (.step 0 .lease))
    h.chain.status.phase = .syncRetry ∧ 0 < h.desk.queue.unfinished .sync := by
  intro chain
  have failed : ((fresh chain Backoff.standard 0).moves ([.spawn 1, .trigger .bootCompleted] ++
    List.replicate 15 (.step 0 .lease))).chain.status.phase = .syncRetry := by decide +kernel
  obtain ⟨_, _, _, sync, _⟩ := no_stall_unnoticed chain Backoff.standard 0
    ([.spawn 1, .trigger .bootCompleted] ++ List.replicate 15 (.step 0 .lease)) rfl
    Backoff.exists_nextDelay_standard (by decide +kernel) (by decide +kernel)
  exact ⟨failed, sync (Or.inr failed)⟩

end Host

end PacedChain
