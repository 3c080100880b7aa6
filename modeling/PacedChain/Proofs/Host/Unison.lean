import PacedChain.Proofs.Host.News

/-!
# Chain and queue in unison

As long as no trigger starts a second chain, there is one task at a time, and at each station of the
one worker the phase and the agenda say the same of it (`Host.Unison`). Each step of the worker keeps
this, and what the chain is told by it is possible in the phase that the chain is in
(`Host.Unison.work`); a trigger does so unless a sync is unfinished, or the chain is yet to be told
that a task was given up (`Host.Unison.trigger`).
-/
namespace PacedChain

/-- The phase of a chain whose only task is waiting. -/
def Queue.Item.phase (item : Queue.Item) : Phase :=
  match item.job, item.attempts with
  | .bootstrap, 0 => .bootstrapPending
  | .bootstrap, _ + 1 => .bootstrapRetry
  | .sync, 0 => .syncScheduled
  | .sync, _ + 1 => .syncRetry

namespace Queue.Item

theorem on_startEvent (item : Queue.Item) :
    item.phase.on item.job.startEvent = some item.job.running := by
  obtain ⟨task, job, key, attempts⟩ := item
  cases job <;> cases attempts <;> rfl

theorem isLive_phase (item : Queue.Item) : item.phase.isLive = true := by
  obtain ⟨task, job, key, attempts⟩ := item
  cases job <;> cases attempts <;> rfl

theorem phase_of_pos {item : Queue.Item} (again : 0 < item.attempts) :
    item.phase = item.job.retry := by
  obtain ⟨task, job, key, attempts⟩ := item
  cases attempts with
  | zero => cases again
  | succ n => cases job <;> rfl

end Queue.Item

/-- The successor as it stands on the agenda. -/
def Scheduled.item (successor : Scheduled) : Queue.Item := ⟨successor.task, .sync, none, 0⟩

namespace Host

/-- The sync that the chain says is next, enqueued with the delay that the chain says. -/
def Announced (d : Desk) (s : Status) (id : TaskId) : Prop :=
  s.nextTask = some id ∧ ∃ delay time, s.lastDelay = some delay ∧
    (time, Entry.enqueueDelayed .sync delay (.ok id)) ∈ d.journal

/-- The chain knows of the item: a bootstrap holds its key, and a sync has been announced. -/
def Knows (d : Desk) (c : Chain) (item : Queue.Item) : Prop :=
  match item.job with
  | .bootstrap => item.key = some c.policy.key
  | .sync => Announced d c.status item.task

/-- One task is left, and waits. -/
def Waits (d : Desk) (c : Chain) : Prop :=
  ∃ item, d.agenda = [item] ∧ c.status.phase = item.phase ∧ Knows d c item

/-- The task of the lease is executed, and nothing is left but that and what is listed. -/
def Works (d : Desk) (c : Chain) (lease : Lease) (others : List Queue.Item) : Prop :=
  ∃ item, item.task = lease.envelope.task ∧ item.job = lease.envelope.job ∧ 0 < item.attempts ∧
    d.agenda = item :: others ∧ c.status.phase = item.job.running ∧ Knows d c item

/-- What the phase and the agenda have in common while the worker stands somewhere. -/
def Unison (d : Desk) (c : Chain) : Station → Prop
  | .checking | .waiting | .gone => d.agenda = [] ∧ c.status.phase.isLive = false ∨ Waits d c
  | .executing lease .leased => ∃ item, item.task = lease.envelope.task ∧
    item.job = lease.envelope.job ∧ d.agenda = [item.started lease.envelope.task] ∧
    c.status.phase = item.phase ∧ Knows d c item
  | .executing lease (.placed successor) =>
    successor.task ≠ lease.envelope.task ∧ Works d c lease [successor.item] ∧
    ∃ time, (time, Entry.enqueueDelayed .sync successor.delay (.ok successor.task)) ∈ d.journal
  | .executing lease (.settled (.ok successor)) =>
    successor.task ≠ lease.envelope.task ∧
    (∃ item, item.task = lease.envelope.task ∧ d.agenda = [item, successor.item]) ∧
    c.status.phase = .syncScheduled ∧ Announced d c.status successor.task
  | .executing lease _ => Works d c lease []
  | .completed _ .succeeded => Waits d c
  | .completed lease (.retryScheduled _ _) => Works d c lease []
  | .completed lease (.dead _) => d.agenda = [] ∧ c.status.phase = lease.envelope.job.running

variable {h h' : Host} {d d' : Desk} {c c' : Chain} {s s' : Station} {item : Queue.Item}
  {lease : Lease} {group : Nat}

/-! ### What does not disturb it -/

theorem Announced.mono {status status' : Status} {id : TaskId} (announced : Announced d status id)
    (journal : d.journal ⊆ d'.journal)
    (next : status'.nextTask = status.nextTask ∧ status'.lastDelay = status.lastDelay) :
    Announced d' status' id := by
  obtain ⟨named, delay, time, last, entered⟩ := announced
  exact ⟨next.1.trans named, delay, time, next.2.trans last, journal entered⟩

theorem Knows.mono (knows : Knows d c item) (journal : d.journal ⊆ d'.journal)
    (policy : c'.policy = c.policy)
    (next : c'.status.nextTask = c.status.nextTask ∧ c'.status.lastDelay = c.status.lastDelay) :
    Knows d' c' item := by
  unfold Knows at *
  cases job : item.job with
  | bootstrap =>
    simp only [job] at knows ⊢
    rw [policy]
    exact knows
  | sync =>
    simp only [job] at knows ⊢
    exact knows.mono journal next

theorem Knows.started (knows : Knows d c item) (id : TaskId) : Knows d c (item.started id) := by
  simpa only [Knows, Queue.Item.job_started, Queue.Item.key_started, Queue.Item.task_started] using
    knows

/-- What the chain knows of is a sync, or holds the key. -/
theorem Knows.absurd (knows : Knows d c item) (member : item ∈ d.agenda)
    (free : ∀ item ∈ d.agenda, item.key ≠ some c.policy.key)
    (noSync : d.queue.unfinished .sync = 0) : False := by
  unfold Knows at knows
  cases job : item.job with
  | bootstrap =>
    simp only [job] at knows
    exact free item member knows
  | sync =>
    have more := Queue.unfinished_pos_iff.mpr ⟨item, member, job⟩
    omega

theorem Waits.mono (waits : Waits d c) (agenda : d'.agenda = d.agenda)
    (journal : d.journal ⊆ d'.journal) : Waits d' c := by
  obtain ⟨item, sole, phase, knows⟩ := waits
  exact ⟨item, agenda.trans sole, phase, knows.mono journal rfl ⟨rfl, rfl⟩⟩

theorem Works.mono {others : List Queue.Item} (works : Works d c lease others)
    (agenda : d'.agenda = d.agenda) (journal : d.journal ⊆ d'.journal) :
    Works d' c lease others := by
  obtain ⟨item, task, job, again, listed, phase, knows⟩ := works
  exact ⟨item, task, job, again, agenda.trans listed, phase, knows.mono journal rfl ⟨rfl, rfl⟩⟩

namespace Unison

/-- Entries of the journal alone disturb nothing. -/
theorem mono (unison : Unison d c s) (agenda : d'.agenda = d.agenda)
    (journal : d.journal ⊆ d'.journal) : Unison d' c s := by
  have idle : (d.agenda = [] ∧ c.status.phase.isLive = false ∨ Waits d c) →
      (d'.agenda = [] ∧ c.status.phase.isLive = false ∨ Waits d' c) :=
    Or.imp (fun ended => ⟨agenda.trans ended.1, ended.2⟩) fun waits => waits.mono agenda journal
  cases s with
  | checking | waiting | gone => exact idle unison
  | completed lease completion =>
    cases completion with
    | succeeded => exact Waits.mono unison agenda journal
    | retryScheduled => exact Works.mono unison agenda journal
    | dead => exact ⟨agenda.trans unison.1, unison.2⟩
  | executing lease stage =>
    cases stage with
    | leased =>
      obtain ⟨item, task, job, sole, phase, knows⟩ := unison
      exact ⟨item, task, job, agenda.trans sole, phase, knows.mono journal rfl ⟨rfl, rfl⟩⟩
    | started | answered => exact Works.mono unison agenda journal
    | placed successor =>
      obtain ⟨other, works, time, entered⟩ := unison
      exact ⟨other, works.mono agenda journal, time, journal entered⟩
    | settled result =>
      cases result with
      | error => exact Works.mono unison agenda journal
      | ok successor =>
        obtain ⟨other, ⟨item, task, listed⟩, phase, announced⟩ := unison
        exact ⟨other, ⟨item, task, agenda.trans listed⟩, phase, announced.mono journal ⟨rfl, rfl⟩⟩

/-! ### Steps of the worker -/

/-- What the worker tells next is possible. -/
theorem possible (unison : Unison d c s) {news : News} (told : s.news? = some news) :
    ∃ p, c.status.phase.on news.event = some p := by
  cases s with
  | checking | waiting | gone => cases told
  | completed lease completion =>
    cases completion with
    | succeeded => cases told
    | retryScheduled =>
      cases told
      obtain ⟨item, _, job, _, _, phase, _⟩ := unison
      rw [phase, job]
      exact ⟨_, Phase.on_retryEvent_running _⟩
    | dead =>
      cases told
      rw [unison.2]
      exact ⟨_, Phase.on_gaveUp_running _⟩
  | executing lease stage =>
    cases stage with
    | started | answered | settled => cases told
    | leased =>
      cases told
      obtain ⟨item, _, job, _, phase, _⟩ := unison
      rw [phase, News.event, ← job]
      exact ⟨_, item.on_startEvent⟩
    | placed successor =>
      cases told
      obtain ⟨_, ⟨item, _, _, _, _, phase, _⟩, _⟩ := unison
      rw [phase]
      exact ⟨_, Phase.on_syncScheduled_running _⟩

/-- The queue is told of an execution: it has the successor left, or the task itself, or nothing. -/
theorem completed {result : Except ChainError Scheduled} {completion : Completion}
    (unison : Unison d c (.executing lease (.settled result))) (kept : d.queue.Kept)
    (runs : d.queue.Runs lease)
    (waits : ∀ attempts, ∃ delay, d.queue.backoff.nextDelay attempts = .ok delay)
    (done : d.complete lease.envelope.task (Chain.outcome result) = (.ok completion, d')) :
    Unison d' c (.completed lease completion) := by
  obtain ⟨journal, cases⟩ := Desk.complete_cases kept runs waits (Chain.outcome result) done
  have entered : d.journal ⊆ d'.journal := by
    rw [journal]
    exact List.subset_cons_self _ _
  cases result with
  | ok successor =>
    obtain ⟨other, ⟨item, task, listed⟩, phase, announced⟩ := unison
    obtain ⟨_, same, ended⟩ | ⟨retry, _⟩ | ⟨retry, _⟩ := cases
    · cases same
      refine ⟨successor.item, ?_, phase, announced.mono entered ⟨rfl, rfl⟩⟩
      rw [ended, listed, List.filter_cons_of_neg (by simp [task]),
        List.filter_cons_of_pos (by simp [Scheduled.item, other]), List.filter_nil]
    · cases retry
    · cases retry
  | error error =>
    obtain ⟨item, task, job, again, listed, phase, knows⟩ := unison
    obtain ⟨success, _⟩ | ⟨_, ⟨_, same⟩, ended⟩ | ⟨_, ⟨_, _, same⟩, ended⟩ := cases
    · cases success
    · cases same
      refine ⟨?_, job ▸ phase⟩
      rw [ended, listed, List.filter_cons_of_neg (by simp [task]), List.filter_nil]
    · cases same
      exact ⟨item, task, job, again, ended.trans listed, phase,
        knows.mono entered rfl ⟨rfl, rfl⟩⟩

/-- The chain is told of a completion. -/
theorem told {completion : Completion} (unison : Unison d c (.completed lease completion)) :
    Unison d (c.recordCompletion lease.envelope.job completion) .checking := by
  cases completion with
  | succeeded => exact Or.inr unison
  | retryScheduled attempt secs =>
    obtain ⟨item, task, job, again, listed, phase, knows⟩ := unison
    refine Or.inr ⟨item, listed, ?_, ?_⟩
    · rw [Chain.recordCompletion, Status.phase_complete, Queue.Item.phase_of_pos again, phase,
        ← job]
      exact Phase.after_of_on (Phase.on_retryEvent_running _)
    · exact knows.mono (List.Subset.refl _) rfl (Status.next_complete _ _ _)
  | dead attempts =>
    obtain ⟨empty, phase⟩ := unison
    refine Or.inl ⟨empty, ?_⟩
    rw [Chain.recordCompletion, Status.phase_complete, phase]
    simp only
    rw [Phase.after_of_on (Phase.on_gaveUp_running _)]
    rfl

/-- A step of the worker keeps chain and queue in unison. -/
theorem work (act : Act h group s s' h') (sound : Usage.Sound ⟨h.desk, s.lease?.toList⟩)
    (waits : ∀ attempts, ∃ delay, h.desk.queue.backoff.nextDelay attempts = .ok delay)
    (unison : Unison h.desk h.chain s) : Unison h'.desk h'.chain s' := by
  have kept := sound.kept
  cases act with
  | stop | goOn | recheck | leave | fail | rest => exact unison
  | shut seen | idle seen =>
    obtain ⟨journal, same⟩ := Desk.agenda_look_of_not_leased kept seen rfl
    refine Unison.mono unison same ?_
    rcases journal with journal | journal <;> rw [journal]
    · exact List.Subset.refl _
    · exact List.subset_cons_self _ _
  | lease seen =>
    obtain ⟨journal, ⟨item, member, task, job⟩, same⟩ := Desk.agenda_look_leased kept seen
    rcases unison with ⟨empty, _⟩ | ⟨sole, listed, phase, knows⟩
    · rw [empty] at member
      cases member
    · rw [listed, List.mem_singleton] at member
      subst member
      refine ⟨item, task, job, ?_, phase, knows.mono ?_ rfl ⟨rfl, rfl⟩⟩
      · rw [same, listed]
        rfl
      · rw [journal]
        exact List.subset_cons_self _ _
  | start lease =>
    obtain ⟨item, task, job, listed, phase, knows⟩ := unison
    refine ⟨item.started lease.envelope.task, ?_, ?_, ?_, listed, ?_, ?_⟩
    · rw [item.task_started]
      exact task
    · rw [item.job_started]
      exact job
    · rw [← task, item.attempts_started]
      exact Nat.succ_pos _
    · rw [Status.phase_start, item.job_started, ← job, phase]
      exact Phase.after_of_on item.on_startEvent
    · exact (knows.started _).mono (List.Subset.refl _) rfl (Status.next_start _ _)
  | ask lease asked =>
    obtain ⟨item, task, job, again, listed, phase, knows⟩ := unison
    have status := Chain.status_ask asked
    have policy := policy_ask h.chain lease.envelope.job
    rw [asked] at policy
    refine ⟨item, task, job, again, listed, ?_, ?_⟩
    · rw [status]
      exact phase
    · refine knows.mono (List.Subset.refl _) policy ?_
      rw [status]
      exact ⟨rfl, rfl⟩
  | refuse awaited refused =>
    have entered := Desk.enqueueDelayed_error refused
    subst entered
    exact Works.mono unison rfl (List.subset_cons_self _ _)
  | @place lease answer secs id desk awaited placed =>
    obtain ⟨rfl, same, journal⟩ := Desk.enqueueDelayed_ok placed
    obtain ⟨item, task, job, again, listed, phase, knows⟩ := unison
    have member : item ∈ h.desk.agenda := by
      rw [listed]
      exact List.mem_cons_self
    refine ⟨?_, ⟨item, task, job, again, ?_, phase, knows.mono ?_ rfl ⟨rfl, rfl⟩⟩, h.desk.now, ?_⟩
    · rw [← task]
      exact (Queue.task_ne_next kept member).symm
    · rw [same, listed]
      rfl
    · rw [journal]
      exact List.subset_cons_self _ _
    · rw [journal]
      exact List.mem_cons_self
  | note lease successor =>
    obtain ⟨other, ⟨item, task, job, _, listed, phase, _⟩, time, entered⟩ := unison
    refine ⟨other, ⟨item, task, listed⟩, ?_, rfl, successor.delay, time, rfl, entered⟩
    rw [Status.phase_schedule, phase]
    exact Phase.after_of_on (Phase.on_syncScheduled_running _)
  | @complete lease result completion desk done =>
    exact completed unison kept (sound.leased lease List.mem_cons_self) waits done
  | drop done | lose done =>
    exact absurd done (Desk.complete_ne_error kept (sound.leased _ List.mem_cons_self) waits _ _)
  | tell lease completion => exact told unison

/-! ### Triggers -/

/-- Without a sync, and with the key free, nothing is left at all, and the chain has been told. -/
theorem ended (unison : Unison d c s) (heard : s.isGivenUp = false)
    (free : ∀ item ∈ d.agenda, item.key ≠ some c.policy.key)
    (noSync : d.queue.unfinished .sync = 0) :
    s.isIdle = true ∧ d.agenda = [] ∧ c.status.phase.isLive = false := by
  have nothing_waits : ¬Waits d c := by
    rintro ⟨item, sole, _, knows⟩
    exact knows.absurd (sole ▸ List.mem_cons_self) free noSync
  have busy : ∀ {lease others}, ¬Works d c lease others := by
    rintro lease others ⟨item, _, _, _, listed, _, knows⟩
    exact knows.absurd (listed ▸ List.mem_cons_self) free noSync
  cases s with
  | checking | waiting | gone => exact ⟨rfl, unison.resolve_right nothing_waits⟩
  | completed lease completion =>
    cases completion with
    | succeeded => exact (nothing_waits unison).elim
    | retryScheduled => exact (busy unison).elim
    | dead => cases heard
  | executing lease stage =>
    cases stage with
    | leased =>
      obtain ⟨item, _, _, sole, _, knows⟩ := unison
      exact ((knows.started _).absurd (sole ▸ List.mem_cons_self) free noSync).elim
    | started | answered => exact (busy unison).elim
    | placed successor => exact (busy unison.2.1).elim
    | settled result =>
      cases result with
      | error => exact (busy unison).elim
      | ok successor =>
        obtain ⟨_, ⟨item, _, listed⟩, _⟩ := unison
        have member : successor.item ∈ d.agenda := by
          rw [listed]
          exact List.mem_cons_of_mem _ List.mem_cons_self
        have more : 0 < d.queue.unfinished .sync :=
          Queue.unfinished_pos_iff.mpr ⟨successor.item, member, rfl⟩
        omega

/-- A trigger keeps chain and queue in unison, and tells the chain what is possible, unless it
starts a second chain or comes before the chain is told that the first one has ended. -/
theorem trigger (unison : Unison h.desk h.chain s) (signal : Trigger)
    (sound : Usage.Sound ⟨h.desk, s.lease?.toList⟩)
    (apart : (h.news? (.trigger signal)).isSome = true →
      s.isGivenUp = false ∧ h.desk.queue.unfinished .sync = 0) :
    Unison (h.trigger signal).2.desk (h.trigger signal).2.chain s ∧
      ∀ news, h.news? (.trigger signal) = some news →
        ∃ p, h.chain.status.phase.on news.event = some p := by
  obtain ⟨result, d', answered, journal, cases⟩ := Desk.enqueueUnique_keepExisting_cases sound.kept
    sound.indexed h.chain.policy.key .bootstrap
  have entered : h.desk.journal ⊆ d'.journal := by
    rw [journal]
    exact List.subset_cons_self _ _
  have news := news?_trigger signal answered
  rw [trigger_eq signal answered]
  rcases cases with ⟨error, rfl, same⟩ | ⟨holder, rfl, same, _⟩ | ⟨free, rfl, grown⟩
  · rw [news]
    refine ⟨unison.mono same entered, ?_⟩
    rintro told ⟨⟩
  · rw [news]
    refine ⟨unison.mono same entered, ?_⟩
    rintro told ⟨⟩
  · obtain ⟨heard, noSync⟩ := apart (news ▸ rfl)
    obtain ⟨idle, empty, asleep⟩ := unison.ended heard free noSync
    have possible : h.chain.status.phase.on .bootstrapEnqueued = some .bootstrapPending := by
      cases phase : h.chain.status.phase <;> rw [phase] at asleep <;> first | rfl | cases asleep
    have waits : Waits d' (h.chain.noteTrigger (.ok (.enqueued ⟨h.desk.queue.created + 1⟩))) := by
      rw [empty, List.nil_append] at grown
      refine ⟨_, grown, ?_, ?_⟩
      · exact Phase.after_of_on possible
      · exact Eq.refl (some h.chain.policy.key)
    refine ⟨?_, ?_⟩
    · cases s with
      | checking | waiting | gone => exact Or.inr waits
      | executing | completed => cases idle
    · rintro told same
      cases news.symm.trans same
      exact ⟨_, possible⟩

end Unison

end Host

end PacedChain
