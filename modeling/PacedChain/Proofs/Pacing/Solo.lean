import PacedChain.Proofs.Host.Moves
import PacedChain.Proofs.Pacing.Course

/-!
# A worker on its own

A single worker takes one task at a time. From the moment at which it waits for a task that is to
come it gets, by finitely many ticks, to the execution of that task (`Host.leads_lease`), and from
there to the wait for the task that comes next, if one does (`Host.leads_following`).
-/
namespace PacedChain

namespace Host

/-- A host with one worker. -/
def solo (d : Desk) (c : Chain) (station : Station) : Host :=
  { desk := d, chain := c, workers := [⟨0, station⟩], groups := 1, current := some 0 }

variable {d d' : Desk} {c : Chain} {lease : Lease} {limit time : Nat}

/-! ### Ticks -/

theorem tick_checking : (solo d c .checking).tick limit = some (solo d c .waiting) := rfl

theorem tick_leased : (solo d c (.executing lease .leased)).tick limit =
    some (solo d { c with status := c.status.start lease.envelope.job }
      (.executing lease .started)) := rfl

theorem tick_started : (solo d c (.executing lease .started)).tick limit =
    some (solo d (c.ask lease.envelope.job).2
      (.executing lease (.answered (c.ask lease.envelope.job).1))) := rfl

theorem tick_answered {answer : Answer} {stage : Stage}
    (next : c.advance lease.envelope.job d (.answered answer) = (stage, c, d')) :
    (solo d c (.executing lease (.answered answer))).tick limit =
      some (solo d' c (.executing lease stage)) := by
  change some (solo (c.advance lease.envelope.job d (.answered answer)).2.2
    (c.advance lease.envelope.job d (.answered answer)).2.1
    (.executing lease (c.advance lease.envelope.job d (.answered answer)).1)) = _
  rw [next]

theorem tick_placed {successor : Scheduled} :
    (solo d c (.executing lease (.placed successor))).tick limit =
      some (solo d { c with status := c.status.schedule successor }
        (.executing lease (.settled (.ok successor)))) := rfl

theorem complete_of_queue {task : TaskId} {outcome : Outcome} {q : Queue}
    {result : Except CompleteError Completion}
    (done : d.queue.complete d.now task outcome = (result, q)) :
    d.complete task outcome = (result, d.enter q (.complete task outcome result)) := by
  simp only [Desk.complete, done]

theorem tick_settled {result : Except ChainError Scheduled} {completion : Completion}
    (done : d.complete lease.envelope.task (Chain.outcome result) = (.ok completion, d')) :
    (solo d c (.executing lease (.settled result))).tick limit =
      some (solo d' c (.completed lease completion)) := by
  change some ((solo d c (.executing lease (.settled result))).stepWorker 0 .stop) = _
  simp only [stepWorker, solo, List.getElem?_cons_zero, act, done, List.set_cons_zero]

theorem tick_completed {completion : Completion} :
    (solo d c (.completed lease completion)).tick limit =
      some (solo d (c.recordCompletion lease.envelope.job completion) .checking) := rfl

theorem findIdx?_isBusy_waiting :
    (solo d c .waiting).workers.findIdx? (solo d c .waiting).isBusy = none := rfl

theorem findIdx?_isWaiting_waiting :
    (solo d c .waiting).workers.findIdx? isWaiting = some 0 := rfl

theorem tick_waiting_leased {q : Queue} (seen : d.queue.look d.now = (.leased lease, q)) :
    (solo d c .waiting).tick limit =
      some (solo (d.enter q (.lease lease)) c (.executing lease .leased)) := by
  have here : (solo d c .waiting).desk.queue.look (solo d c .waiting).desk.now =
      (.leased lease, q) := seen
  have goes : (Preference.lease == Preference.stop) = false := rfl
  simp only [tick, findIdx?_isBusy_waiting, findIdx?_isWaiting_waiting, here]
  simp only [stepWorker, solo, List.getElem?_cons_zero, act, goes, Bool.and_false,
    Bool.false_eq_true, if_false, Desk.look, seen, List.set_cons_zero]

theorem tick_waiting_idle {q : Queue} {wake : Nat}
    (seen : d.queue.look d.now = (.idle (some wake), q)) (early : Clock.wholeMilli wake < limit) :
    (solo d c .waiting).tick limit =
      some (solo { d with queue := q, now := Clock.wholeMilli wake } c .waiting) := by
  have here : (solo d c .waiting).desk.queue.look (solo d c .waiting).desk.now =
      (.idle (some wake), q) := seen
  simp only [tick, findIdx?_isBusy_waiting, findIdx?_isWaiting_waiting, here]
  exact if_pos early

theorem tick_waiting_bare (bare : d.queue.Bare) : (solo d c .waiting).tick limit = none := by
  have here : (solo d c .waiting).desk.queue.look (solo d c .waiting).desk.now =
      (.idle none, d.queue) := bare.look d.now
  simp only [tick, findIdx?_isBusy_waiting, findIdx?_isWaiting_waiting, here]

/-! ### Rows of ticks -/

/-- From one host to the next by so many ticks, however far beyond `time` things may happen. -/
def Leads (time : Nat) (h h' : Host) : Prop :=
  ∃ ticks, ∀ limit, time < limit → ∀ budget,
    runUntil limit (budget + ticks) h = runUntil limit budget h'

namespace Leads

variable {h h' h'' : Host}

theorem tick (ticked : ∀ limit, time < limit → h.tick limit = some h') : Leads time h h' := by
  refine ⟨1, fun limit inTime budget => ?_⟩
  rw [runUntil, ticked limit inTime]

theorem trans (first : Leads time h h') (second : Leads time h' h'') : Leads time h h'' := by
  obtain ⟨ticks, first⟩ := first
  obtain ⟨more, second⟩ := second
  refine ⟨more + ticks, fun limit inTime budget => ?_⟩
  rw [← Nat.add_assoc, first limit inTime, second limit inTime]

end Leads

/-! ### From one turn to the next -/

/-- The turn that is to come at a desk. -/
structure Awaits (d : Desk) (b : Backoff) (turn : Turn) : Prop where
  whole : Clock.milli ∣ d.now
  lone : ∃ task, d.queue.Lone b d.now turn.task task turn.time ∧ task.job = turn.job ∧
    task.attempts + 1 = turn.attempt

/-- The turn that is being taken at a desk, under a lease. -/
structure Takes (d : Desk) (b : Backoff) (turn : Turn) (lease : Lease) : Prop where
  whole : Clock.milli ∣ d.now
  now : d.now = turn.time
  envelope : lease.envelope = ⟨turn.task, turn.job⟩
  busy : ∃ task, d.queue.Busy b turn.task task ∧ task.job = turn.job ∧
    task.attempts = turn.attempt

variable {b : Backoff} {turn : Turn}

theorem leads_lease_now (awaits : Awaits d b turn) (now : d.now = turn.time) :
    ∃ d' lease, Leads turn.time (solo d c .waiting) (solo d' c (.executing lease .leased)) ∧
      Takes d' b turn lease ∧ d'.turns = d.turns ++ [turn] := by
  obtain ⟨task, lone, job, attempt⟩ := awaits.lone
  rcases lone.look awaits.whole with ⟨_, lease, q, running, seen, envelope, number, busy, kind,
    counted⟩ | ⟨early, _⟩
  -- The queue hands it out, and the journal says so.
  · refine ⟨d.enter q (.lease lease), lease, Leads.tick fun _ _ => tick_waiting_leased seen,
      ⟨awaits.whole, now, by rw [envelope, job], running, busy, kind.trans job,
        counted.trans attempt⟩, ?_⟩
    rw [Desk.turns_enter_lease, envelope, job, number, attempt, now]
  · omega

/-- When the turn comes, the worker takes its lease. -/
theorem leads_lease (awaits : Awaits d b turn) :
    ∃ d' lease, Leads turn.time (solo d c .waiting) (solo d' c (.executing lease .leased)) ∧
      Takes d' b turn lease ∧ d'.turns = d.turns ++ [turn] := by
  obtain ⟨task, lone, job, attempt⟩ := awaits.lone
  rcases lone.look awaits.whole with ⟨now, _⟩ | ⟨early, wake, seen, time⟩
  · exact leads_lease_now awaits now
  · -- First the clock moves on to the time of the turn.
    have later : Awaits { d with now := turn.time } b turn :=
      ⟨by rw [time]; exact Clock.milli_dvd_wholeMilli wake, task, lone.wait early, job, attempt⟩
    obtain ⟨d', lease, leads, takes, turns⟩ := leads_lease_now (c := c) later rfl
    refine ⟨d', lease, Leads.trans (Leads.tick fun limit inTime => ?_) leads, takes, turns⟩
    rw [time] at inTime ⊢
    exact tick_waiting_idle seen inTime

/-- Two chains with the same constants and the same answers to come. -/
structure Alike (c c' : Chain) : Prop where
  policy : c'.policy = c.policy
  oracle : c'.oracle = c.oracle
  engine : c'.engine = c.engine

theorem Alike.trans {c₁ c₂ c₃ : Chain} (first : Alike c₁ c₂) (second : Alike c₂ c₃) : Alike c₁ c₃ :=
  ⟨second.policy.trans first.policy, second.oracle.trans first.oracle,
    second.engine.trans first.engine⟩

/-- What has been seen of a chain makes no difference to the call of a boundary. -/
theorem ask_with_status (c : Chain) (status : Status) (job : Job) :
    (({ c with status } : Chain).ask job).1 = (c.ask job).1 ∧
      Alike (c.ask job).2 (({ c with status } : Chain).ask job).2 := by
  cases job with
  | bootstrap => exact ⟨rfl, rfl, rfl, rfl⟩
  | sync => exact ⟨rfl, rfl, rfl, rfl⟩

theorem leads_answered (d : Desk) (c : Chain) (lease : Lease) (time : Nat) :
    ∃ c', Alike (c.ask lease.envelope.job).2 c' ∧
      Leads time (solo d c (.executing lease .leased))
        (solo d c' (.executing lease (.answered (c.ask lease.envelope.job).1))) := by
  obtain ⟨same, alike⟩ :=
    ask_with_status c (c.status.start lease.envelope.job) lease.envelope.job
  refine ⟨_, alike, Leads.trans (Leads.tick fun _ _ => tick_leased) (Leads.tick fun _ _ => ?_)⟩
  rw [← same]
  exact tick_started

theorem leads_completed (result : Except ChainError Scheduled) {completion : Completion}
    (done : d.complete lease.envelope.task (Chain.outcome result) = (.ok completion, d'))
    (c : Chain) (time : Nat) :
    ∃ c', Alike c c' ∧
      Leads time (solo d c (.executing lease (.settled result))) (solo d' c' .waiting) := by
  refine ⟨c.recordCompletion lease.envelope.job completion, ⟨rfl, rfl, rfl⟩, ?_⟩
  -- The task is completed, the chain is told, and the worker sees that it may go on.
  have completed : Leads time (solo d c (.executing lease (.settled result)))
      (solo d' c (.completed lease completion)) := Leads.tick fun _ _ => tick_settled done
  have told : Leads time (solo d' c (.completed lease completion))
      (solo d' (c.recordCompletion lease.envelope.job completion) .checking) :=
    Leads.tick fun _ _ => tick_completed
  exact (completed.trans told).trans (Leads.tick fun _ _ => tick_checking)

/-- What the answer to a turn brings about. -/
def Follows (d : Desk) (b : Backoff) : Option Turn → Prop
  | none => d.queue.Bare
  | some following => Awaits d b following

theorem enqueueDelayed_of_takes (takes : Takes d b turn lease) (delay : Delay) :
    ∃ d', TaskQueue.enqueueDelayed d .sync delay = (.ok ⟨turn.task.number + 1⟩, d') ∧
      d'.now = d.now ∧ d'.turns = d.turns ∧ ∃ task successor,
        d'.queue.task? turn.task = some task ∧ task.state = .running ∧
        d'.queue.Lone b d.now ⟨turn.task.number + 1⟩ successor
          (Clock.after d.now delay.duration) ∧ successor.job = .sync ∧ successor.attempts = 0 := by
  obtain ⟨task, busy, _⟩ := takes.busy
  have number : turn.task.number = d.queue.created := congrArg TaskId.number busy.last
  rw [number]
  -- The queue is open, so that the successor is placed, as the next to come.
  rcases Queue.enqueueDelayed_cases d.queue d.now .sync delay with ⟨shut, _⟩ | ⟨_, same⟩
  · rw [busy.works.isOpen] at shut
    cases shut
  · obtain ⟨lone, running⟩ := busy.insert d.now .sync delay takes.whole
    have enqueued : TaskQueue.enqueueDelayed d .sync delay = (.ok ⟨d.queue.created + 1⟩,
        d.enter (d.queue.insert d.now .sync delay none).2
          (.enqueueDelayed .sync delay (.ok ⟨d.queue.created + 1⟩))) := by
      simp only [TaskQueue.enqueueDelayed, same]
    exact ⟨_, enqueued, rfl, Desk.turns_enter rfl, task, _, running, busy.runs, lone,
      Task.job_fresh _ _ _ _, Task.attempts_fresh _ _ _ _⟩

/-- A recommendation puts the first attempt at a new sync in the place of the turn. -/
theorem leads_recommended (takes : Takes d b turn lease) (c : Chain) (secs : Int) (time : Nat) :
    ∃ d' c', Leads time (solo d c (.executing lease (.answered (.recommends secs))))
        (solo d' c' .waiting) ∧ Alike c c' ∧ d'.turns = d.turns ∧
      Awaits d' b ⟨Clock.after turn.time (c.successorDelay lease.envelope.job secs).duration,
        ⟨turn.task.number + 1⟩, .sync, 1⟩ := by
  obtain ⟨d₁, enqueued, now, turns, task, successor, known, runs, lone, job, attempts⟩ :=
    enqueueDelayed_of_takes takes (c.successorDelay lease.envelope.job secs)
  have placed : Leads time (solo d c (.executing lease (.answered (.recommends secs)))) _ :=
    Leads.tick fun _ _ => tick_answered (Chain.advance_of_placed rfl enqueued)
  have settled := placed.trans (Leads.tick fun _ _ => tick_placed)
  -- The task of the turn ends, and its successor is what is left to come.
  have envelope : lease.envelope.task = turn.task := by rw [takes.envelope]
  rw [← envelope] at known
  have succeeded := complete_of_queue (Queue.complete_success known d₁.now)
  let scheduled : Scheduled := ⟨⟨turn.task.number + 1⟩, c.successorDelay lease.envelope.job secs⟩
  obtain ⟨c', alike, completed⟩ := leads_completed (.ok scheduled) succeeded
    { c with status := c.status.schedule scheduled } time
  refine ⟨_, c', settled.trans completed, ⟨alike.policy, alike.oracle, alike.engine⟩,
    (Desk.turns_enter rfl).trans turns, ?_, successor, ?_, job, by rw [attempts]⟩
  · change Clock.milli ∣ d₁.now
    rw [now]
    exact takes.whole
  · change (d₁.queue.settle _ _ _).Lone b d₁.now _ _ _
    rw [now, ← takes.now]
    exact lone.settle known runs rfl

/-- A failure has the same task tried again after a wait, or ends the course. -/
theorem leads_failed (takes : Takes d b turn lease) {wait : Nat}
    (waits : b.nextDelay turn.attempt = .ok wait) {answer : Answer} {error : ChainError}
    (failed : c.guard.await (Chain.boundaryError lease.envelope.job) answer = .error error)
    (time : Nat) :
    ∃ d' c', Leads time (solo d c (.executing lease (.answered answer))) (solo d' c' .waiting) ∧
      Alike c c' ∧ d'.turns = d.turns ∧
      Follows d' b (if b.allowsRetry turn.attempt then
        some ⟨Clock.after turn.time wait, turn.task, turn.job, turn.attempt + 1⟩ else none) := by
  obtain ⟨task, busy, job, attempts⟩ := takes.busy
  have envelope : lease.envelope.task = turn.task := by rw [takes.envelope]
  have settled : Leads time (solo d c (.executing lease (.answered answer)))
      (solo d c (.executing lease (.settled (.error error)))) :=
    Leads.tick fun _ _ => tick_answered (Chain.advance_of_failed failed)
  rw [← envelope] at busy
  -- The queue has counted this attempt, and decides by that count.
  by_cases allowed : b.allowsRetry turn.attempt = true
  · have again := complete_of_queue (Queue.complete_retry busy.known d.now
      (by rw [busy.works.backoff, attempts]; exact allowed)
      (by rw [busy.works.backoff, attempts]; exact waits))
    obtain ⟨c', alike, completed⟩ := leads_completed (.error error) again c time
    refine ⟨_, c', settled.trans completed, alike, Desk.turns_enter rfl, ?_⟩
    rw [if_pos allowed]
    refine ⟨takes.whole, task.scheduleRetry (Clock.deadline d.now wait) d.now, ?_, job,
      congrArg (· + 1) attempts⟩
    rw [← takes.now, ← envelope]
    exact busy.retry d.now wait
  · have ended := complete_of_queue (Queue.complete_dead busy.known d.now
      (by rw [busy.works.backoff, attempts]; exact Bool.eq_false_iff.mpr allowed))
    obtain ⟨c', alike, completed⟩ := leads_completed (.error error) ended c time
    refine ⟨_, c', settled.trans completed, alike, Desk.turns_enter rfl, ?_⟩
    rw [if_neg allowed]
    exact busy.settle (·.die d.now)

theorem duration_successorDelay (c : Chain) (job : Job) (secs : Int) :
    (c.successorDelay job secs).duration = Clock.ofSecs (match job with
      | .bootstrap => (max 0 secs).toNat
      | .sync => if 0 < secs then secs.toNat else c.policy.fallback.secs) := by
  cases job with
  | bootstrap =>
    have clamped : (max 0 secs).toNat = secs.toNat := by omega
    simp only [Chain.successorDelay, Delay.clamped, Delay.duration, clamped]
  | sync =>
    simp only [Chain.successorDelay, Delay.orFallback, Delay.duration]
    split <;> rfl

/-- From the execution of a turn, the worker gets to the wait for the turn that follows. -/
theorem leads_following (takes : Takes d b turn lease) {wait : Nat → Nat}
    (waits : ∀ k, b.nextDelay k = .ok (wait k)) (c : Chain) (time : Nat) :
    ∃ d' c', Leads time (solo d c (.executing lease .leased)) (solo d' c' .waiting) ∧
      Alike (c.ask turn.job).2 c' ∧ d'.turns = d.turns ∧
      Follows d' b (turn.next ⟨c.policy.fallback, b.allowsRetry, wait⟩ (c.ask turn.job).1) := by
  have job : lease.envelope.job = turn.job := by rw [takes.envelope]
  obtain ⟨c₁, asked, answered⟩ := leads_answered d c lease time
  rw [job] at asked answered
  cases answer : (c.ask turn.job).1 with
  | recommends secs =>
    rw [answer] at answered
    obtain ⟨d', c', placed, alike, turns, awaits⟩ := leads_recommended takes c₁ secs time
    refine ⟨d', c', answered.trans placed, asked.trans alike, turns, ?_⟩
    have policy : c₁.policy = c.policy := asked.policy.trans (policy_ask c turn.job)
    rw [duration_successorDelay, policy, job] at awaits
    exact awaits
  | fails reason =>
    rw [answer] at answered
    have failed : c₁.guard.await (Chain.boundaryError lease.envelope.job) (.fails reason) =
        .error (Chain.boundaryError lease.envelope.job reason) := rfl
    obtain ⟨d', c', retried, alike, turns, follows⟩ :=
      leads_failed takes (waits turn.attempt) failed time
    exact ⟨d', c', answered.trans retried, asked.trans alike, turns, follows⟩
  | crashes reason =>
    rw [answer] at answered
    have failed : c₁.guard.await (Chain.boundaryError lease.envelope.job) (.crashes reason) =
        .error (.guardedCall reason) := rfl
    obtain ⟨d', c', retried, alike, turns, follows⟩ :=
      leads_failed takes (waits turn.attempt) failed time
    exact ⟨d', c', answered.trans retried, asked.trans alike, turns, follows⟩

end Host

end PacedChain
