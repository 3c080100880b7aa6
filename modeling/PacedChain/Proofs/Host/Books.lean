import PacedChain.Proofs.Backoff.Sign
import PacedChain.Proofs.Host.Incidents
import PacedChain.Proofs.Host.Phases

/-!
# Three sets of books

The status of a chain counts what is executed, the boundaries count their calls, and the queue
counts what has ended. Each worker that is in the middle of an execution accounts for what one of
them has counted already and another has not; so at rest the three agree (`Host.books_balance`),
whatever the phase of the chain makes of the events.
-/
namespace PacedChain

/-! ### The totals of the queue -/

namespace Queue

variable {q : Queue} {id : TaskId} {task : Task} {f : Task → Task}

/-- Nothing has succeeded or died from one queue to the other. -/
def SameTotals (q q' : Queue) : Prop :=
  q'.totals.succeeded = q.totals.succeeded ∧ q'.totals.dead = q.totals.dead

theorem totals_finish (known : q.task? id = some task) (ends : (f task).state.isTerminal = true) :
    addTotal? q.totals (f task).state = some (q.finish id f).totals := by
  obtain ⟨totals, booked, same⟩ := finish_eq known ends
  rw [booked, same]

theorem totals_look (q : Queue) (now : Nat) : (q.look now).2.totals = q.totals := by
  obtain ⟨_, _, _, _, same⟩ := q.look_eq now
  rw [same]

theorem totals_insert (q : Queue) (now : Nat) (job : Job) (delay : Delay) (key : Option Key) :
    (q.insert now job delay key).2.totals = q.totals := by
  obtain ⟨_, inserted⟩ := insert_eq q now job delay key
  rw [inserted]

theorem totals_enqueueDelayed (q : Queue) (now : Nat) (job : Job) (delay : Delay) :
    (q.enqueueDelayed now job delay).2.totals = q.totals := by
  rcases enqueueDelayed_cases q now job delay with ⟨_, same⟩ | ⟨_, same⟩ <;> rw [same]
  exact totals_insert q now job delay none

/-- A task that is replaced is cancelled, which counts elsewhere. -/
theorem sameTotals_enqueueUnique (q : Queue) (now : Nat) (key : Key) (policy : HolderPolicy)
    (job : Job) : q.SameTotals (q.enqueueUnique now key policy job).2 := by
  rcases enqueueUnique_cases q now key policy job with
    ⟨_, same⟩ | ⟨_, _, same⟩ | ⟨_, _, _, _, _, same⟩ | ⟨_, previous, _, held, _, _, same⟩ <;>
    rw [SameTotals, same]
  · exact ⟨rfl, rfl⟩
  · rw [totals_insert]
    exact ⟨rfl, rfl⟩
  · exact ⟨rfl, rfl⟩
  · obtain ⟨_, task, known, _⟩ := of_liveHolder held
    have booked := Option.some.inj (totals_finish (f := (·.cancel now)) known rfl)
    rw [totals_insert, ← booked]
    exact ⟨rfl, rfl⟩

/-- A completion counts as what it says. -/
theorem totals_complete (known : q.task? id = some task) {now : Nat} {outcome : Outcome}
    {completion : Completion} {q' : Queue}
    (done : q.complete now id outcome = (.ok completion, q')) :
    q'.totals.succeeded = q.totals.succeeded + (completion == .succeeded).toNat ∧
      q'.totals.dead = q.totals.dead + completion.isDead.toNat := by
  rcases complete_cases known now outcome with
    ⟨_, same⟩ | ⟨_, same⟩ | ⟨_, _, same⟩ | ⟨_, _, same⟩ <;>
    cases same.symm.trans done
  · have booked := Option.some.inj (totals_finish (f := (·.succeed now)) known rfl)
    exact ⟨(congrArg Totals.succeeded booked).symm, (congrArg Totals.dead booked).symm⟩
  · have booked := Option.some.inj (totals_finish (f := (·.die now)) known rfl)
    exact ⟨(congrArg Totals.succeeded booked).symm, (congrArg Totals.dead booked).symm⟩
  · exact ⟨rfl, rfl⟩

end Queue

theorem Usage.sameTotals_of_isOutside {u : Usage} {call : Call} (outside : call.isOutside = true) :
    u.desk.queue.SameTotals (u.perform call).desk.queue := by
  cases call with
  | enqueue job =>
    have same := Queue.totals_enqueueDelayed u.desk.queue u.desk.now job Delay.zero
    exact ⟨congrArg Totals.succeeded same, congrArg Totals.dead same⟩
  | enqueueDelayed job delay =>
    have same := Queue.totals_enqueueDelayed u.desk.queue u.desk.now job delay
    exact ⟨congrArg Totals.succeeded same, congrArg Totals.dead same⟩
  | enqueueUnique key policy job => exact Queue.sameTotals_enqueueUnique _ _ key policy job
  | close | pass => exact ⟨rfl, rfl⟩
  | look | complete | drop => cases outside

/-! ### What is counted -/

namespace Status

/-- How many executions of a job were started. -/
def runs (s : Status) : Job → Nat
  | .bootstrap => s.bootstrapRuns
  | .sync => s.syncRuns

def started (s : Status) : Nat := s.bootstrapRuns + s.syncRuns

theorem counts_start (s : Status) (job : Job) :
    (∀ other, (s.start job).runs other = s.runs other + (job == other).toNat) ∧
      (s.start job).started = s.started + 1 ∧ (s.start job).retries = s.retries ∧
      (s.start job).stalls = s.stalls := by
  cases job <;> refine ⟨fun other => ?_, ?_, rfl, rfl⟩
  · cases other <;> rfl
  · exact Nat.add_right_comm _ _ _
  · cases other <;> rfl
  · rfl

theorem counts_schedule (s : Status) (successor : Scheduled) :
    (s.schedule successor).runs = s.runs ∧ (s.schedule successor).started = s.started ∧
      (s.schedule successor).retries = s.retries ∧ (s.schedule successor).stalls = s.stalls :=
  ⟨rfl, rfl, rfl, rfl⟩

theorem counts_bootstrapEnqueued (s : Status) :
    (s.apply .bootstrapEnqueued).runs = s.runs ∧
      (s.apply .bootstrapEnqueued).started = s.started ∧
      (s.apply .bootstrapEnqueued).retries = s.retries ∧
      (s.apply .bootstrapEnqueued).stalls = s.stalls :=
  ⟨rfl, rfl, rfl, rfl⟩

/-- A completion is counted as a retry or as a stall, unless it is a success. -/
theorem counts_complete (s : Status) (job : Job) (completion : Completion) :
    (s.complete job completion).runs = s.runs ∧
      (s.complete job completion).started = s.started ∧
      (s.complete job completion).stalls = s.stalls + completion.isDead.toNat ∧
      (s.complete job completion).retries + (s.complete job completion).stalls =
        s.retries + s.stalls + (completion != .succeeded).toNat := by
  cases job <;> cases completion <;> refine ⟨rfl, rfl, rfl, ?_⟩ <;>
    first | rfl | exact Nat.add_right_comm _ _ _

end Status

/-- How often the boundary of a job was called. -/
def Chain.calls (c : Chain) : Job → Nat
  | .bootstrap => c.oracle.calls
  | .sync => c.engine.calls

theorem Chain.calls_ask {c c' : Chain} {job : Job} {answer : Answer}
    (asked : c.ask job = (answer, c')) (other : Job) :
    c'.calls other = c.calls other + (job == other).toNat := by
  cases job <;> cases other <;> cases asked <;> rfl

namespace Station

/-- Counted as started, while the boundary is still to be called. -/
def isCalling (job : Job) : Station → Bool
  | .executing lease .started => lease.envelope.job == job
  | _ => false

/-- The queue has given the task up, and the chain is still to be told. -/
def isUntold : Station → Bool
  | .completed _ completion => completion.isDead
  | _ => false

/-- Counted as started, and not yet as succeeded, as retried or as stalled. -/
def isUnbooked : Station → Bool
  | .executing _ .leased => false
  | .executing _ _ => true
  | .completed _ completion => completion != .succeeded
  | _ => false

end Station

namespace Host

variable {h h' : Host} {c : Chain}

/-- The books of the chain, of its boundaries and of the queue, with what the workers make up for
between them. -/
structure Books (c : Chain) (h : Host) : Prop where
  calls : ∀ job, c.calls job + h.chain.status.runs job =
    h.chain.calls job + h.tally (·.isCalling job)
  stalls : h.chain.status.stalls + h.tally (·.isUntold) = h.desk.queue.totals.dead
  started : h.chain.status.started = h.desk.queue.totals.succeeded + h.chain.status.retries +
    h.chain.status.stalls + h.tally (·.isUnbooked)

theorem books_fresh (new : c.status = {}) (backoff : Backoff) (historyLimit : Nat) :
    (fresh c backoff historyLimit).Books c where
  calls := by
    intro job
    change c.calls job + c.status.runs job = c.calls job + 0
    rw [new]
    cases job <;> rfl
  stalls := by
    change c.status.stalls + 0 = 0
    rw [new]
  started := by
    change c.status.started = 0 + c.status.retries + c.status.stalls + 0
    rw [new]
    rfl

/-! ### One step -/

/-- From one host to the next, all books change by what one worker makes up for. -/
structure Booked (h : Host) (s : Station) (h' : Host) (s' : Station) : Prop where
  calls : ∀ job, h'.chain.status.runs job + h.chain.calls job + (s.isCalling job).toNat =
    h.chain.status.runs job + h'.chain.calls job + (s'.isCalling job).toNat
  stalls : h'.chain.status.stalls + s'.isUntold.toNat + h.desk.queue.totals.dead =
    h.chain.status.stalls + s.isUntold.toNat + h'.desk.queue.totals.dead
  started : h'.chain.status.started + h.desk.queue.totals.succeeded + h.chain.status.retries +
      h.chain.status.stalls + s.isUnbooked.toNat =
    h.chain.status.started + h'.desk.queue.totals.succeeded + h'.chain.status.retries +
      h'.chain.status.stalls + s'.isUnbooked.toNat

/-- What counts neither in the status nor at the boundaries nor in the queue changes no book. -/
theorem booked_of_same {s s' : Station} (chain : h'.chain = h.chain)
    (totals : h'.desk.queue.totals = h.desk.queue.totals)
    (calling : ∀ job, s'.isCalling job = s.isCalling job) (untold : s'.isUntold = s.isUntold)
    (unbooked : s'.isUnbooked = s.isUnbooked) : h.Booked s h' s' where
  calls := by
    intro job
    rw [chain, calling]
  stalls := by rw [chain, untold, totals]
  started := by rw [chain, unbooked, totals]

theorem totals_of_look {d : Desk} {seen : Look} (looked : h.desk.look = (seen, d)) :
    d.queue.totals = h.desk.queue.totals := by
  have same := Queue.totals_look h.desk.queue h.desk.now
  unfold Desk.look at looked
  rcases found : h.desk.queue.look h.desk.now with ⟨_ | _ | _, q⟩ <;> rw [found] at looked same <;>
    cases looked <;> exact same

theorem totals_of_enqueueDelayed {d : Desk} {job : Job} {delay : Delay}
    {result : Except QueueError TaskId}
    (placed : TaskQueue.enqueueDelayed h.desk job delay = (result, d)) :
    d.queue.totals = h.desk.queue.totals := by
  cases placed
  exact Queue.totals_enqueueDelayed h.desk.queue h.desk.now job delay

/-- Every step of a worker is booked. -/
theorem Act.booked {group : Nat} {s s' : Station} (act : Act h group s s' h') (able : h.Able)
    (runs : ∀ lease, s.lease? = some lease → h.desk.queue.Runs lease) : h.Booked s h' s' := by
  cases act with
  | stop | goOn | recheck | leave | fail | rest =>
    exact booked_of_same rfl rfl (fun _ => rfl) rfl rfl
  | shut seen | idle seen | lease seen =>
    exact booked_of_same rfl (totals_of_look seen) (fun _ => rfl) rfl rfl
  | refuse _ placed | place _ placed =>
    exact booked_of_same rfl (totals_of_enqueueDelayed placed) (fun _ => rfl) rfl rfl
  -- The start of an execution is counted, and its call is still to come.
  | start lease =>
    obtain ⟨runs, started, retries, stalls⟩ := h.chain.status.counts_start lease.envelope.job
    refine ⟨fun job => ?_, ?_, ?_⟩
    · simp only [runs, Station.isCalling, Bool.toNat_false, Chain.calls]
      omega
    · simp only [stalls, Station.isUntold]
    · simp only [started, retries, stalls, Station.isUnbooked, Bool.toNat_false, Bool.toNat_true]
      omega
  | ask lease asked =>
    have status := Chain.status_ask asked
    refine ⟨fun job => ?_, ?_, ?_⟩
    · simp only [status, Chain.calls_ask asked, Station.isCalling, Bool.toNat_false]
      omega
    · simp only [status, Station.isUntold]
    · simp only [status, Station.isUnbooked]
  | note lease successor =>
    obtain ⟨runs, started, retries, stalls⟩ := h.chain.status.counts_schedule successor
    refine ⟨fun job => ?_, ?_, ?_⟩
    · simp only [runs, Station.isCalling, Chain.calls]
    · simp only [stalls, Station.isUntold]
    · simp only [started, retries, stalls, Station.isUnbooked]
  | @complete lease result completion _ done =>
    obtain ⟨task, known, _⟩ := runs lease rfl
    rcases answered : h.desk.queue.complete h.desk.now lease.envelope.task
      (Chain.outcome result) with ⟨answer, q⟩
    rw [Desk.complete, answered] at done
    cases done
    obtain ⟨succeeded, dead⟩ := Queue.totals_complete known answered
    -- What the queue has counted as ended, the chain is told next.
    have split : (completion == .succeeded).toNat + (completion != .succeeded).toNat = 1 := by
      cases completion <;> rfl
    refine ⟨fun job => rfl, ?_, ?_⟩
    · simp only [Desk.enter, dead, Station.isUntold, Bool.toNat_false]
      omega
    · simp only [Desk.enter, succeeded, Station.isUnbooked, Bool.toNat_true]
      omega
  | @drop lease result error _ done | @lose lease result error _ done =>
    exact absurd done (Desk.complete_ne_error able.sound.kept (runs lease rfl) able.waits _ _)
  | tell lease completion =>
    obtain ⟨runs, started, stalls, settled⟩ :=
      h.chain.status.counts_complete lease.envelope.job completion
    refine ⟨fun job => ?_, ?_, ?_⟩
    · simp only [Chain.recordCompletion, runs, Station.isCalling, Chain.calls]
    · simp only [Chain.recordCompletion, stalls, Station.isUntold, Bool.toNat_false]
      omega
    · simp only [Chain.recordCompletion, started, Station.isUnbooked, Bool.toNat_false]
      omega

/-! ### Every run -/

theorem books_stepWorker (able : h.Able) (books : h.Books c) (index : Nat)
    (preference : Preference) :
    (h.stepWorker index preference).Books c := by
  rcases found : h.workers[index]? with _ | w
  · rw [stepWorker_of_none found]
    exact books
  · obtain ⟨before, after, station, h', split, act, same⟩ := stepWorker_eq found preference
    have booked := act.booked able (runs_of_found able.sound found)
    -- The other workers make up for what they did before.
    have old := tally_of_split split
    have new : ∀ p, (h.stepWorker index preference).tally p = (p station).toNat +
        (before ++ after).countP fun w => p w.station := by
      intro p
      rw [same]
      exact tally_of_split (w := { w with station }) rfl p
    refine ⟨fun job => ?_, ?_, ?_⟩
    · have calls := books.calls job
      have step := booked.calls job
      rw [old] at calls
      rw [new, same]
      change c.calls job + h'.chain.status.runs job = h'.chain.calls job + _
      omega
    · have stalls := books.stalls
      have step := booked.stalls
      rw [old] at stalls
      rw [new, same]
      change h'.chain.status.stalls + _ = h'.desk.queue.totals.dead
      omega
    · have started := books.started
      have step := booked.started
      rw [old] at started
      rw [new, same]
      change h'.chain.status.started = h'.desk.queue.totals.succeeded +
        h'.chain.status.retries + h'.chain.status.stalls + _
      omega

theorem books_meet (able : h.Able) (books : h.Books c) (i : Incident) : (h.meet i).Books c := by
  rcases h.meet_cases i with ⟨index, preference, rfl⟩ | ⟨call, status, outside, _, learns, same⟩ |
    ⟨n, group, desk, chain, staff⟩
  · exact books_stepWorker able books index preference
  -- Nobody else's call is counted, and the news of a pending bootstrap is not either.
  · obtain ⟨succeeded, dead⟩ := Usage.sameTotals_of_isOutside (u := h.usage) outside
    have counts : status.runs = h.chain.status.runs ∧
        status.started = h.chain.status.started ∧
        status.retries = h.chain.status.retries ∧ status.stalls = h.chain.status.stalls := by
      rcases learns with rfl | rfl
      · exact ⟨rfl, rfl, rfl, rfl⟩
      · exact h.chain.status.counts_bootstrapEnqueued
    obtain ⟨runs, started, retries, stalls⟩ := counts
    rw [same]
    refine ⟨fun job => ?_, ?_, ?_⟩
    · change c.calls job + status.runs job = h.chain.calls job + h.tally _
      rw [runs]
      exact books.calls job
    · change status.stalls + h.tally _ = (h.usage.perform call).desk.queue.totals.dead
      rw [stalls, dead]
      exact books.stalls
    · change status.started = (h.usage.perform call).desk.queue.totals.succeeded +
        status.retries + status.stalls + h.tally _
      rw [started, retries, stalls, succeeded]
      exact books.started
  · have tallies := tally_of_staff staff
    refine ⟨fun job => ?_, ?_, ?_⟩
    · rw [chain, tallies _ rfl]
      exact books.calls job
    · rw [chain, desk, tallies _ rfl]
      exact books.stalls
    · rw [chain, desk, tallies _ rfl]
      exact books.started

theorem books_meets (new : c.status = {}) (backoff : Backoff) (historyLimit : Nat)
    (waits : ∀ attempts, ∃ delay, backoff.nextDelay attempts = .ok delay)
    (incidents : List Incident) : ((fresh c backoff historyLimit).meets incidents).Books c := by
  refine (meets_induction (P := fun h => h.Able ∧ h.Books c) ?_
    ⟨able_fresh c historyLimit waits, books_fresh new backoff historyLimit⟩ incidents).2
  rintro h i ⟨able, books⟩
  exact ⟨(callsTo_meet h i).able able, books_meet able books i⟩

theorem tally_eq_zero (rest : h.atRest = true) {p : Station → Bool}
    (busy : ∀ s, p s = true → s.isIdle = false) : h.tally p = 0 := by
  rw [tally, List.countP_eq_zero]
  intro w member counts
  have idle := List.all_eq_true.mp rest w member
  rw [busy _ counts] at idle
  cases idle

/-- The books of a chain that was `c` at the start, of its boundaries and of its queue agree. -/
structure BooksAgree (c : Chain) (h : Host) : Prop where
  bootstraps : h.chain.oracle.calls = c.oracle.calls + h.chain.status.bootstrapRuns
  syncs : h.chain.engine.calls = c.engine.calls + h.chain.status.syncRuns
  stalls : h.chain.status.stalls = h.desk.queue.counts.dead
  runs : h.chain.status.bootstrapRuns + h.chain.status.syncRuns =
    h.desk.queue.counts.succeeded + h.chain.status.retries + h.chain.status.stalls

/-- Whenever no execution is in progress, the status counts as many runs of each job as its boundary
was called, as many stalls as tasks have died, and as many runs as were successes, retries and
stalls: for tasks from anywhere, any workers in any groups, and any answers of the boundaries. -/
theorem books_balance (chain : Chain) (new : chain.status = {}) (backoff : Backoff)
    (historyLimit : Nat) (waits : ∀ attempts, ∃ delay, backoff.nextDelay attempts = .ok delay)
    (incidents : List Incident)
    (rest : ((fresh chain backoff historyLimit).meets incidents).atRest = true) :
    ((fresh chain backoff historyLimit).meets incidents).BooksAgree chain := by
  have books := books_meets new backoff historyLimit waits incidents
  have calling : ∀ job, tally _ (·.isCalling job) = 0 := fun job =>
    tally_eq_zero rest fun s counts => by cases s <;> first | rfl | cases counts
  have untold : tally _ (·.isUntold) = 0 :=
    tally_eq_zero rest fun s counts => by cases s <;> first | rfl | cases counts
  have unbooked : tally _ (·.isUnbooked) = 0 :=
    tally_eq_zero rest fun s counts => by cases s <;> first | rfl | cases counts
  have oracle := books.calls .bootstrap
  have engine := books.calls .sync
  have stalls := books.stalls
  have started := books.started
  rw [calling] at oracle engine
  rw [untold] at stalls
  rw [unbooked] at started
  exact ⟨oracle.symm, engine.symm, stalls, started⟩

/-- A sync that somebody has put on the queue dies when the engine crashes, and a bootstrap
succeeds. -/
theorem books_balance_after_death :
    let chain : Chain := {
      policy := {}
      oracle := Boundary.script [] (.recommends 0)
      engine := Boundary.script [] (.crashes "offline") }
    let backoff := { Backoff.standard with budget := some 1 }
    let incidents := [.form 1, .enqueue .sync] ++
      List.replicate 7 (.move (.step 0 .lease)) ++ [.move (.trigger .bootCompleted)] ++
      List.replicate 8 (.move (.step 0 .lease))
    let h := (fresh chain backoff 0).meets incidents
    chain.status = {} ∧ (∀ attempts, ∃ delay, backoff.nextDelay attempts = .ok delay) ∧
      h.atRest = true ∧ h.desk.queue.counts.dead = 1 ∧ h.desk.queue.counts.succeeded = 1 ∧
      h.BooksAgree chain := by
  intro chain backoff incidents h
  have waits : ∀ attempts, ∃ delay, backoff.nextDelay attempts = .ok delay := by
    refine Backoff.exists_nextDelay ?_
    simp only [backoff, Backoff.standard]
    exact Binary64.unsigned_ofNat 2
  have rest : h.atRest = true := by decide +kernel
  exact ⟨rfl, waits, rest, by decide +kernel, by decide +kernel,
    books_balance chain rfl backoff 0 waits incidents rest⟩

end Host

end PacedChain
