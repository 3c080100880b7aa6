import PacedChain.Proofs.Backoff.Sign
import PacedChain.Proofs.Desk.Fares
import PacedChain.Proofs.Host.Incidents

/-!
# No lease is lost

A worker's diary holds what its steps have done: the calls of the boundaries and the calls on the
queue (`Host.diary`). It is a row of whole rounds (`Round`), each from a lease to its completion
with the outcome of the execution, and at most one round that is under way; so between a lease and
its completion a worker neither takes another lease nor ends, however its group is asked to stop or
left. A worker that is asked to stop takes at most one lease more, and when all workers of a group
have ended, nothing runs any more under a lease of theirs (`Host.no_lease_lost`).
-/
namespace PacedChain

/-- What a step of a worker does to the world: it calls the boundary of a job, or the queue. -/
inductive Doing where
  | call (job : Job) (answer : Answer)
  | entry (entry : Entry)

def Doing.isLease : Doing → Bool
  | .entry (.lease _) => true
  | _ => false

/-- The answers of a boundary to the calls made from one time to another. -/
def Boundary.answers (earlier later : Boundary) : List Answer :=
  (List.range' earlier.calls (later.calls - earlier.calls)).map earlier.answer

/-- Whether this is a step of the worker with this index. -/
def Incident.isStepOf (index : Nat) : Incident → Bool
  | .move (.step other _) => other == index
  | _ => false

namespace Host

/-- What has been done from one host to the next. -/
def doings (h h' : Host) : List Doing :=
  (h.chain.oracle.answers h'.chain.oracle).map (.call .bootstrap) ++
    (h.chain.engine.answers h'.chain.engine).map (.call .sync) ++
    (h'.desk.journal.take (h'.desk.journal.length - h.desk.journal.length)).reverse.map (.entry ·.2)

/-- What one worker does in a run. -/
def diary (h : Host) (index : Nat) : List Incident → List Doing
  | [] => []
  | i :: incidents =>
    (if i.isStepOf index then h.doings (h.meet i) else []) ++ (h.meet i).diary index incidents

end Host

/-! ### Rounds -/

/-- Everything that is to be done with a lease: call the boundary of its job once, put a sync on the
queue if that has answered, and complete the lease with the outcome. -/
inductive Round (c : Chain) (lease : Lease) : List Doing → Prop
  | unanswered {answer : Answer} {error : ChainError} {completion : Completion} :
    c.guard.await (Chain.boundaryError lease.envelope.job) answer = .error error →
    Round c lease [.entry (.lease lease), .call lease.envelope.job answer,
      .entry (.complete lease.envelope.task .retry (.ok completion))]
  | refused {answer : Answer} {secs : Int} {error : QueueError} {completion : Completion} :
    c.guard.await (Chain.boundaryError lease.envelope.job) answer = .ok secs →
    Round c lease [.entry (.lease lease), .call lease.envelope.job answer,
      .entry (.enqueueDelayed .sync (c.successorDelay lease.envelope.job secs) (.error error)),
      .entry (.complete lease.envelope.task .retry (.ok completion))]
  | placed {answer : Answer} {secs : Int} {task : TaskId} {completion : Completion} :
    c.guard.await (Chain.boundaryError lease.envelope.job) answer = .ok secs →
    Round c lease [.entry (.lease lease), .call lease.envelope.job answer,
      .entry (.enqueueDelayed .sync (c.successorDelay lease.envelope.job secs) (.ok task)),
      .entry (.complete lease.envelope.task .success (.ok completion))]

/-- Whole rounds, one after the other. -/
inductive Rounds (c : Chain) : List Doing → Prop
  | none : Rounds c []
  | more {done round : List Doing} {lease : Lease} :
    Rounds c done → Round c lease round → Rounds c (done ++ round)

/-- What has been done of a round when its execution has come so far. -/
inductive Begun (c : Chain) (lease : Lease) : Stage → List Doing → Prop
  | leased : Begun c lease .leased [.entry (.lease lease)]
  | started : Begun c lease .started [.entry (.lease lease)]
  | answered (answer : Answer) :
    Begun c lease (.answered answer) [.entry (.lease lease), .call lease.envelope.job answer]
  | failed {answer : Answer} {error : ChainError} :
    c.guard.await (Chain.boundaryError lease.envelope.job) answer = .error error →
    Begun c lease (.settled (.error error))
      [.entry (.lease lease), .call lease.envelope.job answer]
  | refused {answer : Answer} {secs : Int} {error : QueueError} :
    c.guard.await (Chain.boundaryError lease.envelope.job) answer = .ok secs →
    Begun c lease (.settled (.error (.scheduling error)))
      [.entry (.lease lease), .call lease.envelope.job answer,
        .entry (.enqueueDelayed .sync (c.successorDelay lease.envelope.job secs) (.error error))]
  | placed {answer : Answer} {secs : Int} {task : TaskId} :
    c.guard.await (Chain.boundaryError lease.envelope.job) answer = .ok secs →
    Begun c lease (.placed ⟨task, c.successorDelay lease.envelope.job secs⟩)
      [.entry (.lease lease), .call lease.envelope.job answer,
        .entry (.enqueueDelayed .sync (c.successorDelay lease.envelope.job secs) (.ok task))]
  | noted {answer : Answer} {secs : Int} {task : TaskId} :
    c.guard.await (Chain.boundaryError lease.envelope.job) answer = .ok secs →
    Begun c lease (.settled (.ok ⟨task, c.successorDelay lease.envelope.job secs⟩))
      [.entry (.lease lease), .call lease.envelope.job answer,
        .entry (.enqueueDelayed .sync (c.successorDelay lease.envelope.job secs) (.ok task))]

/-- What a worker has done last, after whole rounds: the beginning of a round while it executes,
else nothing, but that it may have ended since the queue is closed. -/
def Station.HasDoneLast (c : Chain) : Station → List Doing → Prop
  | .executing lease stage, last => Begun c lease stage last
  | .gone, last => last = [] ∨ last = [.entry .leaseEnd]
  | _, last => last = []

/-- A diary that leads to a station. -/
def Station.Keeps (c : Chain) (s : Station) (log : List Doing) : Prop :=
  ∃ done last, log = done ++ last ∧ Rounds c done ∧ s.HasDoneLast c last

def Station.isWaiting : Station → Bool
  | .waiting => true
  | _ => false

namespace Begun

variable {c : Chain} {lease : Lease} {stage : Stage} {last : List Doing}

/-- A completion with the outcome of the execution ends the round. -/
theorem round {result : Except ChainError Scheduled} (begun : Begun c lease (.settled result) last)
    (completion : Completion) :
    Round c lease (last ++ [.entry (.complete lease.envelope.task (Chain.outcome result)
      (.ok completion))]) := by
  cases begun with
  | failed failed => exact .unanswered failed
  | refused answered => exact .refused answered
  | noted answered => exact .placed answered

/-- What has begun can be brought to an end, whatever the queue says to its completion. -/
theorem exists_rest (begun : Begun c lease stage last) :
    last ≠ [] ∧ ∃ rest, rest ≠ [] ∧ Round c lease (last ++ rest) := by
  have fails := @Round.unanswered c lease (.crashes "") _ .succeeded rfl
  cases begun with
  | leased | started => exact ⟨nofun, _, List.cons_ne_nil _ _, fails⟩
  | answered answer =>
    refine ⟨nofun, ?_⟩
    rcases awaited : c.guard.await (Chain.boundaryError lease.envelope.job) answer with error | secs
    · exact ⟨_, List.cons_ne_nil _ _, @Round.unanswered _ _ _ _ .succeeded awaited⟩
    · exact ⟨_, List.cons_ne_nil _ _, @Round.refused _ _ _ _ .closed .succeeded awaited⟩
  | failed failed =>
    exact ⟨nofun, _, List.cons_ne_nil _ _, @Round.unanswered _ _ _ _ .succeeded failed⟩
  | refused answered =>
    exact ⟨nofun, _, List.cons_ne_nil _ _, @Round.refused _ _ _ _ _ .succeeded answered⟩
  | placed answered | noted answered =>
    exact ⟨nofun, _, List.cons_ne_nil _ _, @Round.placed _ _ _ _ _ .succeeded answered⟩

end Begun

namespace Host

variable {h h' : Host} {c : Chain} {w : Worker} {index : Nat}

/-! ### What one step does -/

theorem answers_self (b : Boundary) : b.answers b = [] := by
  rw [Boundary.answers, Nat.sub_self]
  rfl

theorem answers_of_call (b : Boundary) : b.answers b.call.2 = [b.call.1] := by
  have one : b.call.2.calls - b.calls = 1 := Nat.add_sub_cancel_left _ _
  rw [Boundary.answers, one]
  rfl

theorem doings_of_same (oracle : h'.chain.oracle = h.chain.oracle)
    (engine : h'.chain.engine = h.chain.engine) (journal : h'.desk.journal = h.desk.journal) :
    h.doings h' = [] := by
  rw [doings, oracle, engine, journal, answers_self, answers_self, Nat.sub_self]
  rfl

theorem doings_of_entry {desk : Desk} {t : Nat} {entry : Entry}
    (journal : desk.journal = (t, entry) :: h.desk.journal) :
    h.doings { h with desk } = [.entry entry] := by
  have one : ((t, entry) :: h.desk.journal).length - h.desk.journal.length = 1 :=
    Nat.add_sub_cancel_left _ _
  rw [doings, journal, answers_self, answers_self, one]
  rfl

theorem doings_of_ask {job : Job} {answer : Answer} (asked : h.chain.ask job = (answer, h'.chain))
    (journal : h'.desk.journal = h.desk.journal) : h.doings h' = [.call job answer] := by
  rw [doings, journal, Nat.sub_self]
  cases job with
  | bootstrap =>
    have oracle : h'.chain.oracle = h.chain.oracle.call.2 :=
      congrArg (fun r => r.2.oracle) asked.symm
    have engine : h'.chain.engine = h.chain.engine := congrArg (fun r => r.2.engine) asked.symm
    have said : answer = h.chain.oracle.call.1 := congrArg Prod.fst asked.symm
    rw [oracle, engine, said, answers_self, answers_of_call]
    rfl
  | sync =>
    have oracle : h'.chain.oracle = h.chain.oracle := congrArg (fun r => r.2.oracle) asked.symm
    have engine : h'.chain.engine = h.chain.engine.call.2 :=
      congrArg (fun r => r.2.engine) asked.symm
    have said : answer = h.chain.engine.call.1 := congrArg Prod.fst asked.symm
    rw [oracle, engine, said, answers_self, answers_of_call]
    rfl

/-- A step goes on with an execution that has begun, or reports its outcome. -/
theorem Act.goesOn {group : Nat} {lease : Lease} {stage : Stage} {s' : Station} {last : List Doing}
    (act : Act h group (.executing lease stage) s' h') (same : SameConstants c h.chain)
    (begun : Begun c lease stage last) :
    (∃ stage', s' = .executing lease stage' ∧ Begun c lease stage' (last ++ h.doings h')) ∨
    ∃ result reply, stage = .settled result ∧
      h.desk.complete lease.envelope.task (Chain.outcome result) = (reply, h'.desk) ∧
      h.doings h' = [.entry (.complete lease.envelope.task (Chain.outcome result) reply)] ∧
      s'.lease? = none ∧ ∀ completion, reply = .ok completion → s' = .completed lease completion := by
  have silent : ∀ {stage'}, h.doings h' = [] → Begun c lease stage' last →
      Begun c lease stage' (last ++ h.doings h') := by
    intro stage' none next
    rw [none, List.append_nil]
    exact next
  have entered : ∀ {stage' doing}, h.doings h' = [doing] → Begun c lease stage' (last ++ [doing]) →
      Begun c lease stage' (last ++ h.doings h') := by
    intro stage' doing one next
    rw [one]
    exact next
  cases act with
  | start =>
    cases begun
    exact Or.inl ⟨_, rfl, silent (doings_of_same rfl rfl rfl) .started⟩
  | ask lease asked =>
    cases begun
    exact Or.inl ⟨_, rfl, entered (doings_of_ask asked rfl) (.answered _)⟩
  | fail failed =>
    cases begun
    rw [same.2] at failed
    exact Or.inl ⟨_, rfl, silent (doings_of_same rfl rfl rfl) (.failed failed)⟩
  | refuse answered refused =>
    cases begun
    rw [same.2] at answered
    rw [same.successorDelay] at refused
    exact Or.inl ⟨_, rfl, entered (doings_of_entry (journal_of_enqueueDelayed refused))
      (.refused answered)⟩
  | place answered placed =>
    cases begun
    rw [same.2] at answered
    refine Or.inl ⟨_, rfl, entered (doings_of_entry (journal_of_enqueueDelayed placed)) ?_⟩
    rw [same.successorDelay]
    exact .placed answered
  | note lease successor =>
    cases begun
    next answered => exact Or.inl ⟨_, rfl, silent (doings_of_same rfl rfl rfl) (.noted answered)⟩
  | complete done =>
    refine Or.inr ⟨_, _, rfl, done, doings_of_entry (journal_of_complete done), rfl, ?_⟩
    rintro completion ⟨⟩
    rfl
  | drop done | lose done =>
    exact Or.inr ⟨_, _, rfl, done, doings_of_entry (journal_of_complete done), rfl, nofun⟩

/-- A step of a worker goes on with its diary. -/
theorem Act.keeps {group : Nat} {s s' : Station} {log : List Doing} (act : Act h group s s' h')
    (able : h.Able) (runs : ∀ lease, s.lease? = some lease → h.desk.queue.Runs lease)
    (same : SameConstants c h.chain) (keeps : s.Keeps c log) :
    s'.Keeps c (log ++ h.doings h') := by
  obtain ⟨done, last, rfl, rounds, doneLast⟩ := keeps
  have silent : h.doings h' = [] → s'.HasDoneLast c last →
      s'.Keeps c (done ++ last ++ h.doings h') := by
    intro none next
    rw [none, List.append_nil]
    exact ⟨done, last, rfl, rounds, next⟩
  have goesOn : ∀ more, h.doings h' = more → s'.HasDoneLast c (last ++ more) →
      s'.Keeps c (done ++ last ++ h.doings h') := by
    rintro more rfl next
    exact ⟨done, _, List.append_assoc _ _ _, rounds, next⟩
  cases s with
  | checking =>
    cases act with
    | stop => exact silent (doings_of_same rfl rfl rfl) (Or.inl doneLast)
    | goOn => exact silent (doings_of_same rfl rfl rfl) doneLast
  | waiting =>
    cases act with
    | recheck => exact silent (doings_of_same rfl rfl rfl) doneLast
    | leave => exact silent (doings_of_same rfl rfl rfl) (Or.inl doneLast)
    | idle seen => exact silent (doings_of_same rfl rfl (journal_of_look seen)) doneLast
    | shut seen =>
      cases doneLast
      exact goesOn _ (doings_of_entry (journal_of_look seen)) (Or.inr rfl)
    | lease seen =>
      cases doneLast
      exact goesOn _ (doings_of_entry (journal_of_look seen)) .leased
  | executing lease stage =>
    rcases act.goesOn same doneLast with
      ⟨stage', rfl, begun⟩ | ⟨result, reply, rfl, replies, entry, _, next⟩
    · exact goesOn _ rfl begun
    · rcases reply with error | completion
      · exact absurd replies
          (Desk.complete_ne_error able.sound.kept (runs lease rfl) able.waits _ _)
      -- The round is done, and the next one has not begun.
      · rw [entry, next completion rfl, List.append_assoc]
        exact ⟨_, [], (List.append_nil _).symm, .more rounds (Begun.round doneLast completion), rfl⟩
  | completed lease completion =>
    cases act
    exact silent (doings_of_same rfl rfl rfl) doneLast
  | gone =>
    cases act
    exact silent (doings_of_same rfl rfl rfl) doneLast

/-- A worker takes a lease only where it waits for one. -/
theorem Act.takes {group : Nat} {s s' : Station} (act : Act h group s s' h') :
    (∀ x ∈ h.doings h', x.isLease = false) ∨
      ∃ lease, s = .waiting ∧ s' = .executing lease .leased ∧
        h.doings h' = [.entry (.lease lease)] := by
  have none : h.doings h' = [] → ∀ x ∈ h.doings h', x.isLease = false := by
    intro same x member
    rw [same] at member
    cases member
  have one : ∀ x : Doing, x.isLease = false → h.doings h' = [x] →
      ∀ x ∈ h.doings h', x.isLease = false := by
    intro x kind same y member
    rw [same, List.mem_singleton] at member
    rw [member]
    exact kind
  cases act with
  | stop | goOn | recheck | leave | start | fail | note | tell | rest =>
    exact Or.inl (none (doings_of_same rfl rfl rfl))
  | idle seen => exact Or.inl (none (doings_of_same rfl rfl (journal_of_look seen)))
  | shut seen => exact Or.inl (one _ rfl (doings_of_entry (journal_of_look seen)))
  | lease seen => exact Or.inr ⟨_, rfl, rfl, doings_of_entry (journal_of_look seen)⟩
  | ask lease asked => exact Or.inl (one _ rfl (doings_of_ask asked rfl))
  | refuse _ placed | place _ placed =>
    exact Or.inl (one _ rfl (doings_of_entry (journal_of_enqueueDelayed placed)))
  | complete done | drop done | lose done =>
    exact Or.inl (one _ rfl (doings_of_entry (journal_of_complete done)))

/-! ### What a run does -/

theorem exists_of_isStepOf {i : Incident} (own : i.isStepOf index = true) :
    ∃ preference, i = .move (.step index preference) := by
  cases i with
  | move m =>
    cases m with
    | step other preference =>
      rw [Incident.isStepOf, beq_iff_eq] at own
      exact ⟨preference, by rw [own]⟩
    | pass | trigger | close | spawn | leave | requestShutdown | giveUp => cases own
  | enqueue | enqueueDelayed | enqueueUnique | form | ask | leave => cases own

/-- A worker is where it was unless it takes a step. -/
theorem worker_meet {i : Incident} (other : i.isStepOf index = false) :
    (h.meet i).workers[index]? = h.workers[index]? ∨
      (h.workers[index]? = none ∧ ∃ w, (h.meet i).workers[index]? = some w ∧
        w.station = .checking) := by
  rcases h.meet_cases i with ⟨stepped, preference, rfl⟩ | ⟨call, status, _, _, _, same⟩ |
    ⟨n, group, _, _, staff⟩
  · left
    have apart : stepped ≠ index := by
      rintro rfl
      rw [Incident.isStepOf, beq_self_eq_true] at other
      cases other
    rcases found : h.workers[stepped]? with _ | w
    · rw [meet, move, stepWorker_of_none found]
    · obtain ⟨_, _, _, workers, _⟩ := stepWorker_spec found preference
      rw [meet, move, workers, List.getElem?_set_ne apart]
  · left
    rw [same]
    rfl
  · rw [staff]
    by_cases old : index < h.workers.length
    · exact Or.inl (List.getElem?_append_left old)
    · have past := Nat.not_lt.mp old
      rw [List.getElem?_append_right past, List.getElem?_eq_none past, List.getElem?_replicate]
      split
      · exact Or.inr ⟨rfl, _, rfl, rfl⟩
      · exact Or.inl rfl

/-- A worker's diary leads to where it stands, and all leases in it but the one that it executes are
over. -/
structure Recorded (c : Chain) (h : Host) (index : Nat) (log : List Doing) : Prop where
  same : SameConstants c h.chain
  absent : h.workers[index]? = none → log = []
  keeps : ∀ w, h.workers[index]? = some w → w.station.Keeps c log
  past : ∀ lease, .entry (.lease lease) ∈ log →
    (∃ w, h.workers[index]? = some w ∧ w.station.lease? = some lease) ∨ h.desk.queue.Past lease

/-- A worker that no longer executes a lease has completed it. -/
theorem Act.past {group : Nat} {s s' : Station} {lease : Lease} (act : Act h group s s' h')
    (able : h.Able) (executes : s.lease? = some lease) (out : lease ∈ h.leases) :
    s'.lease? = some lease ∨ h'.desk.queue.Past lease := by
  cases act with
  | start | ask | fail | refuse | place | note => exact Or.inl executes
  | @complete _ result _ _ done | @drop _ result _ _ done | @lose _ result _ _ done =>
    cases executes
    have past := able.sound.past_of_complete able.waits out (Chain.outcome result)
    have desk : h.usage.desk = h.desk := rfl
    rw [desk, done] at past
    exact Or.inr past
  | stop | goOn | recheck | leave | shut | idle | lease | tell | rest => cases executes

namespace Recorded

variable {log : List Doing}

theorem step (able : h.Able) (recorded : Recorded c h index log) (preference : Preference) :
    Recorded c (h.stepWorker index preference) index
      (log ++ h.doings (h.stepWorker index preference)) := by
  have same := sameConstants_meet h (.move (.step index preference))
  have came := callsTo_stepWorker h index preference
  rcases found : h.workers[index]? with _ | w
  · rw [stepWorker_of_none found, doings_of_same rfl rfl rfl, List.append_nil]
    exact recorded
  · obtain ⟨station, h', act, workers, desk, chain, _⟩ := stepWorker_spec found preference
    have within := (List.getElem?_eq_some_iff.mp found).1
    have now : (h.stepWorker index preference).workers[index]? = some { w with station } := by
      rw [workers, List.getElem?_set_self within]
    have doings : h.doings (h.stepWorker index preference) = h.doings h' := by
      rw [Host.doings, desk, chain, Host.doings]
    rw [doings]
    refine ⟨⟨same.1.trans recorded.same.1, same.2.trans recorded.same.2⟩, ?_, ?_, ?_⟩
    · intro none
      cases now.symm.trans none
    · intro w' here
      cases now.symm.trans here
      exact act.keeps able (runs_of_found able.sound found) recorded.same (recorded.keeps w found)
    · intro lease member
      rcases List.mem_append.mp member with earlier | taken
      · rcases recorded.past lease earlier with ⟨_, here, executes⟩ | past
        · cases found.symm.trans here
          have out := mem_leases_of_found found executes
          rw [desk]
          exact (act.past able executes out).imp_left fun still => ⟨_, now, still⟩
        · exact Or.inr (came.past able.sound past)
      · rcases act.takes with none | ⟨other, _, takes, only⟩
        · cases none _ taken
        · rw [only, List.mem_singleton] at taken
          cases taken
          exact Or.inl ⟨_, now, by rw [takes]; rfl⟩

theorem meet (able : h.Able) (recorded : Recorded c h index log) (i : Incident) :
    Recorded c (h.meet i) index (log ++ if i.isStepOf index then h.doings (h.meet i) else []) := by
  by_cases own : i.isStepOf index = true
  · rw [if_pos own]
    obtain ⟨preference, rfl⟩ := exists_of_isStepOf own
    exact recorded.step able preference
  · rw [if_neg own, List.append_nil]
    have same := sameConstants_meet h i
    have constants : SameConstants c (h.meet i).chain :=
      ⟨same.1.trans recorded.same.1, same.2.trans recorded.same.2⟩
    have past : ∀ lease, h.desk.queue.Past lease → (h.meet i).desk.queue.Past lease :=
      fun _ => (callsTo_meet h i).past able.sound
    rcases @worker_meet h index i (Bool.eq_false_iff.mpr own) with
      stays | ⟨none, w, comes, station⟩
    · refine ⟨constants, ?_, ?_, ?_⟩
      · rw [stays]
        exact recorded.absent
      · rw [stays]
        exact recorded.keeps
      · rw [stays]
        exact fun lease member => (recorded.past lease member).imp_right (past lease)
    -- The worker is new, and has done nothing.
    · have empty := recorded.absent none
      subst empty
      refine ⟨constants, fun _ => rfl, fun w' here => ?_, nofun⟩
      cases comes.symm.trans here
      rw [station]
      exact ⟨[], [], rfl, .none, rfl⟩

theorem meets (able : h.Able) (recorded : Recorded c h index log) (incidents : List Incident) :
    Recorded c (h.meets incidents) index (log ++ h.diary index incidents) := by
  induction incidents generalizing h log with
  | nil =>
    rw [diary, List.append_nil]
    exact recorded
  | cons i incidents ih =>
    have next := ih ((callsTo_meet h i).able able) (recorded.meet able i)
    rw [List.append_assoc] at next
    exact next

end Recorded

theorem recorded_fresh (chain : Chain) (backoff : Backoff) (historyLimit index : Nat) :
    Recorded chain (fresh chain backoff historyLimit) index [] where
  same := ⟨rfl, rfl⟩
  absent := fun _ => rfl
  keeps := nofun
  past := nofun

/-! ### Asked to stop -/

/-- A worker that is asked to stop takes no lease but the one that it waits for. -/
theorem Act.atMostOne {group : Nat} {s s' : Station} (act : Act h group s s' h')
    (asked : h.asked.contains group = true) :
    (h.doings h').countP Doing.isLease + s'.isWaiting.toNat ≤ s.isWaiting.toNat := by
  rcases act.takes with none | ⟨lease, rfl, rfl, only⟩
  · have count : (h.doings h').countP Doing.isLease = 0 :=
      List.countP_eq_zero.mpr fun x member => Bool.eq_false_iff.mp (none x member)
    rw [count, Nat.zero_add]
    cases act with
    | goOn free => cases asked.symm.trans free
    | stop | recheck | leave | shut | idle | lease | start | ask | fail | refuse | place | note
    | complete | drop | lose | tell | rest => first | exact Nat.le_refl _ | exact Nat.zero_le _
  · rw [only]
    exact Nat.le_refl _

theorem Act.asked {group : Nat} {s s' : Station} (act : Act h group s s' h') :
    h'.asked = h.asked := by
  cases act <;> rfl

theorem asked_meet (h : Host) (i : Incident) : h.asked ⊆ (h.meet i).asked := by
  have leaves : h.leaveGroup.2.asked = h.asked := by
    unfold leaveGroup
    split <;> rfl
  have requests : h.asked ⊆ h.requestShutdown.asked := by
    unfold requestShutdown
    split
    · exact List.Subset.refl _
    · exact List.subset_cons_self _ _
  cases i with
  | move m =>
    cases m with
    | step index preference =>
      rcases found : h.workers[index]? with _ | w
      · rw [meet, move, stepWorker_of_none found]
        exact List.Subset.refl _
      · obtain ⟨_, _, act, _, _, _, asked⟩ := stepWorker_spec found preference
        rw [meet, move, asked, act.asked]
        exact List.Subset.refl _
    | trigger | pass | close => exact List.Subset.refl _
    | spawn | leave =>
      rw [← leaves]
      exact List.Subset.refl _
    | requestShutdown | giveUp => exact requests
  | enqueue | enqueueDelayed | enqueueUnique | form | leave => exact List.Subset.refl _
  | ask group => exact List.subset_cons_self _ _

theorem atMostOne_diary (found : h.workers[index]? = some w)
    (asked : h.isAsked w = true) (incidents : List Incident) :
    (h.diary index incidents).countP Doing.isLease ≤ w.station.isWaiting.toNat := by
  induction incidents generalizing h w with
  | nil => exact Nat.zero_le _
  | cons i incidents ih =>
    have still : ∀ w' : Worker, w'.group = w.group → (h.meet i).isAsked w' = true := by
      intro w' group
      rw [isAsked, group, List.contains_iff_mem]
      exact asked_meet h i (List.contains_iff_mem.mp asked)
    rw [diary, List.countP_append]
    by_cases own : i.isStepOf index = true
    · rw [if_pos own]
      obtain ⟨preference, rfl⟩ := exists_of_isStepOf own
      obtain ⟨station, h', act, workers, desk, chain, _⟩ := stepWorker_spec found preference
      have within := (List.getElem?_eq_some_iff.mp found).1
      have now : (h.meet (.move (.step index preference))).workers[index]? =
          some { w with station } := by
        rw [meet, move, workers, List.getElem?_set_self within]
      have doings : h.doings (h.meet (.move (.step index preference))) = h.doings h' := by
        rw [Host.doings, meet, move, desk, chain, Host.doings]
      have later := ih now (still _ rfl)
      have first := act.atMostOne asked
      rw [doings]
      change _ ≤ station.isWaiting.toNat at later
      omega
    · rw [if_neg own, List.countP_nil, Nat.zero_add]
      rcases @worker_meet h index i (Bool.eq_false_iff.mpr own) with
        stays | ⟨none, _⟩
      · exact ih (stays.trans found) (still w rfl)
      · cases found.symm.trans none

/-! ### No lease is lost -/

/-- How the workers of a host treat their leases in a run. -/
structure KeepsLeases (start : Host) (incidents : List Incident) : Prop where
  /-- Whatever a worker has done is whole rounds, and the beginning of one more while it
  executes. -/
  rounds : ∀ index w, (start.meets incidents).workers[index]? = some w →
    ∃ done last, start.diary index incidents = done ++ last ∧ Rounds start.chain done ∧
      match w.station with
      | .executing lease _ => last ≠ [] ∧ ∃ rest, rest ≠ [] ∧ Round start.chain lease (last ++ rest)
      | .gone => last = [] ∨ last = [.entry .leaseEnd]
      | _ => last = []
  /-- After its group was asked to stop, a worker takes one lease more at most. -/
  oneMore : ∀ before after, incidents = before ++ after → ∀ index w,
    (start.meets before).workers[index]? = some w → (start.meets before).isAsked w = true →
    ((start.meets before).diary index after).countP Doing.isLease ≤ 1
  /-- Where all workers of a group have ended, no task runs under a lease of theirs. A task that
  they have tried may run again, under a later lease of another group. -/
  joined : ∀ group,
    (∀ w ∈ (start.meets incidents).workers, w.group = group → w.station.isGone = true) →
    ∀ index w, (start.meets incidents).workers[index]? = some w → w.group = group →
    ∀ lease, .entry (.lease lease) ∈ start.diary index incidents →
      ¬(start.meets incidents).desk.queue.Runs lease ∧
      ∀ task, (start.meets incidents).desk.queue.task? lease.envelope.task = some task →
        task.state = .running →
        ∃ other ∈ (start.meets incidents).workers, other.group ≠ group ∧
          ∃ later, other.station.lease? = some later ∧
            later.envelope.task = lease.envelope.task ∧ lease.attempt < later.attempt

/-- What a task runs under is a lease that a worker executes. -/
theorem exists_worker_of_running (able : h.Able) (held : h.usage.Held) {id : TaskId} {task : Task}
    (known : h.desk.queue.task? id = some task) (runs : task.state = .running) :
    ∃ w ∈ h.workers, ∃ lease, w.station.lease? = some lease ∧ lease.envelope.task = id ∧
      lease.attempt = task.attempts := by
  obtain ⟨lease, out, rfl⟩ := held id task known runs
  obtain ⟨w, listed, executes⟩ := List.mem_filterMap.mp out
  obtain ⟨other, found, _, _, attempts⟩ := able.sound.leased lease out
  cases known.symm.trans found
  exact ⟨w, listed, lease, executes, rfl, attempts.symm⟩

theorem lease?_of_isGone {s : Station} (gone : s.isGone = true) : s.lease? = none := by
  cases s <;> first | rfl | cases gone

theorem held_fresh (chain : Chain) (backoff : Backoff) (historyLimit : Nat) :
    (fresh chain backoff historyLimit).usage.Held := nofun

theorem keepsLeases (chain : Chain) {backoff : Backoff} (historyLimit : Nat)
    (waits : ∀ attempts, ∃ delay, backoff.nextDelay attempts = .ok delay)
    (incidents : List Incident) :
    (fresh chain backoff historyLimit).KeepsLeases incidents := by
  have able := able_fresh chain historyLimit waits
  have came := callsTo_meets (fresh chain backoff historyLimit) incidents
  have recorded := fun index =>
    (recorded_fresh chain backoff historyLimit index).meets able incidents
  refine ⟨fun index w found => ?_, fun before after _ index w found asked => ?_,
    fun group ended index w found own lease taken => ?_⟩
  · obtain ⟨done, last, log, rounds, doneLast⟩ := (recorded index).keeps w found
    refine ⟨done, last, log, rounds, ?_⟩
    cases station : w.station with
    | executing lease stage =>
      rw [station] at doneLast
      exact doneLast.exists_rest
    | checking | waiting | completed | gone =>
      rw [station] at doneLast
      exact doneLast
  · exact Nat.le_trans (atMostOne_diary found asked after) (Bool.toNat_le _)
  · have gone := ended w (List.mem_of_getElem? found) own
    -- A worker that has ended executes nothing, so all its leases are over.
    have past : ((fresh chain backoff historyLimit).meets incidents).desk.queue.Past lease := by
      refine ((recorded index).past lease taken).resolve_left ?_
      rintro ⟨other, here, executes⟩
      cases found.symm.trans here
      rw [lease?_of_isGone gone] at executes
      cases executes
    refine ⟨?_, fun task known runs => ?_⟩
    · rintro ⟨task, known, runs, _, attempts⟩
      have earlier := (past.passed task known).earlier runs
      rw [attempts] at earlier
      exact absurd earlier (Nat.lt_irrefl _)
    · have earlier := (past.passed task known).earlier runs
      obtain ⟨other, listed, later, executes, same, attempts⟩ := exists_worker_of_running
        (came.able able) (came.held able (held_fresh chain backoff historyLimit)) known runs
      refine ⟨other, listed, ?_, later, executes, same, by rw [attempts]; exact earlier⟩
      intro here
      rw [lease?_of_isGone (ended other listed here)] at executes
      cases executes

/-- With settings that pass, no worker loses a lease: for any chain, any groups and any ways in
which these are asked to stop or left, a close at any time, and any answers of the boundaries. -/
theorem no_lease_lost {s : Settings} (valid : s.validate = .ok s) (chain : Chain)
    (historyLimit : Nat) (incidents : List Incident) :
    (fresh chain s.backoff historyLimit).KeepsLeases incidents :=
  keepsLeases chain historyLimit (Settings.exists_nextDelay (Settings.fault?_of_validate valid))
    incidents

/-- A sync is tried by one group, which is asked to stop while it does, and then by another. -/
theorem no_lease_lost_to_shutdown :
    let s : Settings := {}
    let chain : Chain := {
      policy := s.policy
      oracle := Boundary.script [] (.recommends 0)
      engine := Boundary.script [] (.crashes "offline") }
    let incidents := [.form 1, .form 1, .enqueue .sync, .move (.step 0 .lease),
      .move (.step 0 .lease), .ask 0] ++ List.replicate 6 (.move (.step 0 .lease)) ++
      [.move (.pass (Clock.ofSecs 30)), .move (.step 1 .lease), .move (.step 1 .lease)]
    let start := fresh chain s.backoff 0
    s.validate = .ok s ∧ (start.diary 0 incidents).length = 3 ∧
      (start.meets incidents).desk.queue.counts.running = 1 ∧ start.KeepsLeases incidents := by
  intro s chain incidents start
  have valid : s.validate = .ok s := by
    have clean : s.fault? = none := by decide +kernel
    simp only [Settings.validate, clean]
  exact ⟨valid, by decide +kernel, by decide +kernel, no_lease_lost valid chain 0 incidents⟩

end Host

end PacedChain
