import Mathlib.Data.List.Infix
import PacedChain.Chain.Rehearsal
import PacedChain.Proofs.Chain.Performance
import PacedChain.Proofs.Host.Phases

/-!
# All or nothing

Whatever is asked of a chain, on whatever queue and with whatever answers: each execution asks the
boundary of its job once and makes at most one call on the queue, each trigger makes one, and what
fails schedules nothing and is not seen but as a start (`Performance.all_or_nothing`). Requests
leave the constants of the chain as they are, and the executions of a job get the answers of its
boundary in turn (`Performance.boundary_run`). What is seen of a successor is always that of the
last success (`Performance.Shows.run`). Chains with the same answers to come do the same
(`Chain.AgreeFor.run`), so that an execution whose boundary crashes makes no difference to the
others (`Performance.run_without`). It leaves the lock of the guard poisoned
(`Performance.poisoned_run`), which makes none either (`Performance.run_with_lock`).
-/
namespace PacedChain

namespace Boundary

/-- The boundary without the answer to the call with this number. -/
def skip (b : Boundary) (n : Nat) : Boundary :=
  { b with answer := fun k => if k < n then b.answer k else b.answer (k + 1) }

/-- The boundary after so many more calls. -/
def after (b : Boundary) (n : Nat) : Boundary := { b with calls := b.calls + n }

theorem answer_after (b : Boundary) (n k : Nat) :
    (b.after n).answer ((b.after n).calls + k) = b.answer (b.calls + (n + k)) := by
  rw [after, Nat.add_assoc]

theorem after_after (b : Boundary) (m n : Nat) : (b.after m).after n = b.after (m + n) := by
  rw [after, after, after, Nat.add_assoc]

end Boundary

namespace Chain

/-- The chain without the answer to that call of the boundary of a job. -/
def skip (c : Chain) (n : Nat) : Job → Chain
  | .bootstrap => { c with oracle := c.oracle.skip n }
  | .sync => { c with engine := c.engine.skip n }

theorem boundary_skip (c : Chain) (n : Nat) (job : Job) :
    (c.skip n job).boundary job = (c.boundary job).skip n := by
  cases job <;> rfl

theorem boundary_skip_of_ne (c : Chain) (n : Nat) {job other : Job} (ne : other ≠ job) :
    (c.skip n job).boundary other = c.boundary other := by
  cases job <;> cases other <;> first | rfl | exact absurd rfl ne

theorem policy_skip (c : Chain) (n : Nat) (job : Job) : (c.skip n job).policy = c.policy := by
  cases job <;> rfl

end Chain

theorem Request.count_cons (request : Request) (requests : List Request) (other : Request) :
    (request :: requests).count other = [request].count other + requests.count other := by
  rw [← List.singleton_append, List.count_append]

theorem Request.count_execute_of_ne {job other : Job} (ne : job ≠ other) :
    [Request.execute other].count (.execute job) = 0 :=
  List.count_eq_zero.mpr fun member => ne (Request.execute.inj (List.mem_singleton.mp member))

namespace Performance

variable {σ : Type} [TaskQueue σ] (p : Performance σ)

/-! ### Boundaries along a run -/

theorem policy_perform (request : Request) :
    (p.perform request).chain.policy = p.chain.policy := by
  cases request with
  | trigger signal => exact Chain.policy_noteTrigger _
  | execute job => exact Chain.policy_execute _ _ _
  | recordCompletion job completion => rfl

theorem policy_run (requests : List Request) : (p.run requests).chain.policy = p.chain.policy := by
  induction requests generalizing p with
  | nil => rfl
  | cons request requests ih => exact (ih (p.perform request)).trans (p.policy_perform request)

/-- A request asks a boundary once if it is an execution of its job, and else not at all. -/
theorem boundary_perform (request : Request) (job : Job) :
    (p.perform request).chain.boundary job =
      (p.chain.boundary job).after ([request].count (.execute job)) := by
  cases request with
  | trigger signal =>
    obtain ⟨result, triggers⟩ := p.triggers_perform signal
    exact triggers.asksNothing job
  | execute other =>
    obtain ⟨outcome, entries, executes⟩ := p.executes_perform other
    by_cases same : job = other
    · rw [same, List.count_singleton_self]
      exact executes.asks
    · rw [Request.count_execute_of_ne same]
      exact executes.asksOnly job same
  | recordCompletion other completion =>
    exact (p.records_perform other completion).asksNothing job

/-- The executions of a job get the answers of its boundary in turn. -/
theorem boundary_run (requests : List Request) (job : Job) :
    (p.run requests).chain.boundary job =
      (p.chain.boundary job).after (requests.count (.execute job)) := by
  induction requests generalizing p with
  | nil => rfl
  | cons request requests ih =>
    rw [Request.count_cons, ← Boundary.after_after, ← p.boundary_perform request]
    exact ih (p.perform request)

/-- The answer that the next execution of a job gets. -/
theorem answer_run (requests : List Request) (job : Job) :
    (p.run requests).chain.answer job = (p.chain.boundary job).answer
      ((p.chain.boundary job).calls + requests.count (.execute job)) := by
  rw [Chain.answer, boundary_run]
  rfl

end Performance

/-! ### The last success -/

theorem lastSuccess_append (deeds : List Deed) (deed : Deed) :
    lastSuccess (deeds ++ [deed]) = deed.success?.or (lastSuccess deeds) := by
  rw [lastSuccess, List.filterMap_append, List.getLast?_append]
  cases success : deed.success? <;> simp [success, lastSuccess]

namespace Performance

section

variable {σ : Type} {p p' : Performance σ} {before : Status} {deed : Deed}

/-- The successor that is seen of the chain is the one of the last success, or else the one that was
seen before. -/
def Shows (p : Performance σ) (before : Status) : Prop :=
  p.chain.status.nextTask = ((lastSuccess p.deeds).map (·.task)).or before.nextTask ∧
    p.chain.status.lastDelay = ((lastSuccess p.deeds).map (·.delay)).or before.lastDelay

theorem Shows.of_unsuccessful (shows : p.Shows before) (deeds : p'.deeds = p.deeds ++ [deed])
    (unsuccessful : deed.success? = none)
    (same : p'.chain.status.nextTask = p.chain.status.nextTask ∧
      p'.chain.status.lastDelay = p.chain.status.lastDelay) : p'.Shows before := by
  rw [Shows, deeds, lastSuccess_append, unsuccessful, same.1, same.2]
  exact shows

theorem Shows.of_success {status : Status} {successor : Scheduled}
    (deeds : p'.deeds = p.deeds ++ [deed]) (success : deed.success? = some successor)
    (scheduled : p'.chain.status = status.schedule successor) : p'.Shows before := by
  rw [Shows, deeds, lastSuccess_append, success, scheduled]
  exact ⟨rfl, rfl⟩

end

variable {σ : Type} [TaskQueue σ] {p : Performance σ} {before : Status}

theorem Shows.perform (shows : p.Shows before) (request : Request) :
    (p.perform request).Shows before := by
  cases request with
  | trigger signal =>
    obtain ⟨result, triggers⟩ := p.triggers_perform signal
    exact shows.of_unsuccessful triggers.deed rfl (Chain.next_noteTrigger _)
  | execute job =>
    obtain ⟨outcome, entries, executes⟩ := p.executes_perform job
    cases outcome with
    | success =>
      -- The call on the queue names the successor that the status is given.
      obtain ⟨secs, delay, task, _, one⟩ := executes.succeeds.mp rfl
      have deed := executes.deed
      rw [one] at deed
      exact Shows.of_success deed rfl (executes.scheduled delay task one)
    | retry =>
      refine shows.of_unsuccessful executes.deed rfl ?_
      rw [executes.started rfl]
      exact Status.next_start _ _
  | recordCompletion job completion =>
    exact shows.of_unsuccessful (p.records_perform job completion).deed rfl
      (Status.next_complete _ _ _)

theorem Shows.run (shows : p.Shows before) (requests : List Request) :
    (p.run requests).Shows before := by
  induction requests generalizing p with
  | nil => exact shows
  | cons request requests ih => exact ih (shows.perform request)

end Performance

/-! ### Chains with the same answers to come -/

namespace Chain

variable {σ : Type} [TaskQueue σ] {c c' : Chain} {q : σ} {request : Request}
  {requests : List Request}

/-- Two chains with the same constants, of which the executions among these requests get the same
answers. -/
structure AgreeFor (requests : List Request) (c c' : Chain) : Prop where
  policy : c'.policy = c.policy
  answers : ∀ job k, k < requests.count (.execute job) →
    (c'.boundary job).answer ((c'.boundary job).calls + k) =
      (c.boundary job).answer ((c.boundary job).calls + k)

/-- The guard has no say in what a call comes to, so that only the constants matter. -/
theorem place_of_policy (same : c'.policy = c.policy) (job : Job) (answer : Answer) (q : σ) :
    c'.place job answer q = c.place job answer q := by
  cases answer with
  | recommends secs =>
    cases job <;> simp only [place, Guard.await, Guard.exclusive_eq, successorDelay, same]
  | fails reason => rfl
  | crashes reason => rfl

theorem answer_of_agree {job : Job} (agree : AgreeFor (.execute job :: requests) c c') :
    c'.answer job = c.answer job :=
  agree.answers job 0 (List.count_pos_iff.mpr List.mem_cons_self)

/-- What is returned for a request and made of the queue follows from the constants of the chain and
the answer that it gets, if it asks for one. -/
theorem AgreeFor.serve (agree : AgreeFor (request :: requests) c c') (q : σ) :
    (c'.serve q request).1 = (c.serve q request).1 ∧
      (c'.serve q request).2.2 = (c.serve q request).2.2 := by
  cases request with
  | trigger signal =>
    simp only [Chain.serve, trigger, agree.policy, and_self]
  | execute job =>
    -- Both get the same answer, and place the same successor for it.
    have same : (c'.asked job).policy = (c.asked job).policy := by
      rw [policy_asked, policy_asked, agree.policy]
    rcases placed : (c.asked job).place job (c.answer job) q with ⟨result, q'⟩
    have placed' := placed
    rw [← answer_of_agree agree, ← place_of_policy same] at placed'
    simp only [Chain.serve, execute_eq placed, execute_eq placed', and_self]
  | recordCompletion job completion => exact ⟨rfl, rfl⟩

theorem AgreeFor.perform (agree : AgreeFor (request :: requests) c c') (q : σ)
    (deeds deeds' : List Deed) :
    AgreeFor requests ((⟨c, q, deeds⟩ : Performance σ).perform request).chain
      ((⟨c', q, deeds'⟩ : Performance σ).perform request).chain where
  policy := by
    rw [Performance.policy_perform, Performance.policy_perform]
    exact agree.policy
  answers job k later := by
    have counts := Request.count_cons request requests (.execute job)
    have answers := agree.answers job ([request].count (.execute job) + k) (by omega)
    rw [Performance.boundary_perform, Performance.boundary_perform, Boundary.answer_after,
      Boundary.answer_after]
    exact answers

/-- Chains that agree do the same on a queue. -/
theorem AgreeFor.run (agree : AgreeFor requests c c') (q : σ) (deeds deeds' : List Deed) :
    ∃ more, ((⟨c, q, deeds⟩ : Performance σ).run requests).deeds = deeds ++ more ∧
      ((⟨c', q, deeds'⟩ : Performance σ).run requests).deeds = deeds' ++ more ∧
      ((⟨c', q, deeds'⟩ : Performance σ).run requests).queue =
        ((⟨c, q, deeds⟩ : Performance σ).run requests).queue := by
  induction requests generalizing c c' q deeds deeds' with
  | nil => exact ⟨[], (List.append_nil _).symm, (List.append_nil _).symm, rfl⟩
  | cons request requests ih =>
    obtain ⟨response, noted⟩ := agree.serve (⟨q, []⟩ : Noted σ)
    -- Both do the same deed, and leave the queue the same.
    let deed : Deed := ⟨request, (c.serve (⟨q, []⟩ : Noted σ) request).1,
      (c.serve (⟨q, []⟩ : Noted σ) request).2.2.notes⟩
    have performed : (⟨c', q, deeds'⟩ : Performance σ).perform request =
        ⟨(c'.serve (⟨q, []⟩ : Noted σ) request).2.1,
          (c.serve (⟨q, []⟩ : Noted σ) request).2.2.queue, deeds' ++ [deed]⟩ := by
      rw [Performance.perform_eq, response, noted]
    obtain ⟨more, first, second, queue⟩ := ih (agree.perform q deeds deeds')
      (c.serve (⟨q, []⟩ : Noted σ) request).2.2.queue (deeds ++ [deed]) (deeds' ++ [deed])
    rw [List.append_assoc] at first second
    refine ⟨deed :: more, first, ?_, ?_⟩
    · rw [Performance.run_cons, performed]
      exact second
    · rw [Performance.run_cons, performed]
      exact queue

/-- A chain agrees with itself without an answer, until it would get this one. -/
theorem agreeFor_skip (c : Chain) (job : Job) (requests : List Request) :
    AgreeFor requests c
      (c.skip ((c.boundary job).calls + requests.count (.execute job)) job) where
  policy := policy_skip _ _ _
  answers other k early := by
    by_cases same : other = job
    · subst same
      rw [boundary_skip, Boundary.skip]
      exact if_pos (Nat.add_lt_add_left early _)
    · rw [boundary_skip_of_ne _ _ same]

end Chain

namespace Performance

/-- The same without the answer to the execution of a job that comes after these requests. -/
def without {σ : Type} (p : Performance σ) (earlier : List Request) (job : Job) : Performance σ :=
  let call := (p.chain.boundary job).calls + earlier.count (.execute job)
  { p with chain := p.chain.skip call job }

variable {σ : Type} [TaskQueue σ] {p : Performance σ} {earlier : List Request} {job : Job}

/-- When the answer is due that a chain does not have, it goes on as the one that has got it. -/
theorem agreeFor_without (p : Performance σ) (earlier later : List Request) (job : Job) :
    Chain.AgreeFor later ((p.run earlier).perform (.execute job)).chain
      ((p.without earlier job).run earlier).chain where
  policy := by
    rw [policy_run, policy_perform, policy_run]
    exact Chain.policy_skip _ _ _
  answers other k _ := by
    rw [boundary_run, boundary_perform, boundary_run, Boundary.after_after, Boundary.answer_after,
      Boundary.answer_after]
    by_cases same : other = job
    · subst same
      have late : ¬ (p.chain.boundary other).calls + (earlier.count (.execute other) + k) <
          (p.chain.boundary other).calls + earlier.count (.execute other) := by omega
      -- The call that is not made stands for the one whose answer is left out.
      rw [without, Chain.boundary_skip, Boundary.skip, List.count_singleton_self]
      simp only [if_neg late]
      congr 1
      omega
    · rw [without, Chain.boundary_skip_of_ne _ _ same, Request.count_execute_of_ne same,
        Nat.add_zero]

/-- An execution that gets no recommendation makes no difference to what is done before and after
it. -/
theorem run_without (unanswered : ∀ secs, (p.run earlier).chain.answer job ≠ .recommends secs)
    (later : List Request) : ∃ more,
    (p.run (earlier ++ .execute job :: later)).deeds =
      (p.run earlier).deeds ++ ⟨.execute job, .executed .retry, []⟩ :: more ∧
    ((p.without earlier job).run (earlier ++ later)).deeds = (p.run earlier).deeds ++ more ∧
    ((p.without earlier job).run (earlier ++ later)).queue =
      (p.run (earlier ++ .execute job :: later)).queue := by
  -- Before it, the two have done the same.
  obtain ⟨done, same, same', queue⟩ :=
    (p.chain.agreeFor_skip job earlier).run p.queue p.deeds p.deeds
  have asBefore : (p.without earlier job).run earlier =
      ⟨((p.without earlier job).run earlier).chain, (p.run earlier).queue,
        (p.run earlier).deeds⟩ := by
    rw [same, ← same', ← queue]
    rfl
  -- The execution leaves the queue alone, and the answers to come are the same for both.
  have performed := perform_execute (p := p.run earlier)
    (Chain.execute_of_unanswered (⟨(p.run earlier).queue, []⟩ : Noted σ) unanswered)
  have agree := p.agreeFor_without earlier later job
  rw [performed] at agree
  obtain ⟨more, first, second, after⟩ := agree.run (p.run earlier).queue
    ((p.run earlier).deeds ++ [⟨.execute job, .executed .retry, []⟩]) (p.run earlier).deeds
  rw [List.append_assoc] at first
  rw [run_append, run_append, run_cons, performed, asBefore]
  exact ⟨more, first, second, after⟩

/-! ### Poisoned locks -/

/-- Whether serving a request makes a boundary crash. -/
def crashes (p : Performance σ) : Request → Bool
  | .execute job => (p.chain.answer job).isCrash
  | .trigger _ | .recordCompletion _ _ => false

theorem poisoned_perform (p : Performance σ) (request : Request) :
    (p.perform request).chain.lock.poisoned = (p.chain.lock.poisoned || p.crashes request) := by
  cases request with
  | trigger signal =>
    rw [crashes, Bool.or_false]
    exact congrArg Lock.poisoned (Chain.lock_noteTrigger _)
  | execute job =>
    have same := congrArg Lock.poisoned
      (Chain.lock_execute p.chain job (⟨p.queue, []⟩ : Noted σ))
    exact same.trans (Chain.poisoned_asked p.chain job)
  | recordCompletion job completion => exact (Bool.or_false _).symm

/-- The lock is poisoned once a boundary has crashed, and stays so. -/
theorem poisoned_run (p : Performance σ) (requests : List Request) :
    (p.run requests).chain.lock.poisoned = true ↔ p.chain.lock.poisoned = true ∨
      ∃ earlier request, earlier ++ [request] <+: requests ∧
        (p.run earlier).crashes request = true := by
  induction requests using List.reverseRecOn with
  | nil => simp [run]
  | append_singleton requests request ih =>
    rw [run_append, run_cons]
    change ((p.run requests).perform request).chain.lock.poisoned = true ↔ _
    rw [poisoned_perform, Bool.or_eq_true, ih, or_assoc]
    refine or_congr_right ⟨?_, ?_⟩
    · rintro (⟨earlier, other, le, crashed⟩ | crashed)
      · exact ⟨earlier, other, le.trans (List.prefix_append requests [request]), crashed⟩
      · exact ⟨requests, request, List.prefix_refl _, crashed⟩
    · rintro ⟨earlier, other, le, crashed⟩
      rcases List.prefix_concat_iff.mp le with same | sooner
      · obtain ⟨rfl, final⟩ := List.append_inj' same rfl
        cases final
        exact Or.inr crashed
      · exact Or.inl ⟨earlier, other, sooner, crashed⟩

/-- However the lock was left, the same is done. -/
theorem run_with_lock (p : Performance σ) (lock : Lock) (requests : List Request) :
    let other : Performance σ := { p with chain := { p.chain with lock } }
    (other.run requests).deeds = (p.run requests).deeds ∧
      (other.run requests).queue = (p.run requests).queue := by
  have agree : Chain.AgreeFor requests p.chain { p.chain with lock } :=
    ⟨rfl, fun job _ _ => by cases job <;> rfl⟩
  obtain ⟨more, first, second, queue⟩ := agree.run p.queue p.deeds p.deeds
  exact ⟨second.trans first.symm, queue⟩

end Performance

/-! ### Chains that are put together -/

/-- A chain that is put together has the constants that were given, and shows what was seen of it
before. -/
theorem Assembly.given_of_build {σ : Type} {a : Assembly σ} {c : Chain} {q : σ}
    (built : a.build = .ok (c, q)) : c.policy = a.policy ∧ c.status = a.status.getD {} := by
  unfold build at built
  split at built
  · split at built
    · cases built
    · cases built
      exact ⟨rfl, rfl⟩
  · cases built

namespace Performance

variable {σ : Type} [TaskQueue σ]

/-- What holds of a chain that was put together from these parts, when it has served these requests:
for the request that comes next, whatever it is, and for all that it shows. -/
structure AllOrNothing (a : Assembly σ) (start : Performance σ) (requests : List Request) :
    Prop where
  /-- An execution gets the next one of the answers of its boundary. -/
  executes : ∀ job, ∃ outcome entries,
    (start.run requests).Executes ((start.run requests).perform (.execute job)) a.policy.fallback
      job ((start.chain.boundary job).answer
        ((start.chain.boundary job).calls + requests.count (.execute job))) outcome entries
  triggers : ∀ signal, ∃ result,
    (start.run requests).Triggers ((start.run requests).perform (.trigger signal)) a.policy.key
      signal result
  records : ∀ job completion, (start.run requests).Records
    ((start.run requests).perform (.recordCompletion job completion)) job completion
  /-- A chain that was observed before shows what was seen then until its first success. -/
  shows : (start.run requests).Shows (a.status.getD {})
  showsNothing : a.status = none → lastSuccess (start.run requests).deeds = none →
    (start.run requests).chain.status.nextTask = none ∧
      (start.run requests).chain.status.lastDelay = none
  /-- An execution whose boundary crashes, or fails, is to all others as if it had not been asked
  for, and its boundary not called. -/
  isolates : ∀ job, (∀ secs, (start.run requests).chain.answer job ≠ .recommends secs) →
    ∀ later, ∃ more,
      (start.run (requests ++ .execute job :: later)).deeds =
        (start.run requests).deeds ++ ⟨.execute job, .executed .retry, []⟩ :: more ∧
      ((start.without requests job).run (requests ++ later)).deeds =
        (start.run requests).deeds ++ more ∧
      ((start.without requests job).run (requests ++ later)).queue =
        (start.run (requests ++ .execute job :: later)).queue

/-- Executions and triggers are all or nothing, on any queue and with any answers of the boundaries,
after any requests. -/
theorem all_or_nothing {a : Assembly σ} {c : Chain} {q : σ} (built : a.build = .ok (c, q))
    (requests : List Request) : AllOrNothing a ⟨c, q, []⟩ requests := by
  obtain ⟨policy, status⟩ := Assembly.given_of_build built
  have same : ((⟨c, q, []⟩ : Performance σ).run requests).chain.policy = a.policy :=
    (policy_run _ requests).trans policy
  have shows : ((⟨c, q, []⟩ : Performance σ).run requests).Shows (a.status.getD {}) := by
    rw [← status]
    exact Shows.run ⟨rfl, rfl⟩ requests
  exact {
    executes := fun job => by
      have executes := executes_perform ((⟨c, q, []⟩ : Performance σ).run requests) job
      rw [same, answer_run] at executes
      exact executes
    triggers := fun signal => by
      rw [← same]
      exact triggers_perform _ signal
    records := records_perform _
    shows
    showsNothing := fun unobserved before => by
      rw [Shows, unobserved, before] at shows
      exact shows
    isolates := fun _ => run_without }

/-- The oracle crashes in the first execution and recommends nothing in the second, which schedules
the first sync at once. -/
theorem all_or_nothing_after_crash :
    let a : Assembly RehearsalQueue := {
      queue := some {}
      oracle := some (Boundary.script [.crashes "native crash"] (.recommends (-50)))
      engine := some (Boundary.script [] (.recommends 3600)) }
    let requests := [.trigger .bootCompleted, .execute .bootstrap, .execute .bootstrap]
    ∃ c q, a.build = .ok (c, q) ∧
      ((⟨c, q, []⟩ : Performance RehearsalQueue).run requests).deeds = [
        ⟨.trigger .bootCompleted, .triggered (.ok (.enqueued ⟨1⟩)),
          [.enqueueUnique Key.standard .keepExisting .bootstrap (.ok (.enqueued ⟨1⟩))]⟩,
        ⟨.execute .bootstrap, .executed .retry, []⟩,
        ⟨.execute .bootstrap, .executed .success, [.enqueueDelayed .sync ⟨0⟩ (.ok ⟨2⟩)]⟩] ∧
      AllOrNothing a ⟨c, q, []⟩ requests := by
  intro a requests
  have built : a.build = .ok (_, _) := rfl
  exact ⟨_, _, built, rfl, all_or_nothing built requests⟩

end Performance

end PacedChain
