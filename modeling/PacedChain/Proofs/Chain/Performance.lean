import PacedChain.Chain.Assembly
import PacedChain.Chain.Desk

/-!
# Performances

A chain on a queue of which nothing is known: every call on it may succeed or fail, and so may every
call of a boundary. What the chain does for one request is noted as a deed (`Performance.perform`):
what it returns, and the calls on the queue that it makes with what comes of them. The queue notes
these itself (`Noted`). An execution comes to one of three things, by the answer of its boundary and
by what the queue says to the successor (`Chain.execute_of_unanswered`, `Chain.execute_of_refused`,
`Chain.execute_of_placed`).
-/
namespace PacedChain

/-- A queue that notes the calls on it, with what came of them. -/
structure Noted (σ : Type) where
  queue : σ
  notes : List Entry := []

instance {σ : Type} [TaskQueue σ] : TaskQueue (Noted σ) where
  enqueueUnique n key policy job :=
    let (result, queue) := TaskQueue.enqueueUnique n.queue key policy job
    (result, ⟨queue, n.notes ++ [.enqueueUnique key policy job result]⟩)
  enqueueDelayed n job delay :=
    let (result, queue) := TaskQueue.enqueueDelayed n.queue job delay
    (result, ⟨queue, n.notes ++ [.enqueueDelayed job delay result]⟩)

namespace Noted

variable {σ : Type} [TaskQueue σ] {q q' : σ}

theorem enqueueDelayed_eq {job : Job} {delay : Delay} {result : Except QueueError TaskId}
    (answers : TaskQueue.enqueueDelayed q job delay = (result, q')) :
    TaskQueue.enqueueDelayed (⟨q, []⟩ : Noted σ) job delay =
      (result, ⟨q', [.enqueueDelayed job delay result]⟩) := by
  simp only [TaskQueue.enqueueDelayed, answers, List.nil_append]

theorem enqueueUnique_eq {key : Key} {policy : HolderPolicy} {job : Job}
    {result : Except QueueError Placement}
    (answers : TaskQueue.enqueueUnique q key policy job = (result, q')) :
    TaskQueue.enqueueUnique (⟨q, []⟩ : Noted σ) key policy job =
      (result, ⟨q', [.enqueueUnique key policy job result]⟩) := by
  simp only [TaskQueue.enqueueUnique, answers, List.nil_append]

end Noted

namespace Chain

/-! ### Boundaries -/

/-- The boundary that the executions of a job ask. -/
def boundary (c : Chain) : Job → Boundary
  | .bootstrap => c.oracle
  | .sync => c.engine

/-- The answer that the next execution of a job gets. -/
def answer (c : Chain) (job : Job) : Answer := (c.boundary job).call.1

/-- A chain that has started an execution and asked the boundary. -/
def asked (c : Chain) (job : Job) : Chain :=
  { (c.ask job).2 with status := c.status.start job }

variable (c : Chain) (job other : Job)

theorem boundary_asked : (c.asked job).boundary job = (c.boundary job).call.2 := by
  cases job <;> rfl

theorem boundary_asked_of_ne {other : Job} (ne : other ≠ job) :
    (c.asked job).boundary other = c.boundary other := by
  cases job with
  | bootstrap =>
    cases other with
    | bootstrap => exact absurd rfl ne
    | sync => rfl
  | sync =>
    cases other with
    | bootstrap => rfl
    | sync => exact absurd rfl ne

theorem policy_asked : (c.asked job).policy = c.policy := by
  cases job <;> rfl

/-- A crash leaves the lock poisoned. -/
theorem poisoned_asked :
    (c.asked job).lock.poisoned = (c.lock.poisoned || (c.answer job).isCrash) := by
  cases job <;> exact congrArg (·.2.poisoned) (Lock.hold_eq _ _)

theorem ask_started : ({ c with status := c.status.start job } : Chain).ask job =
    (c.answer job, c.asked job) := by
  cases job <;> rfl

/-! ### Executions -/

variable {c job} {σ : Type} [TaskQueue σ] {q q' : σ} {secs : Int}

theorem execute_eq {result : Except ChainError Scheduled}
    (placed : (c.asked job).place job (c.answer job) q = (result, q')) :
    c.execute job q = (outcome result, (c.asked job).observe result, q') := by
  simp only [execute, runJob, ask_started, placed]

theorem policy_execute (c : Chain) (job : Job) (q : σ) :
    (c.execute job q).2.1.policy = c.policy := by
  rcases placed : (c.asked job).place job (c.answer job) q with ⟨result, q'⟩
  rw [execute_eq placed]
  cases result <;> exact policy_asked c job

theorem lock_execute (c : Chain) (job : Job) (q : σ) :
    (c.execute job q).2.1.lock = (c.asked job).lock := by
  rcases placed : (c.asked job).place job (c.answer job) q with ⟨result, q'⟩
  rw [execute_eq placed]
  cases result <;> rfl

/-- The boundary does not answer: the queue is left alone. -/
theorem execute_of_unanswered (q : σ) (unanswered : ∀ secs, c.answer job ≠ .recommends secs) :
    c.execute job q = (.retry, c.asked job, q) := by
  have placed : ∃ error, (c.asked job).place job (c.answer job) q = (.error error, q) := by
    cases answered : c.answer job with
    | recommends secs => exact absurd answered (unanswered secs)
    | fails reason => exact ⟨_, rfl⟩
    | crashes reason => exact ⟨_, rfl⟩
  exact execute_eq placed.choose_spec

theorem successorDelay_asked (secs : Int) :
    (c.asked job).successorDelay job secs = c.successorDelay job secs := by
  cases job <;> rfl

/-- The queue refuses the successor: nothing is scheduled. -/
theorem execute_of_refused {error : QueueError} (answered : c.answer job = .recommends secs)
    (refused : TaskQueue.enqueueDelayed q .sync (c.successorDelay job secs) = (.error error, q')) :
    c.execute job q = (.retry, c.asked job, q') := by
  have placed : (c.asked job).place job (c.answer job) q = (.error (.scheduling error), q') := by
    rw [answered]
    simp only [place, Guard.await, Guard.exclusive_eq, successorDelay_asked, refused]
  exact execute_eq placed

/-- The queue takes the successor. -/
theorem execute_of_placed {task : TaskId} (answered : c.answer job = .recommends secs)
    (taken : TaskQueue.enqueueDelayed q .sync (c.successorDelay job secs) = (.ok task, q')) :
    c.execute job q = (.success, { c.asked job with
      status := (c.status.start job).schedule ⟨task, c.successorDelay job secs⟩ }, q') := by
  have placed : (c.asked job).place job (c.answer job) q =
      (.ok ⟨task, c.successorDelay job secs⟩, q') := by
    rw [answered]
    simp only [place, Guard.await, Guard.exclusive_eq, successorDelay_asked, taken]
  exact execute_eq placed

/-! ### Triggers -/

theorem trigger_eq {result : Except QueueError Placement} (signal : Trigger)
    (answers : TaskQueue.enqueueUnique q c.policy.key .keepExisting .bootstrap = (result, q')) :
    c.trigger signal q = (result.mapError .scheduling,
      c.noteTrigger (result.mapError .scheduling), q') := by
  simp only [trigger, fire, answers]
  cases result <;> rfl

theorem boundary_noteTrigger (result : Except ChainError Placement) (job : Job) :
    (c.noteTrigger result).boundary job = c.boundary job := by
  unfold noteTrigger
  split
  · split <;> cases job <;> rfl
  · rfl

theorem next_noteTrigger (result : Except ChainError Placement) :
    (c.noteTrigger result).status.nextTask = c.status.nextTask ∧
      (c.noteTrigger result).status.lastDelay = c.status.lastDelay := by
  unfold noteTrigger
  split
  · split <;> exact ⟨rfl, rfl⟩
  · exact ⟨rfl, rfl⟩

theorem lock_noteTrigger (result : Except ChainError Placement) :
    (c.noteTrigger result).lock = c.lock := by
  unfold noteTrigger
  split
  · split <;> rfl
  · rfl

theorem policy_noteTrigger (result : Except ChainError Placement) :
    (c.noteTrigger result).policy = c.policy := by
  unfold noteTrigger
  split
  · split <;> rfl
  · rfl

end Chain

/-! ### Requests -/

/-- What is asked of a chain. -/
inductive Request where
  | trigger (signal : Trigger)
  | execute (job : Job)
  | recordCompletion (job : Job) (completion : Completion)
  deriving DecidableEq

/-- What a chain returns. -/
inductive Response where
  | triggered (result : Except ChainError Placement)
  | executed (outcome : Outcome)
  | recorded

/-- A request with what is returned, and the calls on the queue in between. -/
structure Deed where
  request : Request
  response : Response
  entries : List Entry

/-- The successor that a successful execution has put on the queue. -/
def Deed.success? : Deed → Option Scheduled
  | ⟨.execute _, .executed .success, [.enqueueDelayed _ delay (.ok task)]⟩ => some ⟨task, delay⟩
  | _ => none

/-- The successor of the execution that was the last one to succeed. -/
def lastSuccess (deeds : List Deed) : Option Scheduled := (deeds.filterMap Deed.success?).getLast?

def Chain.serve {σ : Type} [TaskQueue σ] (c : Chain) (q : σ) : Request → Response × Chain × σ
  | .trigger signal => let (result, c, q) := c.trigger signal q; (.triggered result, c, q)
  | .execute job => let (outcome, c, q) := c.execute job q; (.executed outcome, c, q)
  | .recordCompletion job completion => (.recorded, c.recordCompletion job completion, q)

/-- A chain on its queue, and what it has done so far, the first deed first. -/
structure Performance (σ : Type) where
  chain : Chain
  queue : σ
  deeds : List Deed := []

namespace Performance

variable {σ : Type} [TaskQueue σ] {p : Performance σ}

/-- Serve a request, noting the calls on the queue. -/
def perform (p : Performance σ) (request : Request) : Performance σ :=
  let (response, chain, noted) := p.chain.serve (⟨p.queue, []⟩ : Noted σ) request
  ⟨chain, noted.queue, p.deeds ++ [⟨request, response, noted.notes⟩]⟩

def run (p : Performance σ) (requests : List Request) : Performance σ := requests.foldl perform p

theorem perform_eq (p : Performance σ) (request : Request) : p.perform request =
    ⟨(p.chain.serve (⟨p.queue, []⟩ : Noted σ) request).2.1,
      (p.chain.serve (⟨p.queue, []⟩ : Noted σ) request).2.2.queue,
      p.deeds ++ [⟨request, (p.chain.serve (⟨p.queue, []⟩ : Noted σ) request).1,
        (p.chain.serve (⟨p.queue, []⟩ : Noted σ) request).2.2.notes⟩]⟩ := rfl

theorem run_cons (p : Performance σ) (request : Request) (requests : List Request) :
    p.run (request :: requests) = (p.perform request).run requests := rfl

theorem run_append (p : Performance σ) (first second : List Request) :
    p.run (first ++ second) = (p.run first).run second :=
  List.foldl_append

end Performance

/-! ### What a request does -/

/-- The delay that an answer of so many seconds asks for before the next sync. -/
def Job.Spaces (fallback : Delay) (secs : Int) (delay : Delay) : Job → Prop
  | .bootstrap => (delay.secs : Int) = max 0 secs
  | .sync => if 0 < secs then (delay.secs : Int) = secs else delay = fallback

theorem Chain.spaces_successorDelay (c : Chain) (job : Job) (secs : Int) :
    job.Spaces c.policy.fallback secs (c.successorDelay job secs) := by
  cases job with
  | bootstrap =>
    change ((secs.toNat : Nat) : Int) = max 0 secs
    omega
  | sync =>
    by_cases positive : 0 < secs
    · simp only [Job.Spaces, successorDelay, Delay.orFallback, if_pos positive]
      omega
    · simp only [Job.Spaces, successorDelay, Delay.orFallback, if_neg positive]

namespace Performance

variable {σ : Type} [TaskQueue σ]

/-- All that an execution does whose boundary gives this answer. -/
structure Executes (p p' : Performance σ) (fallback : Delay) (job : Job) (answer : Answer)
    (outcome : Outcome) (entries : List Entry) : Prop where
  executes : p.chain.execute job p.queue = (outcome, p'.chain, p'.queue)
  deed : p'.deeds = p.deeds ++ [⟨.execute job, .executed outcome, entries⟩]
  /-- It asks the boundary of its job, once, and no other. -/
  asks : p'.chain.boundary job = (p.chain.boundary job).call.2
  asksOnly : ∀ other, other ≠ job → p'.chain.boundary other = p.chain.boundary other
  /-- Without a recommendation it makes no call on the queue. -/
  silent : (∀ secs, answer ≠ .recommends secs) → entries = [] ∧ p'.queue = p.queue
  /-- After a recommendation it makes one. -/
  places : ∀ secs, answer = .recommends secs → ∃ delay result,
    job.Spaces fallback secs delay ∧
    TaskQueue.enqueueDelayed p.queue .sync delay = (result, p'.queue) ∧
    entries = [.enqueueDelayed .sync delay result]
  succeeds : outcome = .success ↔ ∃ secs delay task,
    answer = .recommends secs ∧ entries = [.enqueueDelayed .sync delay (.ok task)]
  /-- What is seen of the chain is the start, and the successor if there is one. -/
  started : outcome = .retry → p'.chain.status = p.chain.status.start job
  scheduled : ∀ delay task, entries = [.enqueueDelayed .sync delay (.ok task)] →
    p'.chain.status = (p.chain.status.start job).schedule ⟨task, delay⟩

/-- All that a trigger does, of which the queue makes this. -/
structure Triggers (p p' : Performance σ) (key : Key) (signal : Trigger)
    (result : Except QueueError Placement) : Prop where
  triggers : p.chain.trigger signal p.queue =
    (result.mapError .scheduling, p'.chain, p'.queue)
  enqueues : TaskQueue.enqueueUnique p.queue key .keepExisting .bootstrap = (result, p'.queue)
  deed : p'.deeds = p.deeds ++ [⟨.trigger signal, .triggered (result.mapError .scheduling),
    [.enqueueUnique key .keepExisting .bootstrap result]⟩]
  asksNothing : ∀ job, p'.chain.boundary job = p.chain.boundary job
  /-- One that fails leaves the chain as it was, and so all that is seen of it. -/
  unseen : ∀ error, result = .error error → p'.chain = p.chain

/-- All that a report of a completion does. -/
structure Records (p p' : Performance σ) (job : Job) (completion : Completion) : Prop where
  records : p'.chain = p.chain.recordCompletion job completion
  queue : p'.queue = p.queue
  deed : p'.deeds = p.deeds ++ [⟨.recordCompletion job completion, .recorded, []⟩]
  asksNothing : ∀ job, p'.chain.boundary job = p.chain.boundary job

variable {p : Performance σ} {job : Job} {secs : Int}

theorem perform_execute {outcome : Outcome} {c : Chain} {q : σ} {entries : List Entry}
    (done : p.chain.execute job (⟨p.queue, []⟩ : Noted σ) = (outcome, c, ⟨q, entries⟩)) :
    p.perform (.execute job) =
      ⟨c, q, p.deeds ++ [⟨.execute job, .executed outcome, entries⟩]⟩ := by
  simp only [perform, Chain.serve, done]

theorem executes_of_unanswered (unanswered : ∀ secs, p.chain.answer job ≠ .recommends secs) :
    p.Executes (p.perform (.execute job)) p.chain.policy.fallback job (p.chain.answer job)
      .retry [] := by
  rw [perform_execute (Chain.execute_of_unanswered _ unanswered)]
  exact {
    executes := Chain.execute_of_unanswered _ unanswered
    deed := rfl
    asks := Chain.boundary_asked _ _
    asksOnly := fun _ => Chain.boundary_asked_of_ne _ _
    silent := fun _ => ⟨rfl, rfl⟩
    places := fun secs answered => absurd answered (unanswered secs)
    succeeds := ⟨nofun, fun ⟨_, _, _, _, made⟩ => nomatch made⟩
    started := fun _ => rfl
    scheduled := nofun }

theorem executes_of_refused {error : QueueError} {q : σ}
    (answered : p.chain.answer job = .recommends secs)
    (refused : TaskQueue.enqueueDelayed p.queue .sync (p.chain.successorDelay job secs) =
      (.error error, q)) :
    p.Executes (p.perform (.execute job)) p.chain.policy.fallback job (p.chain.answer job) .retry
      [.enqueueDelayed .sync (p.chain.successorDelay job secs) (.error error)] := by
  rw [perform_execute (Chain.execute_of_refused answered (Noted.enqueueDelayed_eq refused))]
  exact {
    executes := Chain.execute_of_refused answered refused
    deed := rfl
    asks := Chain.boundary_asked _ _
    asksOnly := fun _ => Chain.boundary_asked_of_ne _ _
    silent := fun unanswered => absurd answered (unanswered secs)
    places := by
      intro secs' answered'
      cases answered.symm.trans answered'
      exact ⟨_, _, Chain.spaces_successorDelay _ _ _, refused, rfl⟩
    succeeds := ⟨nofun, fun ⟨_, _, _, _, made⟩ => nomatch made⟩
    started := fun _ => rfl
    scheduled := by rintro _ _ ⟨⟩ }

theorem executes_of_placed {task : TaskId} {q : σ}
    (answered : p.chain.answer job = .recommends secs)
    (taken : TaskQueue.enqueueDelayed p.queue .sync (p.chain.successorDelay job secs) =
      (.ok task, q)) :
    p.Executes (p.perform (.execute job)) p.chain.policy.fallback job (p.chain.answer job) .success
      [.enqueueDelayed .sync (p.chain.successorDelay job secs) (.ok task)] := by
  rw [perform_execute (Chain.execute_of_placed answered (Noted.enqueueDelayed_eq taken))]
  exact {
    executes := Chain.execute_of_placed answered taken
    deed := rfl
    asks := Chain.boundary_asked _ _
    asksOnly := fun _ => Chain.boundary_asked_of_ne _ _
    silent := fun unanswered => absurd answered (unanswered secs)
    places := by
      intro secs' answered'
      cases answered.symm.trans answered'
      exact ⟨_, _, Chain.spaces_successorDelay _ _ _, taken, rfl⟩
    succeeds := ⟨fun _ => ⟨_, _, _, answered, rfl⟩, fun _ => rfl⟩
    started := nofun
    scheduled := by
      rintro _ _ ⟨⟩
      rfl }

variable (p : Performance σ)

/-- Every execution does what executions do, whatever its boundary and the queue answer. -/
theorem executes_perform (job : Job) : ∃ outcome entries,
    p.Executes (p.perform (.execute job)) p.chain.policy.fallback job (p.chain.answer job) outcome
      entries := by
  by_cases answered : ∃ secs, p.chain.answer job = .recommends secs
  · obtain ⟨secs, answered⟩ := answered
    rcases placed : TaskQueue.enqueueDelayed p.queue .sync (p.chain.successorDelay job secs) with
      ⟨error | task, q⟩
    · exact ⟨_, _, executes_of_refused answered placed⟩
    · exact ⟨_, _, executes_of_placed answered placed⟩
  · exact ⟨_, _, executes_of_unanswered (not_exists.mp answered)⟩

theorem triggers_perform (signal : Trigger) : ∃ result,
    p.Triggers (p.perform (.trigger signal)) p.chain.policy.key signal result := by
  rcases answers : TaskQueue.enqueueUnique p.queue p.chain.policy.key .keepExisting .bootstrap with
    ⟨result, q⟩
  have performed : p.perform (.trigger signal) =
      ⟨p.chain.noteTrigger (result.mapError .scheduling), q,
        p.deeds ++ [⟨.trigger signal, .triggered (result.mapError .scheduling),
          [.enqueueUnique p.chain.policy.key .keepExisting .bootstrap result]⟩]⟩ := by
    simp only [perform, Chain.serve, Chain.trigger_eq signal (Noted.enqueueUnique_eq answers)]
  rw [performed]
  exact ⟨result, {
    triggers := Chain.trigger_eq signal answers
    enqueues := answers
    deed := rfl
    asksNothing := Chain.boundary_noteTrigger _
    unseen := by
      rintro error rfl
      rfl }⟩

theorem records_perform (job : Job) (completion : Completion) :
    p.Records (p.perform (.recordCompletion job completion)) job completion where
  records := rfl
  queue := rfl
  deed := rfl
  asksNothing other := by cases other <;> rfl

end Performance

end PacedChain
