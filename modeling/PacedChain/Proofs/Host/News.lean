import PacedChain.Proofs.Host.Alone
import PacedChain.Proofs.Host.Phases

/-!
# What a chain is told

The news that each move brings to a chain, in the order in which they come. The status of a chain is
what it has heard, and nothing else (`Host.status_moves`).

The completion of a lease and telling the chain of it are two steps of a worker, and a trigger may
come between them. The worker does not wait there, so that nothing does where worker and triggers
share one thread: moves are taken promptly if each step that completes a lease is followed by the
step that tells of it (`Host.proceeds`).
-/
namespace PacedChain

/-- What a chain is told. -/
inductive News where
  | happened (event : Event)
  /-- A successor is on the queue. -/
  | scheduled (successor : Scheduled)
  deriving DecidableEq

def News.event : News → Event
  | .happened event => event
  | .scheduled _ => .syncScheduled

def Status.hear (s : Status) : News → Status
  | .happened event => s.apply event
  | .scheduled successor => s.schedule successor

namespace Station

/-- What the chain is told by the next step. -/
def news? : Station → Option News
  | .executing lease .leased => some (.happened lease.envelope.job.startEvent)
  | .executing _ (.placed successor) => some (.scheduled successor)
  | .completed lease (.retryScheduled _ _) => some (.happened lease.envelope.job.retryEvent)
  | .completed _ (.dead _) => some (.happened .gaveUp)
  | _ => none

/-- A lease is completed, and the chain is not told yet. -/
def isCompleted : Station → Bool
  | .completed _ _ => true
  | _ => false

/-- A task has been given up, and the chain is not told yet. -/
def isGivenUp : Station → Bool
  | .completed _ (.dead _) => true
  | _ => false

theorem isGivenUp_of_not_isCompleted {s : Station} (quiet : s.isCompleted = false) :
    s.isGivenUp = false := by
  cases s with
  | completed => cases quiet
  | checking | waiting | gone | executing => rfl

end Station

namespace Status

theorem phase_hear (s : Status) (news : News) : (s.hear news).phase = s.phase.after news.event := by
  cases news <;> rfl

end Status

namespace Host

/-- What the chain is told by a move. -/
def news? (h : Host) : Move → Option News
  | .step index _ => h.workers[index]?.bind (·.station.news?)
  | .trigger signal =>
    match (h.trigger signal).1 with
    | .ok placement => if placement.isNew then some (.happened .bootstrapEnqueued) else none
    | .error _ => none
  | _ => none

/-- What the chain is told by a row of moves. -/
def news (h : Host) : List Move → List News
  | [] => []
  | m :: ms => (h.news? m).toList ++ (h.move m).news ms

/-- Whether a step is the completion of a lease. -/
def completes (h : Host) : Move → Bool
  | .step index preference =>
    match h.workers[index]? with
    | some w => (h.act w preference).1.isCompleted
    | none => false
  | _ => false

/-- A row of moves, with each worker that completes a lease telling of it at once. -/
def promptly (h : Host) : List Move → List Move
  | [] => []
  | m :: ms =>
    let steps := if h.completes m then [m, m] else [m]
    steps ++ (h.moves steps).promptly ms

def proceeds (h : Host) (ms : List Move) : Host := h.moves (h.promptly ms)

/-- What the chain is told on the way. -/
def told (h : Host) (ms : List Move) : List News := h.news (h.promptly ms)

variable {h h' : Host}

/-! ### The status of a chain is what it has heard -/

theorem Act.status {group : Nat} {s s' : Station} (act : Act h group s s' h') :
    h'.chain.status = s.news?.elim h.chain.status h.chain.status.hear := by
  cases act with
  | start lease =>
    change h.chain.status.start lease.envelope.job = _
    cases job : lease.envelope.job <;> simp [Station.news?, job, Status.start, Status.hear,
      Job.startEvent]
  | ask lease asked => exact Chain.status_ask asked
  | tell lease completion =>
    change h.chain.status.complete lease.envelope.job completion = _
    cases completion <;> cases job : lease.envelope.job <;>
      simp [Station.news?, job, Status.complete, Status.hear, Job.retryEvent]
  | stop | goOn | recheck | leave | shut | idle | lease | fail | refuse | place | note | complete
  | drop | lose | rest => rfl

theorem news?_trigger (signal : Trigger) {result : Except QueueError Placement} {d : Desk}
    (answered : TaskQueue.enqueueUnique h.desk h.chain.policy.key .keepExisting .bootstrap =
      (result, d)) :
    h.news? (.trigger signal) = match result with
      | .ok placement => if placement.isNew then some (.happened .bootstrapEnqueued) else none
      | .error _ => none := by
  simp only [news?, Host.trigger, Chain.trigger, Chain.fire, answered]
  cases result <;> rfl

theorem status_trigger (h : Host) (signal : Trigger) : (h.trigger signal).2.chain.status =
    (h.news? (.trigger signal)).elim h.chain.status h.chain.status.hear := by
  rcases fired : Chain.fire signal h.chain.policy.key h.desk with ⟨error | placement, desk⟩ <;>
    simp only [news?, trigger, Chain.trigger, fired, Chain.noteTrigger]
  · rfl
  · cases placement.isNew <;> rfl

theorem status_move (h : Host) (m : Move) : (h.move m).chain.status =
    (h.news? m).elim h.chain.status h.chain.status.hear := by
  cases m with
  | step index preference =>
    rw [news?, move, stepWorker]
    cases h.workers[index]? with
    | none => rfl
    | some w => exact (h.act_spec w preference).status
  | trigger signal => exact status_trigger h signal
  | pass | close => rfl
  | spawn n => exact congrArg Chain.status (chain_leaveGroup h)
  | leave => exact congrArg Chain.status (chain_leaveGroup h)
  | requestShutdown => exact congrArg Chain.status (chain_requestShutdown h)
  | giveUp => exact congrArg Chain.status (chain_requestShutdown h)

/-- The status of a chain is what it has heard. -/
theorem status_moves (h : Host) (ms : List Move) :
    (h.moves ms).chain.status = (h.news ms).foldl Status.hear h.chain.status := by
  induction ms generalizing h with
  | nil => rfl
  | cons m ms ih =>
    have rest := ih (h.move m)
    have first := status_move h m
    change ((h.move m).moves ms).chain.status = _
    rw [rest, news, List.foldl_append, first]
    cases h.news? m <;> rfl

/-! ### Prompt moves -/

theorem news_append (h : Host) (ms more : List Move) :
    h.news (ms ++ more) = h.news ms ++ (h.moves ms).news more := by
  induction ms generalizing h with
  | nil => rfl
  | cons m ms ih =>
    change (h.news? m).toList ++ (h.move m).news (ms ++ more) = _
    rw [ih, news, List.append_assoc]
    rfl

theorem promptly_append (h : Host) (ms more : List Move) :
    h.promptly (ms ++ more) = h.promptly ms ++ (h.proceeds ms).promptly more := by
  induction ms generalizing h with
  | nil => rfl
  | cons m ms ih =>
    have whole : h.proceeds (m :: ms) =
        (h.moves (if h.completes m then [m, m] else [m])).proceeds ms := moves_append _ _ _
    rw [List.cons_append, promptly, ih, whole, promptly, List.append_assoc]

theorem proceeds_append (h : Host) (ms more : List Move) :
    h.proceeds (ms ++ more) = (h.proceeds ms).proceeds more := by
  rw [proceeds, promptly_append, moves_append]
  rfl

theorem told_append (h : Host) (ms more : List Move) :
    h.told (ms ++ more) = h.told ms ++ (h.proceeds ms).told more := by
  rw [told, promptly_append, news_append]
  rfl

/-- A move that completes no lease stands for itself. -/
theorem proceeds_singleton {m : Move} (going : h.completes m = false) :
    h.proceeds [m] = h.move m ∧ h.told [m] = (h.news? m).toList := by
  simp only [proceeds, told, promptly, going, Bool.false_eq_true, if_false, List.append_nil, news]
  exact ⟨rfl, trivial⟩

/-- A step that completes a lease is followed by the next step of the same worker. -/
theorem proceeds_singleton_of_completes {m : Move} (ends : h.completes m = true) :
    h.proceeds [m] = (h.move m).move m ∧
      h.told [m] = (h.news? m).toList ++ ((h.move m).news? m).toList := by
  simp only [proceeds, told, promptly, ends, if_true, List.append_nil, news]
  exact ⟨rfl, trivial⟩

end Host

end PacedChain
