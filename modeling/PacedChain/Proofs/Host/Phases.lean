import PacedChain.Chain.Execution

/-!
# Phases and what they say

A phase says that a task of a job is to come, that one is being executed, or neither. Each event is
possible in the phases that say the right thing, and is passed over in all others
(`Phase.after_start` and its like).
-/
namespace PacedChain

namespace Job

def startEvent : Job → Event
  | .bootstrap => .bootstrapStarted
  | .sync => .syncStarted

def retryEvent : Job → Event
  | .bootstrap => .bootstrapRetried
  | .sync => .syncRetried

/-- The phase while a task of the job is executed. -/
def running : Job → Phase
  | .bootstrap => .bootstrapRunning
  | .sync => .syncRunning

/-- The phase while a task of the job waits to be tried again. -/
def retry : Job → Phase
  | .bootstrap => .bootstrapRetry
  | .sync => .syncRetry

end Job

namespace Phase

/-- The job of which a task is to come. -/
def pending? : Phase → Option Job
  | .bootstrapPending | .bootstrapRetry => some .bootstrap
  | .syncScheduled | .syncRetry => some .sync
  | _ => none

/-- The job of which a task is being executed. -/
def running? : Phase → Option Job
  | .bootstrapRunning => some .bootstrap
  | .syncRunning => some .sync
  | _ => none

/-- The phase after an event, which may be passed over. -/
def after (p : Phase) (event : Event) : Phase := (p.on event).getD p

variable (p : Phase) (job : Job)

theorem after_start : p.pending? = some job ∧ p.after job.startEvent = job.running ∨
    p.pending? ≠ some job ∧ p.after job.startEvent = p := by
  cases job <;> cases p <;> decide

theorem after_syncScheduled : p.running?.isSome = true ∧ p.after .syncScheduled = .syncScheduled ∨
    p.running? = none ∧ p.after .syncScheduled = p := by
  cases p <;> decide

theorem after_retry : p.running? = some job ∧ p.after job.retryEvent = job.retry ∨
    p.running? ≠ some job ∧ p.after job.retryEvent = p := by
  cases job <;> cases p <;> decide

theorem after_gaveUp : p.running?.isSome = true ∧ p.after .gaveUp = .stalled ∨
    p.running? = none ∧ p.after .gaveUp = p := by
  cases p <;> decide

theorem after_bootstrapEnqueued : p.isLive = false ∧ p.after .bootstrapEnqueued = .bootstrapPending ∨
    p.isLive = true ∧ p.after .bootstrapEnqueued = p := by
  cases p <;> decide

theorem after_of_on {p q : Phase} {event : Event} (possible : p.on event = some q) :
    p.after event = q := by
  rw [after, possible]
  rfl

/-! ### What is possible while a task is executed -/

theorem on_syncScheduled_running : job.running.on .syncScheduled = some .syncScheduled := by
  cases job <;> rfl

theorem on_retryEvent_running : job.running.on job.retryEvent = some job.retry := by
  cases job <;> rfl

theorem on_gaveUp_running : job.running.on .gaveUp = some .stalled := by cases job <;> rfl

theorem running_ne_notStarted : job.running ≠ .notStarted := by cases job <;> decide

theorem retry_ne_notStarted : job.retry ≠ .notStarted := by cases job <;> decide

@[simp] theorem pending?_running : job.running.pending? = none := by cases job <;> rfl

@[simp] theorem running?_running : job.running.running? = some job := by cases job <;> rfl

@[simp] theorem pending?_retry : job.retry.pending? = some job := by cases job <;> rfl

@[simp] theorem running?_retry : job.retry.running? = none := by cases job <;> rfl

end Phase

namespace Status

theorem phase_start (s : Status) (job : Job) :
    (s.start job).phase = s.phase.after job.startEvent := by
  cases job <;> rfl

/-- Only a successor that is scheduled changes what the chain says of the next task. -/
theorem next_apply (s : Status) (event : Event) :
    (s.apply event).nextTask = s.nextTask ∧ (s.apply event).lastDelay = s.lastDelay := by
  cases event <;> exact ⟨rfl, rfl⟩

theorem next_start (s : Status) (job : Job) :
    (s.start job).nextTask = s.nextTask ∧ (s.start job).lastDelay = s.lastDelay := by
  cases job <;> exact next_apply s _

theorem next_complete (s : Status) (job : Job) (completion : Completion) :
    (s.complete job completion).nextTask = s.nextTask ∧
      (s.complete job completion).lastDelay = s.lastDelay := by
  cases completion <;> cases job <;> exact ⟨rfl, rfl⟩

theorem phase_schedule (s : Status) (successor : Scheduled) :
    (s.schedule successor).phase = s.phase.after .syncScheduled := rfl

theorem phase_complete (s : Status) (job : Job) (completion : Completion) :
    (s.complete job completion).phase =
      match completion with
      | .succeeded => s.phase
      | .retryScheduled _ _ => s.phase.after job.retryEvent
      | .dead _ => s.phase.after .gaveUp := by
  cases completion <;> cases job <;> rfl

end Status

theorem Chain.status_ask {c c' : Chain} {job : Job} {answer : Answer}
    (asked : c.ask job = (answer, c')) : c'.status = c.status := by
  cases job <;> cases asked <;> rfl

end PacedChain
