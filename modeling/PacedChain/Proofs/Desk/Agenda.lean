import PacedChain.Proofs.Desk.Usage
import PacedChain.Proofs.Queue.Unfinished

/-!
# The agenda of a desk

What each call on a desk does to the agenda of its queue and to the journal. A lease that is out is
of an item of the agenda (`Desk.item_of_runs`).
-/
namespace PacedChain

namespace Queue

variable {q : Queue} {lease : Lease}

/-- A task that runs under a lease is on the agenda. -/
theorem item_of_runs (kept : q.Kept) (runs : q.Runs lease) :
    ∃ item ∈ q.agenda, item.task = lease.envelope.task ∧ item.job = lease.envelope.job ∧
      item.attempts = lease.attempt := by
  obtain ⟨task, known, state, job, attempts⟩ := runs
  refine ⟨⟨lease.envelope.task, task.job, task.key, task.attempts⟩, ?_, rfl, job, attempts⟩
  exact (mem_agenda_iff kept).mpr ⟨task, known, by rw [state]; rfl, rfl, rfl, rfl⟩

/-- Items of one task are the same item. -/
theorem eq_of_task_eq (kept : q.Kept) {item other : Item} (first : item ∈ q.agenda)
    (second : other ∈ q.agenda) (same : item.task = other.task) : item = other := by
  obtain ⟨task, known, _, job, key, attempts⟩ := (mem_agenda_iff kept).mp first
  obtain ⟨task', known', _, job', key', attempts'⟩ := (mem_agenda_iff kept).mp second
  rw [same, known', Option.some.injEq] at known
  subst known
  cases item
  cases other
  simp only at same job job' key key' attempts attempts'
  rw [same, job, job', key, key', attempts, attempts']

/-- The next number is no item's. -/
theorem task_ne_next (kept : q.Kept) {item : Item} (member : item ∈ q.agenda) :
    item.task ≠ ⟨q.created + 1⟩ := by
  obtain ⟨task, known, _⟩ := (mem_agenda_iff kept).mp member
  intro next
  rw [next, kept.task?_next] at known
  cases known

theorem carries_iff (kept : q.Kept) {key : Key} {id : TaskId} :
    q.Carries key id ↔ ∃ item ∈ q.agenda, item.task = id ∧ item.key = some key := by
  constructor
  · rintro ⟨task, known, carried, going⟩
    refine ⟨⟨id, task.job, task.key, task.attempts⟩, ?_, rfl, carried⟩
    exact (mem_agenda_iff kept).mpr ⟨task, known, going, rfl, rfl, rfl⟩
  · rintro ⟨item, member, rfl, carried⟩
    obtain ⟨task, known, going, _, key, _⟩ := (mem_agenda_iff kept).mp member
    exact ⟨task, known, key ▸ carried, going⟩

/-- A completion that fails does so since the wait cannot be computed. -/
theorem nextDelay_of_noDelay {id : TaskId} {task : Task} {now : Nat} {error : BackoffError}
    (known : q.task? id = some task)
    (failed : (q.complete now id .retry).1 = .error (.noDelay error)) :
    q.backoff.nextDelay task.attempts = .error error := by
  by_cases allowed : q.backoff.allowsRetry task.attempts = true
  · rcases wait : q.backoff.nextDelay task.attempts with error' | delay
    · have same := (congrArg Prod.fst (complete_noDelay known now allowed wait)).symm.trans failed
      exact congrArg Except.error (CompleteError.noDelay.inj (Except.error.inj same))
    · rw [complete_retry known now allowed wait] at failed
      cases failed
  · rw [complete_dead known now (Bool.eq_false_iff.mpr allowed)] at failed
    cases failed

end Queue

namespace Desk

variable {d d' : Desk} {lease : Lease}

def agenda (d : Desk) : List Queue.Item := d.queue.agenda

/-! ### Looking for a lease -/

theorem agenda_look_leased (kept : d.queue.Kept) (seen : d.look = (.leased lease, d')) :
    d'.journal = (d.now, .lease lease) :: d.journal ∧
      (∃ item ∈ d.agenda, item.task = lease.envelope.task ∧ item.job = lease.envelope.job) ∧
      d'.agenda = d.agenda.map (Queue.Item.started lease.envelope.task) := by
  rcases Queue.agenda_look kept d.now with
    ⟨lease', item, found, member, task, job, same⟩ | ⟨none, _⟩
  · unfold look at seen
    rcases looked : d.queue.look d.now with ⟨result, q⟩
    rw [looked] at seen found same
    simp only at found
    subst found
    cases seen
    exact ⟨rfl, ⟨item, member, task, job⟩, same⟩
  · unfold look at seen
    rcases looked : d.queue.look d.now with ⟨_ | found | _, q⟩ <;> rw [looked] at seen none <;>
      cases seen
    cases none

/-- A look that hands nothing out leaves the agenda as it is. -/
theorem agenda_look_of_not_leased (kept : d.queue.Kept) {seen : Look} (looked : d.look = (seen, d'))
    (other : seen.lease? = none) :
    (d'.journal = d.journal ∨ d'.journal = (d.now, .leaseEnd) :: d.journal) ∧
      d'.agenda = d.agenda := by
  have same : ∀ seen q, d.queue.look d.now = (seen, q) → seen.lease? = none →
      q.agenda = d.queue.agenda := by
    intro seen q found none
    rcases Queue.agenda_look kept d.now with ⟨lease, _, handed, _⟩ | ⟨_, same⟩ <;>
      simp only [found] at *
    · rw [handed] at none
      cases none
    · exact same
  unfold look at looked
  rcases found : d.queue.look d.now with ⟨_ | lease | _, q⟩ <;> rw [found] at looked <;>
    cases looked
  · exact ⟨Or.inr rfl, same _ _ found rfl⟩
  · cases other
  · exact ⟨Or.inl rfl, same _ _ found rfl⟩

/-! ### Enqueuing -/

/-- A refused enqueue is entered, and nothing else. -/
theorem enqueueDelayed_error {job : Job} {delay : Delay} {error : QueueError}
    (refused : TaskQueue.enqueueDelayed d job delay = (.error error, d')) :
    d' = d.enter d.queue (.enqueueDelayed job delay (.error error)) := by
  simp only [TaskQueue.enqueueDelayed] at refused
  rcases Queue.enqueueDelayed_cases d.queue d.now job delay with ⟨_, same⟩ | ⟨_, same⟩ <;>
    rw [same] at refused <;> cases refused
  rfl

/-- An enqueue that is accepted puts a new item at the end of the agenda. -/
theorem enqueueDelayed_ok {job : Job} {delay : Delay} {task : TaskId}
    (placed : TaskQueue.enqueueDelayed d job delay = (.ok task, d')) :
    task = ⟨d.queue.created + 1⟩ ∧ d'.agenda = d.agenda ++ [⟨task, job, none, 0⟩] ∧
      d'.journal = (d.now, .enqueueDelayed job delay (.ok task)) :: d.journal := by
  simp only [TaskQueue.enqueueDelayed] at placed
  rcases Queue.enqueueDelayed_cases d.queue d.now job delay with ⟨_, same⟩ | ⟨_, same⟩ <;>
    rw [same] at placed <;> cases placed
  exact ⟨rfl, Queue.agenda_insert d.queue d.now job delay none, rfl⟩

/-- An enqueue that keeps what holds the key is refused, finds the key held, or puts a new item at
the end of the agenda. -/
theorem enqueueUnique_keepExisting_cases (kept : d.queue.Kept) (indexed : d.queue.Indexed)
    (key : Key) (job : Job) :
    ∃ result d', TaskQueue.enqueueUnique d key .keepExisting job = (result, d') ∧
      d'.journal = (d.now, .enqueueUnique key .keepExisting job result) :: d.journal ∧
      ((∃ error, result = .error error ∧ d'.agenda = d.agenda) ∨
        (∃ holder, result = .ok (.keptExisting holder) ∧ d'.agenda = d.agenda ∧
          ∃ item ∈ d.agenda, item.task = holder ∧ item.key = some key) ∨
        ((∀ item ∈ d.agenda, item.key ≠ some key) ∧
          result = .ok (.enqueued ⟨d.queue.created + 1⟩) ∧
          d'.agenda = d.agenda ++ [⟨⟨d.queue.created + 1⟩, job, some key, 0⟩])) := by
  let answer := d.queue.enqueueUnique d.now key .keepExisting job
  refine ⟨answer.1, d.enter answer.2 (.enqueueUnique key .keepExisting job answer.1), rfl, rfl, ?_⟩
  simp only [answer, agenda, enter]
  rcases Queue.enqueueUnique_cases d.queue d.now key .keepExisting job with
    ⟨_, same⟩ | ⟨_, free, same⟩ | ⟨_, holder, _, held, _, same⟩ | ⟨_, _, _, _, replaces, _⟩
  · refine Or.inl ⟨.closed, ?_⟩
    rw [same]
    exact ⟨rfl, rfl⟩
  · refine Or.inr (Or.inr ?_)
    rw [same]
    refine ⟨fun item member carried => ?_, rfl,
      Queue.agenda_insert d.queue d.now job Delay.zero (some key)⟩
    exact indexed.liveHolder_eq_none_iff.mp free item.task
      ((Queue.carries_iff kept).mpr ⟨item, member, rfl, carried⟩)
  · refine Or.inr (Or.inl ⟨holder, ?_⟩)
    rw [same]
    exact ⟨rfl, rfl, (Queue.carries_iff kept).mp (indexed.liveHolder_eq_some_iff.mp held).1⟩
  · cases replaces

/-! ### Completing -/

/-- Where every wait can be computed, a completion ends its task or has it tried again. -/
theorem complete_cases (kept : d.queue.Kept) (runs : d.queue.Runs lease)
    (waits : ∀ attempts, ∃ delay, d.queue.backoff.nextDelay attempts = .ok delay)
    (outcome : Outcome) {result : Except CompleteError Completion}
    (done : d.complete lease.envelope.task outcome = (result, d')) :
    d'.journal = (d.now, .complete lease.envelope.task outcome result) :: d.journal ∧
      ((outcome = .success ∧ result = .ok .succeeded ∧
          d'.agenda = d.agenda.filter (·.task ≠ lease.envelope.task)) ∨
        (outcome = .retry ∧ (∃ attempts, result = .ok (.dead attempts)) ∧
          d'.agenda = d.agenda.filter (·.task ≠ lease.envelope.task)) ∨
        (outcome = .retry ∧ (∃ attempt secs, result = .ok (.retryScheduled attempt secs)) ∧
          d'.agenda = d.agenda)) := by
  obtain ⟨task, known, state, _⟩ := runs
  have going : task.state.isTerminal = false := by rw [state]; rfl
  have same := Queue.agenda_complete kept known going d.now outcome
  simp only [complete] at done
  cases done
  refine ⟨rfl, ?_⟩
  rcases Queue.complete_cases known d.now outcome with
    ⟨success, ended⟩ | ⟨retry, ended⟩ | ⟨retry, delay, ended⟩ | ⟨retry, error, ended⟩ <;>
    rw [ended] at same ⊢
  · exact Or.inl ⟨success, rfl, same⟩
  · exact Or.inr (Or.inl ⟨retry, ⟨_, rfl⟩, same⟩)
  · exact Or.inr (Or.inr ⟨retry, ⟨_, _, rfl⟩, same⟩)
  · have failed := Queue.nextDelay_of_noDelay known (retry ▸ congrArg Prod.fst ended)
    obtain ⟨delay, computed⟩ := waits task.attempts
    cases failed.symm.trans computed

/-- Where every wait can be computed, a lease that is out is completed. -/
theorem complete_ne_error (kept : d.queue.Kept) (runs : d.queue.Runs lease)
    (waits : ∀ attempts, ∃ delay, d.queue.backoff.nextDelay attempts = .ok delay)
    (outcome : Outcome) (error : CompleteError) :
    d.complete lease.envelope.task outcome ≠ (.error error, d') := by
  intro failed
  obtain ⟨_, ⟨_, same, _⟩ | ⟨_, ⟨_, same⟩, _⟩ | ⟨_, ⟨_, _, same⟩, _⟩⟩ :=
    complete_cases kept runs waits outcome failed <;> cases same

end Desk

/-! ### The backoff of a desk -/

namespace Queue

variable {q : Queue}

theorem backoff_look (q : Queue) (now : Nat) : (q.look now).2.backoff = q.backoff := by
  obtain ⟨_, _, _, _, same⟩ := q.look_eq now
  rw [same]

theorem backoff_enqueueDelayed (q : Queue) (now : Nat) (job : Job) (delay : Delay) :
    (q.enqueueDelayed now job delay).2.backoff = q.backoff := by
  rcases enqueueDelayed_cases q now job delay with ⟨_, same⟩ | ⟨_, same⟩ <;> rw [same]
  obtain ⟨_, inserted⟩ := insert_eq q now job delay none
  rw [inserted]

theorem backoff_enqueueUnique (q : Queue) (now : Nat) (key : Key) (policy : HolderPolicy)
    (job : Job) : (q.enqueueUnique now key policy job).2.backoff = q.backoff := by
  have inserted : ∀ p : Queue, (p.insert now job Delay.zero (some key)).2.backoff = p.backoff := by
    intro p
    obtain ⟨_, inserted⟩ := insert_eq p now job Delay.zero (some key)
    rw [inserted]
  rcases enqueueUnique_cases q now key policy job with
    ⟨_, same⟩ | ⟨_, _, same⟩ | ⟨_, _, _, _, _, same⟩ | ⟨_, _, _, _, _, _, same⟩ <;> rw [same]
  · exact inserted q
  · exact (inserted _).trans (backoff_finish q _ _)

theorem backoff_complete (q : Queue) (now : Nat) (id : TaskId) (outcome : Outcome) :
    (q.complete now id outcome).2.backoff = q.backoff := by
  rcases known : q.task? id with _ | task
  · unfold complete
    rw [known]
  · rcases complete_cases known now outcome with
      ⟨_, same⟩ | ⟨_, same⟩ | ⟨_, _, same⟩ | ⟨_, _, same⟩ <;> rw [same]
    · exact backoff_finish q id (·.succeed now)
    · exact backoff_finish q id (·.die now)
    · rfl

end Queue

namespace Usage

/-- No call changes how long a task waits to be tried again. -/
theorem backoff_perform (u : Usage) (call : Call) :
    (u.perform call).desk.queue.backoff = u.desk.queue.backoff := by
  cases call with
  | enqueue job => exact Queue.backoff_enqueueDelayed _ _ job Delay.zero
  | enqueueDelayed job delay => exact Queue.backoff_enqueueDelayed _ _ job delay
  | enqueueUnique key policy job => exact Queue.backoff_enqueueUnique _ _ key policy job
  | look =>
    have same := Queue.backoff_look u.desk.queue u.desk.now
    rcases seen : u.desk.queue.look u.desk.now with ⟨_ | _ | _, q⟩ <;> rw [seen] at same
    · rw [perform_look_closed seen]
      exact same
    · rw [perform_look_leased seen]
      exact same
    · rw [perform_look_idle seen]
      exact same
  | complete lease outcome =>
    rw [perform]
    split
    · exact Queue.backoff_complete _ _ _ outcome
    · rfl
  | drop | close | pass => rfl

theorem backoff_run (u : Usage) (calls : List Call) :
    (u.run calls).desk.queue.backoff = u.desk.queue.backoff :=
  run_induction (P := fun v => v.desk.queue.backoff = u.desk.queue.backoff)
    (fun v call same => (backoff_perform v call).trans same) rfl calls

end Usage

end PacedChain
