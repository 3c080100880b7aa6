import PacedChain.Proofs.Desk.Agenda
import PacedChain.Proofs.Desk.Fares
import PacedChain.Proofs.Queue.Closing

/-!
# Desks whose queue is closed

On a closed queue, only the completion of a lease changes anything (`Usage.perform_of_closed`), and
only its own task: others stay as they are, or are forgotten if they have ended. So a task whose
attempt has failed stays as that has left it (`Usage.GaveBack`).
-/
namespace PacedChain

/-- A task that has ended is forgotten at most. -/
theorem Task.Lapses.of_isTerminal {withdrawn : Prop} {now : Nat} {task : Task} {o : Option Task}
    (ended : task.state.isTerminal = true) (lapses : Lapses withdrawn now (some task) o) :
    o = some task ∨ o = none := by
  refine lapses.keeps (P := fun o => o = some task ∨ o = none) ?_ (Or.inl rfl)
  rintro _ _ lapse (rfl | rfl)
  · cases lapse with
    | due waits =>
      rw [TaskState.isTerminal_of_isWaiting waits] at ended
      cases ended
    | cancel _ going =>
      rw [ended] at going
      cases going
    | forget => exact Or.inr rfl
  · cases lapse

namespace Queue

variable {q : Queue} {id i : TaskId} {task : Task} {lease : Lease}

/-- A completion leaves another task as it is, unless that has ended and is forgotten now. -/
theorem task?_complete_of_ne (kept : q.Kept) (known : q.task? id = some task) (ne : i ≠ id)
    (now : Nat) (outcome : Outcome) :
    (q.complete now id outcome).2.task? i = q.task? i ∨
      (q.complete now id outcome).2.task? i = none := by
  obtain ⟨_, _, _, lapses⟩ := complete_fares kept known now outcome
  have lapses := lapses i ne
  rcases found : q.task? i with _ | other
  · rw [found] at lapses
    exact Or.inr lapses.eq_none
  cases live : other.state.isTerminal with
  | false => exact Or.inl (task?_complete_of_live kept known found live ne now outcome)
  | true =>
    rw [found] at lapses
    exact lapses.of_isTerminal live

/-- How a task stands after an attempt that was reported as a failure. -/
inductive GivenBack (q : Queue) (lease : Lease) : Except CompleteError Completion → Prop
  | again {task : Task} {secs : Nat} : q.task? lease.envelope.task = some task →
    task.state = .retryScheduled →
    GivenBack q lease (.ok (.retryScheduled lease.attempt secs))
  /-- It may be forgotten by now. -/
  | dead : (∀ task, q.task? lease.envelope.task = some task → task.state = .dead) →
    GivenBack q lease (.ok (.dead lease.attempt))
  /-- There is no wait after which it could be tried again, and it is as it was. -/
  | noDelay {error : BackoffError} : q.backoff.nextDelay lease.attempt = .error error →
    q.Runs lease → GivenBack q lease (.error (.noDelay error))

/-- Another task that is completed makes no difference. -/
theorem GivenBack.complete {result : Except CompleteError Completion}
    (given : q.GivenBack lease result) (kept : q.Kept) (known : q.task? id = some task)
    (ne : lease.envelope.task ≠ id) (now : Nat) (outcome : Outcome) :
    (q.complete now id outcome).2.GivenBack lease result := by
  have others := task?_complete_of_ne kept known ne now outcome
  cases given with
  | again found waits =>
    have stays := task?_complete_of_live kept known found (by rw [waits]; rfl) ne now outcome
    exact .again stays waits
  | dead ended =>
    refine .dead fun other found => ?_
    rcases others with same | gone
    · exact ended other (same.symm.trans found)
    · cases gone.symm.trans found
  | noDelay failed runs =>
    obtain ⟨other, found, running, own⟩ := runs
    have stays := task?_complete_of_live kept known found (by rw [running]; rfl) ne now outcome
    refine .noDelay ?_ ⟨other, stays, running, own⟩
    rw [backoff_complete]
    exact failed

end Queue

namespace Usage

variable {u : Usage} {lease : Lease}

/-- On a closed queue, nothing but a completion changes anything. -/
theorem perform_of_closed (closed : u.desk.queue.closed = true) (call : Call) :
    ((u.perform call).desk.queue = u.desk.queue ∧
      (∀ id, (u.perform call).desk.attempts id = u.desk.attempts id) ∧
      (u.perform call).out ⊆ u.out) ∨
    ∃ lease outcome, call = .complete lease outcome ∧ lease ∈ u.out := by
  cases call with
  | enqueue job =>
    have same := Queue.enqueueDelayed_of_closed closed u.desk.now job Delay.zero
    exact Or.inl ⟨congrArg Prod.snd same, fun _ => Desk.attempts_enter_of_not rfl,
      List.Subset.refl _⟩
  | enqueueDelayed job delay =>
    have same := Queue.enqueueDelayed_of_closed closed u.desk.now job delay
    exact Or.inl ⟨congrArg Prod.snd same, fun _ => Desk.attempts_enter_of_not rfl,
      List.Subset.refl _⟩
  | enqueueUnique key policy job =>
    have same := Queue.enqueueUnique_of_closed closed u.desk.now key policy job
    exact Or.inl ⟨congrArg Prod.snd same, fun _ => Desk.attempts_enter_of_not rfl,
      List.Subset.refl _⟩
  | look =>
    rw [perform_look_closed (Queue.look_of_closed closed u.desk.now)]
    exact Or.inl ⟨rfl, fun _ => Desk.attempts_enter_of_not rfl, List.Subset.refl _⟩
  | complete lease outcome =>
    by_cases out : lease ∈ u.out
    · exact Or.inr ⟨lease, outcome, rfl, out⟩
    · rw [perform, if_neg out]
      exact Or.inl ⟨rfl, fun _ => rfl, List.Subset.refl _⟩
  | drop lease => exact Or.inl ⟨rfl, fun _ => rfl, List.erase_subset⟩
  | close => exact Or.inl ⟨Queue.close_of_closed closed, fun _ => rfl, List.Subset.refl _⟩
  | pass => exact Or.inl ⟨rfl, fun _ => rfl, List.Subset.refl _⟩

/-- The attempt of a lease is over, and its task is under no other lease. -/
def Over (u : Usage) (lease : Lease) : Prop :=
  ∀ other ∈ u.out, other.envelope.task ≠ lease.envelope.task

/-- The attempt of a lease was reported as a failure, and is the last one since the entries that
there were before. -/
structure GaveBack (u : Usage) (lease : Lease) (earlier : List (Nat × Entry))
    (result : Except CompleteError Completion) : Prop where
  attempts : ∃ t, u.desk.attempts lease.envelope.task =
    (t, .complete lease.envelope.task .retry result) :: earlier
  ended : u.Over lease
  given : u.desk.queue.GivenBack lease result

/-- While the queue is closed, a task that is not under a lease comes under none. -/
theorem Over.perform (ended : u.Over lease) (closed : u.desk.queue.closed = true) (call : Call) :
    (u.perform call).Over lease := by
  intro other stillOut
  rcases perform_of_closed closed call with ⟨_, _, fewer⟩ | ⟨completed, outcome, rfl, out⟩
  · exact ended other (fewer stillOut)
  · rw [Usage.perform, if_pos out] at stillOut
    exact ended other (List.mem_of_mem_erase stillOut)

theorem attempts_complete_of_ne {completed : Lease} (out : completed ∈ u.out) {id : TaskId}
    (other : completed.envelope.task ≠ id) (outcome : Outcome) :
    (u.perform (.complete completed outcome)).desk.attempts id = u.desk.attempts id := by
  rw [perform, if_pos out]
  exact Desk.attempts_enter_of_not (decide_eq_false other)

/-- While the queue is closed, what was given back stays as it is. -/
theorem GaveBack.perform {earlier : List (Nat × Entry)} {result : Except CompleteError Completion}
    (gave : u.GaveBack lease earlier result) (sound : u.Sound)
    (closed : u.desk.queue.closed = true) (call : Call) :
    (u.perform call).GaveBack lease earlier result := by
  have ended := gave.ended.perform closed call
  rcases perform_of_closed closed call with ⟨queue, same, _⟩ | ⟨completed, outcome, rfl, out⟩
  · refine ⟨?_, ended, ?_⟩
    · rw [same]
      exact gave.attempts
    · rw [queue]
      exact gave.given
  · have other := gave.ended completed out
    obtain ⟨task, known, _⟩ := sound.leased completed out
    refine ⟨?_, ended, ?_⟩
    · rw [attempts_complete_of_ne out other]
      exact gave.attempts
    · rw [Usage.perform, if_pos out]
      exact gave.given.complete sound.kept known (Ne.symm other) _ outcome

end Usage

end PacedChain
