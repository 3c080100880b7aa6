import Mathlib.Data.List.Nodup
import PacedChain.Proofs.Backoff.Sign
import PacedChain.Proofs.Desk.Agenda
import PacedChain.Proofs.Desk.Fares

/-!
# Attempts and their budget

The entries about the attempts at a task follow a fixed course (`Desk.Tried`): a lease with the next
number, then its completion, and another lease only if that completion said so. The queue agrees
with them on how many attempts there were and on whether one is running (`Usage.Accounted`), so a
task is never leased twice at a time, nor more often than its budget allows, nor after it has ended
(`Usage.attempts_within_budget`).
-/
namespace PacedChain

/-- How the attempts at a task stand. -/
inductive Standing where
  | idle
  | running
  | ended

/-- The entries about attempts at a task, the last one first, after so many leases. -/
inductive Desk.Tried (b : Backoff) (id : TaskId) : Nat → Standing → List (Nat × Entry) → Prop
  | untried : Tried b id 0 .idle []
  | leased {n t : Nat} {lease : Lease} {earlier : List (Nat × Entry)} :
    Tried b id n .idle earlier → lease.attempt = n + 1 →
    Tried b id (n + 1) .running ((t, .lease lease) :: earlier)
  | again {n t secs : Nat} {earlier : List (Nat × Entry)} :
    Tried b id n .running earlier → b.allowsRetry n = true →
    Tried b id n .idle ((t, .complete id .retry (.ok (.retryScheduled n secs))) :: earlier)
  | succeeded {n t : Nat} {earlier : List (Nat × Entry)} :
    Tried b id n .running earlier →
    Tried b id n .ended ((t, .complete id .success (.ok .succeeded)) :: earlier)
  | died {n t : Nat} {earlier : List (Nat × Entry)} :
    Tried b id n .running earlier → b.allowsRetry n = false →
    Tried b id n .ended ((t, .complete id .retry (.ok (.dead n))) :: earlier)

/-- A lease is the first of its task, or comes right after the last one was completed to be tried
again. -/
def Lease.Follows (lease : Lease) (id : TaskId) (earlier : List (Nat × Entry)) : Prop :=
  (lease.attempt = 1 ∧ earlier = []) ∨ ∃ t₁ t₂ secs last rest,
    earlier = (t₁, .complete id .retry (.ok (.retryScheduled last.attempt secs))) ::
      (t₂, .lease last) :: rest ∧
    lease.attempt = last.attempt + 1

/-- The number of an attempt that is handed out. -/
def Entry.attempt? : Entry → Option Nat
  | .lease taken => some taken.attempt
  | _ => none

/-- The numbers of the leases of a task, the first one first. -/
def Desk.attemptNumbers (d : Desk) (id : TaskId) : List Nat :=
  ((d.attempts id).filterMap (·.2.attempt?)).reverse

namespace Desk.Tried

variable {b : Backoff} {id : TaskId} {n : Nat} {standing : Standing} {entries : List (Nat × Entry)}

theorem numbers (tried : Tried b id n standing entries) :
    (entries.filterMap (·.2.attempt?)).reverse = List.range' 1 n := by
  induction tried with
  | untried => rfl
  | @leased n t lease earlier _ number ih =>
    have first : (((t, Entry.lease lease) :: earlier).filterMap (·.2.attempt?)) =
        lease.attempt :: earlier.filterMap (·.2.attempt?) := rfl
    rw [first, List.reverse_cons, ih, number, List.range'_concat, Nat.one_mul, Nat.add_comm n 1]
  | again _ _ ih | succeeded _ ih | died _ _ ih => exact ih

/-- There is no lease beyond the budget, and one is left where another attempt is to come. -/
theorem budget (tried : Tried b id n standing entries) {most : Nat} (limit : b.budget = some most) :
    match standing with
    | .idle => n = 0 ∨ n < most
    | .running | .ended => n ≤ max 1 most := by
  have allows : ∀ attempts, b.allowsRetry attempts = decide (attempts < most) := by
    intro attempts
    rw [Backoff.allowsRetry, limit]
  induction tried with
  | untried => exact Or.inl rfl
  | leased _ _ ih =>
    change _ = 0 ∨ _ < most at ih
    change _ ≤ max 1 most
    omega
  | again _ allowed _ => exact Or.inr (of_decide_eq_true ((allows _).symm.trans allowed))
  | succeeded _ ih | died _ _ ih => exact ih

theorem follows (tried : Tried b id n standing entries) {t : Nat} {lease : Lease}
    {later earlier : List (Nat × Entry)} (split : entries = later ++ (t, .lease lease) :: earlier) :
    lease.Follows id earlier := by
  induction tried generalizing later with
  | untried => cases later <;> cases split
  | leased before number ih =>
    cases later with
    | cons entry later => exact ih (List.cons.inj split).2
    | nil =>
      cases split
      -- The attempts stood idle before this lease: at the start, or after a completion.
      cases before with
      | untried => exact Or.inl ⟨number, rfl⟩
      | again running _ =>
        cases running with
        | leased _ last => exact Or.inr ⟨_, _, _, _, _, by rw [last], by rw [number, last]⟩
  | again _ _ ih | succeeded _ ih | died _ _ ih =>
    cases later with
    | cons entry later => exact ih (List.cons.inj split).2
    | nil => cases split

/-- Every attempt is answered for. -/
theorem exists_completion (tried : Tried b id n standing entries) {t : Nat} {outcome : Outcome}
    {result : Except CompleteError Completion}
    (member : (t, .complete id outcome result) ∈ entries) :
    ∃ completion, result = .ok completion := by
  induction tried with
  | untried => cases member
  | leased _ _ ih => exact ih ((List.mem_cons.mp member).resolve_left nofun)
  | again _ _ ih | succeeded _ ih | died _ _ ih =>
    rcases List.mem_cons.mp member with same | earlier
    · cases same
      exact ⟨_, rfl⟩
    · exact ih earlier

end Desk.Tried

/-- A completion after which there is no further attempt. -/
def Completion.isLast : Completion → Bool
  | .retryScheduled _ _ => false
  | _ => true

theorem Desk.Tried.ended_of_last {b : Backoff} {id : TaskId} {n : Nat} {standing : Standing}
    {entries : List (Nat × Entry)} (tried : Tried b id n standing entries) {t : Nat}
    {outcome : Outcome} {completion : Completion} (last : completion.isLast = true)
    (member : (t, .complete id outcome (.ok completion)) ∈ entries) : standing = .ended := by
  cases tried with
  | succeeded | died => rfl
  | untried => cases member
  | leased before _ =>
    have earlier := (List.mem_cons.mp member).resolve_left nofun
    cases before.ended_of_last last earlier
  | again before _ =>
    rcases List.mem_cons.mp member with same | earlier
    · cases same
      cases last
    · cases before.ended_of_last last earlier

/-- A call that ends a task for good: a completion that leaves no retry, or a replacement. -/
def Entry.Ends (entry : Entry) (id : TaskId) : Prop :=
  (∃ outcome completion, completion.isLast = true ∧
    entry = .complete id outcome (.ok completion)) ∨ entry.Withdraws id

/-! ### What the queue knows of it -/

/-- Whether a task that has not ended is running. -/
def Standing.Allows : Standing → Task → Prop
  | .idle, task => task.state ≠ .running
  | .running, task => task.state = .running
  | .ended, _ => False

/-- What the queue has of a task that has been leased so often. -/
def Standing.Fits (standing : Standing) (n : Nat) (task : Task) : Prop :=
  task.state.isTerminal = true ∨ (task.attempts = n ∧ standing.Allows task)

theorem Standing.Fits.going {standing : Standing} {n : Nat} {task : Task}
    (fits : standing.Fits n task) (live : task.state.isTerminal = false) :
    task.attempts = n ∧ standing.Allows task :=
  fits.resolve_left (Bool.eq_false_iff.mp live)

namespace Usage

variable {u : Usage} {id : TaskId}

/-- The journal and the queue agree on the attempts at a task. -/
structure Accounted (u : Usage) (id : TaskId) : Prop where
  tried : ∃ n standing, Desk.Tried u.desk.queue.backoff id n standing (u.desk.attempts id) ∧
    ∀ task, u.desk.queue.task? id = some task → standing.Fits n task
  unborn : u.desk.Unborn id

theorem accounted_start (backoff : Backoff) (historyLimit : Nat) (id : TaskId) :
    (start backoff historyLimit).Accounted id where
  tried := ⟨0, .idle, .untried, nofun⟩
  unborn := fun _ => rfl

/-- What lapses is idle still, or has ended. -/
theorem fits_of_lapses {standing : Standing} {n now : Nat} {withdrawn : Prop} {o o' : Option Task}
    (lapses : Task.Lapses withdrawn now o o')
    (fits : ∀ task, o = some task → standing.Fits n task) :
    ∀ task, o' = some task → standing.Fits n task := by
  refine lapses.keeps (P := fun o => ∀ task, o = some task → standing.Fits n task) ?_ fits
  intro _ _ lapse before task same
  cases lapse with
  | @due old _ waits _ _ =>
    cases same
    have live := TaskState.isTerminal_of_isWaiting waits
    obtain ⟨attempts, stands⟩ := (before old rfl).going live
    refine Or.inr ⟨attempts, ?_⟩
    cases standing with
    | idle => exact nofun
    | running =>
      rw [show old.state = .running from stands] at waits
      cases waits
    | ended => exact stands
  | cancel =>
    cases same
    exact Or.inl rfl
  | forget => cases same

theorem Accounted.perform (sound : u.Sound)
    (waits : ∀ attempts, ∃ delay, u.desk.queue.backoff.nextDelay attempts = .ok delay)
    (accounted : u.Accounted id) (call : Call) : (u.perform call).Accounted id := by
  refine ⟨?_, sound.unborn_perform accounted.unborn call⟩
  obtain ⟨⟨n, standing, tried, fits⟩, unborn⟩ := accounted
  rw [← backoff_perform u call] at tried
  cases sound.fares call id with
  | lapses lapses same =>
    rw [← same] at tried
    exact ⟨n, standing, tried, fits_of_lapses lapses fits⟩
  | created job key delay new comes same =>
    have none : u.desk.attempts id = [] := unborn (by rw [new]; exact Nat.lt_succ_self _)
    refine ⟨0, .idle, ?_, fun task known => ?_⟩
    · rw [same, none]
      exact .untried
    · rw [comes, Option.some.injEq] at known
      subst known
      exact Or.inr ⟨Task.attempts_fresh job key delay _, Task.fresh_not_running job key delay _⟩
  | leased _ number queued lapses starts same =>
    obtain ⟨attempts, stands⟩ := (fits_of_lapses lapses fits _ rfl).going (by rw [queued]; rfl)
    refine ⟨n + 1, .running, ?_, fun task known => ?_⟩
    · rw [same]
      cases standing with
      | idle => exact .leased tried (by rw [number, attempts])
      | running => cases queued.symm.trans stands
      | ended => cases stands
    · rw [starts, Option.some.injEq] at known
      subst known
      exact Or.inr ⟨congrArg (· + 1) attempts, rfl⟩
  | @completed lease task after outcome result out own known runs completes lapses same =>
    obtain ⟨attempts, stands⟩ := (fits _ known).going (by rw [runs]; rfl)
    have running : standing = .running := by
      cases standing with
      | idle => exact absurd runs stands
      | running => rfl
      | ended => cases stands
    subst running
    rw [same]
    have goOn : ∀ standing : Standing, standing.Fits n after →
        ∀ task, (u.perform call).desk.queue.task? id = some task → standing.Fits n task := by
      intro standing after
      refine fits_of_lapses lapses fun task known => ?_
      cases known
      exact after
    cases completes with
    | success => exact ⟨n, .ended, .succeeded tried, goOn _ (Or.inl rfl)⟩
    | dead spent =>
      rw [attempts] at spent ⊢
      rw [← backoff_perform u call] at spent
      exact ⟨n, .ended, .died tried spent, goOn _ (Or.inl rfl)⟩
    | again allowed =>
      rw [attempts] at allowed ⊢
      rw [← backoff_perform u call] at allowed
      exact ⟨n, .idle, .again tried allowed, goOn _ (Or.inr ⟨attempts, nofun⟩)⟩
    | noDelay _ failed =>
      obtain ⟨delay, computed⟩ := waits task.attempts
      cases failed.symm.trans computed
  | dropped same =>
    subst same
    exact ⟨n, standing, tried, fits⟩

theorem accounted_run
    (waits : ∀ attempts, ∃ delay, u.desk.queue.backoff.nextDelay attempts = .ok delay)
    (sound : u.Sound) (accounted : u.Accounted id) (calls : List Call) :
    (u.run calls).Accounted id := by
  refine (run_induction (P := fun v => v.Sound ∧
    v.desk.queue.backoff = u.desk.queue.backoff ∧ v.Accounted id) ?_ ⟨sound, rfl, accounted⟩
    calls).2.2
  rintro v call ⟨sound, same, accounted⟩
  exact ⟨sound.perform call, (backoff_perform v call).trans same,
    accounted.perform sound (same ▸ waits) call⟩

/-! ### The law of attempts -/

/-- How a task is leased under a budget of attempts. -/
structure WithinBudget (u : Usage) (budget : Option Nat) (id : TaskId) : Prop where
  numbered : u.desk.attemptNumbers id = List.range' 1 (u.desk.attemptNumbers id).length
  once : (u.out.map (·.envelope.task)).count id ≤ 1
  again : ∀ t lease later earlier, u.desk.attempts id = later ++ (t, .lease lease) :: earlier →
    lease.Follows id earlier
  succeeds : ∀ lease ∈ u.out, lease.envelope.task = id →
    (u.desk.complete id .success).1 = .ok .succeeded
  retries : ∀ lease ∈ u.out, lease.envelope.task = id →
    (∀ most, budget = some most → lease.attempt < most) →
    ∃ secs, (u.desk.complete id .retry).1 = .ok (.retryScheduled lease.attempt secs)
  dies : ∀ lease ∈ u.out, lease.envelope.task = id →
    ∀ most, budget = some most → most ≤ lease.attempt →
    (u.desk.complete id .retry).1 = .ok (.dead lease.attempt)
  /-- No completion has ever failed. -/
  completed : ∀ t outcome result, (t, .complete id outcome result) ∈ u.desk.journal →
    ∃ completion, result = .ok completion
  bounded : ∀ most, budget = some most → (u.desk.attemptNumbers id).length ≤ max 1 most
  /-- Once the task has ended, there is neither a lease nor a completion of it any more. -/
  ended : ((∃ task, u.desk.queue.task? id = some task ∧ task.state.isTerminal = true) ∨
      ∃ entry ∈ u.desk.journal, entry.2.Ends id) →
    ∀ more, (u.run more).desk.attempts id = u.desk.attempts id
  /-- Nor is there any after its lease was given up. -/
  dropped : ∀ lease ∈ u.out, lease.envelope.task = id → ∀ more,
    ((u.perform (.drop lease)).run more).desk.attempts id = u.desk.attempts id

/-- A task that has ended, by what the queue or the journal says, is done with. -/
theorem Accounted.doneWith_of_ended (sound : u.Sound) (accounted : u.Accounted id)
    (ended : (∃ task, u.desk.queue.task? id = some task ∧ task.state.isTerminal = true) ∨
      ∃ entry ∈ u.desk.journal, entry.2.Ends id) : u.DoneWith id := by
  rcases ended with ⟨task, known, terminal⟩ | ⟨⟨t, entry⟩, member, last | withdraws⟩
  · refine ⟨sound.kept.numbered id task known, Or.inl fun other found => ?_⟩
    cases known.symm.trans found
    exact terminal
  · obtain ⟨outcome, completion, last, rfl⟩ := last
    have own : (t, Entry.complete id outcome (.ok completion)) ∈ u.desk.attempts id :=
      List.mem_filter.mpr ⟨member, decide_eq_true rfl⟩
    obtain ⟨n, standing, tried, fits⟩ := accounted.tried
    cases tried.ended_of_last last own
    refine ⟨Nat.not_lt.mp fun later => ?_, Or.inl fun task known => ?_⟩
    · rw [accounted.unborn later] at own
      cases own
    · exact (fits task known).resolve_right And.right
  · obtain ⟨created, gone⟩ := (sound.placed.stands id).withdrawn ⟨_, member, withdraws⟩
    refine ⟨created, Or.inl fun task known => ?_⟩
    rw [(sound.placed.stands id).cancelled ⟨_, member, withdraws⟩ known]
    rfl

theorem Sound.doneWith_drop (sound : u.Sound) {lease : Lease} (out : lease ∈ u.out) :
    (u.perform (.drop lease)).DoneWith lease.envelope.task := by
  obtain ⟨task, known, runs, _⟩ := sound.leased lease out
  exact ⟨sound.kept.numbered _ task known,
    Or.inr ⟨⟨task, known, runs⟩, fun other still => sound.ne_of_mem_erase out still⟩⟩

theorem Accounted.withinBudget (sound : u.Sound)
    (waits : ∀ attempts, ∃ delay, u.desk.queue.backoff.nextDelay attempts = .ok delay)
    (accounted : u.Accounted id) : u.WithinBudget u.desk.queue.backoff.budget id := by
  obtain ⟨n, standing, tried, fits⟩ := accounted.tried
  have numbers : u.desk.attemptNumbers id = List.range' 1 n := tried.numbers
  have leases : (u.desk.attemptNumbers id).length = n := by rw [numbers, List.length_range']
  refine ⟨?_, ?_, fun _ _ _ _ => tried.follows, ?_, ?_, ?_, ?_, ?_, ?_, ?_⟩
  · rw [leases, numbers]
  · exact List.nodup_iff_count_le_one.mp sound.once id
  · rintro lease out rfl
    obtain ⟨task, known, _⟩ := sound.leased lease out
    exact congrArg Prod.fst (Queue.complete_success known u.desk.now)
  · rintro lease out rfl below
    obtain ⟨task, known, _, _, attempts⟩ := sound.leased lease out
    have allowed : u.desk.queue.backoff.allowsRetry task.attempts = true := by
      rw [Backoff.allowsRetry, attempts]
      split
      · rfl
      · next most limit => exact decide_eq_true (below most limit)
    obtain ⟨delay, wait⟩ := waits task.attempts
    rw [← attempts]
    exact ⟨_, congrArg Prod.fst (Queue.complete_retry known u.desk.now allowed wait)⟩
  · rintro lease out rfl most limit reached
    obtain ⟨task, known, _, _, attempts⟩ := sound.leased lease out
    have spent : u.desk.queue.backoff.allowsRetry task.attempts = false := by
      rw [Backoff.allowsRetry, limit, attempts]
      exact decide_eq_false (Nat.not_lt.mpr reached)
    rw [← attempts]
    exact congrArg Prod.fst (Queue.complete_dead known u.desk.now spent)
  · intro t outcome result member
    exact tried.exists_completion (List.mem_filter.mpr ⟨member, decide_eq_true rfl⟩)
  · intro most limit
    have within := tried.budget limit
    rw [leases]
    cases standing with
    | idle =>
      change n = 0 ∨ n < most at within
      omega
    | running | ended => exact within
  · exact fun ended more => (accounted.doneWith_of_ended sound ended).attempts_run sound more
  · rintro lease out rfl more
    exact (sound.doneWith_drop out).attempts_run (sound.perform _) more

/-- Whatever is done with a desk whose waits can all be computed, every task is leased by number, at
most once at a time, as often as its budget allows, and never after its end. -/
theorem attempts_within_budget (backoff : Backoff) (historyLimit : Nat) (calls : List Call)
    (waits : ∀ attempts, ∃ delay, backoff.nextDelay attempts = .ok delay) (id : TaskId) :
    ((start backoff historyLimit).run calls).WithinBudget backoff.budget id := by
  have same := backoff_run (start backoff historyLimit) calls
  have sound := sound_run (sound_start backoff historyLimit) calls
  have accounted := accounted_run (u := start backoff historyLimit) waits
    (sound_start backoff historyLimit) (accounted_start backoff historyLimit id) calls
  have within := accounted.withinBudget sound (same ▸ waits)
  rw [same] at within
  exact within

/-- A task with two attempts is tried twice, and dies. -/
theorem attempts_within_budget_of_two :
    let backoff := { Backoff.standard with budget := some 2 }
    let calls : List Call := [.enqueue .sync, .look, .complete ⟨⟨⟨1⟩, .sync⟩, 1, ⟨1⟩⟩ .retry,
      .pass (Clock.ofSecs 30), .look, .complete ⟨⟨⟨1⟩, .sync⟩, 2, ⟨2⟩⟩ .retry, .look]
    (∀ attempts, ∃ delay, backoff.nextDelay attempts = .ok delay) ∧
      ((start backoff 0).run calls).desk.attemptNumbers ⟨1⟩ = [1, 2] ∧
      ((start backoff 0).run calls).WithinBudget backoff.budget ⟨1⟩ := by
  intro backoff calls
  have waits : ∀ attempts, ∃ delay, backoff.nextDelay attempts = .ok delay := by
    refine Backoff.exists_nextDelay ?_
    simp only [backoff, Backoff.standard]
    exact Binary64.unsigned_ofNat 2
  exact ⟨waits, by decide +kernel, attempts_within_budget backoff 0 calls waits ⟨1⟩⟩

end Usage

end PacedChain
