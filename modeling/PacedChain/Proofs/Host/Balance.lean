import Mathlib.Algebra.Ring.Nat
import PacedChain.Proofs.Host.Moves
import PacedChain.Proofs.Queue.Counting

/-!
# Chains neither fork nor die in silence

Each execution that succeeds puts exactly one sync on the queue before its own task ends, and no
other puts any there. So, whenever nothing is being executed, there are as many unfinished syncs as
there are bootstraps that have succeeded, less the syncs that have died
(`Host.unfinished_syncs_balance`). In between, an execution whose successor is on the queue already
has its own task still to end.
-/
namespace PacedChain

/-- The queue has given the task up. -/
def Completion.isDead : Completion → Bool
  | .dead _ => true
  | _ => false

namespace Desk

/-- How many tasks of a job have ended in a way. The job of a task is what it was last leased
for. -/
def ended (job : Job) (way : Completion → Bool) : List (Nat × Entry) → Nat
  | [] => 0
  | (_, .complete id _ (.ok completion)) :: earlier =>
    ended job way earlier + (way completion && lastJob? id earlier == some job).toNat
  | _ :: earlier => ended job way earlier

def succeeded (d : Desk) (job : Job) : Nat := ended job (· == .succeeded) d.journal

def died (d : Desk) (job : Job) : Nat := ended job Completion.isDead d.journal

end Desk

/-- Whether the successor of an execution is on the queue already. -/
def Stage.hasPlaced : Stage → Bool
  | .placed _ | .settled (.ok _) => true
  | _ => false

/-- Whether a worker has put a successor on the queue, and has its own task still to end. -/
def Station.owes : Station → Bool
  | .executing _ stage => stage.hasPlaced
  | _ => false

namespace Desk

variable {d d' : Desk} {task : Task} {id : TaskId}

/-- From one desk to the next, the syncs that are left and the bootstraps that have succeeded differ
by the successors that are placed. -/
def Balanced (d : Desk) (before : Bool) (d' : Desk) (after : Bool) : Prop :=
  d'.queue.unfinished .sync + d'.died .sync + d.succeeded .bootstrap + before.toNat =
    d.queue.unfinished .sync + d.died .sync + d'.succeeded .bootstrap + after.toNat

/-- Entries other than completions leave the balance as it is. -/
theorem balanced_of_journal {before after : Bool}
    (unfinished : d'.queue.unfinished .sync + before.toNat =
      d.queue.unfinished .sync + after.toNat)
    (died : d'.died .sync = d.died .sync)
    (succeeded : d'.succeeded .bootstrap = d.succeeded .bootstrap) :
    d.Balanced before d' after := by
  unfold Balanced
  omega

theorem balanced_look (kept : d.queue.Kept) : d.Balanced false d.look.2 false := by
  have same := Queue.unfinished_look kept d.now .sync
  rcases seen : d.queue.look d.now with ⟨_ | lease | wake, q⟩ <;> rw [seen] at same <;>
    simp only [look, seen]
  · exact balanced_of_journal same rfl rfl
  · exact balanced_of_journal same rfl rfl
  · exact balanced_of_journal same rfl rfl

/-- A successor that is placed is one more sync; a refused one is none. -/
theorem balanced_enqueueDelayed (d : Desk) (delay : Delay) :
    d.Balanced false (TaskQueue.enqueueDelayed d .sync delay).2
      (TaskQueue.enqueueDelayed d .sync delay).1.isOk := by
  have grown := Queue.unfinished_enqueueDelayed d.queue d.now .sync delay .sync
  rw [beq_self_eq_true, Bool.and_true] at grown
  exact balanced_of_journal grown rfl rfl

theorem balanced_enqueueUnique (d : Desk) (key : Key) :
    d.Balanced false (TaskQueue.enqueueUnique d key .keepExisting .bootstrap).2 false :=
  balanced_of_journal
    (Queue.unfinished_enqueueUnique_keepExisting d.queue d.now key .bootstrap (by decide)) rfl rfl

/-- A task that succeeds has its successor in its place, and one that dies has none. -/
theorem balanced_complete (kept : d.queue.Kept) (known : d.queue.task? id = some task)
    (runs : task.state = .running) (noted : lastJob? id d.journal = some task.job)
    (result : Except ChainError Scheduled) :
    d.Balanced (Stage.settled result).hasPlaced (d.complete id (Chain.outcome result)).2 false := by
  have live : task.state.isTerminal = false := by rw [runs]; rfl
  -- The completion is counted under the job that the task was leased for, which is its own.
  have counted : ∀ way completion outcome job,
      ended job way ((d.now, .complete id outcome (.ok completion)) :: d.journal) =
        ended job way d.journal + (way completion && task.job == job).toNat := by
    intro way completion outcome job
    rw [ended, noted]
    rfl
  have apart : (Job.bootstrap == Job.sync) = false ∧ (Job.sync == Job.bootstrap) = false :=
    ⟨rfl, rfl⟩
  have alive : ∀ attempts, (Completion.dead attempts == .succeeded) = false := fun _ => rfl
  rcases Queue.complete_cases known d.now (Chain.outcome result) with
    ⟨success, same⟩ | ⟨retry, same⟩ | ⟨retry, delay, same⟩ | ⟨retry, error, same⟩
  -- The successor was counted already; its place is taken over from the task that ends.
  · have ended := Queue.unfinished_finish (f := (·.succeed d.now)) kept known live rfl .sync
    cases result with
    | error error => cases success
    | ok successor =>
      simp only [Balanced, succeeded, died, complete, same, enter, counted]
      change (d.queue.finish id (·.succeed d.now)).unfinished .sync + _ + _ + 1 = _
      cases job : task.job <;> simp [job, apart, Completion.isDead] at ended ⊢ <;> omega
  -- The task dies: a sync is one less, and counts as dead; a bootstrap counts nowhere.
  · have ended := Queue.unfinished_finish (f := (·.die d.now)) kept known live rfl .sync
    cases result with
    | ok successor => cases retry
    | error error =>
      simp only [Balanced, succeeded, died, complete, same, enter, counted]
      change (d.queue.finish id (·.die d.now)).unfinished .sync + _ + _ + 0 = _
      cases job : task.job <;> simp [job, apart, alive, Completion.isDead] at ended ⊢ <;> omega
  -- The task is to be tried again, and is unfinished as before.
  · have goes := Queue.unfinished_modify
      (f := (·.scheduleRetry (Clock.deadline d.now delay) d.now)) kept known rfl live.symm .sync
    cases result with
    | ok successor => cases retry
    | error error =>
      refine balanced_of_journal ?_ ?_ ?_
      · simp only [complete, same, enter]
        exact goes
      · simp only [died, complete, same, enter, counted]
        simp [Completion.isDead]
      · simp only [succeeded, complete, same, enter, counted]
        simp
  -- The wait cannot be computed, and the queue stays as it is.
  · cases result with
    | ok successor => cases retry
    | error failure =>
      refine balanced_of_journal ?_ ?_ ?_ <;>
        simp only [died, succeeded, complete, same, enter] <;> rfl

end Desk

namespace Host

variable {h h' : Host}

/-- A host before anything has happened. -/
def fresh (chain : Chain) (backoff : Backoff) (historyLimit : Nat) : Host :=
  { desk := { queue := Queue.empty backoff historyLimit }, chain }

/-- How many workers have a task still to end whose successor is on the queue. -/
def owing (h : Host) : Nat := (h.workers.map (·.station.owes.toNat)).sum

/-- The syncs that are left are those of the bootstraps that have succeeded, less those that have
died, and the successors of tasks that are about to end. -/
structure InBalance (h : Host) : Prop where
  sound : h.usage.Sound
  even : h.desk.queue.unfinished .sync + h.desk.died .sync =
    h.desk.succeeded .bootstrap + h.owing

theorem inBalance_fresh (chain : Chain) (backoff : Backoff) (historyLimit : Nat) :
    (fresh chain backoff historyLimit).InBalance :=
  ⟨Usage.sound_start backoff historyLimit, rfl⟩

/-- A step of a worker keeps the balance with what the worker owes before and after. -/
theorem Act.balanced {group : Nat} {station station' : Station} {out : List Lease}
    (act : Act h group station station' h')
    (sound : Usage.Sound ⟨h.desk, station.lease?.toList ++ out⟩) :
    h.desk.Balanced station.owes h'.desk station'.owes := by
  cases act with
  | stop | goOn | recheck | leave | start | ask | fail | note | tell | rest =>
    exact Desk.balanced_of_journal rfl rfl rfl
  | shut seen | idle seen | lease seen =>
    have looked := Desk.balanced_look sound.kept
    rw [seen] at looked
    exact looked
  | @refuse lease _ secs _ _ _ placed | @place lease _ secs _ _ _ placed =>
    have enqueued := Desk.balanced_enqueueDelayed h.desk
      (h.chain.successorDelay lease.envelope.job secs)
    rw [placed] at enqueued
    exact enqueued
  | @complete lease result _ _ done | @drop lease result _ _ done | @lose lease result _ _ done =>
    obtain ⟨task, known, runs, job, _⟩ := sound.leased lease List.mem_cons_self
    have noted := sound.noted lease List.mem_cons_self
    have completed := Desk.balanced_complete sound.kept known runs (by rw [job]; exact noted) result
    rw [done] at completed
    exact completed

theorem inBalance_stepWorker (inBalance : h.InBalance) (index : Nat) (preference : Preference) :
    (h.stepWorker index preference).InBalance := by
  refine ⟨sound_stepWorker inBalance.sound index preference, ?_⟩
  rcases found : h.workers[index]? with _ | w
  · rw [stepWorker, found]
    exact inBalance.even
  · obtain ⟨before, after, station, h', split, act, same⟩ := stepWorker_eq found preference
    have first := inBalance.sound.perm ((leases_perm before after w).symm.trans
      (List.Perm.of_eq (congrArg (List.filterMap (·.station.lease?)) split.symm)))
    -- The other workers owe what they owed before.
    have balanced := act.balanced first
    have even := inBalance.even
    rw [owing, split, List.map_append, List.map_cons, List.sum_append, List.sum_cons] at even
    rw [same, owing]
    simp only [List.map_append, List.map_cons, List.sum_append, List.sum_cons]
    unfold Desk.Balanced at balanced
    omega

theorem owing_spawn (h : Host) (n : Nat) : (h.spawn n).owing = h.owing := by
  have idle : ((List.replicate n (⟨h.leaveGroup.2.groups, .checking⟩ : Worker)).map
      (·.station.owes.toNat)).sum = 0 := by
    rw [List.map_replicate, List.sum_replicate_nat]
    exact Nat.mul_zero n
  rw [owing, workers_spawn, List.map_append, List.sum_append, idle, Nat.add_zero, owing]

theorem inBalance_move (inBalance : h.InBalance) (m : Move) : (h.move m).InBalance := by
  refine ⟨sound_move inBalance.sound m, ?_⟩
  have even := inBalance.even
  cases m with
  | step index preference => exact (inBalance_stepWorker inBalance index preference).even
  | pass duration => exact even
  | trigger signal =>
    have balanced := Desk.balanced_enqueueUnique h.desk h.chain.policy.key
    unfold Desk.Balanced at balanced
    have owing : (h.trigger signal).2.owing = h.owing := rfl
    rw [move, desk_trigger, owing]
    omega
  | close => exact even
  | spawn n =>
    rw [move, desk_spawn, owing_spawn]
    exact even
  | leave =>
    rw [move, owing, desk_leaveGroup, workers_leaveGroup]
    exact even
  | requestShutdown =>
    rw [move, owing, desk_requestShutdown, workers_requestShutdown]
    exact even
  | giveUp =>
    rw [move, owing, desk_requestShutdown, workers_requestShutdown]
    exact even

theorem inBalance_moves (inBalance : h.InBalance) (ms : List Move) : (h.moves ms).InBalance :=
  moves_induction (P := InBalance) (fun _ m inBalance => inBalance_move inBalance m) inBalance ms

theorem owing_eq_zero (atRest : h.leases = []) : h.owing = 0 := by
  rw [leases, List.filterMap_eq_nil_iff] at atRest
  rw [owing, List.sum_eq_zero_iff_forall_eq_nat]
  intro n member
  obtain ⟨w, listed, rfl⟩ := List.mem_map.mp member
  -- Only a worker that executes can owe anything, and that one has a lease.
  have free := atRest w listed
  cases station : w.station with
  | executing lease stage =>
    rw [station] at free
    cases free
  | checking | waiting | completed | gone => rfl

/-- Whenever no execution is in progress, the unfinished syncs are the bootstraps that have
succeeded less the syncs that have died: for any chain, any number of workers that take their steps
in any order, any triggers, and a close at any time. -/
theorem unfinished_syncs_balance (chain : Chain) (backoff : Backoff) (historyLimit : Nat)
    (ms : List Move) (atRest : ((fresh chain backoff historyLimit).moves ms).leases = []) :
    let h := (fresh chain backoff historyLimit).moves ms
    (h.desk.queue.unfinished .sync : Int) = h.desk.succeeded .bootstrap - h.desk.died .sync := by
  intro h
  have even := (inBalance_moves (inBalance_fresh chain backoff historyLimit) ms).even
  rw [owing_eq_zero atRest] at even
  change h.desk.queue.unfinished .sync + h.desk.died .sync = h.desk.succeeded .bootstrap at even
  omega

/-- Two bootstraps succeed, and one of their syncs dies at its first attempt, when the engine
crashes. -/
theorem unfinished_syncs_balance_after_death :
    let chain : Chain := {
      policy := {}
      oracle := Boundary.script [] (.recommends 0)
      engine := Boundary.script [] (.crashes "offline") }
    let h := (fresh chain { Backoff.standard with budget := some 1 } 0).moves
      ([.spawn 2, .trigger .bootCompleted] ++ List.replicate 14 (.step 0 .lease) ++
        [.trigger .bootCompleted] ++ List.replicate 7 (.step 1 .lease))
    h.leases = [] ∧ h.desk.died .sync = 1 ∧
      (h.desk.queue.unfinished .sync : Int) = h.desk.succeeded .bootstrap - h.desk.died .sync :=
  ⟨by decide, by decide, unfinished_syncs_balance _ _ _ _ (by decide)⟩

end Host

end PacedChain
