import PacedChain.Outcome
import PacedChain.Queue.Basic

/-!
# Leases

A task is handed out as a lease, and the lease is completed with the outcome of the attempt. Who
wants a lease looks at the queue (`Queue.look`), and again at the next time at which a task falls
due until the patience is at an end (`Queue.leaseBy`).
-/
namespace PacedChain

structure Lease where
  envelope : Envelope
  /-- Number of the attempt among those at this task. -/
  attempt : Nat
  attemptId : AttemptId
  deriving DecidableEq

/-- What a look at the queue shows. -/
inductive Look where
  /-- The queue hands out no more. -/
  | closed
  | leased (lease : Lease)
  /-- Nothing can run now; the next task falls due at `wake`. -/
  | idle (wake : Option Nat)
  deriving DecidableEq

inductive Wait where
  | closed
  | leased (lease : Lease) (at_ : Nat)
  | timedOut
  deriving DecidableEq

/-- Why an attempt is not completed. -/
inductive CompleteError where
  | refused (error : QueueError)
  | noDelay (error : BackoffError)
  deriving DecidableEq

namespace Queue

/-- A wake-up time has come: the task is ready if it is still waiting. -/
def wake (now : Nat) (q : Queue) (w : Wakeup) : Queue :=
  match q.task? w.task with
  | none => q
  | some task =>
    if task.state.isWaiting then
      { q.modify w.task (·.requeue now) with ready := q.ready ++ [w.task] }
    else q

def promoteDue (q : Queue) (now : Nat) : Queue :=
  (q.scheduled.takeWhile (·.notBefore ≤ now)).foldl (wake now)
    { q with scheduled := q.scheduled.dropWhile (·.notBefore ≤ now) }

/-- The first of the given tasks that can run, and the tasks after it. -/
def firstRunnable (q : Queue) : List TaskId → Option (TaskId × Task × List TaskId)
  | [] => none
  | id :: rest =>
    match q.task? id with
    | none => firstRunnable q rest
    | some task => if task.state.isRunnable then some (id, task, rest) else firstRunnable q rest

/-- Hand out the first task that can run, without waiting for one. -/
def look (q : Queue) (now : Nat) : Look × Queue :=
  if q.closed then (.closed, q)
  else
    let q := q.promoteDue now
    match q.firstRunnable q.ready with
    | some (id, task, rest) =>
      (.leased ⟨⟨id, task.job⟩, task.attempts + 1, ⟨q.leases + 1⟩⟩,
        { q.modify id (·.start now) with ready := rest, leases := q.leases + 1 })
    | none => (.idle (q.scheduled.head?.map (·.notBefore)), { q with ready := [] })

/-- Report the outcome of the attempt that is running at a task. -/
def complete (q : Queue) (now : Nat) (id : TaskId) (outcome : Outcome) :
    Except CompleteError Completion × Queue :=
  match q.task? id with
  | none => (.error (.refused (.taskNotFound id)), q)
  | some task =>
    match outcome with
    | .success => (.ok .succeeded, ((q.modify id (·.succeed now)).releaseKey id).retire id)
    | .retry =>
      if !q.backoff.allowsRetry task.attempts then
        (.ok (.dead task.attempts), ((q.modify id (·.die now)).releaseKey id).retire id)
      else match q.backoff.nextDelay task.attempts with
        | .error error => (.error (.noDelay error), q)
        | .ok delay =>
          let notBefore := Clock.deadline now delay
          (.ok (.retryScheduled task.attempts (Clock.secs delay)),
            (q.modify id (·.scheduleRetry notBefore now)).schedule notBefore id)

/-- The number of wake-ups that are still to come at `now`. -/
def wakeupsAfter (q : Queue) (now : Nat) : Nat := q.scheduled.countP (now < ·.notBefore)

theorem scheduled_wake (now : Nat) (q : Queue) (w : Wakeup) :
    (wake now q w).scheduled = q.scheduled := by
  unfold wake
  split
  · rfl
  · split <;> rfl

theorem scheduled_foldl_wake (now : Nat) (ws : List Wakeup) (q : Queue) :
    (ws.foldl (wake now) q).scheduled = q.scheduled := by
  induction ws generalizing q with
  | nil => rfl
  | cons w ws ih => rw [List.foldl_cons, ih, scheduled_wake]

theorem scheduled_promoteDue (q : Queue) (now : Nat) :
    (q.promoteDue now).scheduled = q.scheduled.dropWhile (·.notBefore ≤ now) := by
  rw [promoteDue, scheduled_foldl_wake]

private theorem head?_dropWhile_le {now wake : Nat} {ws : List Wakeup}
    (h : (ws.dropWhile (·.notBefore ≤ now)).head?.map (·.notBefore) = some wake) :
    now < wake ∧ ∃ w ∈ ws, w.notBefore = wake := by
  induction ws with
  | nil => simp at h
  | cons w ws ih =>
    by_cases due : w.notBefore ≤ now
    · simp only [List.dropWhile, due, decide_true] at h
      obtain ⟨later, v, member, rfl⟩ := ih h
      exact ⟨later, v, List.mem_cons_of_mem _ member, rfl⟩
    · simp only [List.dropWhile, due, decide_false, List.head?_cons, Option.map_some,
        Option.some.injEq] at h
      exact ⟨by omega, w, List.mem_cons_self, h⟩

private theorem countP_lt_countP {ws : List Wakeup} {p r : Wakeup → Bool} {w : Wakeup}
    (weaker : ∀ v, p v = true → r v = true) (member : w ∈ ws) (holds : r w = true)
    (fails : ¬p w = true) : ws.countP p < ws.countP r := by
  induction ws with
  | nil => simp at member
  | cons v ws ih =>
    have rest : ws.countP p ≤ ws.countP r := List.countP_mono_left fun x _ => weaker x
    rcases List.mem_cons.mp member with rfl | member
    · rw [List.countP_cons_of_neg fails, List.countP_cons_of_pos holds]
      omega
    · have less := ih member
      by_cases hv : p v = true
      · rw [List.countP_cons_of_pos hv, List.countP_cons_of_pos (weaker v hv)]
        omega
      · rw [List.countP_cons_of_neg hv, List.countP_cons]
        omega

/-- A look that finds nothing names a later time, and one wake-up fewer lies after that time. -/
theorem wakeupsAfter_look {q : Queue} {now wake : Nat} (h : (q.look now).1 = .idle (some wake)) :
    now < wake ∧ ∀ t, wake ≤ t → (q.look now).2.wakeupsAfter t < q.wakeupsAfter now := by
  revert h
  unfold look
  split
  · simp
  · simp only
    split
    · simp
    · intro h
      simp only [Look.idle.injEq, scheduled_promoteDue] at h
      obtain ⟨later, w, member, rfl⟩ := head?_dropWhile_le h
      refine ⟨later, fun t reached => ?_⟩
      simp only [wakeupsAfter, scheduled_promoteDue]
      have shorter : (q.scheduled.dropWhile (·.notBefore ≤ now)).countP (t < ·.notBefore) ≤
          q.scheduled.countP (t < ·.notBefore) :=
        (List.dropWhile_sublist _).countP_le
      have fewer : q.scheduled.countP (t < ·.notBefore) <
          q.scheduled.countP (now < ·.notBefore) :=
        countP_lt_countP (fun v => by simp only [decide_eq_true_eq]; omega) member
          (by simpa using later) (by simpa using reached)
      omega

/-- After a look that finds nothing, fewer wake-ups lie after the time of the next look. -/
theorem wakeupsAfter_wholeMilli_lt {q q' : Queue} {now wake : Nat}
    (h : q.look now = (.idle (some wake), q')) :
    q'.wakeupsAfter (Clock.wholeMilli wake) < q.wakeupsAfter now := by
  have found : (q.look now).1 = .idle (some wake) := by rw [h]
  have next := (wakeupsAfter_look found).2 _ (Clock.le_wholeMilli wake)
  rwa [h] at next

/-- Wait for a lease from `now` until `deadline`, a task that is due at the deadline included. -/
def leaseBy (q : Queue) (now deadline : Nat) : Wait × Queue :=
  match _h : q.look now with
  | (.closed, q') => (.closed, q')
  | (.leased lease, q') => (.leased lease now, q')
  | (.idle none, q') => (.timedOut, q')
  | (.idle (some wake), q') =>
    let next := Clock.wholeMilli wake
    if next ≤ deadline then leaseBy q' next deadline else (.timedOut, q')
termination_by q.wakeupsAfter now
decreasing_by exact wakeupsAfter_wholeMilli_lt _h

end Queue

end PacedChain
