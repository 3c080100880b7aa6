import PacedChain.Proofs.Desk.Waiting
import PacedChain.Proofs.Host.Incidents

/-!
# Deliveries

An execution delivers when its task ends with the successor on the queue. If executions take no time
(`Host.isInstant`), the successor was put there at that very time, to wait for as long as its delay
says, and after a sync that is never no time at all (`Desk.Delivered`). Where the journal has a
success, the run has the step of the worker that delivered (`Host.exists_delivery`).
-/
namespace PacedChain

/-- The lease that a worker executes, and the successor that it has put on the queue. -/
def Station.placed? : Station → Option (Lease × Scheduled)
  | .executing lease (.placed successor) => some (lease, successor)
  | .executing lease (.settled (.ok successor)) => some (lease, successor)
  | _ => none

theorem Station.lease?_of_placed? {s : Station} {lease : Lease} {successor : Scheduled}
    (placed : s.placed? = some (lease, successor)) : s.lease? = some lease := by
  unfold placed? at placed
  split at placed
  · cases placed
    rfl
  · cases placed
    rfl
  · cases placed

/-- A successor that was put on the queue just now, and waits as its delay says. The successor of a
sync waits for a second at least. -/
structure Desk.Delivered (d : Desk) (lease : Lease) (successor : Scheduled) : Prop where
  entry : (d.now, .enqueueDelayed .sync successor.delay (.ok successor.task)) ∈ d.journal
  positive : lease.envelope.job = .sync → 1 ≤ successor.delay.secs
  holdsBack : d.HoldsBack successor.task (Clock.deadline d.now successor.delay.duration)

namespace Host

/-- Whether a move takes no time from an execution. -/
def sparesTime (h : Host) : Move → Bool
  | .pass _ => h.leases.isEmpty
  | _ => true

/-- Executions take no time: it passes only while nothing is being executed. -/
def isInstant (h : Host) : List Move → Bool
  | [] => true
  | m :: ms => h.sparesTime m && (h.move m).isInstant ms

/-- This move ends the execution of a task that has put its successor on the queue. -/
def Delivers (h : Host) (m : Move) (id : TaskId) (successor : Scheduled) : Prop :=
  ∃ index preference w lease, m = .step index preference ∧ h.workers[index]? = some w ∧
    w.station = .executing lease (.settled (.ok successor)) ∧ lease.envelope.task = id

variable {h h' : Host} {m : Move} {lease : Lease} {successor : Scheduled}

theorem isInstant_append (ms more : List Move) :
    h.isInstant (ms ++ more) = (h.isInstant ms && (h.moves ms).isInstant more) := by
  induction ms generalizing h with
  | nil => exact (Bool.true_and _).symm
  | cons m ms ih =>
    rw [List.cons_append, isInstant, ih, ← Bool.and_assoc]
    rfl

/-- What every single move keeps that takes no time from an execution is kept by a row of them. -/
theorem moves_induction_of_instant {P : Host → Prop}
    (step : ∀ h m, (∀ duration, m = .pass duration → h.leases = []) → P h → P (h.move m))
    {h : Host} (first : P h) {ms : List Move} (instant : h.isInstant ms = true) :
    P (h.moves ms) := by
  induction ms generalizing h with
  | nil => exact first
  | cons m ms ih =>
    rw [isInstant, Bool.and_eq_true] at instant
    refine ih (step h m ?_ first) instant.2
    rintro duration rfl
    exact List.isEmpty_iff.mp instant.1

theorem now_move (h : Host) (still : ∀ duration, m ≠ .pass duration) :
    (h.move m).desk.now = h.desk.now := by
  cases m with
  | step index preference => exact now_stepWorker h index preference
  | pass duration => exact absurd rfl (still duration)
  | trigger signal =>
    rw [move, desk_trigger]
    rfl
  | close => rfl
  | spawn n => exact congrArg Desk.now (desk_spawn h n)
  | leave => exact congrArg Desk.now (desk_leaveGroup h)
  | requestShutdown | giveUp => exact congrArg Desk.now (desk_requestShutdown h)

/-! ### Successors just placed -/

/-- What holds of a host whose executions take no time. -/
structure OnTime (h : Host) : Prop where
  inBalance : h.InBalance
  unborn : ∀ id, h.desk.Unborn id
  timely : h.desk.Timely
  positive : h.chain.policy.fallback.isZero = false
  delivered : ∀ w ∈ h.workers, ∀ lease successor, w.station.placed? = some (lease, successor) →
    h.desk.Delivered lease successor

theorem onTime_fresh {chain : Chain} (positive : chain.policy.fallback.isZero = false)
    (backoff : Backoff) (historyLimit : Nat) : (fresh chain backoff historyLimit).OnTime where
  inBalance := inBalance_fresh chain backoff historyLimit
  unborn := fun _ _ => rfl
  timely := nofun
  positive := positive
  delivered := nofun

theorem CallsTo.holdsBack {id : TaskId} {time : Nat} (sound : h.usage.Sound)
    (came : h.CallsTo (·.isGentle = true) h') (held : h.desk.HoldsBack id time) :
    h'.desk.HoldsBack id time :=
  came.keeps_desk (P := fun d => d.HoldsBack id time) sound
    (fun _ _ gentle sound => sound.holdsBack_perform gentle) held

theorem CallsTo.delivered (sound : h.usage.Sound) (came : h.CallsTo (·.isGentle = true) h')
    (now : h'.desk.now = h.desk.now) (delivered : h.desk.Delivered lease successor) :
    h'.desk.Delivered lease successor := by
  refine ⟨?_, delivered.positive, ?_⟩
  · rw [now]
    exact came.keeps_desk (P := fun d => (h.desk.now, Entry.enqueueDelayed .sync successor.delay
      (.ok successor.task)) ∈ d.journal) sound
      (fun u call _ _ member => (u.journal_perform call).subset member) delivered.entry
  · rw [now]
    exact came.holdsBack sound delivered.holdsBack

theorem one_le_successorDelay {c : Chain} (positive : c.policy.fallback.isZero = false)
    (secs : Int) : 1 ≤ (c.successorDelay .sync secs).secs := by
  have spaced := Delay.isZero_orFallback (v := secs) positive
  rw [Delay.isZero, beq_eq_false_iff_ne] at spaced
  exact Nat.one_le_iff_ne_zero.mpr spaced

/-- A worker has put its successor on the queue before this step, or does so now. -/
theorem Act.delivered {group : Nat} {s s' : Station} (act : Act h group s s' h')
    (onTime : h.OnTime) (placed : s'.placed? = some (lease, successor)) :
    s.placed? = some (lease, successor) ∨ h'.desk.Delivered lease successor := by
  have now := act.now
  cases act with
  | stop | goOn | recheck | leave | shut | idle | lease | start | ask | fail | refuse | complete
  | drop | lose | tell | rest => cases placed
  | note => exact Or.inl placed
  | @place taken _ secs task desk _ enqueued =>
    cases placed
    refine Or.inr ⟨?_, ?_, ?_⟩
    · rw [journal_of_enqueueDelayed enqueued]
      exact now ▸ List.mem_cons_self
    · intro job
      rw [job]
      exact one_le_successorDelay onTime.positive secs
    · change desk.HoldsBack _ (Clock.deadline desk.now _)
      rw [show desk.now = _ from now]
      exact Desk.holdsBack_enqueueDelayed onTime.inBalance.sound.kept onTime.unborn enqueued

theorem onTime_move (onTime : h.OnTime) (m : Move)
    (instant : ∀ duration, m = .pass duration → h.leases = []) : (h.move m).OnTime := by
  have sound := onTime.inBalance.sound
  have came := callsTo_move h m
  refine ⟨inBalance_move onTime.inBalance m, ?_, ?_, ?_, ?_⟩
  · exact fun id => came.keeps_desk (P := fun d => d.Unborn id) sound
      (fun _ call _ sound unborn => sound.unborn_perform unborn call) (onTime.unborn id)
  · exact came.keeps_desk (P := Desk.Timely) sound
      (fun _ call _ _ timely => Usage.timely_perform timely call) onTime.timely
  · rw [show (h.move m).chain.policy = _ from (sameConstants_meet h (.move m)).1]
    exact onTime.positive
  -- Time does not pass for a worker that has put its successor on the queue.
  · intro w listed lease successor placed
    have still : ∀ w ∈ h.workers, w.station.placed? = some (lease, successor) →
        (h.move m).desk.Delivered lease successor := by
      intro v old had
      refine came.delivered sound (now_move h ?_) (onTime.delivered v old lease successor had)
      intro duration passes
      have out : lease ∈ h.leases :=
        List.mem_filterMap.mpr ⟨v, old, Station.lease?_of_placed? had⟩
      rw [instant duration passes] at out
      cases out
    rcases h.meet_cases (.move m) with ⟨index, preference, same⟩ |
      ⟨call, status, _, _, _, same⟩ | ⟨n, group, _, _, staff⟩
    · cases same
      rcases found : h.workers[index]? with _ | acting
      · rw [move, stepWorker_of_none found] at listed
        exact still w listed placed
      · obtain ⟨station, after, act, workers, desk, _⟩ := stepWorker_spec found preference
        rw [move, workers] at listed
        rcases List.mem_or_eq_of_mem_set listed with old | rfl
        · exact still w old placed
        · rcases act.delivered onTime placed with before | delivered
          · exact still acting (List.mem_of_getElem? found) before
          · rw [move, desk]
            exact delivered
    · rw [show h.move m = _ from same] at listed
      exact still w listed placed
    · rw [show (h.move m).workers = _ from staff] at listed
      rcases List.mem_append.mp listed with old | new
      · exact still w old placed
      · rw [List.eq_of_mem_replicate new] at placed
        cases placed

theorem onTime_moves (onTime : h.OnTime) {ms : List Move} (instant : h.isInstant ms = true) :
    (h.moves ms).OnTime :=
  moves_induction_of_instant (fun _ m instant onTime => onTime_move onTime m instant) onTime instant

theorem OnTime.delivered_of_delivers (onTime : h.OnTime) {id : TaskId}
    (delivers : h.Delivers m id successor) :
    ∃ lease, Desk.lastJob? id h.desk.journal = some lease.envelope.job ∧
      h.desk.Delivered lease successor := by
  obtain ⟨index, preference, w, lease, _, found, station, rfl⟩ := delivers
  have executes : w.station.lease? = some lease := by rw [station]; rfl
  have placed : w.station.placed? = some (lease, successor) := by rw [station]; rfl
  exact ⟨lease, onTime.inBalance.sound.noted lease (mem_leases_of_found found executes),
    onTime.delivered w (List.mem_of_getElem? found) lease successor placed⟩

/-! ### Where a success comes from -/

/-- A step makes one entry at most, and one of a success only where it delivers. -/
theorem Act.journal_cases {group : Nat} {s s' : Station} (act : Act h group s s' h') :
    h'.desk.journal = h.desk.journal ∨
      ∃ entry, h'.desk.journal = (h.desk.now, entry) :: h.desk.journal ∧
        ∀ id, entry = .complete id .success (.ok .succeeded) →
          ∃ lease successor, s = .executing lease (.settled (.ok successor)) ∧
            lease.envelope.task = id := by
  cases act with
  | stop | goOn | recheck | leave | start | ask | fail | note | tell | rest => exact Or.inl rfl
  | idle seen => exact Or.inl (journal_of_look seen)
  | shut seen => exact Or.inr ⟨.leaseEnd, journal_of_look seen, nofun⟩
  | lease seen => exact Or.inr ⟨.lease _, journal_of_look seen, nofun⟩
  | refuse _ placed | place _ placed =>
    exact Or.inr ⟨.enqueueDelayed _ _ _, journal_of_enqueueDelayed placed, nofun⟩
  | drop done | lose done =>
    refine Or.inr ⟨_, journal_of_complete done, fun id same => ?_⟩
    injection same with _ _ failed
    cases failed
  | @complete lease result _ _ done =>
    refine Or.inr ⟨_, journal_of_complete done, fun id same => ?_⟩
    cases result with
    | error error => cases same
    | ok successor =>
      cases same
      exact ⟨lease, successor, rfl, rfl⟩

theorem journal_move_cases (h : Host) (m : Move) :
    (h.move m).desk.journal = h.desk.journal ∨
      ∃ entry, (h.move m).desk.journal = (h.desk.now, entry) :: h.desk.journal ∧
        ∀ id, entry = .complete id .success (.ok .succeeded) →
          ∃ successor, h.Delivers m id successor := by
  rcases h.meet_cases (.move m) with ⟨index, preference, same⟩ |
    ⟨call, status, outside, _, _, same⟩ | ⟨_, _, desk, _⟩
  · cases same
    rcases found : h.workers[index]? with _ | w
    · rw [move, stepWorker_of_none found]
      exact Or.inl rfl
    · obtain ⟨station, after, act, _, desk, _⟩ := stepWorker_spec found preference
      rw [move, desk]
      refine act.journal_cases.imp_right ?_
      rintro ⟨entry, longer, delivers⟩
      refine ⟨entry, longer, fun id same => ?_⟩
      obtain ⟨lease, successor, stands, own⟩ := delivers id same
      exact ⟨successor, index, preference, w, lease, rfl, found, stands, own⟩
  · rw [show h.move m = _ from same]
    cases call with
    | enqueue | enqueueDelayed | enqueueUnique =>
      exact Or.inr ⟨_, rfl, fun id same => by cases same⟩
    | close | pass => exact Or.inl rfl
    | look | complete | drop => cases outside
  · exact Or.inl (congrArg Desk.journal desk)

/-- Every success in the journal is that of a move that delivers. -/
theorem exists_delivery (new : h.desk.journal = []) {ms : List Move} {t : Nat} {id : TaskId}
    {later earlier : List (Nat × Entry)} (split : (h.moves ms).desk.journal =
      later ++ (t, .complete id .success (.ok .succeeded)) :: earlier) :
    ∃ before m after successor, ms = before ++ m :: after ∧
      (h.moves before).desk.journal = earlier ∧ (h.moves before).desk.now = t ∧
      (h.moves before).Delivers m id successor := by
  induction ms using List.reverseRecOn generalizing later with
  | nil =>
    rw [show (h.moves []).desk.journal = [] from new] at split
    cases later <;> cases split
  | append_singleton ms m ih =>
    have last : h.moves (ms ++ [m]) = (h.moves ms).move m := moves_append h ms [m]
    -- The entry was there before the last move, or that move has made it.
    have before : ∀ later, (h.moves ms).desk.journal =
        later ++ (t, .complete id .success (.ok .succeeded)) :: earlier →
        ∃ before n after successor, ms ++ [m] = before ++ n :: after ∧
          (h.moves before).desk.journal = earlier ∧ (h.moves before).desk.now = t ∧
          (h.moves before).Delivers n id successor := by
      intro later split
      obtain ⟨before, n, after, successor, rfl, rest⟩ := ih split
      exact ⟨before, n, after ++ [m], successor, by rw [List.append_assoc, List.cons_append], rest⟩
    rw [last] at split
    rcases journal_move_cases (h.moves ms) m with same | ⟨entry, longer, delivers⟩
    · rw [same] at split
      exact before later split
    · rw [longer] at split
      cases later with
      | cons first later => exact before later (List.cons.inj split).2
      | nil =>
        obtain ⟨first, rest⟩ := List.cons.inj split
        cases first
        obtain ⟨successor, delivers⟩ := delivers id rfl
        exact ⟨ms, m, [], successor, rfl, rest, rfl, delivers⟩

end Host

end PacedChain
