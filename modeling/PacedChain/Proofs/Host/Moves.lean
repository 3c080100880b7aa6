import PacedChain.Chain.Host
import PacedChain.Proofs.Desk.Usage

/-!
# Hosts in motion

A host moves on by single steps of its workers in any order, by time that passes, and by what its
owner does. To its desk this is a use like any other, with the leases of the workers that execute as
the leases that are out (`Host.sound_moves`). Letting time pass is nothing but such moves
(`Host.runUntil_eq_moves`).
-/
namespace PacedChain

/-- What can happen to a host. -/
inductive Move where
  /-- One worker takes its next step. -/
  | step (index : Nat) (preference : Preference)
  /-- Time passes. -/
  | pass (duration : Nat)
  | trigger (signal : Trigger)
  | close
  | spawn (n : Nat)
  | leave
  | requestShutdown
  /-- The current group is asked to stop, and its owner waits for nothing but its end. -/
  | giveUp
  deriving DecidableEq

def Move.isTrigger : Move → Bool
  | .trigger _ => true
  | _ => false

/-- The lease that a worker executes. -/
def Station.lease? : Station → Option Lease
  | .executing lease _ => some lease
  | _ => none

namespace Chain

variable {σ : Type} [TaskQueue σ] {c : Chain} {job : Job} {answer : Answer} {q q' : σ}

theorem advance_of_failed {error : ChainError}
    (failed : c.guard.await (boundaryError job) answer = .error error) :
    c.advance job q (.answered answer) = (.settled (.error error), c, q) := by
  simp only [advance, place, failed]

theorem advance_of_refused {secs : Int} {error : QueueError}
    (answered : c.guard.await (boundaryError job) answer = .ok secs)
    (refused : TaskQueue.enqueueDelayed q .sync (c.successorDelay job secs) = (.error error, q')) :
    c.advance job q (.answered answer) = (.settled (.error (.scheduling error)), c, q') := by
  simp only [advance, place, answered, refused]

theorem advance_of_placed {secs : Int} {task : TaskId}
    (answered : c.guard.await (boundaryError job) answer = .ok secs)
    (placed : TaskQueue.enqueueDelayed q .sync (c.successorDelay job secs) = (.ok task, q')) :
    c.advance job q (.answered answer) = (.placed ⟨task, c.successorDelay job secs⟩, c, q') := by
  simp only [advance, place, answered, placed]

end Chain

namespace Host

def move (h : Host) : Move → Host
  | .step index preference => h.stepWorker index preference
  | .pass duration => { h with desk := { h.desk with now := h.desk.now + duration } }
  | .trigger signal => (h.trigger signal).2
  | .close => h.closeQueue
  | .spawn n => h.spawn n
  | .leave => h.leaveGroup.2
  | .requestShutdown => h.requestShutdown
  | .giveUp => { h.requestShutdown with current := none }

def moves (h : Host) (ms : List Move) : Host := ms.foldl move h

theorem moves_append (h : Host) (ms more : List Move) :
    h.moves (ms ++ more) = (h.moves ms).moves more := List.foldl_append

/-- What every single move keeps is kept by a row of moves. -/
theorem moves_induction {P : Host → Prop} (step : ∀ h m, P h → P (h.move m)) {h : Host}
    (first : P h) (ms : List Move) : P (h.moves ms) := by
  induction ms generalizing h with
  | nil => exact first
  | cons m ms ih => exact ih (step h m first)

theorem policy_ask (c : Chain) (job : Job) : (c.ask job).2.policy = c.policy := by
  cases job <;> rfl

/-- The leases of the workers that execute. -/
def leases (h : Host) : List Lease := h.workers.filterMap (·.station.lease?)

/-- The desk of a host as it is used. -/
def usage (h : Host) : Usage := { desk := h.desk, out := h.leases }

variable {h : Host} {w : Worker} {index : Nat} {preference : Preference}

/-! ### Steps of a worker -/

/-- A step of a worker of a group, from one station to the next: everything such a step can do. -/
inductive Act (h : Host) (group : Nat) : Station → Station → Host → Prop
  | stop : h.asked.contains group = true → Act h group .checking .gone h
  | goOn : h.asked.contains group = false → Act h group .checking .waiting h
  | recheck : h.asked.contains group = true → Act h group .waiting .checking h
  | leave : h.left.contains group = true → Act h group .waiting .gone h
  | shut {desk : Desk} : h.desk.look = (.closed, desk) → Act h group .waiting .gone { h with desk }
  | idle {wake : Option Nat} {desk : Desk} : h.desk.look = (.idle wake, desk) →
    Act h group .waiting .waiting { h with desk }
  | lease {lease : Lease} {desk : Desk} : h.desk.look = (.leased lease, desk) →
    Act h group .waiting (.executing lease .leased) { h with desk }
  | start (lease : Lease) : Act h group (.executing lease .leased) (.executing lease .started)
    { h with chain := { h.chain with status := h.chain.status.start lease.envelope.job } }
  | ask (lease : Lease) {answer : Answer} {chain : Chain} :
    h.chain.ask lease.envelope.job = (answer, chain) →
    Act h group (.executing lease .started) (.executing lease (.answered answer)) { h with chain }
  | fail {lease : Lease} {answer : Answer} {error : ChainError} :
    h.chain.guard.await (Chain.boundaryError lease.envelope.job) answer = .error error →
    Act h group (.executing lease (.answered answer)) (.executing lease (.settled (.error error))) h
  | refuse {lease : Lease} {answer : Answer} {secs : Int} {error : QueueError} {desk : Desk} :
    h.chain.guard.await (Chain.boundaryError lease.envelope.job) answer = .ok secs →
    TaskQueue.enqueueDelayed h.desk .sync (h.chain.successorDelay lease.envelope.job secs) =
      (.error error, desk) →
    Act h group (.executing lease (.answered answer))
      (.executing lease (.settled (.error (.scheduling error)))) { h with desk }
  | place {lease : Lease} {answer : Answer} {secs : Int} {task : TaskId} {desk : Desk} :
    h.chain.guard.await (Chain.boundaryError lease.envelope.job) answer = .ok secs →
    TaskQueue.enqueueDelayed h.desk .sync (h.chain.successorDelay lease.envelope.job secs) =
      (.ok task, desk) →
    Act h group (.executing lease (.answered answer))
      (.executing lease (.placed ⟨task, h.chain.successorDelay lease.envelope.job secs⟩))
      { h with desk }
  | note (lease : Lease) (successor : Scheduled) :
    Act h group (.executing lease (.placed successor)) (.executing lease (.settled (.ok successor)))
      { h with chain := { h.chain with status := h.chain.status.schedule successor } }
  | complete {lease : Lease} {result : Except ChainError Scheduled} {completion : Completion}
    {desk : Desk} :
    h.desk.complete lease.envelope.task (Chain.outcome result) = (.ok completion, desk) →
    Act h group (.executing lease (.settled result)) (.completed lease completion) { h with desk }
  | drop {lease : Lease} {result : Except ChainError Scheduled} {error : QueueError} {desk : Desk} :
    h.desk.complete lease.envelope.task (Chain.outcome result) = (.error (.refused error), desk) →
    Act h group (.executing lease (.settled result)) .checking { h with desk }
  | lose {lease : Lease} {result : Except ChainError Scheduled} {error : BackoffError}
    {desk : Desk} :
    h.desk.complete lease.envelope.task (Chain.outcome result) = (.error (.noDelay error), desk) →
    Act h group (.executing lease (.settled result)) .gone { h with desk }
  | tell (lease : Lease) (completion : Completion) :
    Act h group (.completed lease completion) .checking
      { h with chain := h.chain.recordCompletion lease.envelope.job completion }
  | rest : Act h group .gone .gone h

theorem act_advance (h : Host) (group : Nat) (lease : Lease) (stage : Stage)
    (unsettled : ∀ result, stage ≠ .settled result) :
    Act h group (.executing lease stage)
      (.executing lease (h.chain.advance lease.envelope.job h.desk stage).1)
      { h with
        chain := (h.chain.advance lease.envelope.job h.desk stage).2.1
        desk := (h.chain.advance lease.envelope.job h.desk stage).2.2 } := by
  cases stage with
  | leased => exact .start lease
  | started => exact .ask lease rfl
  | answered answer =>
    rcases awaited : h.chain.guard.await (Chain.boundaryError lease.envelope.job) answer with
      error | secs
    · rw [Chain.advance_of_failed awaited]
      exact .fail awaited
    · rcases placed : TaskQueue.enqueueDelayed h.desk .sync
        (h.chain.successorDelay lease.envelope.job secs) with ⟨error | task, desk⟩
      · rw [Chain.advance_of_refused awaited placed]
        exact .refuse awaited placed
      · rw [Chain.advance_of_placed awaited placed]
        exact .place awaited placed
  | placed successor => exact .note lease successor
  | settled result => exact absurd rfl (unsettled result)

theorem act_spec (h : Host) (w : Worker) (preference : Preference) :
    Act h w.group w.station (h.act w preference).1 (h.act w preference).2 := by
  obtain ⟨group, station⟩ := w
  cases station with
  | checking =>
    by_cases asked : h.asked.contains group = true
    · simpa only [act, isAsked, asked, if_true] using Act.stop asked
    · simpa only [act, isAsked, asked, Bool.false_eq_true, if_false] using
        Act.goOn (Bool.eq_false_iff.mpr asked)
  | waiting =>
    unfold act
    simp only
    split
    -- The group ends, and what the worker does depends on whether it was asked to.
    · next ending =>
      by_cases asked : h.asked.contains group = true
      · simpa only [isAsked, asked, if_true] using Act.recheck asked
      · have left : h.left.contains group = true := by
          simp only [isEnding, isAsked, asked, Bool.false_or, Bool.and_eq_true] at ending
          exact ending.1
        simpa only [isAsked, asked, Bool.false_eq_true, if_false] using Act.leave left
    · rcases seen : h.desk.look with ⟨_ | lease | wake, desk⟩
      · exact .shut seen
      · exact .lease seen
      · exact .idle seen
  | executing lease stage =>
    cases stage with
    | settled result =>
      rcases done : h.desk.complete lease.envelope.task (Chain.outcome result) with
        ⟨error | completion, desk⟩
      · cases error with
        | refused error => simpa only [act, done] using Act.drop done
        | noDelay error => simpa only [act, done] using Act.lose done
      · simpa only [act, done] using Act.complete done
    | leased | started | answered | placed => exact act_advance h group lease _ nofun
  | completed lease completion => exact .tell lease completion
  | gone => exact .rest

namespace Act

variable {group : Nat} {station station' : Station} {h' : Host}

theorem workers (act : Act h group station station' h') : h'.workers = h.workers := by
  cases act <;> rfl

/-- A step of a worker is some calls on the desk, its own lease being the first that is out. -/
theorem calls (act : Act h group station station' h') (out : List Lease) :
    ∃ calls, (∀ call ∈ calls, call.isGentle = true) ∧
      (⟨h.desk, station.lease?.toList ++ out⟩ : Usage).run calls =
        ⟨h'.desk, station'.lease?.toList ++ out⟩ := by
  have single : ∀ call : Call, call.isGentle = true → ∀ other ∈ [call], other.isGentle = true := by
    rintro call kind other member
    rw [List.mem_singleton.mp member]
    exact kind
  cases act with
  | stop | goOn | recheck | leave | start | ask | fail | note | tell | rest =>
    exact ⟨[], nofun, rfl⟩
  | shut seen | idle seen | lease seen =>
    refine ⟨[.look], single _ rfl, ?_⟩
    rw [Usage.run_singleton, Usage.perform]
    simp only [seen, Station.lease?, Option.toList_none, Option.toList_some, List.nil_append,
      List.singleton_append]
  | @refuse lease _ secs _ _ _ refused =>
    refine ⟨[.enqueueDelayed .sync (h.chain.successorDelay lease.envelope.job secs)],
      single _ rfl, ?_⟩
    rw [Usage.run_singleton, Usage.perform, refused]
    rfl
  | @place lease _ secs _ _ _ placed =>
    refine ⟨[.enqueueDelayed .sync (h.chain.successorDelay lease.envelope.job secs)],
      single _ rfl, ?_⟩
    rw [Usage.run_singleton, Usage.perform, placed]
    rfl
  | @complete lease result _ _ done | @drop lease result _ _ done | @lose lease result _ _ done =>
    refine ⟨[.complete lease (Chain.outcome result)], single _ rfl, ?_⟩
    simp only [Usage.run_singleton, Usage.perform, Station.lease?, Option.toList_some,
      List.singleton_append, List.mem_cons_self, if_true, done, List.erase_cons_head,
      Option.toList_none, List.nil_append]

end Act

/-- A step of a worker changes its station and leaves the other workers where they are. -/
theorem stepWorker_eq (found : h.workers[index]? = some w) (preference : Preference) :
    ∃ before after station h', h.workers = before ++ w :: after ∧
      Act h w.group w.station station h' ∧
      h.stepWorker index preference = { h' with
        workers := before ++ { w with station } :: after } := by
  obtain ⟨within, here⟩ := List.getElem?_eq_some_iff.mp found
  have changed : ∀ w', ∃ before after, h.workers = before ++ h.workers[index] :: after ∧
      before.length = index ∧ h.workers.set index w' = before ++ w' :: after :=
    fun _ => List.exists_of_set within
  obtain ⟨before, after, split, _, changed⟩ :=
    changed { w with station := (h.act w preference).1 }
  rw [here] at split
  have act := h.act_spec w preference
  refine ⟨before, after, _, _, split, act, ?_⟩
  rw [stepWorker, found]
  simp only [act.workers, changed]

/-! ### Hosts use their desks soundly -/

theorem leases_perm (before after : List Worker) (w : Worker) :
    ((before ++ w :: after).filterMap (·.station.lease?)).Perm
      (w.station.lease?.toList ++ (before ++ after).filterMap (·.station.lease?)) := by
  refine (List.perm_middle.filterMap _).trans ?_
  rw [List.filterMap_cons]
  cases w.station.lease? <;> exact List.Perm.refl _

theorem sound_stepWorker (sound : h.usage.Sound) (index : Nat) (preference : Preference) :
    (h.stepWorker index preference).usage.Sound := by
  rcases found : h.workers[index]? with _ | w
  · rw [stepWorker, found]
    exact sound
  · obtain ⟨before, after, station, h', split, act, same⟩ := stepWorker_eq found preference
    -- The lease of the worker comes first, and the others are in its way no longer.
    obtain ⟨calls, _, done⟩ := act.calls ((before ++ after).filterMap (·.station.lease?))
    have first := sound.perm ((leases_perm before after w).symm.trans
      (List.Perm.of_eq (congrArg (List.filterMap (·.station.lease?)) split.symm)))
    have stepped := Usage.sound_run first calls
    change ((⟨h.desk, _⟩ : Usage).run calls).Sound at stepped
    rw [done] at stepped
    rw [same]
    exact stepped.perm (leases_perm before after { w with station })

/-! ### What the owner does -/

theorem desk_trigger (h : Host) (signal : Trigger) : (h.trigger signal).2.desk =
    (TaskQueue.enqueueUnique h.desk h.chain.policy.key .keepExisting .bootstrap).2 := by
  simp only [trigger, Chain.trigger, Chain.fire]
  rcases TaskQueue.enqueueUnique h.desk h.chain.policy.key .keepExisting .bootstrap with
    ⟨error | placement, desk⟩ <;> rfl

theorem desk_leaveGroup (h : Host) : h.leaveGroup.2.desk = h.desk := by
  unfold leaveGroup
  split <;> rfl

theorem workers_leaveGroup (h : Host) : h.leaveGroup.2.workers = h.workers := by
  unfold leaveGroup
  split <;> rfl

theorem desk_requestShutdown (h : Host) : h.requestShutdown.desk = h.desk := by
  unfold requestShutdown
  split <;> rfl

theorem workers_requestShutdown (h : Host) : h.requestShutdown.workers = h.workers := by
  unfold requestShutdown
  split <;> rfl

theorem workers_spawn (h : Host) (n : Nat) : (h.spawn n).workers =
    h.workers ++ List.replicate n ⟨h.leaveGroup.2.groups, .checking⟩ := by
  rw [← workers_leaveGroup h]
  rfl

theorem desk_spawn (h : Host) (n : Nat) : (h.spawn n).desk = h.desk := desk_leaveGroup h

theorem leases_spawn (h : Host) (n : Nat) : (h.spawn n).leases = h.leases := by
  have idle : (List.replicate n (⟨h.leaveGroup.2.groups, .checking⟩ : Worker)).filterMap
      (·.station.lease?) = [] := List.filterMap_replicate_of_none rfl
  rw [leases, workers_spawn, List.filterMap_append, idle, List.append_nil, leases]

theorem sound_move (sound : h.usage.Sound) (m : Move) : (h.move m).usage.Sound := by
  cases m with
  | step index preference => exact sound_stepWorker sound index preference
  | pass duration => exact sound.perform (.pass duration)
  | trigger signal =>
    have enqueued := sound.perform (.enqueueUnique h.chain.policy.key .keepExisting .bootstrap)
    rw [move, usage, desk_trigger]
    exact enqueued
  | close => exact sound.perform .close
  | spawn n =>
    rw [move, usage, leases_spawn, desk_spawn]
    exact sound
  | leave =>
    rw [move, usage, leases, desk_leaveGroup, workers_leaveGroup]
    exact sound
  | requestShutdown =>
    rw [move, usage, leases, desk_requestShutdown, workers_requestShutdown]
    exact sound
  | giveUp =>
    rw [move, usage, leases, desk_requestShutdown, workers_requestShutdown]
    exact sound

/-- A host uses its desk soundly, whatever its workers and its owner do. -/
theorem sound_moves (sound : h.usage.Sound) (ms : List Move) : (h.moves ms).usage.Sound :=
  moves_induction (P := fun h => h.usage.Sound) (fun _ m sound => sound_move sound m) sound ms

/-! ### Time that passes -/

theorem Act.now {group : Nat} {station station' : Station} {h' : Host}
    (act : Act h group station station' h') : h'.desk.now = h.desk.now := by
  have looked : ∀ {seen : Look} {desk : Desk}, h.desk.look = (seen, desk) →
      desk.now = h.desk.now := by
    intro seen desk same
    have left : desk = h.desk.look.2 := (congrArg Prod.snd same).symm
    rw [left]
    rcases found : h.desk.queue.look h.desk.now with ⟨_ | _ | _, q⟩ <;>
      simp only [Desk.look, found, Desk.enter]
  -- Of all steps, those that call the queue might have changed the clock of the desk.
  cases act with
  | shut seen | idle seen | lease seen => exact looked seen
  | refuse _ placed | place _ placed => exact congrArg (fun r => Desk.now r.2) placed.symm
  | complete done | drop done | lose done => exact congrArg (fun r => Desk.now r.2) done.symm
  | stop | goOn | recheck | leave | start | ask | fail | note | tell | rest => rfl

theorem now_stepWorker (h : Host) (index : Nat) (preference : Preference) :
    (h.stepWorker index preference).desk.now = h.desk.now := by
  rcases found : h.workers[index]? with _ | w
  · rw [stepWorker, found]
  · obtain ⟨_, _, _, h', _, act, same⟩ := stepWorker_eq found preference
    rw [same]
    exact act.now

/-- A waiting worker that finds no lease stays where it is. -/
theorem stepWorker_of_idle (found : h.workers[index]? = some w) (waits : w.station = .waiting)
    {wake : Option Nat} {q : Queue} (seen : h.desk.queue.look h.desk.now = (.idle wake, q)) :
    h.stepWorker index .lease = { h with desk := { h.desk with queue := q } } := by
  obtain ⟨within, here⟩ := List.getElem?_eq_some_iff.mp found
  obtain ⟨group, station⟩ := w
  subst waits
  have acts : h.act ⟨group, .waiting⟩ .lease =
      (.waiting, { h with desk := { h.desk with queue := q } }) := by
    have leases : (Preference.lease == Preference.stop) = false := rfl
    simp only [act, leases, Bool.and_false, Bool.false_eq_true, if_false, Desk.look, seen]
  rw [stepWorker, found]
  simp only [acts]
  rw [← here, List.set_getElem_self]

/-- What happens next is one move, or a look in vain and the time until the next wake-up. -/
theorem tick_eq_moves {limit : Nat} {h' : Host} (ticked : h.tick limit = some h') :
    ∃ ms, h' = h.moves ms ∧ (h.desk.now ≤ limit → h'.desk.now ≤ limit) := by
  unfold tick at ticked
  split at ticked
  · next index _ =>
    rw [Option.some.injEq] at ticked
    subst ticked
    refine ⟨[.step index .stop], rfl, ?_⟩
    rw [now_stepWorker]
    exact id
  · split at ticked
    · cases ticked
    · next index waiting =>
      split at ticked
      · cases ticked
      · next wake q seen =>
        split at ticked
        -- The clock moves on: a look in vain, and the time until the next wake-up.
        · next early =>
          rw [Option.some.injEq] at ticked
          obtain ⟨within, waits, _⟩ := List.findIdx?_eq_some_iff_getElem.mp waiting
          have found : h.workers[index]? = some h.workers[index] :=
            List.getElem?_eq_getElem within
          have station : h.workers[index].station = .waiting := by
            unfold isWaiting at waits
            split at waits
            · assumption
            · cases waits
          have later := (Queue.wakeupsAfter_look (congrArg Prod.fst seen)).1
          have whole := Clock.le_wholeMilli wake
          refine ⟨[.step index .lease, .pass (Clock.wholeMilli wake - h.desk.now)], ?_, ?_⟩
          · have reached : h.desk.now + (Clock.wholeMilli wake - h.desk.now) =
                Clock.wholeMilli wake := by omega
            simp only [moves, List.foldl_cons, List.foldl_nil, move,
              stepWorker_of_idle found station seen, reached, ← ticked]
          · intro _
            rw [← ticked]
            exact Nat.le_of_lt early
        · cases ticked
      · rw [Option.some.injEq] at ticked
        subst ticked
        refine ⟨[.step index .lease], rfl, ?_⟩
        rw [now_stepWorker]
        exact id

/-- Letting time pass is a row of moves. -/
theorem runUntil_eq_moves (limit budget : Nat) (h : Host) (early : h.desk.now ≤ limit) :
    ∃ ms, runUntil limit budget h = h.moves ms := by
  induction budget generalizing h with
  | zero => exact ⟨[], rfl⟩
  | succ budget ih =>
    rw [runUntil]
    split
    -- One thing happens, and then the rest does.
    · next h' ticked =>
      obtain ⟨first, rfl, inTime⟩ := tick_eq_moves ticked
      obtain ⟨rest, run⟩ := ih _ (inTime early)
      exact ⟨first ++ rest, by rw [run, moves_append]⟩
    -- Nothing happens any more until the limit.
    · refine ⟨[.pass (limit - h.desk.now)], ?_⟩
      have reached : h.desk.now + (limit - h.desk.now) = limit := by omega
      simp only [moves, List.foldl_cons, List.foldl_nil, move, reached]

end Host

end PacedChain
