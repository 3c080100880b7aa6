import PacedChain.Proofs.Desk.Agenda
import PacedChain.Proofs.Desk.Fares
import PacedChain.Proofs.Host.Alone

/-!
# Hosts among others

A host whose queue is used by others too, and whose groups have owners of their own: besides its
moves, tasks are put on the queue from outside, and groups are formed, asked to stop and left one
beside the other (`Incident`). Only workers take leases. What is not a step of a worker is a call of
somebody else on the desk or a change of the staff (`Host.meet_cases`), so every run of a host is a
row of calls on its desk in which no lease is given up (`Host.callsTo_meets`).
-/
namespace PacedChain

inductive Incident where
  | move (m : Move)
  /-- Somebody puts a task on the queue. -/
  | enqueue (job : Job)
  | enqueueDelayed (job : Job) (delay : Delay)
  | enqueueUnique (key : Key) (policy : HolderPolicy) (job : Job)
  /-- A group of workers is formed beside those that there are. -/
  | form (n : Nat)
  /-- A group is asked to stop. -/
  | ask (group : Nat)
  /-- A group is left without an owner. -/
  | leave (group : Nat)
  deriving DecidableEq

/-- A call that takes no lease and completes none. -/
def Call.isOutside : Call → Bool
  | .look | .complete _ _ | .drop _ => false
  | _ => true

theorem Call.isDrop_of_isOutside {call : Call} (outside : call.isOutside = true) :
    call.isDrop = false := by
  cases call <;> first | rfl | cases outside

namespace Host

def meet (h : Host) : Incident → Host
  | .move m => h.move m
  | .enqueue job => { h with desk := (h.desk.enqueue job).2 }
  | .enqueueDelayed job delay => { h with desk := (TaskQueue.enqueueDelayed h.desk job delay).2 }
  | .enqueueUnique key policy job =>
    { h with desk := (TaskQueue.enqueueUnique h.desk key policy job).2 }
  | .form n =>
    { h with
      workers := h.workers ++ List.replicate n ⟨h.groups, .checking⟩
      groups := h.groups + 1 }
  | .ask group => { h with asked := group :: h.asked }
  | .leave group => { h with left := group :: h.left }

def meets (h : Host) (incidents : List Incident) : Host := incidents.foldl meet h

/-- What every single incident keeps is kept by a row of them. -/
theorem meets_induction {P : Host → Prop} (step : ∀ h i, P h → P (h.meet i)) {h : Host}
    (first : P h) (incidents : List Incident) : P (h.meets incidents) := by
  induction incidents generalizing h with
  | nil => exact first
  | cons i incidents ih => exact ih (step h i first)

/-- The host after a call of somebody else, of which the chain may learn that it is pending. -/
def afterCall (h : Host) (call : Call) (status : Status) : Host :=
  { h with desk := (h.usage.perform call).desk, chain := { h.chain with status } }

variable {h h' : Host} {w : Worker}

/-- An incident is a step of a worker, a call of somebody else, or a change of the staff. -/
theorem meet_cases (h : Host) (i : Incident) :
    (∃ index preference, i = .move (.step index preference)) ∨
    (∃ call status, call.isOutside = true ∧ (∀ m, i = .move m → call.isGentle = true) ∧
      (status = h.chain.status ∨ status = h.chain.status.apply .bootstrapEnqueued) ∧
      h.meet i = h.afterCall call status) ∨
    (∃ n group, (h.meet i).desk = h.desk ∧ (h.meet i).chain = h.chain ∧
      (h.meet i).workers = h.workers ++ List.replicate n ⟨group, .checking⟩) := by
  have alone : h.workers = h.workers ++ List.replicate 0 ⟨0, .checking⟩ :=
    (List.append_nil _).symm
  cases i with
  | move m =>
    cases m with
    | step index preference => exact Or.inl ⟨index, preference, rfl⟩
    | pass duration =>
      exact Or.inr (Or.inl ⟨.pass duration, _, rfl, fun _ _ => rfl, Or.inl rfl, rfl⟩)
    | close => exact Or.inr (Or.inl ⟨.close, _, rfl, fun _ _ => rfl, Or.inl rfl, rfl⟩)
    | trigger signal =>
      refine Or.inr (Or.inl ⟨.enqueueUnique h.chain.policy.key .keepExisting .bootstrap, ?_⟩)
      rcases fired : TaskQueue.enqueueUnique h.desk h.chain.policy.key .keepExisting .bootstrap with
        ⟨error | placement, d⟩
      all_goals
        have after := trigger_eq signal fired
        have desk : (h.usage.perform (.enqueueUnique h.chain.policy.key .keepExisting
          .bootstrap)).desk = d := congrArg Prod.snd fired
        rw [meet, move, after]
      · refine ⟨h.chain.status, rfl, fun _ _ => rfl, Or.inl rfl, ?_⟩
        rw [afterCall, desk]
        rfl
      · cases new : placement.isNew
        · refine ⟨h.chain.status, rfl, fun _ _ => rfl, Or.inl rfl, ?_⟩
          simp only [afterCall, desk, Except.mapError, Chain.noteTrigger, new]
          rfl
        · refine ⟨_, rfl, fun _ _ => rfl, Or.inr rfl, ?_⟩
          simp only [afterCall, desk, Except.mapError, Chain.noteTrigger, new, if_true]
    | spawn n => exact Or.inr (Or.inr ⟨n, _, desk_spawn h n, chain_leaveGroup h, workers_spawn h n⟩)
    | leave =>
      exact Or.inr (Or.inr ⟨0, 0, desk_leaveGroup h, chain_leaveGroup h,
        (workers_leaveGroup h).trans alone⟩)
    | requestShutdown | giveUp =>
      exact Or.inr (Or.inr ⟨0, 0, desk_requestShutdown h, chain_requestShutdown h,
        (workers_requestShutdown h).trans alone⟩)
  | enqueue job =>
    refine Or.inr (Or.inl ⟨.enqueue job, _, rfl, fun m same => ?_, Or.inl rfl, rfl⟩)
    cases same
  | enqueueDelayed job delay =>
    refine Or.inr (Or.inl ⟨.enqueueDelayed job delay, _, rfl, fun m same => ?_, Or.inl rfl, rfl⟩)
    cases same
  | enqueueUnique key policy job =>
    refine Or.inr (Or.inl ⟨.enqueueUnique key policy job, _, rfl, fun m same => ?_, Or.inl rfl,
      rfl⟩)
    cases same
  | form n => exact Or.inr (Or.inr ⟨n, h.groups, rfl, rfl, rfl⟩)
  | ask | leave => exact Or.inr (Or.inr ⟨0, 0, rfl, rfl, alone⟩)

theorem leases_of_staff {n group : Nat}
    (staff : h'.workers = h.workers ++ List.replicate n ⟨group, .checking⟩) :
    h'.leases = h.leases := by
  have idle : (List.replicate n (⟨group, .checking⟩ : Worker)).filterMap
      (·.station.lease?) = [] := List.filterMap_replicate_of_none rfl
  rw [leases, staff, List.filterMap_append, idle, List.append_nil, leases]

theorem mem_leases_of_found {index : Nat} (found : h.workers[index]? = some w) {lease : Lease}
    (executes : w.station.lease? = some lease) : lease ∈ h.leases :=
  List.mem_filterMap.mpr ⟨w, List.mem_of_getElem? found, executes⟩

/-- What a worker executes runs. -/
theorem runs_of_found (sound : h.usage.Sound) {index : Nat} (found : h.workers[index]? = some w)
    (lease : Lease) (executes : w.station.lease? = some lease) : h.desk.queue.Runs lease :=
  sound.leased lease (mem_leases_of_found found executes)

theorem out_of_isOutside {u : Usage} {call : Call} (outside : call.isOutside = true) :
    (u.perform call).out = u.out := by
  cases call <;> first | rfl | cases outside

/-- A step of a worker changes that worker, the desk and the chain. -/
theorem stepWorker_spec {index : Nat} (found : h.workers[index]? = some w)
    (preference : Preference) :
    ∃ station h', Act h w.group w.station station h' ∧
      (h.stepWorker index preference).workers = h.workers.set index { w with station } ∧
      (h.stepWorker index preference).desk = h'.desk ∧
      (h.stepWorker index preference).chain = h'.chain ∧
      (h.stepWorker index preference).asked = h'.asked := by
  rw [stepWorker_of_some found]
  exact ⟨_, _, h.act_spec w preference, rfl, rfl, rfl, rfl⟩

/-! ### What a step enters -/

theorem journal_of_look {seen : Look} {desk : Desk} (looked : h.desk.look = (seen, desk)) :
    desk.journal = match seen with
      | .closed => (h.desk.now, .leaseEnd) :: h.desk.journal
      | .leased lease => (h.desk.now, .lease lease) :: h.desk.journal
      | .idle _ => h.desk.journal := by
  unfold Desk.look at looked
  rcases found : h.desk.queue.look h.desk.now with ⟨_ | _ | _, q⟩ <;> rw [found] at looked <;>
    cases looked <;> rfl

theorem journal_of_enqueueDelayed {job : Job} {delay : Delay} {result : Except QueueError TaskId}
    {desk : Desk} (placed : TaskQueue.enqueueDelayed h.desk job delay = (result, desk)) :
    desk.journal = (h.desk.now, .enqueueDelayed job delay result) :: h.desk.journal := by
  cases placed
  rfl

theorem journal_of_complete {id : TaskId} {outcome : Outcome}
    {result : Except CompleteError Completion} {desk : Desk}
    (done : h.desk.complete id outcome = (result, desk)) :
    desk.journal = (h.desk.now, .complete id outcome result) :: h.desk.journal := by
  cases done
  rfl

/-! ### What stays the same -/

/-- The constants of a chain. -/
def SameConstants (c c' : Chain) : Prop := c'.policy = c.policy ∧ c'.guard = c.guard

theorem SameConstants.successorDelay {c' : Chain} (same : SameConstants c c') (job : Job)
    (secs : Int) : c'.successorDelay job secs = c.successorDelay job secs := by
  cases job with
  | bootstrap => rfl
  | sync => rw [Chain.successorDelay, same.1, Chain.successorDelay]

theorem Act.sameConstants {group : Nat} {s s' : Station} (act : Act h group s s' h') :
    SameConstants h.chain h'.chain := by
  cases act with
  | @ask lease answer chain asked =>
    cases job : lease.envelope.job <;> rw [job] at asked <;> cases asked <;> exact ⟨rfl, rfl⟩
  | stop | goOn | recheck | leave | shut | idle | lease | start | fail | refuse | place | note
  | complete | drop | lose | tell | rest => exact ⟨rfl, rfl⟩

theorem sameConstants_meet (h : Host) (i : Incident) :
    SameConstants h.chain (h.meet i).chain := by
  rcases h.meet_cases i with ⟨index, preference, rfl⟩ | ⟨call, status, _, _, _, same⟩ |
    ⟨n, group, _, chain, _⟩
  · rcases found : h.workers[index]? with _ | w
    · rw [meet, move, stepWorker_of_none found]
      exact ⟨rfl, rfl⟩
    · obtain ⟨_, _, act, _, _, chain, _⟩ := stepWorker_spec found preference
      rw [meet, move, chain]
      exact act.sameConstants
  · rw [same]
    exact ⟨rfl, rfl⟩
  · rw [chain]
    exact ⟨rfl, rfl⟩

/-! ### Workers by where they stand -/

/-- How many workers stand in a certain way. -/
def tally (h : Host) (p : Station → Bool) : Nat := h.workers.countP fun w => p w.station

theorem tally_of_split {before after : List Worker} {w : Worker}
    (split : h.workers = before ++ w :: after) (p : Station → Bool) :
    h.tally p = (p w.station).toNat + (before ++ after).countP fun w => p w.station := by
  rw [tally, split, List.countP_append, List.countP_cons, List.countP_append]
  cases p w.station with
  | false =>
    rw [if_neg Bool.false_ne_true, Bool.toNat_false]
    omega
  | true =>
    rw [if_pos rfl, Bool.toNat_true]
    omega

theorem tally_of_staff {n group : Nat}
    (staff : h'.workers = h.workers ++ List.replicate n ⟨group, .checking⟩) (p : Station → Bool)
    (idle : p .checking = false) : h'.tally p = h.tally p := by
  rw [tally, staff, List.countP_append, List.countP_replicate, idle, if_neg Bool.false_ne_true]
  rfl

/-! ### Runs as calls -/

/-- One host comes to the other by calls of a kind on its desk. -/
def CallsTo (h : Host) (kind : Call → Prop) (h' : Host) : Prop :=
  ∃ calls, (∀ call ∈ calls, kind call) ∧ (h.usage.run calls).Like h'.usage

namespace CallsTo

variable {kind kind' : Call → Prop}

theorem refl (h : Host) : h.CallsTo kind h := ⟨[], nofun, .refl _⟩

theorem trans {h'' : Host} (first : h.CallsTo kind h') (second : h'.CallsTo kind h'') :
    h.CallsTo kind h'' := by
  obtain ⟨calls, all, like⟩ := first
  obtain ⟨more, all', like'⟩ := second
  refine ⟨calls ++ more, ?_, ?_⟩
  · intro call member
    exact (List.mem_append.mp member).elim (all call) (all' call)
  · rw [Usage.run_append]
    exact (like.run more).trans like'

theorem mono (came : h.CallsTo kind h') (weaker : ∀ call, kind call → kind' call) :
    h.CallsTo kind' h' := by
  obtain ⟨calls, all, like⟩ := came
  exact ⟨calls, fun call member => weaker call (all call member), like⟩

theorem single {call : Call} (one : kind call) (like : (h.usage.perform call).Like h'.usage) :
    h.CallsTo kind h' := by
  refine ⟨[call], ?_, like⟩
  rintro other member
  rw [List.mem_singleton.mp member]
  exact one

theorem none (desk : h'.desk = h.desk) (leases : h'.leases = h.leases) : h.CallsTo kind h' :=
  ⟨[], nofun, desk.symm, List.Perm.of_eq leases.symm⟩

/-- What every call of the kind keeps is kept, up to the order of the leases. -/
theorem keeps {P : Usage → Prop} (came : h.CallsTo kind h')
    (step : ∀ u call, kind call → P u → P (u.perform call)) (first : P h.usage) :
    ∃ out, P ⟨h'.desk, out⟩ ∧ out.Perm h'.leases := by
  obtain ⟨calls, all, desk, out⟩ := came
  have last := Usage.run_induction_of step first all
  refine ⟨_, ?_, out⟩
  change P ⟨h'.usage.desk, _⟩
  rw [← desk]
  exact last

theorem backoff (came : h.CallsTo kind h') :
    h'.desk.queue.backoff = h.desk.queue.backoff := by
  obtain ⟨_, same, _⟩ := came.keeps (P := fun u => u.desk.queue.backoff = h.desk.queue.backoff)
    (fun u call _ same => (Usage.backoff_perform u call).trans same) rfl
  exact same

theorem sound (sound : h.usage.Sound) (came : h.CallsTo kind h') : h'.usage.Sound := by
  obtain ⟨_, stays, out⟩ := came.keeps (fun _ call _ sound => sound.perform call) sound
  exact stays.perm out.symm

/-- What is kept at the desk by the calls on one that is used soundly. -/
theorem keeps_desk {P : Desk → Prop} (sound : h.usage.Sound) (came : h.CallsTo kind h')
    (step : ∀ (u : Usage) call, kind call → u.Sound → P u.desk → P (u.perform call).desk)
    (first : P h.desk) : P h'.desk := by
  obtain ⟨_, ⟨_, last⟩, _⟩ := came.keeps (P := fun u => u.Sound ∧ P u.desk)
    (fun u call one ⟨sound, now⟩ => ⟨sound.perform call, step u call one sound now⟩)
    ⟨sound, first⟩
  exact last

theorem past {lease : Lease} (sound : h.usage.Sound) (came : h.CallsTo kind h')
    (past : h.desk.queue.Past lease) : h'.desk.queue.Past lease :=
  came.keeps_desk (P := fun d => d.queue.Past lease) sound
    (fun _ call _ sound past => sound.past_perform past call) past

end CallsTo

/-- A step of a worker gives no lease up and replaces no task. -/
theorem callsTo_stepWorker (h : Host) (index : Nat) (preference : Preference) :
    h.CallsTo (·.isGentle = true) (h.stepWorker index preference) := by
  rcases found : h.workers[index]? with _ | w
  · rw [stepWorker_of_none found]
    exact .refl h
  · obtain ⟨before, after, station, h', split, act, same⟩ := stepWorker_eq found preference
    obtain ⟨calls, kind, done⟩ := act.calls ((before ++ after).filterMap (·.station.lease?))
    -- The lease of the worker is taken first, and put back in its place at the end.
    have first : h.usage.Like ⟨h.desk, w.station.lease?.toList ++
        (before ++ after).filterMap (·.station.lease?)⟩ := by
      refine ⟨rfl, ?_⟩
      rw [usage, leases, split]
      exact leases_perm before after w
    have last := first.run calls
    rw [done] at last
    rw [same]
    exact ⟨calls, kind, last.trans ⟨rfl, (leases_perm before after { w with station }).symm⟩⟩

theorem callsTo_meet (h : Host) (i : Incident) : h.CallsTo (·.isDrop = false) (h.meet i) := by
  rcases h.meet_cases i with ⟨index, preference, rfl⟩ | ⟨call, status, outside, _, _, same⟩ |
    ⟨n, group, desk, _, staff⟩
  · exact (callsTo_stepWorker h index preference).mono fun _ => Call.isDrop_of_isGentle
  · refine .single (Call.isDrop_of_isOutside outside) ?_
    rw [same]
    exact ⟨rfl, List.Perm.of_eq (out_of_isOutside outside)⟩
  · exact .none desk (leases_of_staff staff)

theorem callsTo_meets (h : Host) (incidents : List Incident) :
    h.CallsTo (·.isDrop = false) (h.meets incidents) :=
  meets_induction (P := h.CallsTo (·.isDrop = false))
    (fun g i first => first.trans (callsTo_meet g i)) (.refl h) incidents

theorem callsTo_move (h : Host) (m : Move) : h.CallsTo (·.isGentle = true) (h.move m) := by
  rcases h.meet_cases (.move m) with ⟨index, preference, same⟩ |
    ⟨call, status, outside, gentle, _, same⟩ | ⟨n, group, desk, _, staff⟩
  · cases same
    exact callsTo_stepWorker h index preference
  · refine .single (gentle m rfl) ?_
    rw [show h.move m = _ from same]
    exact ⟨rfl, List.Perm.of_eq (out_of_isOutside outside)⟩
  · exact .none desk (leases_of_staff staff)

theorem callsTo_moves (h : Host) (ms : List Move) :
    h.CallsTo (·.isGentle = true) (h.moves ms) :=
  moves_induction (P := h.CallsTo (·.isGentle = true))
    (fun g m first => first.trans (callsTo_move g m)) (.refl h) ms

/-- A desk that is used soundly, and whose waits can all be computed. -/
structure Able (h : Host) : Prop where
  sound : h.usage.Sound
  waits : ∀ attempts, ∃ delay, h.desk.queue.backoff.nextDelay attempts = .ok delay

theorem able_fresh (chain : Chain) {backoff : Backoff} (historyLimit : Nat)
    (waits : ∀ attempts, ∃ delay, backoff.nextDelay attempts = .ok delay) :
    (fresh chain backoff historyLimit).Able :=
  ⟨Usage.sound_start backoff historyLimit, waits⟩

theorem CallsTo.able {kind : Call → Prop} (able : h.Able) (came : h.CallsTo kind h') :
    h'.Able := by
  refine ⟨came.sound able.sound, ?_⟩
  rw [came.backoff]
  exact able.waits

/-- As no lease is given up, all that runs is still being executed. -/
theorem CallsTo.held (able : h.Able) (came : h.CallsTo (·.isDrop = false) h')
    (held : h.usage.Held) : h'.usage.Held := by
  have later := came.keeps (P := fun u => u.Sound ∧
    u.desk.queue.backoff = h.desk.queue.backoff ∧ u.Held) ?_ ⟨able.sound, rfl, held⟩
  · obtain ⟨out, ⟨_, _, held⟩, same⟩ := later
    intro id task known runs
    obtain ⟨lease, member, own⟩ := held id task known runs
    exact ⟨lease, same.subset member, own⟩
  · rintro u call kind ⟨sound, same, held⟩
    exact ⟨sound.perform call, (Usage.backoff_perform u call).trans same,
      held.perform sound (same ▸ able.waits) kind⟩

end Host

end PacedChain
