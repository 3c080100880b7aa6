import PacedChain.Proofs.Host.News
import PacedChain.Proofs.Host.Watched

/-!
# Triggers under way

A trigger calls the queue first and tells the chain afterwards, and anything may happen between the
two (`Traffic`). With one worker at a time, a phase that says that a bootstrap is to come is right,
unless the worker has outrun a trigger: it had begun the bootstrap before the chain was told that it
was enqueued (`Traffic.bootstrap_left_unless_outrun`). The phase can then stay what it is although
no bootstrap is left (`Traffic.pending_without_bootstrap`).
-/
namespace PacedChain

/-- A host with the triggers that are under way. -/
structure Traffic where
  host : Host
  /-- What came of the calls that the chain is still to be told of. -/
  returning : List (Except ChainError Placement) := []

/-- What came of a call is told too late: the chain will take the bootstrap for one to come, and
none is left but one whose execution has begun. -/
structure Belated (result : Except ChainError Placement) (d : Desk) (p : Phase) (s : Station) :
    Prop where
  news : ∃ placement, result = .ok placement ∧ placement.isNew = true
  dormant : p.isLive = false
  begun : ¬d.Left s .bootstrap

namespace Traffic

/-- What can happen: a step of a trigger, or a move of the host. -/
inductive Step where
  /-- A trigger calls the queue. -/
  | call (signal : Trigger)
  /-- One of the triggers under way tells the chain, and is done. -/
  | tell (index : Nat)
  | move (m : Move)
  deriving DecidableEq

def step (t : Traffic) : Step → Traffic
  | .call signal =>
    let (result, desk) := Chain.fire signal t.host.chain.policy.key t.host.desk
    { host := { t.host with desk }, returning := t.returning ++ [result] }
  | .tell index =>
    match t.returning[index]? with
    | none => t
    | some result =>
      { host := { t.host with chain := t.host.chain.noteTrigger result }
        returning := t.returning.eraseIdx index }
  | .move m => { t with host := t.host.move m }

def steps (t : Traffic) (ts : List Step) : Traffic := ts.foldl step t

def fresh (chain : Chain) (backoff : Backoff) (historyLimit : Nat) : Traffic :=
  { host := Host.fresh chain backoff historyLimit }

def phase (t : Traffic) : Phase := t.host.chain.status.phase

/-- At no time on the way is there more than one worker. -/
def Alone (run : List Step → Traffic) (ts : List Step) : Prop :=
  ∀ before, before <+: ts → (run before).host.active.length ≤ 1

instance (run : List Step → Traffic) (ts : List Step) : Decidable (Alone run ts) :=
  decidable_of_iff (∀ before ∈ ts.inits, (run before).host.active.length ≤ 1)
    (forall_congr' fun before => imp_congr_left (List.mem_inits before ts))

/-- A trigger has been outrun by the worker, and now tells the chain. -/
def Outruns (t : Traffic) (index : Nat) : Prop :=
  ∃ result, t.returning[index]? = some result ∧ Belated result t.host.desk t.phase t.host.seat

/-- A trigger was outrun, and the phase has been what it told the chain ever since. -/
def Outrun (run : List Step → Traffic) (ts : List Step) : Prop :=
  ∃ before index after, ts = before ++ .tell index :: after ∧ (run before).Outruns index ∧
    ∀ more, more <+: after → (run (before ++ .tell index :: more)).phase = .bootstrapPending

variable {t : Traffic} {ts : List Step} {run : List Step → Traffic}

theorem steps_concat (t : Traffic) (ts : List Step) (next : Step) :
    t.steps (ts ++ [next]) = (t.steps ts).step next := by
  rw [steps, List.foldl_append]
  rfl

/-- A trigger is its two steps with nothing between them. -/
theorem step_trigger (t : Traffic) (signal : Trigger) :
    t.step (.move (.trigger signal)) = t.steps [.call signal, .tell t.returning.length] := by
  rcases fired : Chain.fire signal t.host.chain.policy.key t.host.desk with ⟨result, desk⟩
  simp [steps, step, fired, Host.move, Host.trigger, Chain.trigger,
    List.eraseIdx_append_of_length_le]

/-- A trigger that was outrun stays so until the phase changes. -/
theorem Outrun.concat (outrun : Outrun run ts) {next : Step}
    (still : (run (ts ++ [next])).phase = .bootstrapPending) : Outrun run (ts ++ [next]) := by
  obtain ⟨before, index, after, rfl, late, since⟩ := outrun
  refine ⟨before, index, after ++ [next], by simp, late, fun more le => ?_⟩
  rcases List.prefix_concat_iff.mp le with rfl | le
  · simpa using still
  · exact since more le

theorem Outruns.outrun {index : Nat} (late : (run ts).Outruns index)
    (now : (run (ts ++ [.tell index])).phase = .bootstrapPending) :
    Outrun run (ts ++ [.tell index]) := by
  refine ⟨ts, index, [], rfl, late, fun more le => ?_⟩
  rw [List.prefix_nil.mp le]
  exact now

end Traffic

/-! ### What a step of the worker leaves -/

theorem Job.startEvent_inj {job other : Job} (same : job.startEvent = other.startEvent) :
    job = other := by
  cases job <;> cases other <;> first | rfl | cases same

/-- What a worker tells the chain: a task begins, it is given up, or what was promised is there. -/
theorem Station.news?_cases {s : Station} {news : News} (told : s.news? = some news) :
    (∃ job : Job, news.event = job.startEvent) ∨ news.event = .gaveUp ∨
      (news.event = .syncScheduled ∧ s.promised? = some .sync) ∨
      ∃ job : Job, news.event = job.retryEvent ∧ s.promised? = some job := by
  unfold news? at told
  split at told <;> cases told
  · exact Or.inl ⟨_, rfl⟩
  · exact Or.inr (Or.inr (Or.inl ⟨rfl, rfl⟩))
  · exact Or.inr (Or.inr (Or.inr ⟨_, rfl, rfl⟩))
  · exact Or.inr (Or.inl rfl)

namespace Desk

variable {d : Desk} {lease : Lease}

/-- A completion takes its task off the agenda, or leaves the agenda as it is. -/
theorem agenda_complete (kept : d.queue.Kept) (runs : d.queue.Runs lease) (outcome : Outcome) :
    (d.complete lease.envelope.task outcome).2.agenda =
      match (d.complete lease.envelope.task outcome).1 with
      | .ok .succeeded | .ok (.dead _) => d.agenda.filter (·.task ≠ lease.envelope.task)
      | _ => d.agenda := by
  obtain ⟨task, known, state, _⟩ := runs
  have going : task.state.isTerminal = false := by rw [state]; rfl
  exact Queue.agenda_complete kept known going d.now outcome

end Desk

namespace Host

variable {h h' : Host} {group : Nat} {s s' : Station} {job : Job}

/-- What is left stays when the worker takes a step, unless the step begins a task of the job. -/
theorem Act.left (act : Act h group s s' h') (sound : Usage.Sound ⟨h.desk, s.lease?.toList⟩)
    (quiet : s.news? ≠ some (.happened job.startEvent)) (left : h.desk.Left s job) :
    h'.desk.Left s' job := by
  have kept := sound.kept
  cases act with
  | stop | goOn | recheck | leave | ask | fail | note | tell | rest =>
    exact left.mono (fun _ member => member) rfl
  | shut seen | idle seen =>
    obtain ⟨_, same⟩ := Desk.agenda_look_of_not_leased kept seen rfl
    exact left.mono (fun _ member => same ▸ member) rfl
  | lease seen =>
    obtain ⟨_, _, same⟩ := Desk.agenda_look_leased kept seen
    exact left.started same rfl
  | start lease =>
    -- What begins is of another job, and so another task.
    have other : lease.envelope.job ≠ job := by
      rintro rfl
      exact quiet rfl
    obtain ⟨begun, listed, task, is, _⟩ :=
      Queue.item_of_runs kept (sound.leased lease List.mem_cons_self)
    obtain ⟨item, member, rfl, _⟩ := left
    refine ⟨item, member, rfl, fun equal => other ?_⟩
    have same : item.task = begun.task := (Option.some.inj equal).symm.trans task.symm
    rw [Queue.eq_of_task_eq kept member listed same, is]
  | refuse _ refused =>
    rw [Desk.enqueueDelayed_error refused]
    exact left.mono (fun _ member => member) rfl
  | place _ placed =>
    obtain ⟨_, same, _⟩ := Desk.enqueueDelayed_ok placed
    refine left.mono (fun item member => ?_) rfl
    simp [same, member]
  | @complete lease result completion _ done =>
    have same := Desk.agenda_complete kept (sound.leased lease List.mem_cons_self)
      (Chain.outcome result)
    rw [done] at same
    cases completion with
    | succeeded | dead attempts => exact left.filter rfl same rfl
    | retryScheduled attempt secs => exact left.free same rfl
  | @drop lease result _ _ done | @lose lease result _ _ done =>
    have same := Desk.agenda_complete kept (sound.leased lease List.mem_cons_self)
      (Chain.outcome result)
    rw [done] at same
    exact left.free same rfl

/-- What a step promises is left. -/
theorem Act.left_of_promised (act : Act h group s s' h')
    (sound : Usage.Sound ⟨h.desk, s.lease?.toList⟩) (told : s'.promised? = some job) :
    h'.desk.Left s' job := by
  cases act with
  | place _ placed =>
    obtain ⟨rfl, same, _⟩ := Desk.enqueueDelayed_ok placed
    cases told
    refine ⟨⟨⟨h.desk.queue.created + 1⟩, .sync, none, 0⟩, ?_, rfl, Desk.engaged?_ne_next sound⟩
    simp [same]
  | @complete lease result completion _ done =>
    have runs := sound.leased lease List.mem_cons_self
    obtain ⟨item, member, _, is, _⟩ := Queue.item_of_runs sound.kept runs
    have same := Desk.agenda_complete sound.kept runs (Chain.outcome result)
    rw [done] at same
    cases completion with
    | succeeded | dead attempts => cases told
    | retryScheduled attempt secs =>
      refine ⟨item, ?_, is.trans (Option.some.inj told), ?_⟩
      · rw [same]
        exact member
      · exact (Option.some_ne_none _).symm
  | stop | goOn | recheck | leave | shut | idle | lease | start | ask | fail | refuse | note | drop
  | lose | tell | rest => cases told

/-- Where a task is to come after a step of the worker, none of its job begins with the step, and
the phase was the same before or the task had been promised. -/
theorem Act.phase_of_pending (act : Act h group s s' h')
    (told : h'.chain.status.phase.pending? = some job) :
    s.news? ≠ some (.happened job.startEvent) ∧
      (h'.chain.status.phase = h.chain.status.phase ∨ s.promised? = some job) := by
  have heard := congrArg Status.phase act.status
  cases hears : s.news? with
  | none =>
    rw [hears] at heard
    exact ⟨(Option.some_ne_none _).symm, Or.inl heard⟩
  | some news =>
    rw [hears, Option.elim_some, Status.phase_hear] at heard
    rw [heard] at told ⊢
    have quiet : news.event ≠ job.startEvent →
        some news ≠ some (.happened job.startEvent) := by
      rintro other ⟨⟩
      exact other rfl
    rcases Station.news?_cases hears with
      ⟨begun, event⟩ | event | ⟨event, promised⟩ | ⟨again, event, promised⟩ <;>
      rw [event] at told quiet ⊢
    -- A task begins. In the phase that follows none is to come, unless the event is passed over.
    · rcases Phase.after_start h.chain.status.phase begun with ⟨_, after⟩ | ⟨other, after⟩ <;>
        rw [after] at told ⊢
      · simp at told
      · refine ⟨quiet fun same => other ?_, Or.inl rfl⟩
        rw [Job.startEvent_inj same]
        exact told
    -- No other event begins a task, and what it says is to come was promised.
    · have never : Event.gaveUp ≠ job.startEvent := by cases job <;> decide
      rcases Phase.after_gaveUp h.chain.status.phase with ⟨_, after⟩ | ⟨_, after⟩ <;>
        rw [after] at told ⊢
      · cases told
      · exact ⟨quiet never, Or.inl rfl⟩
    · have never : Event.syncScheduled ≠ job.startEvent := by cases job <;> decide
      rcases Phase.after_syncScheduled h.chain.status.phase with ⟨_, after⟩ | ⟨_, after⟩ <;>
        rw [after] at told ⊢
      · cases told
        exact ⟨quiet never, Or.inr promised⟩
      · exact ⟨quiet never, Or.inl rfl⟩
    · have never : again.retryEvent ≠ job.startEvent := by cases again <;> cases job <;> decide
      rcases Phase.after_retry h.chain.status.phase again with ⟨_, after⟩ | ⟨_, after⟩ <;>
        rw [after] at told ⊢
      · rw [Phase.pending?_retry] at told
        exact ⟨quiet never, Or.inr (promised.trans told)⟩
      · exact ⟨quiet never, Or.inl rfl⟩

/-- A trigger leaves on the agenda what is there, and a bootstrap that it enqueues is left. -/
theorem agenda_trigger (h : Host) (signal : Trigger)
    (sound : Usage.Sound ⟨h.desk, s.lease?.toList⟩) :
    (∀ item ∈ h.desk.agenda, item ∈ (h.trigger signal).2.desk.agenda) ∧
      ∀ placement, (h.trigger signal).1 = .ok placement → placement.isNew = true →
        (h.trigger signal).2.desk.Left s .bootstrap := by
  obtain ⟨result, d', answered, _, cases⟩ := Desk.enqueueUnique_keepExisting_cases sound.kept
    sound.indexed h.chain.policy.key .bootstrap
  have answer : (h.trigger signal).1 = result.mapError .scheduling := by
    simp only [Host.trigger, Chain.trigger, Chain.fire, answered]
    cases result <;> rfl
  rw [answer, desk_trigger, answered]
  rcases cases with ⟨error, rfl, same⟩ | ⟨holder, rfl, same, _⟩ | ⟨_, rfl, same⟩
  -- The queue is closed, or the key is held: nothing is new.
  · refine ⟨fun _ member => same ▸ member, fun placement placed => ?_⟩
    cases placed
  · refine ⟨fun _ member => same ▸ member, fun placement placed new => ?_⟩
    cases placed
    cases new
  · have listed : ∀ item, item ∈ d'.agenda ↔ item ∈ h.desk.agenda ∨
        item = ⟨⟨h.desk.queue.created + 1⟩, .bootstrap, some h.chain.policy.key, 0⟩ := by
      simp [same]
    refine ⟨fun item member => (listed item).mpr (Or.inl member), fun _ _ _ => ?_⟩
    exact ⟨_, (listed _).mpr (Or.inr rfl), rfl, Desk.engaged?_ne_next sound⟩

end Host

/-! ### What the phase foresees -/

/-- A bootstrap that the phase says is to come is left, unless a trigger came too late; and so is
one that the chain is to be told of. -/
structure Foreseen (late : Prop) (d : Desk) (p : Phase) (s : Station) : Prop where
  pending : p = .bootstrapPending → d.Left s .bootstrap ∨ late
  retry : p = .bootstrapRetry → d.Left s .bootstrap
  promised : s.promised? = some .bootstrap → d.Left s .bootstrap

namespace Foreseen

variable {late late' : Prop} {h h' : Host} {d d' : Desk} {p : Phase} {s s' : Station}

theorem mono (foreseen : Foreseen late d p s)
    (more : ∀ item ∈ d.agenda, item ∈ d'.agenda) : Foreseen late d' p s where
  pending is := (foreseen.pending is).imp_left (·.mono more rfl)
  retry is := (foreseen.retry is).mono more rfl
  promised told := (foreseen.promised told).mono more rfl

theorem imp (foreseen : Foreseen late d p s) (later : p = .bootstrapPending → late → late') :
    Foreseen late' d p s where
  pending is := (foreseen.pending is).imp_right (later is)
  retry := foreseen.retry
  promised := foreseen.promised

/-- A step of the worker keeps what is foreseen. -/
theorem work (act : Host.Act h group s s' h') (sound : Usage.Sound ⟨h.desk, s.lease?.toList⟩)
    (foreseen : Foreseen late h.desk h.chain.status.phase s) :
    Foreseen late h'.desk h'.chain.status.phase s' where
  pending is := by
    obtain ⟨quiet, same | told⟩ := act.phase_of_pending (congrArg Phase.pending? is)
    · exact (foreseen.pending (same.symm.trans is)).imp_left (act.left sound quiet)
    · exact Or.inl (act.left sound quiet (foreseen.promised told))
  retry is := by
    obtain ⟨quiet, same | told⟩ := act.phase_of_pending (congrArg Phase.pending? is)
    · exact act.left sound quiet (foreseen.retry (same.symm.trans is))
    · exact act.left sound quiet (foreseen.promised told)
  promised := act.left_of_promised sound

/-- The chain is told what came of a call. If it goes by that, a bootstrap is left, or the chain was
told too late. -/
theorem note (c : Chain) (result : Except ChainError Placement)
    (foreseen : Foreseen late d c.status.phase s) :
    Foreseen (late ∨ Belated result d c.status.phase s) d
      (c.noteTrigger result).status.phase s := by
  have unchanged : Foreseen (late ∨ Belated result d c.status.phase s) d c.status.phase s :=
    foreseen.imp fun _ => Or.inl
  unfold Chain.noteTrigger
  split
  · next placement =>
    split
    · next new =>
      change Foreseen _ d (c.status.phase.after .bootstrapEnqueued) s
      rcases Phase.after_bootstrapEnqueued c.status.phase with ⟨dormant, after⟩ | ⟨_, after⟩ <;>
        rw [after]
      · refine ⟨fun _ => ?_, nofun, foreseen.promised⟩
        by_cases left : d.Left s .bootstrap
        · exact Or.inl left
        · exact Or.inr (Or.inr ⟨⟨placement, rfl, new⟩, dormant, left⟩)
      · exact unchanged
    · exact unchanged
  · exact unchanged

/-- A trigger that nothing comes between is never too late. -/
theorem trigger (h : Host) (signal : Trigger) (sound : Usage.Sound ⟨h.desk, s.lease?.toList⟩)
    (foreseen : Foreseen late h.desk h.chain.status.phase s) :
    Foreseen late (h.trigger signal).2.desk (h.trigger signal).2.chain.status.phase s := by
  obtain ⟨more, new⟩ := h.agenda_trigger signal sound
  refine ((foreseen.mono more).note h.chain (h.trigger signal).1).imp fun _ => ?_
  rintro (late | ⟨⟨placement, placed, isNew⟩, _, begun⟩)
  · exact late
  · exact absurd (new placement placed isNew) begun

/-- A move with one worker at a time keeps what is foreseen. -/
theorem deed {m : Move} {c : Chain} (deed : Host.Deed h m d c s)
    (sound : Usage.Sound ⟨h.desk, h.seat.lease?.toList⟩)
    (foreseen : Foreseen late h.desk h.chain.status.phase h.seat) :
    Foreseen late d c.status.phase s := by
  cases deed with
  | work _ _ act => exact foreseen.work act sound
  | trigger signal => exact foreseen.trigger h signal sound
  | pass | close | nothing => exact ⟨foreseen.pending, foreseen.retry, foreseen.promised⟩
  | arrive n gone =>
    rw [gone] at foreseen
    exact ⟨foreseen.pending, foreseen.retry, foreseen.promised⟩

end Foreseen

namespace Traffic

variable {t : Traffic} {ts : List Step} {late : Prop}

theorem sound_step (sound : t.host.usage.Sound) (next : Step) :
    (t.step next).host.usage.Sound := by
  cases next with
  | call signal => exact Host.sound_move sound (.trigger signal)
  | tell index =>
    rw [step]
    cases t.returning[index]? <;> exact sound
  | move m => exact Host.sound_move sound m

/-- Each step keeps what is foreseen, unless it is that of a trigger that was outrun. -/
theorem foreseen_step (next : Step) (before : t.host.active.length ≤ 1)
    (after : (t.step next).host.active.length ≤ 1) (sound : t.host.usage.Sound)
    (foreseen : Foreseen late t.host.desk t.phase t.host.seat) :
    Foreseen (late ∨ ∃ index, next = .tell index ∧ t.Outruns index)
      (t.step next).host.desk (t.step next).phase (t.step next).host.seat := by
  rw [Host.usage, Host.leases_eq before] at sound
  cases next with
  | call signal =>
    exact (foreseen.mono (t.host.agenda_trigger signal sound).1).imp fun _ => Or.inl
  | tell index =>
    rcases back : t.returning[index]? with _ | result
    · rw [step, back]
      exact foreseen.imp fun _ => Or.inl
    · rw [step, back]
      refine (foreseen.note t.host.chain result).imp fun _ => Or.imp_right fun belated => ?_
      exact ⟨index, rfl, result, back, belated⟩
  | move m => exact (foreseen.deed (Host.deed_move before m after) sound).imp fun _ => Or.inl

/-- What is foreseen stays so on the way, unless a trigger was outrun. -/
theorem foreseen_steps (sound : t.host.usage.Sound)
    (first : Foreseen False t.host.desk t.phase t.host.seat) (alone : Alone t.steps ts) :
    (t.steps ts).host.usage.Sound ∧
      Foreseen (Outrun t.steps ts) (t.steps ts).host.desk (t.steps ts).phase
        (t.steps ts).host.seat := by
  induction ts using List.reverseRecOn with
  | nil => exact ⟨sound, first.imp fun _ => False.elim⟩
  | append_singleton ts next ih =>
    have before := alone ts (List.prefix_append ts [next])
    have after := alone (ts ++ [next]) (List.prefix_refl _)
    obtain ⟨sound, foreseen⟩ := ih fun sooner le => alone sooner (le.trans (List.prefix_append _ _))
    rw [steps_concat] at after ⊢
    refine ⟨sound_step sound next, (foreseen_step next before after sound foreseen).imp ?_⟩
    rw [← steps_concat]
    rintro now (outrun | ⟨index, rfl, late⟩)
    · exact outrun.concat now
    · exact late.outrun now

/-- A phase that says that a bootstrap is to come is right, however the steps of any triggers come
between those of the worker, unless the worker has outrun a trigger: it had begun the bootstrap
before the chain was told that it was enqueued, and nothing has changed the phase since. -/
theorem bootstrap_left_unless_outrun (chain : Chain) (backoff : Backoff) (historyLimit : Nat)
    (ts : List Step) (new : chain.status = {})
    (alone : Alone (fresh chain backoff historyLimit).steps ts) :
    let t := (fresh chain backoff historyLimit).steps ts
    let left := t.host.desk.queue.unfinished
    (t.phase = .bootstrapRetry → 0 < left .bootstrap) ∧
      (t.phase = .bootstrapPending →
        0 < left .bootstrap ∨ Outrun (fresh chain backoff historyLimit).steps ts) := by
  have sound : (fresh chain backoff historyLimit).host.usage.Sound :=
    Usage.sound_start backoff historyLimit
  have begins : (fresh chain backoff historyLimit).phase = .notStarted := by
    change chain.status.phase = .notStarted
    rw [new]
  have first : Foreseen False (fresh chain backoff historyLimit).host.desk
      (fresh chain backoff historyLimit).phase (fresh chain backoff historyLimit).host.seat := by
    rw [begins]
    exact ⟨nofun, nofun, nofun⟩
  obtain ⟨_, foreseen⟩ := foreseen_steps sound first alone
  have counted : ∀ {d : Desk} {s : Station}, d.Left s .bootstrap →
      0 < d.queue.unfinished .bootstrap := by
    rintro d s ⟨item, member, is, _⟩
    exact Queue.unfinished_pos_iff.mpr ⟨item, member, is⟩
  exact ⟨fun is => counted (foreseen.retry is), fun is => (foreseen.pending is).imp_left counted⟩

/-- The chain is told between the lease and the start of a bootstrap whose first attempt fails. -/
theorem bootstrap_left_unless_outrun_after_failure :
    let chain : Chain := {
      policy := {}
      oracle := Boundary.script [] (.fails "out of reach")
      engine := Boundary.script [] (.recommends 0) }
    let t := (fresh chain Backoff.standard 0).steps
      ([.move (.spawn 1), .call .bootCompleted] ++ List.replicate 2 (.move (.step 0 .lease)) ++
        [.tell 0] ++ List.replicate 5 (.move (.step 0 .lease)))
    t.phase = .bootstrapRetry ∧ 0 < t.host.desk.queue.unfinished .bootstrap := by
  intro chain
  have failed : ((fresh chain Backoff.standard 0).steps
    ([.move (.spawn 1), .call .bootCompleted] ++ List.replicate 2 (.move (.step 0 .lease)) ++
      [.tell 0] ++ List.replicate 5 (.move (.step 0 .lease)))).phase = .bootstrapRetry := by
    decide +kernel
  obtain ⟨retry, _⟩ := bootstrap_left_unless_outrun chain Backoff.standard 0
    ([.move (.spawn 1), .call .bootCompleted] ++ List.replicate 2 (.move (.step 0 .lease)) ++
      [.tell 0] ++ List.replicate 5 (.move (.step 0 .lease))) rfl (by decide +kernel)
  exact ⟨failed, retry failed⟩

/-- The worker carries out the bootstrap before the chain is told that it was enqueued. The phase
waits for a bootstrap ever after, although none is left and the syncs go on. -/
theorem pending_without_bootstrap :
    let chain : Chain := {
      policy := {}
      oracle := Boundary.script [] (.recommends 10)
      engine := Boundary.script [] (.recommends 20) }
    let run := (fresh chain Backoff.standard 0).steps
    let ts := [.move (.spawn 1), .call .bootCompleted] ++
      List.replicate 8 (.move (.step 0 .lease)) ++ [.tell 0, .move (.pass (Clock.ofSecs 10))] ++
      List.replicate 8 (.move (.step 0 .lease))
    Alone run ts ∧ (run ts).returning.isEmpty = true ∧ (run ts).host.atRest = true ∧
      (run ts).host.chain.status.syncRuns = 1 ∧ (run ts).phase = .bootstrapPending ∧
      (run ts).host.desk.queue.unfinished .bootstrap = 0 := by
  decide +kernel

end Traffic

end PacedChain
