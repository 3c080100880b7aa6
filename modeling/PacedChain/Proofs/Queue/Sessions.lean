import Mathlib.Data.List.ReduceOption
import PacedChain.Queue.Session
import PacedChain.Proofs.Desk.Usage
import PacedChain.Proofs.Queue.History

/-!
# Sessions and history

A session uses its queue as calls on a desk do, so what holds of every desk in use holds of its
queue (`Session.Sound`). With that, a session comes to the same with and without the history of its
queue (`Session.run_withoutHistory`), and how much history is kept cannot be told from its answers,
apart from those that are about history (`Session.history_limit_unseen`).
-/
namespace PacedChain

namespace Queue

/-- The queue is as calls on a desk leave it, with these leases out. -/
def Used (q : Queue) (out : List Lease) : Prop :=
  ∃ desk : Desk, desk.queue = q ∧ Usage.Sound ⟨desk, out⟩

variable {q : Queue} {out : List Lease}

theorem Used.kept (used : q.Used out) : q.Kept := by
  obtain ⟨desk, rfl, sound⟩ := used
  exact sound.kept

/-- A lease that is out is of a task that goes on. -/
theorem Used.task?_of_mem (used : q.Used out) {lease : Lease} (member : lease ∈ out) :
    ∃ task, q.task? lease.envelope.task = some task ∧ task.state.isTerminal = false := by
  obtain ⟨desk, rfl, sound⟩ := used
  obtain ⟨task, known, runs, _⟩ := sound.leased lease member
  exact ⟨task, known, by rw [runs]; rfl⟩

theorem Used.perm (used : q.Used out) {out' : List Lease} (perm : out'.Perm out) :
    q.Used out' := by
  obtain ⟨desk, rfl, sound⟩ := used
  exact ⟨desk, rfl, sound.perm perm⟩

theorem used_empty (backoff : Backoff) (limit : Nat) : (empty backoff limit).Used [] :=
  ⟨_, rfl, Usage.sound_start backoff limit⟩

/-- It does not matter when a call comes. -/
theorem Used.perform (used : q.Used out) (now : Nat) (call : Call) : ∃ journal,
    let u := (⟨⟨now, q, journal⟩, out⟩ : Usage).perform call
    u.desk.queue.Used u.out := by
  obtain ⟨desk, rfl, sound⟩ := used
  have anyTime : Usage.Sound ⟨⟨now, desk.queue, desk.journal⟩, out⟩ :=
    ⟨sound.kept, sound.placed, sound.indexed, sound.leased, sound.noted, sound.once⟩
  exact ⟨desk.journal, _, rfl, anyTime.perform call⟩

theorem Used.complete {lease : Lease} (used : q.Used (lease :: out)) (now : Nat)
    (outcome : Outcome) : (q.complete now lease.envelope.task outcome).2.Used out := by
  obtain ⟨journal, after⟩ := used.perform now (.complete lease outcome)
  simpa only [Usage.perform, List.mem_cons_self, if_true, List.erase_cons_head, Desk.complete,
    Desk.enter] using after

theorem Used.leaseBy (used : q.Used out) (now deadline : Nat) :
    match q.leaseBy now deadline with
    | (.leased lease _, q') => q'.Used (lease :: out)
    | (_, q') => q'.Used out := by
  fun_induction q.leaseBy now deadline with
  | case1 q now q' seen =>
    obtain ⟨journal, after⟩ := used.perform now .look
    rw [Usage.perform_look_closed seen] at after
    exact after
  | case2 q now lease q' seen =>
    obtain ⟨journal, after⟩ := used.perform now .look
    rw [Usage.perform_look_leased seen] at after
    exact after
  | case3 q now q' seen =>
    obtain ⟨journal, after⟩ := used.perform now .look
    rw [Usage.perform_look_idle seen] at after
    exact after
  | case4 q now wake q' seen next inTime ih =>
    obtain ⟨journal, after⟩ := used.perform now .look
    rw [Usage.perform_look_idle seen] at after
    exact ih after
  | case5 q now wake q' seen next late =>
    obtain ⟨journal, after⟩ := used.perform now .look
    rw [Usage.perform_look_idle seen] at after
    exact after

end Queue

/-- What comes to the same under two maps either fails with the same error or succeeds twice. -/
theorem map_eq_map_cases {ε α β γ : Type} {x : Except ε α} {y : Except ε β} {f : α → γ}
    {g : β → γ} (same : x.map f = y.map g) :
    (∃ e, x = .error e ∧ y = .error e) ∨ ∃ a b, x = .ok a ∧ y = .ok b ∧ f a = g b := by
  cases x with
  | error e =>
    cases y with
    | error e' => exact Or.inl ⟨e, rfl, congrArg Except.error (Except.error.inj same).symm⟩
    | ok b => cases same
  | ok a =>
    cases y with
    | error e' => cases same
    | ok b => exact Or.inr ⟨a, b, rfl, rfl, Except.ok.inj same⟩

/-! ### Answers without history -/

/-- What is left of an answer where history does not count: neither the log, nor how much is kept,
nor how a task has ended. -/
def Reply.withoutHistory : Reply → Reply
  | .log _ => .log []
  | .count _ => .count 0
  | .state found => .state (found.filter fun state => !state.isTerminal)
  | reply => reply

def Observation.withoutHistory (o : Observation) : Observation :=
  { o with reply := o.reply.withoutHistory }

namespace Session

/-- The leases that a session still holds. -/
def held (s : Session) : List Lease := s.leases.reduceOption

/-- The queue is used soundly, with the leases that are held. -/
def Sound (s : Session) : Prop := s.queue.Used s.held

def withoutHistory (s : Session) : Session := { s with queue := s.queue.withoutHistory }

theorem sound_start (backoff : Backoff) (limit : Nat) : (start (Queue.empty backoff limit)).Sound :=
  Queue.used_empty backoff limit

variable {s s' : Session}

theorem release_eq_some {number : Nat} {lease : Lease}
    (released : s.release number = some (lease, s')) :
    ∃ leases, s' = { s with leases } ∧ s.held.Perm (lease :: leases.reduceOption) := by
  unfold release at released
  cases number with
  | zero => cases released
  | succ index =>
    obtain ⟨_, out, equal⟩ := Option.map_eq_some_iff.mp released
    rw [Prod.mk.injEq] at equal
    obtain ⟨rfl, rfl⟩ := equal
    refine ⟨_, rfl, ?_⟩
    obtain ⟨within, here⟩ := List.getElem?_eq_some_iff.mp (Option.join_eq_some_iff.mp out)
    have cut : ∀ free, ∃ before after, s.leases = before ++ s.leases[index] :: after ∧
        before.length = index ∧ s.leases.set index free = before ++ free :: after :=
      fun _ => List.exists_of_set within
    obtain ⟨before, after, split, _, changed⟩ := cut none
    rw [here] at split
    rw [held, changed, split, List.reduceOption_append, List.reduceOption_append,
      List.reduceOption_cons_of_some, List.reduceOption_cons_of_none]
    exact List.perm_middle

/-- A lease that is released is of a task that the queue knows. -/
theorem Sound.task?_of_release (sound : s.Sound) {number : Nat} {lease : Lease}
    (released : s.release number = some (lease, s')) :
    ∃ task, s.queue.task? lease.envelope.task = some task ∧ task.state.isTerminal = false := by
  obtain ⟨_, _, perm⟩ := release_eq_some released
  exact Queue.Used.task?_of_mem sound (perm.symm.subset List.mem_cons_self)

/-! ### The queue of a session is used soundly -/

theorem Sound.take {lease : Lease} (used : s.queue.Used (lease :: s.held)) :
    (s.take lease).2.Sound := by
  have added : (s.take lease).2.held = s.held ++ [lease] := by
    simp only [held, Session.take, List.reduceOption_append, List.reduceOption_singleton,
      Option.toList_some]
  rw [Sound, added]
  exact used.perm (List.perm_append_singleton lease s.held)

theorem Sound.awaitUntil (sound : s.Sound) (deadline : Nat) :
    match s.awaitUntil deadline with
    | (.leased lease _, s') => (s'.take lease).2.Sound
    | (_, s') => s'.Sound := by
  have after := Queue.Used.leaseBy sound s.now deadline
  unfold Session.awaitUntil
  rcases waited : s.queue.leaseBy s.now deadline with ⟨_ | ⟨lease, at_⟩ | _, q'⟩ <;>
    rw [waited] at after
  · exact after
  · exact Sound.take after
  · exact after

theorem Sound.settleWaiter (sound : s.Sound) (deadline : Nat) :
    (s.settleWaiter deadline).2.Sound := by
  have after := sound.awaitUntil deadline
  unfold Session.settleWaiter
  cases s.waiting with
  | false => exact sound
  | true =>
    rcases waited : s.awaitUntil deadline with ⟨_ | ⟨lease, at_⟩ | _, s'⟩ <;>
      rw [waited] at after <;> exact after

theorem Sound.perform (sound : s.Sound) {op : Operation} {reply : Reply}
    (performed : s.perform op = .ok (reply, s')) : s'.Sound := by
  cases op with
  | enqueue job =>
    cases performed
    obtain ⟨_, after⟩ := Queue.Used.perform sound s.now (.enqueue job)
    exact after
  | enqueueDelayed job delay =>
    cases performed
    obtain ⟨_, after⟩ := Queue.Used.perform sound s.now (.enqueueDelayed job delay)
    exact after
  | enqueueUnique key policy job =>
    cases performed
    obtain ⟨_, after⟩ := Queue.Used.perform sound s.now (.enqueueUnique key policy job)
    exact after
  | lease patience =>
    have after := sound.awaitUntil (s.now + patience)
    simp only [Session.perform] at performed
    rcases waited : s.awaitUntil (s.now + patience) with ⟨_ | ⟨lease, at_⟩ | _, s'⟩ <;>
      rw [waited] at after performed <;> cases performed <;> exact after
  | complete number outcome =>
    simp only [Session.perform] at performed
    rcases released : s.release number with _ | ⟨lease, s'⟩ <;> rw [released] at performed
    · cases performed
      exact sound
    · obtain ⟨leases, rfl, perm⟩ := release_eq_some released
      have after := (Queue.Used.perm sound perm.symm).complete s.now outcome
      rcases done : s.queue.complete s.now lease.envelope.task outcome with ⟨(_ | _) | _, q'⟩ <;>
        simp only [done] at performed after <;> cases performed <;> exact after
  | dropLease number =>
    simp only [Session.perform] at performed
    rcases released : s.release number with _ | ⟨lease, s'⟩ <;> rw [released] at performed <;>
      cases performed
    · exact sound
    · obtain ⟨leases, rfl, perm⟩ := release_eq_some released
      obtain ⟨_, after⟩ := (Queue.Used.perm sound perm.symm).perform s.now (.drop lease)
      rw [Usage.perform, List.erase_cons_head] at after
      exact after
  | close =>
    cases performed
    obtain ⟨_, after⟩ := Queue.Used.perform sound s.now .close
    exact after
  | wait | abortWait | sleep | log | retained | taskState | unfinished =>
    cases performed
    exact sound

/-! ### What a session comes to -/

theorem awaitUntil_withoutHistory (sound : s.Sound) (deadline : Nat) :
    s.withoutHistory.awaitUntil deadline = Prod.map id withoutHistory (s.awaitUntil deadline) := by
  have same : s.withoutHistory.queue.leaseBy s.withoutHistory.now deadline =
      Prod.map id Queue.withoutHistory (s.queue.leaseBy s.now deadline) :=
    Queue.withoutHistory_leaseBy sound.kept s.now deadline
  rw [awaitUntil, awaitUntil, same]
  rcases s.queue.leaseBy s.now deadline with ⟨_ | _ | _, q'⟩ <;> rfl

theorem settleWaiter_withoutHistory (sound : s.Sound) (deadline : Nat) :
    s.withoutHistory.settleWaiter deadline =
      Prod.map id withoutHistory (s.settleWaiter deadline) := by
  have same := awaitUntil_withoutHistory sound deadline
  unfold settleWaiter
  change (if s.waiting then _ else _) = _
  cases s.waiting with
  | false => rfl
  | true =>
    simp only [if_true, same]
    rcases s.awaitUntil deadline with ⟨_ | _ | _, s'⟩ <;> rfl

theorem release_withoutHistory (s : Session) (number : Nat) :
    s.withoutHistory.release number = (s.release number).map (Prod.map id withoutHistory) := by
  cases number with
  | zero => rfl
  | succ index =>
    rw [release, release, Option.map_map]
    rfl

theorem perform_withoutHistory (sound : s.Sound) (op : Operation) :
    (s.withoutHistory.perform op).map (Prod.map Reply.withoutHistory id) =
      (s.perform op).map (Prod.map Reply.withoutHistory withoutHistory) := by
  have kept := sound.kept
  cases op with
  | enqueue job =>
    have same := Queue.withoutHistory_enqueueDelayed s.queue s.now job Delay.zero
    simp only [perform, Queue.enqueue, withoutHistory, same]
    rfl
  | enqueueDelayed job delay =>
    have same := Queue.withoutHistory_enqueueDelayed s.queue s.now job delay
    simp only [perform, withoutHistory, same]
    rfl
  | enqueueUnique key policy job =>
    have same := Queue.withoutHistory_enqueueUnique kept s.now key policy job
    simp only [perform, withoutHistory, same]
    rfl
  | lease patience =>
    have same := awaitUntil_withoutHistory sound (s.now + patience)
    have now : s.withoutHistory.now = s.now := rfl
    simp only [perform, now, same]
    rcases s.awaitUntil (s.now + patience) with ⟨_ | _ | _, s'⟩ <;> rfl
  | complete number outcome =>
    rcases released : s.release number with _ | ⟨lease, s'⟩
    · simp only [perform, release_withoutHistory, released]
      rfl
    · obtain ⟨task, known, going⟩ := sound.task?_of_release released
      obtain ⟨leases, rfl, _⟩ := release_eq_some released
      have same : ({ s with leases } : Session).withoutHistory.queue.complete
          ({ s with leases } : Session).withoutHistory.now lease.envelope.task outcome = _ :=
        Queue.withoutHistory_complete kept known going s.now outcome
      simp only [perform, release_withoutHistory, released, Option.map_some, Prod.map, id_eq, same]
      rcases s.queue.complete s.now lease.envelope.task outcome with ⟨(_ | _) | _, q'⟩ <;> rfl
  | dropLease number =>
    simp only [perform, release_withoutHistory]
    rcases s.release number with _ | ⟨lease, s'⟩ <;> rfl
  | wait | abortWait | sleep | close => rfl
  | log => rfl
  | retained => rfl
  | taskState task =>
    have same := Queue.taskState_withoutHistory kept task
    simp only [perform, withoutHistory, same, Except.map, Prod.map, Reply.withoutHistory, id_eq,
      Option.filter_filter, Bool.and_self]
  | unfinished =>
    simp only [perform, withoutHistory, Queue.unfinished_withoutHistory]
    rfl

/-- An operation of a session comes to the same without history. -/
theorem step_withoutHistory (sound : s.Sound) (op : Operation) :
    (s.withoutHistory.step op).map (Prod.map Observation.withoutHistory id) =
      (s.step op).map (Prod.map Observation.withoutHistory withoutHistory) := by
  have performed := perform_withoutHistory sound op
  have until_ : ∀ s : Session, s.withoutHistory.endTime op = s.endTime op := by
    intro s
    cases op <;> rfl
  unfold step
  rcases map_eq_map_cases performed with
    ⟨error, bare, full⟩ | ⟨⟨_, _⟩, ⟨_, s'⟩, bare, full, same⟩
  · rw [bare, full]
    rfl
  · rw [bare, full]
    simp only [Prod.map, id_eq, Prod.mk.injEq] at same
    obtain ⟨replies, rfl⟩ := same
    have settled := settleWaiter_withoutHistory (sound.perform full) (s'.endTime op)
    have counted := Queue.counts_withoutHistory (s'.settleWaiter (s'.endTime op)).2.queue
    simp only [Bind.bind, Except.bind, until_, settled]
    simp only [pure, Except.pure, Except.map, Prod.map, id_eq, Observation.withoutHistory, replies,
      withoutHistory, counted]

theorem Sound.step (sound : s.Sound) {op : Operation} {seen : Observation}
    (stepped : s.step op = .ok (seen, s')) : s'.Sound := by
  unfold Session.step at stepped
  rcases performed : s.perform op with error | ⟨reply, s₁⟩ <;> rw [performed] at stepped
  · cases stepped
  · have settled := (sound.perform performed).settleWaiter (s₁.endTime op)
    cases stepped
    exact settled

/-- A session comes to the same without history. -/
theorem run_withoutHistory (sound : s.Sound) (ops : List Operation) :
    (s.withoutHistory.run ops).map (List.map Observation.withoutHistory) =
      (s.run ops).map (List.map Observation.withoutHistory) := by
  induction ops generalizing s with
  | nil => rfl
  | cons op ops ih =>
    rw [run, run]
    rcases map_eq_map_cases (step_withoutHistory sound op) with
      ⟨error, bare, full⟩ | ⟨⟨seen, _⟩, ⟨seen', s'⟩, bare, full, same⟩
    · rw [bare, full]
    · simp only [Prod.map, id_eq, Prod.mk.injEq] at same
      obtain ⟨first, rfl⟩ := same
      simp only [bare, full, Bind.bind, Except.bind]
      rcases map_eq_map_cases (ih (sound.step full)) with
        ⟨error, bare, full⟩ | ⟨later, later', bare, full, rest⟩
      · rw [bare, full]
      · simp only [bare, full, pure, Except.pure, Except.map, List.map_cons, first, rest]

/-! ### What cannot be told -/

/-- A lease that is held can be completed, however much has been forgotten. -/
theorem Sound.reply_ne_taskNotFound (sound : s.Sound) {op : Operation} {reply : Reply}
    (performed : s.perform op = .ok (reply, s')) (id : TaskId) :
    reply ≠ .completed (.error (.taskNotFound id)) := by
  rintro rfl
  cases op with
  | complete number outcome =>
    simp only [Session.perform] at performed
    rcases released : s.release number with _ | ⟨lease, s₁⟩ <;> rw [released] at performed
    · cases performed
    · obtain ⟨task, known, _⟩ := sound.task?_of_release released
      obtain ⟨leases, rfl, _⟩ := release_eq_some released
      -- The queue knows the task, so it answers with what becomes of it.
      rcases Queue.complete_cases known s.now outcome with
        ⟨_, done⟩ | ⟨_, done⟩ | ⟨_, _, done⟩ | ⟨_, _, done⟩ <;>
        simp only [done] at performed <;> cases performed
  | lease patience =>
    simp only [Session.perform] at performed
    rcases waited : s.awaitUntil (s.now + patience) with ⟨_ | _ | _, s₁⟩ <;>
      rw [waited] at performed <;> cases performed
  | dropLease number =>
    simp only [Session.perform] at performed
    rcases released : s.release number with _ | ⟨lease, s₁⟩ <;>
      rw [released] at performed <;> cases performed
  | enqueue | enqueueDelayed | enqueueUnique | wait | abortWait | sleep | close | log | retained
  | taskState | unfinished => cases performed

theorem Sound.seen_ne_taskNotFound (sound : s.Sound) {ops : List Operation}
    {seen : List Observation} (ran : s.run ops = .ok seen) :
    ∀ o ∈ seen, ∀ id, o.reply ≠ .completed (.error (.taskNotFound id)) := by
  induction ops generalizing s seen with
  | nil =>
    cases ran
    intro o member
    cases member
  | cons op ops ih =>
    rw [run] at ran
    rcases stepped : s.step op with error | ⟨first, s'⟩ <;> rw [stepped] at ran
    · cases ran
    · rcases rest : s'.run ops with error | later <;>
        simp only [Bind.bind, Except.bind, rest] at ran <;> cases ran
      intro o member
      rcases List.mem_cons.mp member with rfl | after
      · unfold Session.step at stepped
        rcases performed : s.perform op with error | ⟨reply, s₁⟩ <;> rw [performed] at stepped <;>
          cases stepped
        exact sound.reply_ne_taskNotFound performed
      · exact ih (sound.step stepped) rest o after

/-- How much history a queue keeps cannot be told from its answers, apart from those that are about
history; and no completion is ever refused because its task has been forgotten. -/
theorem history_limit_unseen (backoff : Backoff) (limit limit' : Nat) (ops : List Operation) :
    let seen (limit : Nat) := (start (Queue.empty backoff limit)).run ops
    (seen limit).map (List.map Observation.withoutHistory) =
        (seen limit').map (List.map Observation.withoutHistory) ∧
      ∀ answers, seen limit = .ok answers → ∀ o ∈ answers, ∀ id,
        o.reply ≠ .completed (.error (.taskNotFound id)) := by
  intro seen
  -- Both are what is seen where no history is kept at all.
  have bare (limit : Nat) : ((start (Queue.empty backoff 0)).run ops).map
      (List.map Observation.withoutHistory) =
        (seen limit).map (List.map Observation.withoutHistory) :=
    run_withoutHistory (sound_start backoff limit) ops
  refine ⟨(bare limit).symm.trans (bare limit'), ?_⟩
  exact fun answers ran => (sound_start backoff limit).seen_ne_taskNotFound ran

end Session

end PacedChain
