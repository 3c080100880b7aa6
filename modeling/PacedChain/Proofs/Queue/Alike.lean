import PacedChain.Proofs.Queue.Due
import PacedChain.Proofs.Queue.Sessions

/-!
# Sessions that differ in stale entries

A wait for a lease that ends without one has dropped stale entries at most. Sessions that differ in
stale entries only are answered alike, operation by operation (`Session.step_congr`) and so in a
whole run (`Session.run_congr`).
-/
namespace PacedChain

namespace Queue

variable {q : Queue} {out : List Lease}

theorem Used.proper (used : q.Used out) (ordered : q.Ordered) : q.Proper := by
  obtain ⟨desk, rfl, sound⟩ := used
  exact ⟨sound.kept, ⟨_, sound.placed⟩, ordered⟩

/-- A lease that is out is of a task that runs. -/
theorem Used.running_of_mem (used : q.Used out) {lease : Lease} (member : lease ∈ out) :
    ∃ task, q.task? lease.envelope.task = some task ∧ task.state = .running := by
  obtain ⟨desk, rfl, sound⟩ := used
  obtain ⟨task, known, runs, _⟩ := sound.leased lease member
  exact ⟨task, known, runs⟩

end Queue

namespace Session

variable {s s' t t' : Session}

/-- The session without the stale entries of its queue. -/
def tidy (s : Session) : Session := { s with queue := s.queue.tidy }

/-- The queue is used soundly, and its schedule is in order. -/
structure Proper (s : Session) : Prop where
  sound : s.Sound
  ordered : s.queue.Ordered

theorem Proper.queue (proper : s.Proper) : s.queue.Proper :=
  Queue.Used.proper proper.sound proper.ordered

theorem Proper.with_waiting (proper : s.Proper) (waiting : Bool) :
    ({ s with waiting } : Session).Proper :=
  ⟨proper.sound, proper.ordered⟩

theorem Proper.with_now (proper : s.Proper) (now : Nat) : ({ s with now } : Session).Proper :=
  ⟨proper.sound, proper.ordered⟩

theorem proper_start (backoff : Backoff) (limit : Nat) :
    (start (Queue.empty backoff limit)).Proper :=
  ⟨sound_start backoff limit, Queue.ordered_empty backoff limit⟩

/-- Sessions that are the same when tidy differ in their queues only. -/
theorem of_tidy_eq (alike : s.tidy = t.tidy) :
    ∃ q, t = { s with queue := q } ∧ s.queue.tidy = q.tidy := by
  obtain ⟨now, p, leases, ids, waiting⟩ := s
  obtain ⟨now', q, leases', ids', waiting'⟩ := t
  simp only [tidy, Session.mk.injEq] at alike
  obtain ⟨rfl, same, rfl, rfl, rfl⟩ := alike
  exact ⟨q, rfl, same⟩

/-! ### Operations on leases -/

/-- A lease that is held is used up and completed at the queue. -/
theorem of_perform_complete {number : Nat} {outcome : Outcome} {reply : Reply}
    (performed : s.perform (.complete number outcome) = .ok (reply, s')) :
    (reply = .noLease ∧ s' = s) ∨
    ∃ lease leases result queue, s.held.Perm (lease :: leases.reduceOption) ∧
      s.queue.complete s.now lease.envelope.task outcome = (result, queue) ∧
      s' = { s with queue, leases } ∧
      ((∃ completion, result = .ok completion ∧ reply = .completed (.ok completion)) ∨
        ∃ error, result = .error (.refused error) ∧ reply = .completed (.error error)) := by
  simp only [perform] at performed
  rcases released : s.release number with _ | ⟨lease, s₁⟩ <;> rw [released] at performed
  · cases performed
    exact Or.inl ⟨rfl, rfl⟩
  · obtain ⟨leases, rfl, perm⟩ := release_eq_some released
    rcases done : s.queue.complete s.now lease.envelope.task outcome with
      ⟨(error | _) | completion, queue⟩ <;> simp only [done] at performed <;> cases performed
    · exact Or.inr ⟨lease, leases, _, queue, perm, done, rfl, Or.inr ⟨error, rfl, rfl⟩⟩
    · exact Or.inr ⟨lease, leases, _, queue, perm, done, rfl, Or.inl ⟨completion, rfl, rfl⟩⟩

theorem of_perform_dropLease {number : Nat} {reply : Reply}
    (performed : s.perform (.dropLease number) = .ok (reply, s')) :
    ∃ leases, s' = { s with leases } := by
  simp only [perform] at performed
  rcases released : s.release number with _ | ⟨lease, s₁⟩ <;> rw [released] at performed <;>
    cases performed
  · exact ⟨s.leases, rfl⟩
  · obtain ⟨leases, rfl, _⟩ := release_eq_some released
    exact ⟨leases, rfl⟩

/-! ### Operations and the wait in the background -/

theorem perform_with_waiting (s : Session) (waiting : Bool) {op : Operation} (begins : op ≠ .wait)
    (ends : op ≠ .abortWait) :
    ({ s with waiting } : Session).perform op =
      (s.perform op).map (Prod.map id fun s' => { s' with waiting }) := by
  cases op with
  | wait => exact absurd rfl begins
  | abortWait => exact absurd rfl ends
  | lease patience =>
    simp only [perform, awaitUntil]
    rcases s.queue.leaseBy s.now (s.now + patience) with ⟨_ | _ | _, q⟩ <;> rfl
  | complete number outcome =>
    cases number with
    | zero => rfl
    | succ index =>
      simp only [perform, release]
      cases (s.leases[index]?).join with
      | none => rfl
      | some lease =>
        simp only [Option.map_some]
        rcases s.queue.complete s.now lease.envelope.task outcome with ⟨(_ | _) | _, q⟩ <;> rfl
  | dropLease number =>
    cases number with
    | zero => rfl
    | succ index =>
      simp only [perform, release]
      cases (s.leases[index]?).join <;> rfl
  | enqueue | enqueueDelayed | enqueueUnique | sleep | close | log | retained | taskState
  | unfinished => rfl

/-- Only to begin a wait in the background and to give it up is to change whether one goes on. -/
theorem waiting_perform {op : Operation} (begins : op ≠ .wait) (ends : op ≠ .abortWait)
    {reply : Reply} (performed : s.perform op = .ok (reply, s')) : s'.waiting = s.waiting := by
  have same := perform_with_waiting s s.waiting begins ends
  rw [performed] at same
  exact congrArg (·.2.waiting) (Except.ok.inj same)

/-! ### The schedule of a session stays in order -/

theorem ordered_awaitUntil (ordered : s.queue.Ordered) (deadline : Nat) :
    (s.awaitUntil deadline).2.queue.Ordered := by
  have after := ordered.leaseBy s.now deadline
  unfold awaitUntil
  rcases waited : s.queue.leaseBy s.now deadline with ⟨_ | _ | _, q⟩ <;> rw [waited] at after <;>
    exact after

theorem ordered_settleWaiter (ordered : s.queue.Ordered) (deadline : Nat) :
    (s.settleWaiter deadline).2.queue.Ordered := by
  have after := ordered_awaitUntil ordered deadline
  unfold settleWaiter
  cases s.waiting with
  | false => exact ordered
  | true =>
    rcases waited : s.awaitUntil deadline with ⟨_ | _ | _, s'⟩ <;> rw [waited] at after <;>
      exact after

theorem ordered_perform (ordered : s.queue.Ordered) {op : Operation} {reply : Reply}
    (performed : s.perform op = .ok (reply, s')) : s'.queue.Ordered := by
  cases op with
  | enqueue job =>
    cases performed
    exact ordered.enqueueDelayed _ job Delay.zero
  | enqueueDelayed job delay =>
    cases performed
    exact ordered.enqueueDelayed _ job delay
  | enqueueUnique key policy job =>
    cases performed
    exact ordered.enqueueUnique _ key policy job
  | lease patience =>
    have after := ordered_awaitUntil ordered (s.now + patience)
    simp only [perform] at performed
    rcases waited : s.awaitUntil (s.now + patience) with ⟨_ | _ | _, s'⟩ <;>
      rw [waited] at after performed <;> cases performed <;> exact after
  | complete number outcome =>
    rcases of_perform_complete performed with ⟨_, rfl⟩ | ⟨lease, _, _, _, _, done, rfl, _⟩
    · exact ordered
    · have after := ordered.complete s.now lease.envelope.task outcome
      rw [done] at after
      exact after
  | dropLease number =>
    obtain ⟨_, rfl⟩ := of_perform_dropLease performed
    exact ordered
  | wait | abortWait | sleep | close | log | retained | taskState | unfinished =>
    cases performed
    exact ordered

theorem Proper.perform (proper : s.Proper) {op : Operation} {reply : Reply}
    (performed : s.perform op = .ok (reply, s')) : s'.Proper :=
  ⟨proper.sound.perform performed, ordered_perform proper.ordered performed⟩

theorem Proper.settleWaiter (proper : s.Proper) (deadline : Nat) :
    (s.settleWaiter deadline).2.Proper :=
  ⟨proper.sound.settleWaiter deadline, ordered_settleWaiter proper.ordered deadline⟩

/-- A step is an operation, and then what the wait in the background makes of it. -/
theorem step_of_perform {op : Operation} {reply : Reply}
    (performed : s.perform op = .ok (reply, s')) :
    s.step op = .ok
      (⟨reply, s'.endTime op, (s'.settleWaiter (s'.endTime op)).2.queue.counts,
        (s'.settleWaiter (s'.endTime op)).1⟩,
        { (s'.settleWaiter (s'.endTime op)).2 with now := s'.endTime op }) := by
  simp only [step, performed, Bind.bind, Except.bind, pure, Except.pure]

theorem step_of_error {op : Operation} {error : BackoffError}
    (failed : s.perform op = .error error) :
    s.step op = .error error := by
  simp only [step, failed, Bind.bind, Except.bind]

theorem Proper.step (proper : s.Proper) {op : Operation} {seen : Observation}
    (stepped : s.step op = .ok (seen, s')) : s'.Proper := by
  refine ⟨proper.sound.step stepped, ?_⟩
  rcases performed : s.perform op with error | ⟨reply, s₁⟩
  · rw [step_of_error performed] at stepped
    cases stepped
  · rw [step_of_perform performed] at stepped
    cases stepped
    exact ((proper.perform performed).settleWaiter _).ordered

/-! ### Sessions that differ in stale entries go on alike -/

theorem awaitUntil_congr (proper : s.Proper) (proper' : t.Proper) (alike : s.tidy = t.tidy)
    (deadline : Nat) :
    Prod.map id tidy (s.awaitUntil deadline) = Prod.map id tidy (t.awaitUntil deadline) := by
  obtain ⟨q, rfl, same⟩ := of_tidy_eq alike
  have waited := Queue.leaseBy_congr proper.queue proper'.queue same s.now deadline
  obtain ⟨w, p', q', here, there, same'⟩ := prod_map_eq_cases waited
  simp only [awaitUntil, here, there]
  cases w <;> simp [Prod.map, tidy, same']

/-- The wait in the background comes to the same where the wait for a lease does. -/
theorem settleWaiter_of_awaitUntil (here : s.waiting = true) (there : t.waiting = true)
    {deadline : Nat}
    (waited : Prod.map id tidy (s.awaitUntil deadline) = Prod.map id tidy (t.awaitUntil deadline)) :
    Prod.map id tidy (s.settleWaiter deadline) = Prod.map id tidy (t.settleWaiter deadline) := by
  obtain ⟨w, s₁, t₁, waited, waited', same⟩ := prod_map_eq_cases waited
  obtain ⟨q, rfl, queues⟩ := of_tidy_eq same
  simp only [settleWaiter, here, there, if_true, waited, waited']
  cases w <;> simp [Prod.map, tidy, take, queues]

theorem settleWaiter_congr (proper : s.Proper) (proper' : t.Proper) (alike : s.tidy = t.tidy)
    (deadline : Nat) :
    Prod.map id tidy (s.settleWaiter deadline) = Prod.map id tidy (t.settleWaiter deadline) := by
  have waiting : s.waiting = t.waiting := congrArg (·.waiting) alike
  cases there : t.waiting with
  | false => simp [settleWaiter, waiting, there, Prod.map, alike]
  | true =>
    exact settleWaiter_of_awaitUntil (waiting.trans there) there
      (awaitUntil_congr proper proper' alike deadline)

theorem release_with_queue (s : Session) (q : Queue) (number : Nat) :
    ({ s with queue := q } : Session).release number =
      (s.release number).map fun (lease, s') => (lease, { s' with queue := q }) := by
  cases number with
  | zero => rfl
  | succ index =>
    simp only [release, Option.map_map]
    rfl

theorem perform_congr (proper : s.Proper) (proper' : t.Proper) (alike : s.tidy = t.tidy)
    (op : Operation) :
    (s.perform op).map (Prod.map id tidy) = (t.perform op).map (Prod.map id tidy) := by
  have waited := awaitUntil_congr proper proper' alike
  obtain ⟨q, rfl, same⟩ := of_tidy_eq alike
  cases op with
  | enqueue job =>
    have enqueued := Queue.enqueueDelayed_congr proper.queue proper'.queue same s.now job Delay.zero
    simp only [Prod.map, id_eq, Prod.mk.injEq] at enqueued
    simp [perform, Queue.enqueue, Except.map, Prod.map, tidy, enqueued]
  | enqueueDelayed job delay =>
    have enqueued := Queue.enqueueDelayed_congr proper.queue proper'.queue same s.now job delay
    simp only [Prod.map, id_eq, Prod.mk.injEq] at enqueued
    simp [perform, Except.map, Prod.map, tidy, enqueued]
  | enqueueUnique key policy job =>
    have enqueued := Queue.enqueueUnique_congr proper.queue proper'.queue same s.now key policy job
    simp only [Prod.map, id_eq, Prod.mk.injEq] at enqueued
    simp [perform, Except.map, Prod.map, tidy, enqueued]
  | lease patience =>
    obtain ⟨w, s₁, t₁, here, there, same⟩ := prod_map_eq_cases (waited (s.now + patience))
    obtain ⟨q, rfl, queues⟩ := of_tidy_eq same
    simp only [perform, here, there]
    cases w <;> simp [Except.map, Prod.map, tidy, take, queues]
  | complete number outcome =>
    simp only [perform, release_with_queue]
    rcases released : s.release number with _ | ⟨lease, s₁⟩
    · simp [Except.map, Prod.map, tidy, same]
    · obtain ⟨leases, rfl, perm⟩ := release_eq_some released
      have member : lease ∈ s.held := perm.symm.subset List.mem_cons_self
      obtain ⟨task, known, runs⟩ := Queue.Used.running_of_mem proper.sound member
      have completed :=
        Queue.complete_congr proper.queue proper'.queue same known runs s.now outcome
      obtain ⟨r, p₁, q₁, here, there, same₁⟩ := prod_map_eq_cases completed
      simp only [Option.map_some, here, there]
      rcases r with (_ | _) | _ <;> simp [Except.map, Prod.map, tidy, same₁]
  | dropLease number =>
    simp only [perform, release_with_queue]
    rcases released : s.release number with _ | ⟨lease, s₁⟩
    · simp [Except.map, Prod.map, tidy, same]
    · obtain ⟨leases, rfl, _⟩ := release_eq_some released
      simp [Except.map, Prod.map, tidy, same]
  | close =>
    simp [perform, Except.map, Prod.map, tidy, Queue.close_congr same]
  | log =>
    have logs : s.queue.log = q.log := congrArg (·.log) same
    simp [perform, Except.map, Prod.map, tidy, same, logs]
  | retained =>
    have kept : s.queue.tidy.retained = q.tidy.retained := congrArg Queue.retained same
    change s.queue.retained = q.retained at kept
    simp [perform, Except.map, Prod.map, tidy, same, kept]
  | taskState task =>
    simp [perform, Except.map, Prod.map, tidy, same, Queue.taskState_of_tidy_eq same]
  | unfinished =>
    have left : ∀ job, s.queue.tidy.unfinished job = q.tidy.unfinished job := fun job =>
      congrArg (Queue.unfinished · job) same
    change ∀ job, s.queue.unfinished job = q.unfinished job at left
    simp [perform, Except.map, Prod.map, tidy, same, left]
  | wait | abortWait | sleep => simp [perform, Except.map, Prod.map, tidy, same]

theorem step_congr (proper : s.Proper) (proper' : t.Proper) (alike : s.tidy = t.tidy)
    (op : Operation) :
    (s.step op).map (Prod.map id tidy) = (t.step op).map (Prod.map id tidy) := by
  rcases map_eq_map_cases (perform_congr proper proper' alike op) with
    ⟨error, here, there⟩ | ⟨⟨reply, s₁⟩, ⟨reply', t₁⟩, here, there, same⟩
  · rw [step_of_error here, step_of_error there]
  · simp only [Prod.map, id_eq, Prod.mk.injEq] at same
    obtain ⟨rfl, same⟩ := same
    have until_ : s₁.endTime op = t₁.endTime op := by
      have now : s₁.now = t₁.now := congrArg (·.now) same
      cases op <;> simp [endTime, now]
    have settled := settleWaiter_congr (proper.perform here) (proper'.perform there) same
      (s₁.endTime op)
    obtain ⟨w, s₂, t₂, settled, settled', same₂⟩ := prod_map_eq_cases settled
    obtain ⟨q, rfl, queues⟩ := of_tidy_eq same₂
    have counts := Queue.counts_of_tidy_eq queues
    rw [step_of_perform here, step_of_perform there, ← until_, settled, settled']
    simp [Except.map, Prod.map, tidy, queues, counts]

/-- Sessions that differ in stale entries only come to the same. -/
theorem run_congr (proper : s.Proper) (proper' : t.Proper) (alike : s.tidy = t.tidy)
    (ops : List Operation) : s.run ops = t.run ops := by
  induction ops generalizing s t with
  | nil => rfl
  | cons op ops ih =>
    rw [run, run]
    rcases map_eq_map_cases (step_congr proper proper' alike op) with
      ⟨error, here, there⟩ | ⟨⟨seen, s'⟩, ⟨seen', t'⟩, here, there, same⟩
    · rw [here, there]
    · simp only [Prod.map, id_eq, Prod.mk.injEq] at same
      obtain ⟨rfl, same⟩ := same
      have later := ih (proper.step here) (proper'.step there) same
      simp only [here, there, Bind.bind, Except.bind, later]

/-! ### A wait that times out -/

/-- A wait that times out has dropped stale entries at most, and nothing is due until then. -/
theorem of_awaitUntil_timedOut (proper : s.Proper) {deadline : Nat}
    (waited : s.awaitUntil deadline = (.timedOut, s')) :
    ∃ q, s.queue.leaseBy s.now deadline = (.timedOut, q) ∧
      s' = { s with queue := q, now := deadline } ∧ q.tidy = s.queue.tidy ∧
      s.queue.closed = false ∧
      ∀ due ∈ s.queue.dueTimes s.now, s.now < due ∧ deadline < Clock.wholeMilli due := by
  have awaited := Queue.leaseBy_awaited proper.queue s.now deadline
  unfold awaitUntil at waited
  rcases found : s.queue.leaseBy s.now deadline with ⟨_ | _ | _, q⟩ <;>
    rw [found] at waited awaited <;> cases waited
  cases awaited with
  | timedOut opened alike late => exact ⟨q, rfl, rfl, alike, opened, late⟩

/-- Who waits for nothing any more sees no wait end. -/
theorem settleWaiter_of_not_waiting (idle : s.waiting = false) (deadline : Nat) :
    s.settleWaiter deadline = (none, s) := by
  simp [settleWaiter, idle]

/-- A wait in the background that goes on has timed out so far. -/
theorem settleWaiter_of_waiting (proper : s.Proper) (waits : s.waiting = true) {deadline : Nat}
    (still : (s.settleWaiter deadline).2.waiting = true) :
    ∃ q, s.awaitUntil deadline = (.timedOut, { s with queue := q, now := deadline }) ∧
      s.settleWaiter deadline = (none, { s with queue := q, now := deadline }) ∧
      q.tidy = s.queue.tidy := by
  rcases waited : s.awaitUntil deadline with ⟨_ | _ | _, s'⟩ <;>
    simp only [settleWaiter, waits, if_true, waited] at still ⊢
  · cases still
  · cases still
  · obtain ⟨q, _, rfl, alike, _⟩ := of_awaitUntil_timedOut proper waited
    refine ⟨q, ?_, ?_, alike⟩ <;> simp [waits]

end Session

end PacedChain
