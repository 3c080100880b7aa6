import PacedChain.Proofs.Queue.Vigils

/-!
# Waits that are given up in a session

A lease that timed out, or a wait in the background that was given up while no other one went on in
the background, might as well not have been, since it has dropped stale entries at most
(`Session.abandoned_waits_unseen`). It is otherwise where several wait to be called: see
`Lobby.abandoned_wait_unnoticed`.
-/
namespace PacedChain

theorem modify_length_append {α : Type} (l m : List α) (f : α → α) :
    (l ++ m).modify l.length f = l ++ m.modifyHead f := by
  induction l with
  | nil => cases m <;> rfl
  | cons x l ih => simp [ih]

/-- The observation that an operation without an answer would make in this place. -/
def Observation.silent (o : Observation) : Observation := { o with reply := .done }

namespace Session

variable {s s' t t' : Session}

/-! ### Parts of a session -/

/-- What is seen of the operations, and the session after them. -/
def proceed (s : Session) : List Operation → Except BackoffError (List Observation × Session)
  | [] => .ok ([], s)
  | op :: ops => do
    let (seen, s) ← s.step op
    let (later, s) ← s.proceed ops
    return (seen :: later, s)

theorem proceed_cons {op : Operation} {ops : List Operation} {seen : List Observation} :
    s.proceed (op :: ops) = .ok (seen, t) ↔ ∃ first s' later,
      s.step op = .ok (first, s') ∧ s'.proceed ops = .ok (later, t) ∧ seen = first :: later := by
  simp only [proceed, Bind.bind, Except.bind]
  cases stepped : s.step op with
  | error => simp
  | ok found =>
    obtain ⟨first, s'⟩ := found
    cases rest : s'.proceed ops with
    | error => simp [rest]
    | ok found =>
      obtain ⟨later, t'⟩ := found
      simp [rest, pure, Except.pure, and_comm, eq_comm]

theorem Proper.proceed (proper : s.Proper) {ops : List Operation} {seen : List Observation}
    (went : s.proceed ops = .ok (seen, t)) : t.Proper := by
  induction ops generalizing s seen with
  | nil =>
    cases went
    exact proper
  | cons op ops ih =>
    obtain ⟨first, s', later, stepped, rest, rfl⟩ := proceed_cons.mp went
    exact ih (proper.step stepped) rest

theorem length_of_proceed {ops : List Operation} {seen : List Observation}
    (went : s.proceed ops = .ok (seen, t)) : seen.length = ops.length := by
  induction ops generalizing s seen with
  | nil =>
    cases went
    rfl
  | cons op ops ih =>
    obtain ⟨first, s', later, stepped, rest, rfl⟩ := proceed_cons.mp went
    simp [ih rest]

theorem run_cons {op : Operation} {seen : Observation} (stepped : s.step op = .ok (seen, s'))
    (ops : List Operation) : s.run (op :: ops) = (s'.run ops).map (seen :: ·) := by
  simp only [run, stepped, Bind.bind, Except.bind]
  cases s'.run ops <;> rfl

/-- A session goes on from where its first part has led to. -/
theorem run_append {ops : List Operation} {seen : List Observation}
    (went : s.proceed ops = .ok (seen, t)) (more : List Operation) :
    s.run (ops ++ more) = (t.run more).map (seen ++ ·) := by
  induction ops generalizing s seen with
  | nil =>
    cases went
    rw [List.nil_append]
    cases t.run more <;> rfl
  | cons op ops ih =>
    obtain ⟨first, s', later, stepped, rest, rfl⟩ := proceed_cons.mp went
    rw [List.cons_append, run_cons stepped, ih rest]
    cases t.run more <;> rfl

/-! ### A wait that times out -/

/-- What timed out at a whole millisecond would time out at once if it were tried again then. -/
theorem awaitUntil_again (proper : s.Proper) {deadline : Nat} (whole : Clock.milli ∣ deadline)
    (waited : s.awaitUntil deadline = (.timedOut, s')) (proper' : s'.Proper) :
    ∃ t, s'.awaitUntil deadline = (.timedOut, t) := by
  obtain ⟨q, found, rfl, alike, opened, late⟩ := of_awaitUntil_timedOut proper waited
  have again := Queue.leaseBy_later proper'.queue proper.queue alike opened whole (Nat.le_refl _)
    fun due member => ⟨(late due member).1, Nat.le_of_lt (late due member).2⟩
  rw [found] at again
  obtain ⟨_, q', _, timed_out, here, _⟩ := prod_map_eq_cases again
  cases here
  exact ⟨{ s with queue := q', now := deadline }, by simp only [awaitUntil, timed_out]⟩

/-- A step in which no wait in the background ends. -/
theorem step_of_quiet {op : Operation} {reply : Reply} (performed : s.perform op = .ok (reply, s'))
    (quiet : s'.settleWaiter (s'.endTime op) = (none, t)) :
    s.step op = .ok (⟨reply, s'.endTime op, t.queue.counts, none⟩,
      { t with now := s'.endTime op }) := by
  rw [step_of_perform performed, quiet]

/-- A lease that times out leaves things as a sleep does, but for stale entries. -/
theorem step_of_timedOut (proper : s.Proper) {patience : Nat}
    (performed : s.perform (.lease patience) = .ok (.timedOut, s'))
    (whole : s.waiting = true → Clock.milli ∣ s.now + patience) :
    ∃ seen s₁ t₁, s.step (.lease patience) = .ok (seen, s₁) ∧
      s.step (.sleep patience) = .ok (seen.silent, t₁) ∧ s₁.tidy = t₁.tidy := by
  have waited : s.awaitUntil (s.now + patience) = (.timedOut, s') := by
    simp only [perform] at performed
    rcases waited : s.awaitUntil (s.now + patience) with ⟨_ | _ | _, s₁⟩ <;>
      rw [waited] at performed <;> cases performed
    rfl
  obtain ⟨q, _, same, alike, _⟩ := of_awaitUntil_timedOut proper waited
  have proper' := proper.perform performed
  -- A wait in the background ends neither after the lease nor in the time of the sleep.
  have after_lease : ∃ p, s'.settleWaiter (s.now + patience) =
      (none, { s with queue := p, now := s.now + patience }) ∧ p.tidy = s.queue.tidy := by
    cases waits : s.waiting with
    | false =>
      refine ⟨q, ?_, alike⟩
      rw [settleWaiter_of_not_waiting (by rw [same, waits]), same, waits]
    | true =>
      obtain ⟨t, again⟩ := awaitUntil_again proper (whole waits) waited proper'
      obtain ⟨q', _, rfl, alike', _⟩ := of_awaitUntil_timedOut proper' again
      refine ⟨q', ?_, by rw [alike', same, alike]⟩
      have busy : s'.waiting = true := by rw [same, waits]
      simp only [settleWaiter, busy, if_true, again]
      simp [same, waits]
  have after_sleep : ∃ p now, s.settleWaiter (s.now + patience) =
      (none, { s with queue := p, now }) ∧ p.tidy = s.queue.tidy := by
    cases waits : s.waiting with
    | false =>
      refine ⟨s.queue, s.now, ?_, rfl⟩
      rw [settleWaiter_of_not_waiting waits, ← waits]
    | true =>
      refine ⟨q, s.now + patience, ?_, alike⟩
      simp [settleWaiter, waited, waits, same]
  obtain ⟨p₁, quiet₁, alike₁⟩ := after_lease
  obtain ⟨p₂, now, quiet₂, alike₂⟩ := after_sleep
  have now_eq : s'.endTime (.lease patience) = s.now + patience := by simp [same, endTime]
  have leased := step_of_quiet performed (by rw [now_eq]; exact quiet₁)
  have slept := step_of_quiet (show s.perform (.sleep patience) = .ok (.done, s) from rfl) quiet₂
  have counts := Queue.counts_of_tidy_eq (alike₁.trans alike₂.symm)
  refine ⟨_, _, { s with queue := p₂, now := s.now + patience }, leased, ?_, ?_⟩
  · rw [slept, now_eq]
    simp [Observation.silent, counts, endTime]
  · simp [tidy, alike₁, alike₂, now_eq]

/-! ### A wait in the background -/

/-- The same session without the wait in the background, but for stale entries. -/
structure Shadows (t s : Session) : Prop where
  proper : s.Proper
  proper' : t.Proper
  waits : s.waiting = true
  alike : ({ s with waiting := false } : Session).tidy = t.tidy

/-- A step that leaves the wait going has dropped stale entries at most on its behalf. -/
theorem step_still (proper : s.Proper) {op : Operation} {reply : Reply}
    (performed : s.perform op = .ok (reply, s')) {seen : Observation}
    (stepped : s.step op = .ok (seen, t)) (still : t.waiting = true) :
    s'.waiting = true ∧ ∃ q, q.tidy = s'.queue.tidy ∧
      seen = ⟨reply, s'.endTime op, q.counts, none⟩ ∧
      t = { s' with queue := q, now := s'.endTime op } := by
  have proper' := proper.perform performed
  cases waits : s'.waiting with
  | false =>
    rw [step_of_quiet performed (settleWaiter_of_not_waiting waits _)] at stepped
    cases stepped
    rw [waits] at still
    cases still
  | true =>
    rw [step_of_perform performed] at stepped
    have goes_on : (s'.settleWaiter (s'.endTime op)).2.waiting = true := by
      cases stepped
      exact still
    obtain ⟨q, _, quiet, alike⟩ := settleWaiter_of_waiting proper' waits goes_on
    rw [quiet] at stepped
    cases stepped
    exact ⟨rfl, q, alike, rfl, by simp [waits]⟩

/-- An operation that no one waits during, step by step. -/
theorem step_of_idle {op : Operation} {reply : Reply} (performed : s.perform op = .ok (reply, s'))
    (idle : s'.waiting = false) :
    s.step op = .ok (⟨reply, s'.endTime op, s'.queue.counts, none⟩,
      { s' with now := s'.endTime op }) :=
  step_of_quiet performed (settleWaiter_of_not_waiting idle _)

namespace Shadows

/-- While the wait goes on, an operation is answered alike with and without it. -/
theorem step (shadows : t.Shadows s) {op : Operation} (begins : op ≠ .wait) {seen : Observation}
    (stepped : s.step op = .ok (seen, s')) (still : s'.waiting = true) :
    ∃ t', t.step op = .ok (seen, t') ∧ t'.Shadows s' := by
  have proper := shadows.proper
  rcases performed : s.perform op with error | ⟨reply, s₁⟩
  · rw [step_of_error performed] at stepped
    cases stepped
  · obtain ⟨busy, q, alike, rfl, rfl⟩ := step_still proper performed stepped still
    have ends : op ≠ .abortWait := by
      rintro rfl
      cases performed
      cases busy
    -- Without the wait, the operation does the same, and nothing comes after it.
    have bare : ({ s with waiting := false } : Session).perform op =
        .ok (reply, { s₁ with waiting := false }) := by
      rw [perform_with_waiting s false begins ends, performed]
      rfl
    have idle := step_of_idle bare rfl
    have same := step_congr (proper.with_waiting false) shadows.proper' shadows.alike op
    have until_ : ({ s₁ with waiting := false } : Session).endTime op = s₁.endTime op := by
      cases op <;> rfl
    rw [until_, Queue.counts_of_tidy_eq alike.symm] at idle
    rw [idle] at same
    rcases map_eq_map_cases same with ⟨_, ⟨⟩, _⟩ | ⟨⟨_, _⟩, ⟨seen', t'⟩, ⟨⟩, there, equal⟩
    simp only [Prod.map, id_eq, Prod.mk.injEq] at equal
    obtain ⟨rfl, tidied⟩ := equal
    refine ⟨t', there, proper.step stepped, shadows.proper'.step there, busy, ?_⟩
    rw [← tidied]
    simp [tidy, alike]

/-- A wait begins where time might pass by as well. -/
theorem of_wait (proper : s.Proper) (idle : s.waiting = false) {seen : Observation}
    (stepped : s.step .wait = .ok (seen, s')) (still : s'.waiting = true) :
    ∃ t, s.step (.sleep 0) = .ok (seen, t) ∧ t.Shadows s' := by
  obtain ⟨_, q, alike, rfl, rfl⟩ := step_still proper rfl stepped still
  have slept := step_of_idle (show s.perform (.sleep 0) = .ok (.done, s) from rfl) idle
  refine ⟨s, ?_, proper.step stepped, proper, rfl, ?_⟩
  · rw [slept]
    simp [endTime, Queue.counts_of_tidy_eq alike]
  · simp [tidy, alike, endTime, idle]

/-- Giving the wait up leaves a session that differs in stale entries only. -/
theorem of_abortWait (shadows : t.Shadows s) :
    ∃ seen s' t', s.step .abortWait = .ok (seen, s') ∧ t.step (.sleep 0) = .ok (seen, t') ∧
      s'.tidy = t'.tidy := by
  obtain ⟨q, rfl, alike⟩ := of_tidy_eq shadows.alike
  have given_up := step_of_idle
    (show s.perform .abortWait = .ok (.done, { s with waiting := false }) from rfl) rfl
  let t : Session := { s with waiting := false, queue := q }
  have slept := step_of_idle (show t.perform (.sleep 0) = .ok (.done, t) from rfl) rfl
  refine ⟨_, _, t, given_up, ?_, ?_⟩
  · rw [slept]
    simp [t, endTime, Queue.counts_of_tidy_eq alike]
  · simp [t, tidy, alike, endTime]

end Shadows

theorem waiting_perform_of_idle (idle : s.waiting = false) {op : Operation} (begins : op ≠ .wait)
    {reply : Reply} (performed : s.perform op = .ok (reply, s')) : s'.waiting = false := by
  by_cases ends : op = .abortWait
  · subst ends
    cases performed
    rfl
  · exact (waiting_perform begins ends performed).trans idle

/-- No wait goes on that has not been begun. -/
theorem waiting_step (idle : s.waiting = false) {op : Operation} (begins : op ≠ .wait)
    {seen : Observation} (stepped : s.step op = .ok (seen, s')) : s'.waiting = false := by
  rcases performed : s.perform op with error | ⟨reply, s₁⟩
  · rw [step_of_error performed] at stepped
    cases stepped
  · have idle₁ := waiting_perform_of_idle idle begins performed
    rw [step_of_idle performed idle₁] at stepped
    cases stepped
    exact idle₁

theorem waiting_proceed (idle : s.waiting = false) {ops : List Operation} (begins : .wait ∉ ops)
    {seen : List Observation} (went : s.proceed ops = .ok (seen, t)) : t.waiting = false := by
  induction ops generalizing s seen with
  | nil =>
    cases went
    exact idle
  | cons op ops ih =>
    obtain ⟨first, s', later, stepped, rest, rfl⟩ := proceed_cons.mp went
    rw [List.mem_cons, not_or] at begins
    exact ih (waiting_step idle (Ne.symm begins.1) stepped) begins.2 rest

/-- While the wait goes on, operations are answered alike with and without it. -/
theorem Shadows.proceed (shadows : t.Shadows s) {ops : List Operation} (begins : .wait ∉ ops)
    {seen : List Observation} (went : s.proceed ops = .ok (seen, s')) (still : s'.waiting = true) :
    ∃ t', t.proceed ops = .ok (seen, t') ∧ t'.Shadows s' := by
  induction ops generalizing s t seen with
  | nil =>
    cases went
    exact ⟨t, rfl, shadows⟩
  | cons op ops ih =>
    obtain ⟨first, s₁, later, stepped, rest, rfl⟩ := proceed_cons.mp went
    rw [List.mem_cons, not_or] at begins
    -- The wait that goes on in the end goes on here.
    have busy : s₁.waiting = true := by
      cases waits : s₁.waiting with
      | true => rfl
      | false =>
        rw [waiting_proceed waits begins.2 rest] at still
        cases still
    obtain ⟨t₁, stepped', shadows₁⟩ := shadows.step (Ne.symm begins.1) stepped busy
    obtain ⟨t', rest', shadows'⟩ := ih shadows₁ begins.2 rest
    exact ⟨t', proceed_cons.mpr ⟨first, t₁, later, stepped', rest', rfl⟩, shadows'⟩

/-! ### What cannot be told -/

/-- A lease that timed out might as well have been a sleep. -/
theorem run_of_timedOut (proper : s.Proper) {patience : Nat}
    (performed : s.perform (.lease patience) = .ok (.timedOut, s'))
    (whole : s.waiting = true → Clock.milli ∣ s.now + patience) (later : List Operation) :
    s.run (.sleep patience :: later) =
      (s.run (.lease patience :: later)).map (·.modifyHead Observation.silent) := by
  obtain ⟨seen, s₁, t₁, leased, slept, alike⟩ := step_of_timedOut proper performed whole
  have same := run_congr (proper.step leased) (proper.step slept) alike later
  rw [run_cons leased, run_cons slept, same]
  cases t₁.run later <;> rfl

/-- A wait in the background that was given up might as well not have been. -/
theorem run_of_abortWait (proper : s.Proper) (idle : s.waiting = false)
    {during : List Operation} (begins : .wait ∉ during) {seen : List Observation}
    (went : s.proceed (.wait :: during) = .ok (seen, s')) (still : s'.waiting = true)
    (later : List Operation) :
    s.run (.sleep 0 :: (during ++ .sleep 0 :: later)) =
      s.run (.wait :: (during ++ .abortWait :: later)) := by
  obtain ⟨first, s₁, rest, begun, goes_on, rfl⟩ := proceed_cons.mp went
  have busy : s₁.waiting = true := by
    cases waits : s₁.waiting with
    | true => rfl
    | false =>
      rw [waiting_proceed waits begins goes_on] at still
      cases still
  obtain ⟨t₁, slept, shadows⟩ := Shadows.of_wait proper idle begun busy
  obtain ⟨t', goes_on', shadows'⟩ := shadows.proceed begins goes_on still
  obtain ⟨last, s₂, t₂, given_up, slept', alike⟩ := shadows'.of_abortWait
  have same := run_congr (shadows'.proper.step given_up) (shadows'.proper'.step slept') alike later
  rw [run_cons begun, run_cons slept, run_append goes_on, run_append goes_on', run_cons given_up,
    run_cons slept', same]

/-- In every run of a session, a lease that timed out and a wait in the background that was given up
before it ended can be replaced by letting time pass, and every other answer stays the same. (Every
wait ends at a whole millisecond. This counts only where another one goes on in the background.) -/
theorem abandoned_waits_unseen (backoff : Backoff) (limit : Nat) :
    let start := start (Queue.empty backoff limit)
    (∀ before patience later seen s s', start.proceed before = .ok (seen, s) →
      s.perform (.lease patience) = .ok (.timedOut, s') →
      (s.waiting = true → Clock.milli ∣ s.now + patience) →
      start.run (before ++ .sleep patience :: later) =
        (start.run (before ++ .lease patience :: later)).map
          (·.modify before.length Observation.silent)) ∧
    ∀ before during later seen s seen' s', start.proceed before = .ok (seen, s) →
      s.waiting = false → .wait ∉ during →
      s.proceed (.wait :: during) = .ok (seen', s') → s'.waiting = true →
      start.run (before ++ .sleep 0 :: (during ++ .sleep 0 :: later)) =
        start.run (before ++ .wait :: (during ++ .abortWait :: later)) := by
  intro start
  have proper : start.Proper := proper_start backoff limit
  constructor
  · intro before patience later seen s s' went performed whole
    have same := run_of_timedOut (proper.proceed went) performed whole later
    rw [run_append went, run_append went, same, ← length_of_proceed went]
    cases s.run (.lease patience :: later) with
    | error => rfl
    | ok rest => exact congrArg Except.ok (modify_length_append seen rest _).symm
  · intro before during later seen s seen' s' went idle begins went' still
    rw [run_append went, run_append went,
      run_of_abortWait (proper.proceed went) idle begins went' still]

end Session

end PacedChain
