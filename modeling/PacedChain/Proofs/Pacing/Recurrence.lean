import PacedChain.Proofs.Backoff.Sign
import PacedChain.Proofs.Desk.Placement
import PacedChain.Proofs.Host.Balance
import PacedChain.Proofs.Pacing.Solo

/-!
# The executions of a chain

One worker that is started by one trigger executes a chain turn by turn as its course says
(`Host.turns_follow_course`): what it has done at any time is the beginning of the course, and any
beginning of the course is what it has done when enough time has passed.
-/
namespace PacedChain

/-! ### More time, more turns -/

theorem Desk.turns_of_journal {d d' : Desk} (longer : d.journal <:+ d'.journal) :
    d.turns <+: d'.turns := by
  have later := longer.filterMap Entry.turn?
  exact List.reverse_prefix.mpr later

namespace Host

variable {h h' : Host} {limit limit' budget budget' : Nat}

/-- Nothing is ever taken out of the journal. -/
theorem Act.journal {group : Nat} {station station' : Station}
    (act : Act h group station station' h') : h.desk.journal <:+ h'.desk.journal := by
  obtain ⟨calls, _, run⟩ := act.calls []
  have longer := Usage.journal_run ⟨h.desk, station.lease?.toList ++ []⟩ calls
  rw [run] at longer
  exact longer

theorem journal_stepWorker (h : Host) (index : Nat) (preference : Preference) :
    h.desk.journal <:+ (h.stepWorker index preference).desk.journal := by
  rcases found : h.workers[index]? with _ | w
  · rw [stepWorker, found]
  · obtain ⟨_, _, _, h', _, act, same⟩ := stepWorker_eq found preference
    rw [same]
    exact act.journal

theorem journal_move (h : Host) (m : Move) : h.desk.journal <:+ (h.move m).desk.journal := by
  cases m with
  | step index preference => exact journal_stepWorker h index preference
  | trigger signal =>
    rw [move, desk_trigger]
    exact List.suffix_cons _ _
  | spawn n => rw [move, desk_spawn]
  | leave => rw [move, desk_leaveGroup]
  | requestShutdown | giveUp => rw [move, desk_requestShutdown]
  | pass | close => exact List.suffix_refl _

theorem journal_moves (h : Host) (ms : List Move) :
    h.desk.journal <:+ (h.moves ms).desk.journal :=
  moves_induction (P := fun later => h.desk.journal <:+ later.desk.journal)
    (fun later m longer => longer.trans (journal_move later m)) (List.suffix_refl _) ms

theorem turns_tick (ticked : h.tick limit = some h') : h.desk.turns <+: h'.desk.turns := by
  obtain ⟨ms, rfl, _⟩ := tick_eq_moves ticked
  exact Desk.turns_of_journal (journal_moves h ms)

theorem turns_runUntil (limit budget : Nat) (h : Host) :
    h.desk.turns <+: (runUntil limit budget h).desk.turns := by
  induction budget generalizing h with
  | zero => exact List.prefix_refl _
  | succ budget ih =>
    rw [runUntil]
    split
    · next h' ticked => exact (turns_tick ticked).trans (ih h')
    · exact List.prefix_refl _

/-- What happens before a limit happens before any later one. -/
theorem tick_of_le (later : limit ≤ limit') (ticked : h.tick limit = some h') :
    h.tick limit' = some h' := by
  unfold tick at ticked ⊢
  -- The limit matters only where the clock is to be moved on.
  split at ticked
  · exact ticked
  · split at ticked
    · cases ticked
    · split at ticked
      · cases ticked
      · next wake q seen =>
        split at ticked
        · next early =>
          rw [if_pos (Nat.lt_of_lt_of_le early later)]
          exact ticked
        · cases ticked
      · exact ticked

theorem turns_runUntil_of_le (later : limit ≤ limit') (more : budget ≤ budget') (h : Host) :
    (runUntil limit budget h).desk.turns <+: (runUntil limit' budget' h).desk.turns := by
  induction budget generalizing budget' h with
  | zero => exact turns_runUntil limit' budget' h
  | succ budget ih =>
    obtain ⟨rest, rfl⟩ : ∃ rest, budget' = rest + 1 := ⟨budget' - 1, by omega⟩
    rw [runUntil]
    split
    · next h' ticked =>
      rw [runUntil, tick_of_le later ticked]
      exact ih (by omega) h'
    -- Here the run stands still for good at the earlier limit.
    · exact turns_runUntil limit' (rest + 1) h

/-! ### Turn by turn -/

variable {d d' : Desk} {b : Backoff} {c : Chain} {turn : Turn} {wait : Nat → Nat}

/-- A course goes on as the answer to its first turn has it. -/
theorem course_succ (pace : Pace) (n : Nat) (c : Chain) (turn : Turn) :
    course pace (n + 1) c.oracle c.engine turn =
      turn :: match turn.next pace (c.ask turn.job).1 with
        | none => []
        | some following =>
          course pace n (c.ask turn.job).2.oracle (c.ask turn.job).2.engine following := by
  obtain ⟨time, task, job, attempt⟩ := turn
  -- Which of the two boundaries is asked depends on the job.
  cases job with
  | bootstrap =>
    change (match Turn.next pace _ (c.oracle.answer c.oracle.calls) with
      | none => _ | some _ => _) =
      _ :: (match Turn.next pace _ (c.oracle.answer c.oracle.calls) with | none => _ | some _ => _)
    split <;> rfl
  | sync =>
    change (match Turn.next pace _ (c.engine.answer c.engine.calls) with
      | none => _ | some _ => _) =
      _ :: (match Turn.next pace _ (c.engine.answer c.engine.calls) with | none => _ | some _ => _)
    split <;> rfl

theorem turns_of_bare (bare : d.queue.Bare) (c : Chain) (limit budget : Nat) :
    (runUntil limit budget (solo d c .waiting)).desk.turns = d.turns := by
  cases budget with
  | zero => rfl
  | succ budget => rw [runUntil, tick_waiting_bare bare]; rfl

theorem leads_next (awaits : Awaits d b turn) (waits : ∀ k, b.nextDelay k = .ok (wait k))
    (c : Chain) :
    ∃ d' c', Leads turn.time (solo d c .waiting) (solo d' c' .waiting) ∧
      Alike (c.ask turn.job).2 c' ∧ d'.turns = d.turns ++ [turn] ∧
      Follows d' b (turn.next ⟨c.policy.fallback, b.allowsRetry, wait⟩ (c.ask turn.job).1) := by
  obtain ⟨d₁, lease, taken, takes, turns₁⟩ := leads_lease (c := c) awaits
  obtain ⟨d₂, c', followed, alike, turns₂, follows⟩ := leads_following takes waits c turn.time
  exact ⟨d₂, c', taken.trans followed, alike, turns₂.trans turns₁, follows⟩

/-- From the wait for a turn on, the turns that are taken are those of the course. -/
theorem turns_of_awaits (waits : ∀ k, b.nextDelay k = .ok (wait k)) (n : Nat)
    (awaits : Awaits d b turn) (c : Chain) :
    ∃ limit budget, ∀ limit', limit ≤ limit' → ∀ budget', budget ≤ budget' →
      (runUntil limit' budget' (solo d c .waiting)).desk.turns.take (d.turns.length + n) =
        d.turns ++ course ⟨c.policy.fallback, b.allowsRetry, wait⟩ n c.oracle c.engine turn := by
  induction n generalizing d c turn with
  | zero =>
    -- The turns so far are the first ones from now on.
    refine ⟨0, 0, fun limit' _ budget' _ => ?_⟩
    have first := turns_runUntil limit' budget' (solo d c .waiting)
    rw [course, List.append_nil]
    exact (List.prefix_iff_eq_take.mp first).symm
  | succ n ih =>
    -- From this wait to the next one, the worker takes the turn that is to come.
    obtain ⟨d', c', ⟨ticks, leads⟩, alike, turns, follows⟩ := leads_next awaits waits c
    have grown : d.turns.length + (n + 1) = d'.turns.length + n := by
      rw [turns, List.length_append, List.length_singleton]
      omega
    rw [course_succ]
    cases next : turn.next ⟨c.policy.fallback, b.allowsRetry, wait⟩ (c.ask turn.job).1 with
    | none =>
      -- No turn follows, and the worker waits for ever.
      rw [next] at follows
      refine ⟨turn.time + 1, ticks, fun limit' later budget' more => ?_⟩
      obtain ⟨rest, rfl⟩ := Nat.exists_eq_add_of_le' more
      rw [leads limit' later, turns_of_bare follows, grown, ← turns]
      exact List.take_of_length_le (Nat.le_add_right _ _)
    | some following =>
      -- The worker waits for the turn that follows, with the rest of the answers to come.
      rw [next] at follows
      have policy : c'.policy = c.policy := alike.policy.trans (policy_ask c turn.job)
      obtain ⟨limit, budget, reached⟩ := ih follows c'
      refine ⟨max limit (turn.time + 1), budget + ticks, fun limit' later budget' more => ?_⟩
      obtain ⟨rest, rfl⟩ : ∃ rest, budget' = rest + ticks := ⟨budget' - ticks, by omega⟩
      rw [leads limit' (by omega), grown, reached limit' (by omega) rest (by omega), turns, policy,
        alike.oracle, alike.engine, List.append_assoc, List.singleton_append]

/-! ### The start of a chain -/

/-- A new host with one worker, whose chain is started by a signal at the given time. -/
def started (c : Chain) (b : Backoff) (historyLimit time : Nat) (signal : Trigger) : Host :=
  ((((fresh c b historyLimit).spawn 1).sleep time).trigger signal).2

theorem sleep_spawn_fresh (c : Chain) (b : Backoff) (historyLimit time : Nat) :
    ((fresh c b historyLimit).spawn 1).sleep time =
      solo { now := time, queue := Queue.empty b historyLimit } c .waiting := by
  let d : Desk := { queue := Queue.empty b historyLimit }
  -- The worker sees that it may go on, and then nothing is to come.
  have idles : ∀ rest, runUntil time (rest + 2) (solo d c .checking) =
      solo { d with now := time } c .waiting := by
    intro rest
    have bare : d.queue.Bare := ⟨rfl, rfl, rfl⟩
    rw [runUntil, tick_checking]
    simp only
    rw [runUntil, tick_waiting_bare bare]
    rfl
  have enough : budget = (Nat.pow 10 15 - 2) + 2 := rfl
  have now : ((fresh c b historyLimit).spawn 1).desk.now + time = time := Nat.zero_add time
  rw [sleep, now, enough]
  exact idles _

theorem awaits_started (c : Chain) (b : Backoff) (historyLimit : Nat) {time : Nat}
    (whole : Clock.milli ∣ time) (signal : Trigger) :
    ∃ d c', started c b historyLimit time signal = solo d c' .waiting ∧ Alike c c' ∧
      d.turns = [] ∧ Awaits d b ⟨time, ⟨1⟩, .bootstrap, 1⟩ := by
  let q := Queue.empty b historyLimit
  -- The key is free on a new queue, so that the bootstrap is created and ready at once.
  have works : q.Works b := ⟨Queue.kept_empty b historyLimit, rfl, rfl⟩
  have lone := works.insert rfl rfl .bootstrap (some c.policy.key) Delay.zero whole
  have now : Clock.after time Delay.zero.duration = time := Clock.after_zero whole
  rw [now] at lone
  rw [started, sleep_spawn_fresh]
  refine ⟨_, _, rfl, ⟨rfl, rfl, rfl⟩, rfl, whole, _, lone, Task.job_fresh _ _ _ _, ?_⟩
  rw [Task.attempts_fresh]

/-- With settings that pass, one worker executes a chain turn by turn as its course says: never
anything else, and every turn of the course in the end. -/
theorem turns_follow_course {s : Settings} (valid : s.validate = .ok s) (c : Chain)
    (historyLimit millis : Nat) (signal : Trigger) :
    let h := started c s.backoff historyLimit (Clock.ofMillis millis) signal
    ∃ wait : Nat → Nat, (∀ attempts, s.backoff.nextDelay attempts = .ok (wait attempts)) ∧
      let turns := fun n => course ⟨c.policy.fallback, s.backoff.allowsRetry, wait⟩ n c.oracle
        c.engine ⟨Clock.ofMillis millis, ⟨1⟩, .bootstrap, 1⟩
      (∀ limit budget, (runUntil limit budget h).desk.turns =
        turns (runUntil limit budget h).desk.turns.length) ∧
      ∀ n, ∃ limit budget, ∀ limit', limit ≤ limit' → ∀ budget', budget ≤ budget' →
        (runUntil limit' budget' h).desk.turns.take n = turns n := by
  intro h
  choose wait waits using Settings.exists_nextDelay (Settings.fault?_of_validate valid)
  refine ⟨wait, waits, ?_⟩
  intro turns
  have whole : Clock.milli ∣ Clock.ofMillis millis := Nat.dvd_mul_right _ _
  obtain ⟨d, c', begins, alike, new, awaits⟩ :=
    awaits_started c s.backoff historyLimit whole signal
  have reached : ∀ n, ∃ limit budget, ∀ limit', limit ≤ limit' → ∀ budget', budget ≤ budget' →
      (runUntil limit' budget' h).desk.turns.take n = turns n := by
    intro n
    have follow := turns_of_awaits waits n awaits c'
    rw [new, List.length_nil, Nat.zero_add, List.nil_append, alike.policy, alike.oracle,
      alike.engine, ← begins] at follow
    exact follow
  refine ⟨fun limit budget => ?_, reached⟩
  -- What has been done by now is the beginning of what will have been done later on.
  obtain ⟨limit', budget', later⟩ := reached (runUntil limit budget h).desk.turns.length
  have grown := turns_runUntil_of_le (Nat.le_max_left limit limit')
    (Nat.le_max_left budget budget') h
  rw [← later _ (Nat.le_max_right limit limit') _ (Nat.le_max_right budget budget')]
  exact List.prefix_iff_eq_take.mp grown

/-- A sync that may not be tried again ends the chain when it fails. -/
theorem turns_follow_course_to_its_end :
    let s : Settings := { retry := { RetrySettings.standard with maxAttempts := some 1 } }
    let c : Chain := {
      policy := s.policy
      oracle := Boundary.script [] (.recommends 5)
      engine := Boundary.script [] (.fails "out of reach") }
    let h := started c s.backoff 0 (Clock.ofMillis 7) .bootCompleted
    s.validate = .ok s ∧ ∃ limit budget, ∀ limit', limit ≤ limit' → ∀ budget', budget ≤ budget' →
      (runUntil limit' budget' h).desk.turns.take 3 =
        [⟨Clock.ofMillis 7, ⟨1⟩, .bootstrap, 1⟩, ⟨Clock.ofMillis 5007, ⟨2⟩, .sync, 1⟩] := by
  intro s c h
  have valid : s.validate = .ok s := by
    have clean : s.fault? = none := by decide +kernel
    simp only [Settings.validate, clean]
  have fiveSecsLater : Clock.ofMillis 5007 = Clock.after (Clock.ofMillis 7) (Clock.ofSecs 5) := by
    decide
  obtain ⟨wait, _, _, reached⟩ := turns_follow_course valid c 0 7 .bootCompleted
  rw [fiveSecsLater]
  exact ⟨valid, reached 3⟩

end Host

end PacedChain
