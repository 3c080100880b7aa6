import PacedChain.Proofs.Backoff.Sign
import PacedChain.Proofs.Host.Unison

/-!
# One chain at a time

Triggers start one chain after the other if each of them comes while no sync is unfinished, and not
before the chain is told that the last one has ended: chain and queue are then in unison
(`Host.Tuned`). A trigger that comes while a sync is unfinished starts a second chain beside the
first, and the phase, which is one for both, may then be that of a chain that has stalled while the
other one goes on (`Host.stalled_while_a_sync_is_left`). Where completions are told at once, it is
not without such a trigger (`Host.nothing_left_unless_crossed`).
-/
namespace PacedChain

namespace Host

variable {h : Host} {run : List Move → Host} {ms : List Move} {m : Move}

/-! ### Triggers that come apart -/

/-- Each trigger comes while no sync is unfinished. -/
def Apart (run : List Move → Host) (ms : List Move) : Prop :=
  ∀ before m, before ++ [m] <+: ms → m.isTrigger = true →
    (run before).desk.queue.unfinished .sync = 0

instance (run : List Move → Host) (ms : List Move) : Decidable (Apart run ms) :=
  decidable_of_iff
    (∀ way ∈ ms.inits, ∀ m ∈ way.getLast?, m.isTrigger = true →
      (run way.dropLast).desk.queue.unfinished .sync = 0) <| by
    constructor
    · intro checked before m le fires
      have here := checked _ ((List.mem_inits _ _).mpr le) m
        (by rw [Option.mem_def, List.getLast?_concat]) fires
      rw [List.dropLast_concat] at here
      exact here
    · intro apart way le m last fires
      refine apart way.dropLast m ?_ fires
      rw [List.dropLast_append_getLast? m last]
      exact (List.mem_inits _ _).mp le

/-- Some trigger puts a bootstrap on the queue while a sync is unfinished. -/
def Crossed (run : List Move → Host) (ms : List Move) : Prop :=
  ∃ before m, before ++ [m] <+: ms ∧ m.isTrigger = true ∧
    ((run before).news? m).isSome = true ∧ 0 < (run before).desk.queue.unfinished .sync

theorem Apart.not_crossed (apart : Apart run ms) : ¬Crossed run ms := by
  rintro ⟨before, m, le, fires, _, more⟩
  have none := apart before m le fires
  omega

/-- What each move keeps is kept by a row of them, where there is one worker at most before and
after each and no trigger starts a second chain. -/
theorem uncrossed_induction {P : List Move → Prop} (alone : Alone run ms) (apart : ¬Crossed run ms)
    (first : P [])
    (step : ∀ ms m, (run ms).active.length ≤ 1 → (run (ms ++ [m])).active.length ≤ 1 →
      (m.isTrigger = true → ((run ms).news? m).isSome = true →
        (run ms).desk.queue.unfinished .sync = 0) → P ms → P (ms ++ [m])) : P ms := by
  induction ms using List.reverseRecOn with
  | nil => exact first
  | append_singleton ms m ih =>
    refine step ms m (alone ms (List.prefix_append ms [m])) (alone _ (List.prefix_refl _)) ?_
      (ih ?_ ?_)
    · intro fires starts
      by_contra more
      exact apart ⟨ms, m, List.prefix_refl _, fires, starts, Nat.pos_of_ne_zero more⟩
    · exact fun before le => alone before (le.trans (List.prefix_append ms [m]))
    · rintro ⟨before, m', le, crossed⟩
      exact apart ⟨before, m', le.trans (List.prefix_append ms [m]), crossed⟩

/-! ### One move -/

namespace Unison

/-- What a move tells the chain is possible, if it is no trigger or one that comes apart. -/
theorem possible_move (unison : Unison h.desk h.chain h.seat)
    (sound : Usage.Sound ⟨h.desk, h.seat.lease?.toList⟩) (before : h.active.length ≤ 1)
    (apart : m.isTrigger = true → (h.news? m).isSome = true →
      h.seat.isGivenUp = false ∧ h.desk.queue.unfinished .sync = 0)
    {news : News} (told : h.news? m = some news) :
    ∃ p, h.chain.status.phase.on news.event = some p := by
  cases m with
  | step index preference =>
    obtain ⟨_, ⟨w, found, seat, _⟩ | ⟨_, ended⟩⟩ := stepWorker_cases before index preference
    · simp only [news?, found, Option.bind_some, ← seat] at told
      exact unison.possible told
    · rcases found : h.workers[index]? with _ | w <;> simp only [news?, found] at told
      · cases told
      · simp only [Option.bind_some, ended w found] at told
        cases told
  | trigger signal => exact (unison.trigger signal sound (apart rfl)).2 news told
  | pass | close | spawn | leave | requestShutdown | giveUp => cases told

/-- A move keeps chain and queue in unison, if it is no trigger or one that comes apart. -/
theorem move (unison : Unison h.desk h.chain h.seat)
    (sound : Usage.Sound ⟨h.desk, h.seat.lease?.toList⟩) (before : h.active.length ≤ 1)
    (after : (h.move m).active.length ≤ 1)
    (waits : ∀ attempts, ∃ delay, h.desk.queue.backoff.nextDelay attempts = .ok delay)
    (apart : m.isTrigger = true → (h.news? m).isSome = true →
      h.seat.isGivenUp = false ∧ h.desk.queue.unfinished .sync = 0) :
    Unison (h.move m).desk (h.move m).chain (h.move m).seat := by
  have deed := deed_move before m after
  generalize (h.move m).desk = d, (h.move m).chain = c, (h.move m).seat = s at deed ⊢
  cases deed with
  | work _ _ act => exact unison.work act sound waits
  | trigger signal => exact (unison.trigger signal sound (apart rfl)).1
  | pass | close => exact unison.mono rfl (List.Subset.refl _)
  | nothing => exact unison
  | arrive n gone =>
    rw [gone] at unison
    exact unison

end Unison

/-- The chain was told only what was possible, and what it makes of that is in unison with the
queue. -/
structure Tuned (h : Host) (told : List News) : Prop where
  sound : h.usage.Sound
  unison : Unison h.desk h.chain h.seat
  possible : (told.map News.event).foldlM Phase.on .notStarted = some h.chain.status.phase

theorem Tuned.move {told : List News} (tuned : Tuned h told) (before : h.active.length ≤ 1)
    (after : (h.move m).active.length ≤ 1)
    (waits : ∀ attempts, ∃ delay, h.desk.queue.backoff.nextDelay attempts = .ok delay)
    (apart : m.isTrigger = true → (h.news? m).isSome = true →
      h.seat.isGivenUp = false ∧ h.desk.queue.unfinished .sync = 0) :
    Tuned (h.move m) (told ++ (h.news? m).toList) := by
  have used := tuned.sound
  rw [usage, leases_eq before] at used
  refine ⟨sound_move tuned.sound m, tuned.unison.move used before after waits apart, ?_⟩
  rw [List.map_append, List.foldlM_append, tuned.possible, status_move]
  rcases news : h.news? m with _ | told
  · rfl
  · obtain ⟨p, on⟩ := tuned.unison.possible_move used before apart news
    change (h.chain.status.phase.on told.event >>= pure) = some (h.chain.status.hear told).phase
    rw [Status.phase_hear, Phase.after_of_on on, on]
    rfl

/-! ### One move, and what is told of it -/

/-- A move that completes no lease leaves none completed. -/
theorem isCompleted_move (before : h.active.length ≤ 1) (after : (h.move m).active.length ≤ 1)
    (going : h.completes m = false) (quiet : h.seat.isCompleted = false) :
    (h.move m).seat.isCompleted = false := by
  by_cases steps : ∃ index preference, m = .step index preference
  · obtain ⟨index, preference, rfl⟩ := steps
    obtain ⟨_, ⟨w, found, _, _, seat, _⟩ | ⟨same, _⟩⟩ := stepWorker_cases before index preference
    · simp only [completes, found] at going
      rw [Host.move, seat]
      exact going
    · rw [Host.move, same]
      exact quiet
  · have deed := deed_move before m after
    generalize (h.move m).desk = d, (h.move m).chain = c, (h.move m).seat = s at deed ⊢
    cases deed with
    | work index preference => exact absurd ⟨index, preference, rfl⟩ steps
    | pass | trigger | close | nothing => exact quiet
    | arrive => rfl

/-- After the completion of a lease, the next step of the same worker tells of it. -/
theorem isCompleted_move_move (before : h.active.length ≤ 1) (ends : h.completes m = true) :
    m.isTrigger = false ∧ (h.move m).active.length ≤ 1 ∧
      ((h.move m).move m).active.length ≤ 1 ∧ ((h.move m).move m).seat.isCompleted = false := by
  cases m with
  | step index preference =>
    obtain ⟨between, cases⟩ := stepWorker_cases before index preference
    obtain ⟨after, next⟩ := stepWorker_cases between index preference
    refine ⟨rfl, between, after, ?_⟩
    rw [completes] at ends
    obtain ⟨w, found, _, now, _⟩ | ⟨_, ended⟩ := cases
    · simp only [found] at ends
      obtain ⟨w', found', _, _, seat, _⟩ | ⟨_, ended⟩ := next
      · rw [Host.move, Host.move, seat]
        have same : w' = { w with station := (h.act w preference).1 } :=
          Option.some.inj (found'.symm.trans now)
        subst same
        cases station : (h.act w preference).1 <;> rw [station] at ends <;> cases ends
        rfl
      · have gone := ended _ now
        simp only at gone
        rw [gone] at ends
        cases ends
    · rcases found : h.workers[index]? with _ | w <;> simp only [found] at ends
      · cases ends
      · rw [act, ended w found] at ends
        cases ends
  | pass | close | spawn | leave | requestShutdown | giveUp | trigger => cases ends

theorem Tuned.proceeds {told : List News} (tuned : Tuned h told) (quiet : h.seat.isCompleted = false)
    (before : h.active.length ≤ 1) (after : (h.proceeds [m]).active.length ≤ 1)
    (waits : ∀ attempts, ∃ delay, h.desk.queue.backoff.nextDelay attempts = .ok delay)
    (apart : m.isTrigger = true → (h.news? m).isSome = true → h.desk.queue.unfinished .sync = 0) :
    Tuned (h.proceeds [m]) (told ++ h.told [m]) ∧ (h.proceeds [m]).seat.isCompleted = false := by
  cases ends : h.completes m with
  | false =>
    obtain ⟨moved, heard⟩ := proceeds_singleton ends
    rw [moved] at after
    rw [moved, heard]
    exact ⟨tuned.move before after waits fun fires starts =>
        ⟨Station.isGivenUp_of_not_isCompleted quiet, apart fires starts⟩,
      isCompleted_move before after ends quiet⟩
  | true =>
    obtain ⟨moved, heard⟩ := proceeds_singleton_of_completes ends
    obtain ⟨noTrigger, between, after, quiet⟩ := isCompleted_move_move before ends
    have apart : ∀ {P : Prop}, m.isTrigger = true → P := by
      intro P fires
      rw [noTrigger] at fires
      cases fires
    have still : ∀ attempts,
        ∃ delay, (h.move m).desk.queue.backoff.nextDelay attempts = .ok delay := by
      rw [backoff_move]
      exact waits
    rw [moved, heard, ← List.append_assoc]
    exact ⟨(tuned.move before between waits apart).move between after still apart, quiet⟩

/-! ### A whole run -/

theorem tuned_fresh {chain : Chain} (new : chain.status = {}) (backoff : Backoff)
    (historyLimit : Nat) : Tuned (fresh chain backoff historyLimit) [] := by
  refine ⟨Usage.sound_start backoff historyLimit, Or.inl ⟨rfl, ?_⟩, ?_⟩
  · change chain.status.phase.isLive = false
    rw [new]
    rfl
  · change some Phase.notStarted = some chain.status.phase
    rw [new]

theorem tuned_proceeds {chain : Chain} (new : chain.status = {}) (backoff : Backoff)
    (historyLimit : Nat) (waits : ∀ attempts, ∃ delay, backoff.nextDelay attempts = .ok delay)
    (alone : Alone (fresh chain backoff historyLimit).proceeds ms)
    (apart : ¬Crossed (fresh chain backoff historyLimit).proceeds ms) :
    Tuned ((fresh chain backoff historyLimit).proceeds ms)
        ((fresh chain backoff historyLimit).told ms) ∧
      ((fresh chain backoff historyLimit).proceeds ms).seat.isCompleted = false := by
  refine uncrossed_induction (P := fun ms => Tuned ((fresh chain backoff historyLimit).proceeds ms)
      ((fresh chain backoff historyLimit).told ms) ∧
    ((fresh chain backoff historyLimit).proceeds ms).seat.isCompleted = false) alone apart
    ⟨tuned_fresh new backoff historyLimit, rfl⟩ ?_
  rintro ms m before after apart ⟨tuned, quiet⟩
  have same : ((fresh chain backoff historyLimit).proceeds ms).desk.queue.backoff = backoff :=
    backoff_moves _ _
  rw [proceeds_append] at after ⊢
  rw [told_append]
  refine tuned.proceeds quiet before after ?_ apart
  rw [same]
  exact waits

/-! ### What is left -/

/-- Where nothing is being executed, nothing is left or one task waits. -/
theorem Unison.of_isIdle {d : Desk} {c : Chain} {s : Station} (unison : Unison d c s)
    (idle : s.isIdle = true) : d.agenda = [] ∧ c.status.phase.isLive = false ∨ Waits d c := by
  cases s with
  | checking | waiting | gone => exact unison
  | executing | completed => cases idle

/-- Where the chain is not live, nothing is left of it, unless a trigger put a bootstrap on the
queue while a sync was unfinished. Completions are told at once here; where a trigger comes between
the end of a task and the news of it, a bootstrap may be left as well
(`Host.stalled_over_a_bootstrap`). -/
theorem nothing_left_unless_crossed (chain : Chain) (backoff : Backoff) (historyLimit : Nat)
    (ms : List Move) (new : chain.status = {})
    (waits : ∀ attempts, ∃ delay, backoff.nextDelay attempts = .ok delay)
    (alone : Alone (fresh chain backoff historyLimit).proceeds ms)
    (rest : ((fresh chain backoff historyLimit).proceeds ms).atRest = true)
    (asleep : ((fresh chain backoff historyLimit).proceeds ms).chain.status.phase.isLive = false) :
    (∀ job, ((fresh chain backoff historyLimit).proceeds ms).desk.queue.unfinished job = 0) ∨
      Crossed (fresh chain backoff historyLimit).proceeds ms := by
  by_cases crossed : Crossed (fresh chain backoff historyLimit).proceeds ms
  · exact Or.inr crossed
  · obtain ⟨tuned, _⟩ := tuned_proceeds new backoff historyLimit waits alone crossed
    refine Or.inl fun job => ?_
    rw [Queue.unfinished_eq_countP]
    change List.countP _ (Desk.agenda _) = 0
    rcases tuned.unison.of_isIdle (isIdle_seat rest) with ⟨empty, _⟩ | ⟨item, _, phase, _⟩
    · rw [empty]
      rfl
    · rw [phase, item.isLive_phase] at asleep
      cases asleep

/-- The only attempt of the bootstrap fails. -/
theorem nothing_left_unless_crossed_after_death :
    let chain : Chain := {
      policy := {}
      oracle := Boundary.script [] (.fails "out of reach")
      engine := Boundary.script [] (.recommends 0) }
    let backoff : Backoff := ⟨Clock.ofSecs 30, Binary64.ofNat 2, Clock.ofSecs 60, some 1⟩
    let h := (fresh chain backoff 0).proceeds
      ([.spawn 1, .trigger .bootCompleted] ++ List.replicate 6 (.step 0 .lease))
    h.chain.status.phase = .stalled ∧ ∀ job, h.desk.queue.unfinished job = 0 := by
  intro chain backoff
  have stalled : ((fresh chain backoff 0).proceeds ([.spawn 1, .trigger .bootCompleted] ++
    List.replicate 6 (.step 0 .lease))).chain.status.phase = .stalled := by decide +kernel
  have apart : Apart (fresh chain backoff 0).proceeds
    ([.spawn 1, .trigger .bootCompleted] ++ List.replicate 6 (.step 0 .lease)) := by decide +kernel
  have waits : ∀ attempts, ∃ delay, backoff.nextDelay attempts = .ok delay := by
    refine Backoff.exists_nextDelay ?_
    simp only [backoff]
    exact Binary64.unsigned_ofNat 2
  have left := nothing_left_unless_crossed chain backoff 0
    ([.spawn 1, .trigger .bootCompleted] ++ List.replicate 6 (.step 0 .lease)) rfl waits
    (by decide +kernel) (by decide +kernel) (by decide +kernel)
  exact ⟨stalled, left.resolve_right apart.not_crossed⟩

/-- A second trigger, one second after the first, starts a second chain. The first one dies with its
first sync; the phase stays that of a stalled chain although the second one goes on. -/
theorem stalled_while_a_sync_is_left :
    let chain : Chain := {
      policy := {}
      oracle := Boundary.script [.recommends 10, .recommends 20] (.recommends 0)
      engine := Boundary.script [.fails "out of reach"] (.recommends 30) }
    let backoff : Backoff := ⟨Clock.ofSecs 30, Binary64.ofNat 2, Clock.ofSecs 60, some 1⟩
    let run := (fresh chain backoff 0).proceeds
    let ms := [.spawn 1, .trigger .bootCompleted] ++ List.replicate 7 (.step 0 .lease) ++
      [.pass (Clock.ofSecs 1), .trigger .serviceInit] ++ List.replicate 7 (.step 0 .lease) ++
      [.pass (Clock.ofSecs 9)] ++ List.replicate 6 (.step 0 .lease) ++
      [.pass (Clock.ofSecs 11)] ++ List.replicate 7 (.step 0 .lease)
    Alone run ms ∧ (run ms).atRest = true ∧ (run ms).chain.status.syncRuns = 2 ∧
      (run ms).chain.status.phase = .stalled ∧ (run ms).desk.queue.unfinished .sync = 1 := by
  decide +kernel

end Host

end PacedChain
