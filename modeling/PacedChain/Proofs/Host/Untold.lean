import PacedChain.Proofs.Host.OneChain

/-!
# Ends that the chain is not told of yet

A worker completes a lease in one step and tells the chain of it in the next one. If it was the last
attempt of a task, the key is free in between, and a trigger can then put a bootstrap on the queue
of a chain that still says that it is executing (`Host.Overtaken`). The news of the bootstrap is
passed over, and the news that the task was given up makes the chain stall although the bootstrap is
left (`Host.stalled_over_a_bootstrap`). Where no trigger starts a second chain, this is the only way
in which phase and queue come apart (`Host.phase_tells_unless_overtaken`).

What is left does not depend on what the chain has heard, so that even then it is one task at most:
chain and queue would be in unison if the chain had been told in time (`Host.Orderly`).
-/
namespace PacedChain

namespace Host

variable {h h' : Host} {run : List Move → Host} {ms : List Move} {m : Move} {d : Desk} {c : Chain}
  {s s' : Station}

/-- Some trigger puts a bootstrap on the queue between the end of a task that was given up and the
news of it. -/
def Overtaken (run : List Move → Host) (ms : List Move) : Prop :=
  ∃ before m, before ++ [m] <+: ms ∧ m.isTrigger = true ∧
    ((run before).news? m).isSome = true ∧ (run before).seat.isGivenUp = true

/-- A row of moves up to one of them is a way that leads to it. -/
theorem exists_prefix_concat_iff (happens : List Move → Move → Prop) :
    (∃ before m, before ++ [m] <+: ms ∧ happens before m) ↔
      ∃ way ∈ ms.inits, ∃ m ∈ way.getLast?, happens way.dropLast m := by
  constructor
  · rintro ⟨before, m, le, here⟩
    refine ⟨before ++ [m], (List.mem_inits _ _).mpr le, m, ?_, ?_⟩
    · rw [Option.mem_def, List.getLast?_concat]
    · rw [List.dropLast_concat]
      exact here
  · rintro ⟨way, le, m, last, here⟩
    refine ⟨way.dropLast, m, ?_, here⟩
    rw [List.dropLast_append_getLast? m last]
    exact (List.mem_inits _ _).mp le

instance (run : List Move → Host) (ms : List Move) : Decidable (Overtaken run ms) :=
  decidable_of_iff (∃ way ∈ ms.inits, ∃ m ∈ way.getLast?, m.isTrigger = true ∧
    ((run way.dropLast).news? m).isSome = true ∧ (run way.dropLast).seat.isGivenUp = true)
    (exists_prefix_concat_iff fun before m => m.isTrigger = true ∧
      ((run before).news? m).isSome = true ∧ (run before).seat.isGivenUp = true).symm

theorem Overtaken.append (overtaken : Overtaken run ms) (more : List Move) :
    Overtaken run (ms ++ more) := by
  obtain ⟨before, m, le, happens⟩ := overtaken
  exact ⟨before, m, le.trans (List.prefix_append ms more), happens⟩

/-- A trigger overtakes the news at the last move, or at an earlier one. -/
theorem overtaken_concat_iff : Overtaken run (ms ++ [m]) ↔ Overtaken run ms ∨
    m.isTrigger = true ∧ ((run ms).news? m).isSome = true ∧ (run ms).seat.isGivenUp = true := by
  constructor
  · rintro ⟨before, m', le, happens⟩
    rcases List.prefix_concat_iff.mp le with same | sooner
    · obtain ⟨rfl, last⟩ := List.append_inj' same rfl
      cases last
      exact Or.inr happens
    · exact Or.inl ⟨before, m', sooner, happens⟩
  · rintro (overtaken | happens)
    · exact overtaken.append [m]
    · exact ⟨ms, m, List.prefix_refl _, happens⟩

/-! ### What is left does not depend on what the chain has heard -/

/-- A step of a worker is the same step whatever the status of the chain. -/
theorem Act.withStatus {group : Nat} (act : Act h group s s' h') (status : Status) :
    ∃ status', Act { h with chain := { h.chain with status } } group s s'
      { h' with chain := { h'.chain with status := status' } } := by
  cases act with
  | stop asked => exact ⟨status, .stop asked⟩
  | goOn going => exact ⟨status, .goOn going⟩
  | recheck asked => exact ⟨status, .recheck asked⟩
  | leave left => exact ⟨status, .leave left⟩
  | shut seen => exact ⟨status, .shut seen⟩
  | idle seen => exact ⟨status, .idle seen⟩
  | lease seen => exact ⟨status, .lease seen⟩
  | start lease => exact ⟨_, .start lease⟩
  | @ask lease answer chain asked =>
    have same : ({ h.chain with status } : Chain).ask lease.envelope.job =
        (answer, { chain with status }) := by
      cases job : lease.envelope.job <;> rw [job] at asked <;> cases asked <;> rfl
    exact ⟨status, .ask lease same⟩
  | fail failed => exact ⟨status, .fail failed⟩
  | refuse awaited refused => exact ⟨status, .refuse awaited refused⟩
  | place awaited placed => exact ⟨status, .place awaited placed⟩
  | note lease successor => exact ⟨_, .note lease successor⟩
  | complete done => exact ⟨status, .complete done⟩
  | drop done => exact ⟨status, .drop done⟩
  | lose done => exact ⟨status, .lose done⟩
  | tell lease completion => exact ⟨_, .tell lease completion⟩
  | rest => exact ⟨status, .rest⟩

/-- With some status, the chain would be in unison with the queue, but for a bootstrap that came
before the news that a task was given up. -/
def Orderly (d : Desk) (c : Chain) (s : Station) : Prop :=
  ∃ status, Unison d { c with status } s ∨ s.isGivenUp = true ∧ Waits d { c with status }

namespace Orderly

/-- A trigger leaves what is left in order, if it comes apart. -/
theorem trigger (orderly : Orderly h.desk h.chain s) (signal : Trigger)
    (sound : Usage.Sound ⟨h.desk, s.lease?.toList⟩)
    (apart : (h.news? (.trigger signal)).isSome = true → h.desk.queue.unfinished .sync = 0) :
    Orderly (h.trigger signal).2.desk (h.trigger signal).2.chain s := by
  obtain ⟨result, d', answered, journal, cases⟩ := Desk.enqueueUnique_keepExisting_cases sound.kept
    sound.indexed h.chain.policy.key .bootstrap
  have entered : h.desk.journal ⊆ d'.journal := by
    rw [journal]
    exact List.subset_cons_self _ _
  have news := news?_trigger signal answered
  rw [trigger_eq signal answered]
  have stays : d'.agenda = h.desk.agenda → Orderly d' h.chain s := by
    intro same
    obtain ⟨status, unison | ⟨untold, waits⟩⟩ := orderly
    · exact ⟨status, Or.inl (unison.mono same entered)⟩
    · exact ⟨status, Or.inr ⟨untold, waits.mono same entered⟩⟩
  rcases cases with ⟨error, rfl, same⟩ | ⟨holder, rfl, same, _⟩ | ⟨free, rfl, grown⟩
  · exact stays same
  · exact stays same
  · -- Nothing was left, and the bootstrap is now.
    have noSync := apart (news ▸ rfl)
    have ended : s.isIdle = true ∧ h.desk.agenda = [] ∨
        s.isGivenUp = true ∧ h.desk.agenda = [] := by
      obtain ⟨status, unison | ⟨untold, item, sole, _, knows⟩⟩ := orderly
      · cases heard : s.isGivenUp with
        | false =>
          obtain ⟨idle, empty, _⟩ := unison.ended heard free noSync
          exact Or.inl ⟨idle, empty⟩
        | true =>
          refine Or.inr ⟨rfl, ?_⟩
          cases s with
          | completed lease completion =>
            cases completion with
            | dead => exact unison.1
            | succeeded | retryScheduled => cases heard
          | checking | waiting | gone | executing => cases heard
      · exact (knows.absurd (sole ▸ List.mem_cons_self) free noSync).elim
    have waits : h.desk.agenda = [] →
        Waits d' { h.chain with status := { h.chain.status with phase := .bootstrapPending } } := by
      intro empty
      rw [empty, List.nil_append] at grown
      exact ⟨_, grown, rfl, Eq.refl (some h.chain.policy.key)⟩
    refine ⟨{ h.chain.status with phase := .bootstrapPending }, ?_⟩
    rcases ended with ⟨idle, empty⟩ | ⟨untold, empty⟩
    · left
      cases s with
      | checking | waiting | gone => exact Or.inr (waits empty)
      | executing | completed => cases idle
    · exact Or.inr ⟨untold, waits empty⟩

/-- Whatever happens leaves what is left in order, if it is no trigger or one that comes apart. -/
theorem deed (orderly : Orderly h.desk h.chain h.seat) (deed : Deed h m d c s)
    (sound : Usage.Sound ⟨h.desk, h.seat.lease?.toList⟩)
    (waits : ∀ attempts, ∃ delay, h.desk.queue.backoff.nextDelay attempts = .ok delay)
    (apart : m.isTrigger = true → (h.news? m).isSome = true →
      h.desk.queue.unfinished .sync = 0) : Orderly d c s := by
  cases deed with
  | trigger signal => exact orderly.trigger signal sound (apart rfl)
  | pass | close =>
    obtain ⟨status, unison | ⟨untold, waits⟩⟩ := orderly
    · exact ⟨status, Or.inl (unison.mono rfl (List.Subset.refl _))⟩
    · exact ⟨status, Or.inr ⟨untold, waits.mono rfl (List.Subset.refl _)⟩⟩
  | nothing => exact orderly
  | arrive n gone =>
    rw [gone] at orderly
    obtain ⟨status, unison | ⟨⟨⟩, _⟩⟩ := orderly
    exact ⟨status, Or.inl unison⟩
  | work _ _ act =>
    obtain ⟨status, unison | ⟨untold, waits⟩⟩ := orderly
    · obtain ⟨status', act'⟩ := act.withStatus status
      exact ⟨status', Or.inl (unison.work act' sound waits)⟩
    · generalize h.seat = s at act untold
      cases act with
      | tell lease completion => exact ⟨status, Or.inl (Or.inr waits)⟩
      | stop | goOn | recheck | leave | shut | idle | lease | start | ask | fail | refuse | place
      | note | complete | drop | lose | rest => cases untold

theorem unfinished_le_one (orderly : Orderly d c s) (idle : s.isIdle = true) :
    d.queue.unfinished .bootstrap + d.queue.unfinished .sync ≤ 1 := by
  rw [Queue.unfinished_add_unfinished]
  change d.agenda.length ≤ 1
  obtain ⟨status, unison | ⟨untold, _⟩⟩ := orderly
  · rcases unison.of_isIdle idle with ⟨empty, _⟩ | ⟨item, sole, _⟩
    · rw [empty]
      exact Nat.zero_le 1
    · rw [sole]
      exact Nat.le_refl 1
  · cases s <;> first | cases idle; done | cases untold

end Orderly

/-! ### What the chain hears -/

/-- Before the news that a task was given up, that of a bootstrap is impossible. -/
theorem Unison.not_on_of_isGivenUp (unison : Unison d c s) (untold : s.isGivenUp = true) :
    c.status.phase.on .bootstrapEnqueued = none := by
  cases s with
  | completed lease completion =>
    cases completion with
    | dead =>
      rw [unison.2]
      cases lease.envelope.job <;> rfl
    | succeeded | retryScheduled => cases untold
  | checking | waiting | gone | executing => cases untold

theorem event_of_trigger {signal : Trigger} {news : News}
    (told : h.news? (.trigger signal) = some news) : news.event = .bootstrapEnqueued := by
  simp only [news?] at told
  split at told
  · split at told <;> cases told
    rfl
  · cases told

/-- The chain hears of a bootstrap that overtakes the news when that is impossible. -/
theorem Tuned.overtaken {told : List News} (tuned : Tuned h told) (fires : m.isTrigger = true)
    (starts : (h.news? m).isSome = true) (untold : h.seat.isGivenUp = true) :
    ((told ++ (h.news? m).toList).map News.event).foldlM Phase.on .notStarted = none := by
  obtain ⟨news, heard⟩ := Option.isSome_iff_exists.mp starts
  have event : news.event = .bootstrapEnqueued := by
    cases m with
    | trigger signal => exact event_of_trigger heard
    | step | pass | close | spawn | leave | requestShutdown | giveUp => cases fires
  rw [heard, List.map_append, List.foldlM_append, tuned.possible]
  change (h.chain.status.phase.on news.event >>= pure) = none
  rw [event, tuned.unison.not_on_of_isGivenUp untold]
  rfl

/-- Of a run without a second chain, the chain hears what is possible, and is in unison with the
queue, unless a trigger overtakes the news; then it hears what is impossible. -/
theorem tuned_moves {chain : Chain} (new : chain.status = {}) (backoff : Backoff)
    (historyLimit : Nat) (waits : ∀ attempts, ∃ delay, backoff.nextDelay attempts = .ok delay)
    (alone : Alone (fresh chain backoff historyLimit).moves ms)
    (apart : ¬Crossed (fresh chain backoff historyLimit).moves ms) :
    let h := fresh chain backoff historyLimit
    ¬Overtaken h.moves ms ∧ Tuned (h.moves ms) (h.news ms) ∨
      Overtaken h.moves ms ∧ ((h.news ms).map News.event).foldlM Phase.on .notStarted = none := by
  intro h
  refine uncrossed_induction (P := fun ms =>
    ¬Overtaken h.moves ms ∧ Tuned (h.moves ms) (h.news ms) ∨
      Overtaken h.moves ms ∧ ((h.news ms).map News.event).foldlM Phase.on .notStarted = none)
    alone apart ?_ ?_
  · refine Or.inl ⟨?_, tuned_fresh new backoff historyLimit⟩
    rintro ⟨before, m, le, _⟩
    exact List.append_ne_nil_of_right_ne_nil before (List.cons_ne_nil m []) (List.prefix_nil.mp le)
  · intro ms m before after apart so_far
    have same : (h.moves ms).desk.queue.backoff = backoff := backoff_moves _ _
    have told : h.news (ms ++ [m]) = h.news ms ++ ((h.moves ms).news? m).toList := by
      rw [news_append, news, news, List.append_nil]
    rw [moves_append] at after ⊢
    rw [overtaken_concat_iff, told]
    rcases so_far with ⟨in_time, tuned⟩ | ⟨overtaken, impossible⟩
    · by_cases happens : m.isTrigger = true ∧ ((h.moves ms).news? m).isSome = true ∧
        (h.moves ms).seat.isGivenUp = true
      · obtain ⟨fires, starts, untold⟩ := happens
        exact Or.inr ⟨Or.inr ⟨fires, starts, untold⟩, tuned.overtaken fires starts untold⟩
      · refine Or.inl ⟨not_or.mpr ⟨in_time, happens⟩, tuned.move before after ?_ ?_⟩
        · rw [same]
          exact waits
        · intro fires starts
          refine ⟨?_, apart fires starts⟩
          cases untold : (h.moves ms).seat.isGivenUp with
          | false => rfl
          | true => exact absurd ⟨fires, starts, untold⟩ happens
    · refine Or.inr ⟨Or.inl overtaken, ?_⟩
      rw [List.map_append, List.foldlM_append, impossible]
      rfl

theorem orderly_moves {chain : Chain} (new : chain.status = {}) (backoff : Backoff)
    (historyLimit : Nat) (waits : ∀ attempts, ∃ delay, backoff.nextDelay attempts = .ok delay)
    (alone : Alone (fresh chain backoff historyLimit).moves ms)
    (apart : ¬Crossed (fresh chain backoff historyLimit).moves ms) :
    let h := (fresh chain backoff historyLimit).moves ms
    Orderly h.desk h.chain h.seat := by
  refine uncrossed_induction (P := fun ms =>
    let h := (fresh chain backoff historyLimit).moves ms
    Orderly h.desk h.chain h.seat) alone apart ?_ ?_
  · exact ⟨chain.status, Or.inl (tuned_fresh new backoff historyLimit).unison⟩
  · intro ms m before after apart orderly
    have same : ((fresh chain backoff historyLimit).moves ms).desk.queue.backoff = backoff :=
      backoff_moves _ _
    have sound : (fresh chain backoff historyLimit).usage.Sound :=
      Usage.sound_start backoff historyLimit
    have used := sound_moves sound ms
    rw [usage, leases_eq before] at used
    rw [moves_append] at after ⊢
    refine orderly.deed (deed_move before m after) used ?_ apart
    rw [same]
    exact waits

/-! ### What is left -/

/-- What is left, as the status tells it. -/
def Agrees (d : Desk) (s : Status) : Prop :=
  match s.phase with
  | .notStarted | .stalled => d.agenda = []
  | .bootstrapPending => ∃ item, d.agenda = [item] ∧ item.job = .bootstrap ∧ item.attempts = 0
  | .bootstrapRetry => ∃ item, d.agenda = [item] ∧ item.job = .bootstrap ∧ 1 ≤ item.attempts
  | .syncScheduled => ∃ item, d.agenda = [item] ∧ item.job = .sync ∧ item.attempts = 0 ∧
    Announced d s item.task
  | .syncRetry => ∃ item, d.agenda = [item] ∧ item.job = .sync ∧ 1 ≤ item.attempts ∧
    Announced d s item.task
  | .bootstrapRunning | .syncRunning => False

theorem Unison.agrees {d : Desk} {c : Chain} {s : Station} (unison : Unison d c s)
    (idle : s.isIdle = true) : Agrees d c.status := by
  unfold Agrees
  rcases unison.of_isIdle idle with
    ⟨empty, asleep⟩ | ⟨⟨task, job, key, attempts⟩, sole, phase, knows⟩
  · cases phase : c.status.phase <;> rw [phase] at asleep <;> first | exact empty | cases asleep
  · cases job <;> cases attempts <;> rw [phase]
    · exact ⟨_, sole, rfl, rfl⟩
    · exact ⟨_, sole, rfl, Nat.le_add_left _ _⟩
    · exact ⟨_, sole, rfl, rfl, knows⟩
    · exact ⟨_, sole, rfl, Nat.le_add_left _ _, knows⟩

/-- With one worker at a time, any answers of the boundaries, a close at any time and no trigger
while a sync is unfinished, at most one task is left whenever nothing is being executed. And unless
a trigger overtakes the news that a task was given up, everything that the chain is told is possible
in the phase in which it is told, and the status tells what is left whenever nothing is being
executed: the job of the task, whether it has been attempted, and of a sync its number and the delay
that was asked for. If a trigger does, the chain is told of its bootstrap when that is not
possible. -/
theorem phase_tells_unless_overtaken (chain : Chain) (backoff : Backoff) (historyLimit : Nat)
    (ms : List Move) (new : chain.status = {})
    (waits : ∀ attempts, ∃ delay, backoff.nextDelay attempts = .ok delay)
    (alone : Alone (fresh chain backoff historyLimit).moves ms)
    (apart : Apart (fresh chain backoff historyLimit).moves ms) :
    let h := (fresh chain backoff historyLimit).moves ms
    let told := (fresh chain backoff historyLimit).news ms
    let overtaken := Overtaken (fresh chain backoff historyLimit).moves ms
    h.chain.status = told.foldl Status.hear {} ∧
      (h.atRest = true →
        h.desk.queue.unfinished .bootstrap + h.desk.queue.unfinished .sync ≤ 1) ∧
      (¬overtaken →
        (told.map News.event).foldlM Phase.on .notStarted = some h.chain.status.phase ∧
          (h.atRest = true → Agrees h.desk h.chain.status)) ∧
      (overtaken → (told.map News.event).foldlM Phase.on .notStarted = none) := by
  intro h told overtaken
  have heard := status_moves (fresh chain backoff historyLimit) ms
  have tuned := tuned_moves new backoff historyLimit waits alone apart.not_crossed
  have orderly := orderly_moves new backoff historyLimit waits alone apart.not_crossed
  refine ⟨?_, fun rest => orderly.unfinished_le_one (isIdle_seat rest), ?_, ?_⟩
  · rw [← new]
    exact heard
  · intro in_time
    obtain ⟨_, tuned⟩ | ⟨overtaken, _⟩ := tuned
    · exact ⟨tuned.possible, fun rest => tuned.unison.agrees (isIdle_seat rest)⟩
    · exact absurd overtaken in_time
  · intro overtaken
    obtain ⟨in_time, _⟩ | ⟨_, impossible⟩ := tuned
    · exact absurd overtaken in_time
    · exact impossible

/-- The first sync fails at its first attempt, and waits to be tried again. -/
theorem phase_tells_unless_overtaken_after_failure :
    let chain : Chain := {
      policy := {}
      oracle := Boundary.script [] (.recommends 0)
      engine := Boundary.script [] (.fails "out of reach") }
    let h := (fresh chain Backoff.standard 0).moves
      ([.spawn 1, .trigger .bootCompleted] ++ List.replicate 15 (.step 0 .lease))
    h.chain.status.phase = .syncRetry ∧ ∃ item, h.desk.agenda = [item] ∧ item.job = .sync ∧
      1 ≤ item.attempts ∧ Announced h.desk h.chain.status item.task := by
  intro chain
  have failed : ((fresh chain Backoff.standard 0).moves ([.spawn 1, .trigger .bootCompleted] ++
    List.replicate 15 (.step 0 .lease))).chain.status.phase = .syncRetry := by decide +kernel
  have told := (phase_tells_unless_overtaken chain Backoff.standard 0
    ([.spawn 1, .trigger .bootCompleted] ++ List.replicate 15 (.step 0 .lease)) rfl
    Backoff.exists_nextDelay_standard (by decide +kernel) (by decide +kernel)).2.2.1
    (by decide +kernel)
  have rest : ((fresh chain Backoff.standard 0).moves ([.spawn 1, .trigger .bootCompleted] ++
    List.replicate 15 (.step 0 .lease))).atRest = true := by decide +kernel
  generalize (fresh chain Backoff.standard 0).moves ([.spawn 1, .trigger .bootCompleted] ++
    List.replicate 15 (.step 0 .lease)) = h at failed told rest ⊢
  have agrees := told.2 rest
  unfold Agrees at agrees
  rw [failed] at agrees
  exact ⟨failed, agrees⟩

/-- The only attempt of the bootstrap fails, and a trigger comes before the chain is told. The
second bootstrap is then left, unattempted, while the chain is reported as stalled. -/
theorem stalled_over_a_bootstrap :
    let chain : Chain := {
      policy := {}
      oracle := Boundary.script [] (.fails "out of reach")
      engine := Boundary.script [] (.recommends 0) }
    let backoff : Backoff := ⟨Clock.ofSecs 30, Binary64.ofNat 2, Clock.ofSecs 60, some 1⟩
    let h := fresh chain backoff 0
    let ms := [.spawn 1, .trigger .bootCompleted] ++ List.replicate 6 (.step 0 .lease) ++
      [.trigger .serviceInit, .step 0 .lease]
    Alone h.moves ms ∧ Apart h.moves ms ∧ (h.moves ms).atRest = true ∧
      (h.moves ms).chain.status.phase = .stalled ∧
      (h.moves ms).desk.queue.unfinished .bootstrap = 1 ∧
      ((h.news ms).map News.event).foldlM Phase.on .notStarted = none := by
  decide +kernel

end Host

end PacedChain
