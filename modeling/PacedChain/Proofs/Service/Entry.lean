import PacedChain.Proofs.Service.Loops
import Mathlib.Data.List.Induction

/-!
# The status entry

Whether the entry of a service is up, however the service is started and stopped. It is up while the
service holds a loop that has not been asked to stop, so that the next stop takes it down. It is up
otherwise if a start has left it behind (`ServiceDisplay.Left`): one that posted it and could not
spawn a loop, or one that gave up a loop which had ended on its own and then failed. What is left
behind stays up through every stop, until a start succeeds.
-/
namespace PacedChain

/-- What a call makes of the entry, given whether it is up and whether posting succeeds. -/
def ServiceCall.shown (posts : Bool) (call : ServiceCall) (up : Bool) : Bool :=
  match call with
  | .post _ _ => posts || up
  | .clear _ => false
  | .exists_ _ _ | .create _ | .stop => up

/-- What a start that comes to this has posted: the notice goes up before the loop is spawned. -/
def StartResult.hasPosted : StartResult → Bool
  | .ok | .failed (.spawn _) => true
  | .failed _ | .crashed _ => false

namespace Service

variable {s : Service} {met : Surroundings} {posts : Bool}

/-- What the calls that a service has made since `before` make of the entry. -/
def entrySince (posts : Bool) (before after : Service) (up : Bool) : Bool :=
  (after.calls.take (after.calls.length - before.calls.length)).foldr (·.shown posts) up

/-- The service holds a loop that has not been asked to stop, ended or not. -/
def CanStop (s : Service) : Prop := s.thread.isSome = true ∧ s.stopping = false

theorem entrySince_self (s : Service) (up : Bool) : entrySince posts s s up = up := by
  simp [entrySince]

theorem entrySince_of_append {before after : Service} {notes : List ServiceCall}
    (grown : after.calls = notes ++ before.calls) (up : Bool) :
    entrySince posts before after up = notes.foldr (·.shown posts) up := by
  rw [entrySince, grown, List.length_append, Nat.add_sub_cancel, List.take_left]

/-- The calls since `s` have posted the entry if the result says so, and left it alone if not. -/
def Posts (s : Service) (posts : Bool) (r : StartResult × Service) : Prop :=
  ∃ notes, r.2.calls = notes ++ s.calls ∧
    ∀ up, notes.foldr (·.shown posts) up = (r.1.hasPosted || up)

theorem Posts.entrySince {r : StartResult × Service} (h : s.Posts posts r) (up : Bool) :
    entrySince posts s r.2 up = (r.1.hasPosted || up) := by
  obtain ⟨notes, grown, shown⟩ := h
  rw [entrySince_of_append grown, shown]

theorem Posts.of_note (call : ServiceCall) {r : StartResult × Service}
    (h : (s.note call).Posts posts r) (silent : ∀ up, call.shown posts up = up) :
    s.Posts posts r := by
  obtain ⟨notes, grown, shown⟩ := h
  refine ⟨notes ++ [call], by simp [grown, note], fun up => ?_⟩
  rw [List.foldr_append, shown, List.foldr_cons, List.foldr_nil, silent]

theorem postNotice_posts (s : Service) (met : Surroundings) :
    s.Posts (met.post == .ok) (s.postNotice met) := by
  refine ⟨[.post s.setup.channel.id s.setup.notice], ?_, fun up => ?_⟩
  · unfold postNotice spawnLoop note
    split
    · split <;> rfl
    · rfl
    · rfl
  · unfold postNotice spawnLoop
    cases posted : met.post with
    | ok => cases met.spawn <;> rfl
    | fails reason => rfl
    | crashes reason => rfl

theorem openChannel_posts (s : Service) (met : Surroundings) :
    s.Posts (met.post == .ok) (s.openChannel met) := by
  refine Posts.of_note (.exists_ s.setup.channel.id met.channelExists) ?_ fun _ => rfl
  unfold openChannel
  split
  · apply postNotice_posts
  · refine Posts.of_note (.create s.setup.channel) ?_ fun _ => rfl
    split
    · apply postNotice_posts
    · exact ⟨[], rfl, fun _ => rfl⟩
    · exact ⟨[], rfl, fun _ => rfl⟩

/-- A start that is not refused and finds no loop running opens the channel. -/
theorem start_cases (s : Service) (met : Surroundings) :
    (s.start met = (.ok, s) ∧ s.CanStop) ∨
    (s.start met = (.failed (.stillStopping s.setup.grace), s) ∧ s.stopping = true) ∨
    s.start met = { s with thread := none, stopping := false }.openChannel met := by
  unfold start
  split
  · rename_i running
    simp only [Bool.and_eq_true, Bool.not_eq_true'] at running
    exact .inl ⟨rfl, running.1.1, running.2⟩
  · rename_i not_running
    split
    · rename_i refused
      simp only [Bool.and_eq_true, Bool.not_eq_true'] at refused
      refine .inr (.inl ⟨rfl, ?_⟩)
      simpa [refused.1.1, refused.1.2] using not_running
    · exact .inr (.inr rfl)

/-- A stop takes the entry down if the service holds a loop that has not been asked. -/
theorem entrySince_stop_of_canStop (h : s.CanStop) (up : Bool) :
    entrySince posts s s.stop.2 up = false := by
  rcases s.stop_cases with ⟨-, none | asked⟩ | ⟨loop, -, -, stopped⟩
  · simp [CanStop, none] at h
  · simp [CanStop, asked] at h
  · have grown : s.stop.2.calls = [.clear s.setup.channel.id, .stop] ++ s.calls := by
      rw [stopped]
      rfl
    exact entrySince_of_append grown up

/-- Otherwise it does nothing. -/
theorem stop_of_not_canStop (h : ¬s.CanStop) : s.stop.2 = s := by
  rcases s.stop_cases with ⟨same, -⟩ | ⟨loop, held, unasked, -⟩
  · rw [same]
  · simp [CanStop, held, unasked] at h

theorem not_canStop_stop (s : Service) : ¬s.stop.2.CanStop := by
  rcases s.stop_cases with ⟨same, none | asked⟩ | ⟨loop, -, -, stopped⟩
  · simp [CanStop, same, none]
  · simp [CanStop, same, asked]
  · simp [CanStop, stopped]

end Service

/-- A start that fails has posted if it could not spawn a loop, and not otherwise. -/
theorem StartResult.hasPosted_iff {result : StartResult} (not_ok : result ≠ .ok) :
    result.hasPosted = true ↔ ∃ reason, result = .failed (.spawn reason) := by
  cases result with
  | ok => exact absurd rfl not_ok
  | crashed => simp [hasPosted]
  | failed error => cases error <;> simp [hasPosted]

/-- The service holds a loop that has not been asked to stop. -/
def ServiceLife.HoldsUnasked (w : ServiceLife) : Prop :=
  ∃ loop, w.service.thread = some loop ∧ loop ∉ w.askedLoops

theorem ServiceLife.Orderly.holdsUnasked_iff {w : ServiceLife} (h : w.Orderly) :
    w.HoldsUnasked ↔ w.service.CanStop := by
  cases held : w.service.thread with
  | none => simp [HoldsUnasked, Service.CanStop, held]
  | some loop =>
    have asked : w.service.stopping = true ↔ loop ∈ w.askedLoops := by
      simpa [held] using h.signalled
    simp [HoldsUnasked, Service.CanStop, held, ← asked]

/-- Whether a post of this move succeeds. -/
def ServiceMove.posts : ServiceMove → Bool
  | .start met => met.post == .ok
  | .stop _ | .drop _ | .ends _ => false

/-- A service with its loops, and whether its entry is up. -/
structure ServiceDisplay where
  life : ServiceLife
  up : Bool := false

namespace ServiceDisplay

variable {d : ServiceDisplay} {setup : ServiceSetup} {moves : List ServiceMove} {left : Prop}

def fresh (setup : ServiceSetup) : ServiceDisplay where
  life := .fresh setup

def step (d : ServiceDisplay) (move : ServiceMove) : ServiceDisplay :=
  let life := d.life.step move
  { life, up := Service.entrySince move.posts d.life.service life.service d.up }

def run (d : ServiceDisplay) (moves : List ServiceMove) : ServiceDisplay := moves.foldl step d

/-- What a start would come to now; nothing if nobody can use the service any more. -/
def answer? (d : ServiceDisplay) (met : Surroundings) : Option StartResult :=
  if d.life.dropped then none else some (d.life.start met).1

/-- A start leaves the entry behind: it fails, and either it has posted the entry and could not spawn
a loop, or the service held a loop that had not been asked to stop. The loop had ended on its own in
that case, since the start would have found it running otherwise. -/
def Strands (d : ServiceDisplay) (met : Surroundings) : Prop :=
  ∃ result, d.answer? met = some result ∧ result ≠ .ok ∧
    ((∃ reason, result = .failed (.spawn reason)) ∨ d.life.HoldsUnasked)

/-- By these moves, the entry has been left behind: a start has done so, and none has succeeded
since. -/
inductive Left (setup : ServiceSetup) : List ServiceMove → Prop
  | strands {moves : List ServiceMove} {met : Surroundings} :
    ((fresh setup).run moves).Strands met → Left setup (moves ++ [.start met])
  | stays {moves : List ServiceMove} {move : ServiceMove} : Left setup moves →
    (∀ met, move = .start met → ((fresh setup).run moves).answer? met ≠ some .ok) →
    Left setup (moves ++ [move])

/-- What is known of the entry: it is up while a stop would take it down, or if it was left behind,
and then the service holds no loop. -/
structure Told (d : ServiceDisplay) (left : Prop) : Prop where
  up_iff : d.up = true ↔ d.life.service.CanStop ∨ left
  alone : left → d.life.service.thread = none
  released : d.life.dropped = true → ¬d.life.service.CanStop

theorem Told.not_canStop (h : d.Told left) (behind : left) : ¬d.life.service.CanStop := by
  rintro ⟨held, -⟩
  simp [h.alone behind] at held

theorem Told.congr {left' : Prop} (h : d.Told left) (same : left ↔ left') : d.Told left' :=
  propext same ▸ h

/-- A move by which the service stays as it is. -/
theorem Told.of_same {d' : ServiceDisplay} (h : d.Told left)
    (same : d'.life.service = d.life.service) (dropped : d'.life.dropped = d.life.dropped)
    (up : d'.up = d.up) : d'.Told left where
  up_iff := by rw [same, up, h.up_iff]
  alone := by rw [same]; exact h.alone
  released := by rw [same, dropped]; exact h.released

/-- What follows a stop, as far as the service and the entry tell. -/
theorem Told.stop {d' : ServiceDisplay} (h : d.Told left)
    (service : d'.life.service = d.life.service.stop.2)
    (up : d'.up = Service.entrySince false d.life.service d.life.service.stop.2 d.up) :
    d'.Told left := by
  have asked : ¬d'.life.service.CanStop := service ▸ d.life.service.not_canStop_stop
  by_cases canStop : d.life.service.CanStop
  · have not_left : ¬left := fun behind => h.not_canStop behind canStop
    refine ⟨?_, fun behind => absurd behind not_left, fun _ => asked⟩
    rw [up, Service.entrySince_stop_of_canStop canStop]
    simp [not_left, asked]
  · rw [Service.stop_of_not_canStop canStop] at service up
    rw [Service.entrySince_self] at up
    refine ⟨?_, by rw [service]; exact h.alone, fun _ => asked⟩
    rw [up, service, h.up_iff]

/-- What follows when a service that holds no loop any more opens its channel. -/
theorem Told.opened {d' : ServiceDisplay} {base : Service} {r : StartResult × Service}
    (h : d.Told left) (spec : base.Opens r) (empty : base.thread = none)
    (unasked : base.stopping = false) (service : d'.life.service = r.2)
    (up : d'.up = (r.1.hasPosted || d.up)) (used : d'.life.dropped = false) :
    d'.Told ((left ∧ r.1 ≠ .ok) ∨
      (r.1 ≠ .ok ∧ ((∃ reason, r.1 = .failed (.spawn reason)) ∨ d.life.service.CanStop))) := by
  cases spec with
  | failed notes _ result not_ok =>
    -- No loop came of it: a notice that has gone up stays, and so does the one of the loop before.
    refine ⟨?_, fun _ => by rw [service, empty], by simp [used]⟩
    have given_up : ¬d'.life.service.CanStop := by simp [service, Service.CanStop, empty]
    rw [up, Bool.or_eq_true, StartResult.hasPosted_iff not_ok, h.up_iff, or_iff_right given_up]
    constructor
    · rintro (unspawned | canStop | behind)
      · exact .inr ⟨not_ok, .inl unspawned⟩
      · exact .inr ⟨not_ok, .inr canStop⟩
      · exact .inl ⟨behind, not_ok⟩
    · rintro (⟨behind, -⟩ | ⟨-, unspawned | canStop⟩)
      · exact .inr (.inr behind)
      · exact .inl unspawned
      · exact .inr (.inl canStop)
  | begun notes =>
    refine ⟨?_, by simp, by simp [used]⟩
    rw [up, service]
    simp [Service.CanStop, unasked, StartResult.hasPosted]

theorem Told.start (h : d.Told left) (orderly : d.life.Orderly) (met : Surroundings)
    (used : d.life.dropped = false) :
    (d.step (.start met)).Told
      ((left ∧ d.answer? met ≠ some .ok) ∨ d.Strands met) := by
  have answered : d.answer? met = some (d.life.service.start (d.life.meets met)).1 := by
    rw [answer?, used]
    rfl
  have service : (d.step (.start met)).life.service =
      (d.life.service.start (d.life.meets met)).2 := by
    simp only [step, ServiceLife.step, used, Bool.false_eq_true, if_false]
    rfl
  have up : (d.step (.start met)).up = Service.entrySince (met.post == .ok) d.life.service
      (d.life.service.start (d.life.meets met)).2 d.up := by
    rw [← service]
    rfl
  have goes_on : (d.step (.start met)).life.dropped = false := by
    simp only [step, ServiceLife.step, used, Bool.false_eq_true, if_false]
    exact used
  have stranded : d.Strands met ↔ (d.life.service.start (d.life.meets met)).1 ≠ .ok ∧
      ((∃ reason, (d.life.service.start (d.life.meets met)).1 = .failed (.spawn reason)) ∨
        d.life.service.CanStop) := by
    simp [Strands, answered, orderly.holdsUnasked_iff]
  rw [stranded, answered]
  rcases d.life.service.start_cases (d.life.meets met) with
    ⟨running, canStop⟩ | ⟨refused, asked⟩ | opened
  · -- The loop is running: nothing changes, and nothing had been left behind.
    rw [running] at service up ⊢
    rw [Service.entrySince_self] at up
    refine ⟨?_, by simp, by simp [goes_on]⟩
    rw [service, up, h.up_iff]
    simp [canStop]
  · -- The loop before is still stopping: nothing changes.
    rw [refused] at service up ⊢
    rw [Service.entrySince_self] at up
    have not_canStop : ¬d.life.service.CanStop := by simp [Service.CanStop, asked]
    exact (h.of_same service (goes_on.trans used.symm) up).congr (by simp [not_canStop])
  · -- The channel is opened, and nothing is left of the loop before.
    let base : Service := { d.life.service with thread := none, stopping := false }
    have posts : Service.entrySince (met.post == .ok) d.life.service
        (base.openChannel (d.life.meets met)).2 d.up =
          ((base.openChannel (d.life.meets met)).1.hasPosted || d.up) :=
      (base.openChannel_posts (d.life.meets met)).entrySince d.up
    have spec := base.openChannel_opens (d.life.meets met)
    change d.life.service.start (d.life.meets met) = base.openChannel _ at opened
    rw [← opened] at posts spec
    exact (h.opened spec rfl rfl service (up.trans posts) goes_on).congr (by simp)

theorem not_strands_of_dropped (dropped : d.life.dropped = true) (met : Surroundings) :
    ¬d.Strands met := by
  simp [Strands, answer?, dropped]

/-- A move leaves the entry as it is told: left behind if it was and no start has succeeded, or if
the move has left it behind. -/
theorem Told.step (h : d.Told left) (orderly : d.life.Orderly) (move : ServiceMove) :
    (d.step move).Told
      ((left ∧ ∀ met, move = .start met → d.answer? met ≠ some .ok) ∨
        ∃ met, move = .start met ∧ d.Strands met) := by
  have of_idle : ∀ other : ServiceMove, (d.life.step other).service = d.life.service →
      (d.life.step other).dropped = d.life.dropped → (d.step other).Told left := by
    intro other service dropped
    refine h.of_same service dropped ?_
    rw [ServiceDisplay.step, service]
    exact Service.entrySince_self _ _
  -- To be dropped is to be stopped, as far as the entry goes.
  have of_stop : ∀ other : ServiceMove, other.posts = false →
      (d.life.dropped = true → d.life.step other = d.life) →
      (d.life.dropped = false → (d.life.step other).service = d.life.service.stop.2) →
      (d.step other).Told left := by
    intro other silent gone stops
    cases used : d.life.dropped with
    | true => exact of_idle other (by rw [gone used]) (by rw [gone used])
    | false =>
      refine h.stop (stops used) ?_
      rw [ServiceDisplay.step, stops used, silent]
  cases move with
  | start met =>
    cases used : d.life.dropped with
    | true =>
      have same : d.life.step (.start met) = d.life := by simp [ServiceLife.step, used]
      refine (of_idle _ (by rw [same]) (by rw [same])).congr ?_
      simp [answer?, used, not_strands_of_dropped]
    | false => exact (h.start orderly met used).congr (by simp)
  | stop mode =>
    have stopped : (d.step (.stop mode)).Told left := of_stop (.stop mode) rfl
      (fun gone => by simp [ServiceLife.step, gone])
      (fun used => by simp [ServiceLife.step, used, ServiceLife.stop])
    exact stopped.congr (by simp)
  | drop mode =>
    have stopped : (d.step (.drop mode)).Told left := of_stop (.drop mode) rfl
      (fun gone => by simp [ServiceLife.step, gone])
      (fun used => by simp [ServiceLife.step, used, ServiceLife.stop])
    exact stopped.congr (by simp)
  | ends loop => exact (of_idle (.ends loop) rfl rfl).congr (by simp)

end ServiceDisplay

end PacedChain
