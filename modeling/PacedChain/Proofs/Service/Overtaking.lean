import PacedChain.Proofs.Service.Entry

/-!
# Stops under way

A stop marks the service, asks the loop and takes the entry down, and only the mark is made under
the lock that a start holds (`ServiceTraffic`). A start waits for the loop before, not for the stop:
once the marked loop has ended, it can post the entry and begin the next loop while the stop is
still to ask or still to take the entry down. What is left of the stop then goes against the next
loop (`ServiceTraffic.late_stop_hits_newer_loop`), and this is the only way for a loop that runs to
have been asked to stop or to have no entry (`ServiceTraffic.announced_unless_overtaken`).
-/
namespace PacedChain

/-- How far a stop has come. -/
inductive StopStage where
  /-- It has marked the service, and is still to ask the loop. -/
  | marked
  /-- It has asked the loop, and is still to take the entry down. -/
  | signalled
  | returned
  deriving DecidableEq

namespace StopStage

def AllReturned (stages : List StopStage) : Prop := ∀ stage ∈ stages, stage = .returned

instance (stages : List StopStage) : Decidable (AllReturned stages) :=
  inferInstanceAs (Decidable (∀ stage ∈ stages, stage = .returned))

theorem allReturned_iff {stages : List StopStage} :
    AllReturned stages ↔ stages.count .returned = stages.length := by
  rw [List.count_eq_length]
  exact forall₂_congr fun _ _ => eq_comm

theorem AllReturned.count_marked {stages : List StopStage} (all : AllReturned stages) :
    stages.count .marked = 0 := by
  rw [List.count_eq_zero]
  intro marked
  cases all _ marked

/-- A step of a stop takes one from the stops at its stage and adds one to those at the next. -/
theorem count_set {stops : List StopStage} {call : Nat} {old : StopStage}
    (now : stops[call]? = some old) (new stage : StopStage) :
    (stops.set call new).count stage + (if old = stage then 1 else 0) =
      stops.count stage + (if new = stage then 1 else 0) := by
  obtain ⟨inside, rfl⟩ := List.getElem?_eq_some_iff.mp now
  rw [List.count_set inside]
  simp only [beq_iff_eq]
  split
  · rename_i same
    have := List.count_pos_iff.mpr (same ▸ List.getElem_mem inside)
    omega
  · omega

end StopStage

namespace Service

variable {s : Service} {met : Surroundings}

theorem markStopping_cases (s : Service) :
    (s.markStopping = (false, s) ∧ ¬s.CanStop) ∨
    (s.markStopping = (true, { s with stopping := true }) ∧ s.CanStop) := by
  cases held : s.thread with
  | none => simp [markStopping, CanStop, held]
  | some loop => cases asked : s.stopping <;> simp [markStopping, CanStop, held, asked]

theorem exists_markStopping (s : Service) :
    ∃ stopping, s.markStopping.2 = { s with stopping } := by
  rcases s.markStopping_cases with ⟨same, -⟩ | ⟨marked, -⟩
  · exact ⟨s.stopping, by rw [same]⟩
  · exact ⟨true, by rw [marked]⟩

theorem not_canStop_markStopping (s : Service) : ¬s.markStopping.2.CanStop := by
  rcases s.markStopping_cases with ⟨same, cannot⟩ | ⟨marked, -⟩
  · rwa [same]
  · simp [marked, CanStop]

theorem entrySince_clearNotice (s : Service) (posts up : Bool) :
    entrySince posts s s.clearNotice up = false := by
  have grown : s.clearNotice.calls = [.clear s.setup.channel.id] ++ s.calls := rfl
  exact entrySince_of_append grown up

/-- A start that begins a loop has posted its entry. -/
theorem entrySince_start_of_begun (begun : (s.start met).2.started ≠ s.started) (up : Bool) :
    entrySince (met.post == .ok) s (s.start met).2 up = true := by
  rcases s.start_cases met with ⟨running, -⟩ | ⟨refused, -⟩ | opened
  · simp [running] at begun
  · simp [refused] at begun
  · let base : Service := { s with thread := none, stopping := false }
    have posts := (base.openChannel_posts met).entrySince up
    have spec := base.openChannel_opens met
    change s.start met = base.openChannel met at opened
    rw [← opened] at posts spec
    have result : (s.start met).1 = .ok := by
      generalize s.start met = r at spec begun
      cases spec with
      | failed => simp [base] at begun
      | begun => rfl
    exact posts.trans (by simp [result, StartResult.hasPosted])

end Service

/-- A service with the stops that were called. -/
structure ServiceTraffic where
  life : ServiceLife
  up : Bool := false
  /-- How far each stop has come, in the order of the calls. -/
  stops : List StopStage := []
  /-- How far each of them had come when the last loop was begun. -/
  overtaken : List StopStage := []

namespace ServiceTraffic

/-- What can happen: a start, a step of a stop, or the end of a loop. -/
inductive Step where
  | start (met : Surroundings)
  /-- A stop is called and makes its mark, or returns at once if there is nothing to stop. -/
  | mark
  /-- A stop that has made its mark goes one step further. -/
  | proceed (call : Nat) (mode : StopMode)
  | ends (loop : Nat)

variable {t : ServiceTraffic}

def fresh (setup : ServiceSetup) : ServiceTraffic where
  life := .fresh setup

/-- Ask the loop that is held now to stop. -/
def signal (t : ServiceTraffic) (mode : StopMode) : ServiceTraffic :=
  { t with life := { t.life with
      service := t.life.service.signalLoop
      asked := t.life.service.thread.toList.map (·, mode) ++ t.life.asked } }

/-- Take down the entry that is up now. -/
def clear (t : ServiceTraffic) : ServiceTraffic :=
  { t with
    life := { t.life with service := t.life.service.clearNotice }
    up := Service.entrySince false t.life.service t.life.service.clearNotice t.up }

def start (t : ServiceTraffic) (met : Surroundings) : ServiceTraffic :=
  let life := (t.life.start met).2
  { t with
    life
    up := Service.entrySince (met.post == .ok) t.life.service life.service t.up
    overtaken := if life.service.started = t.life.service.started then t.overtaken else t.stops }

def mark (t : ServiceTraffic) : ServiceTraffic :=
  let (taken, service) := t.life.service.markStopping
  { t with
    life := { t.life with service }
    stops := t.stops ++ [if taken then .marked else .returned] }

def proceed (t : ServiceTraffic) (call : Nat) (mode : StopMode) : ServiceTraffic :=
  match t.stops[call]? with
  | some .marked => { t.signal mode with stops := t.stops.set call .signalled }
  | some .signalled => { t.clear with stops := t.stops.set call .returned }
  | some .returned | none => t

def step (t : ServiceTraffic) : Step → ServiceTraffic
  | .start met => t.start met
  | .mark => t.mark
  | .proceed call mode => t.proceed call mode
  | .ends loop => { t with life := t.life.step (.ends loop) }

def steps (t : ServiceTraffic) (moves : List Step) : ServiceTraffic := moves.foldl step t

/-- A loop that the service reports as running. -/
def Runs (t : ServiceTraffic) (loop : Nat) : Prop :=
  t.life.isRunning = true ∧ t.life.service.thread = some loop

/-- A stop in one go is its three steps with nothing between them. -/
theorem step_stop (t : ServiceTraffic) (mode : StopMode) :
    let call := t.stops.length
    let after := t.steps [.mark, .proceed call mode, .proceed call mode]
    after.life = t.life.stop mode ∧
    after.up = Service.entrySince false t.life.service t.life.service.stop.2 t.up ∧
    after.stops = t.stops ++ [.returned] := by
  rcases t.life.service.markStopping_cases with ⟨same, -⟩ | ⟨marked, canStop⟩
  · simp [steps, step, mark, proceed, same, ServiceLife.stop, Service.stop,
      Service.entrySince_self]
  · have down : Service.entrySince false t.life.service t.life.service.stop.2 t.up = false :=
      Service.entrySince_stop_of_canStop canStop t.up
    rw [down]
    simp [steps, step, mark, proceed, signal, clear, marked, ServiceLife.stop, Service.stop,
      Service.entrySince_clearNotice, Service.signalLoop, Service.note]

/-! ### What is known at any time -/

/-- What is known of a held loop that no stop has marked: all stops were called before it was begun;
its entry is up as long as none of them has returned since, and it is not asked as long as none of
those that were still to ask has done so. -/
structure Unmarked (t : ServiceTraffic) : Prop where
  none_called : t.stops.length = t.overtaken.length
  returned_le : t.overtaken.count .returned ≤ t.stops.count .returned
  up_iff : t.up = true ↔ t.stops.count .returned = t.overtaken.count .returned
  marked_le : t.stops.count .marked ≤ t.overtaken.count .marked
  unasked_iff : ∀ loop, t.life.service.thread = some loop →
    (loop ∉ t.life.askedLoops ↔ t.stops.count .marked = t.overtaken.count .marked)

/-- A loop is begun with its entry up, not asked, and past all stops that were called so far. -/
theorem unmarked_of_begun (overtaken : t.overtaken = t.stops) (up : t.up = true)
    (unasked : ∀ loop, t.life.service.thread = some loop → loop ∉ t.life.askedLoops) :
    t.Unmarked where
  none_called := by rw [overtaken]
  returned_le := overtaken ▸ Nat.le_refl _
  up_iff := by simp [up, overtaken]
  marked_le := overtaken ▸ Nat.le_refl _
  unasked_iff loop held := by simp [unasked loop held, overtaken]

structure Sound (t : ServiceTraffic) : Prop where
  alone : t.life.Alone
  held : ∀ loop, t.life.service.thread = some loop → loop ≤ t.life.service.started
  begun : ∀ loop ∈ t.life.askedLoops, loop ≤ t.life.service.started
  unmarked : t.life.service.CanStop → t.Unmarked

namespace Sound

theorem start (h : t.Sound) (met : Surroundings) : (t.start met).Sound := by
  have life : (t.start met).life = (t.life.start met).2 := rfl
  rcases h.alone.start_cases met with same | ⟨-, notes, -, failed | begun⟩
  · have same_traffic : t.start met = t := by
      simp [ServiceTraffic.start, same, Service.entrySince_self]
    rwa [same_traffic]
  · -- No loop is held, and the stops have no loop that they could ask.
    refine ⟨?_, ?_, ?_, ?_⟩ <;> rw [life, failed]
    · exact .inl rfl
    · simp
    · exact h.begun
    · simp [Service.CanStop]
  · have overtaken : (t.start met).overtaken = t.stops := by
      simp [ServiceTraffic.start, begun]
    have begins : (t.life.start met).2.service.started ≠ t.life.service.started := by
      rw [begun]
      exact Nat.succ_ne_self _
    have up : (t.start met).up = true := Service.entrySince_start_of_begun begins t.up
    -- The number of the new loop is beyond those of all loops that were asked.
    have unasked : t.life.service.started + 1 ∉ t.life.askedLoops := by
      intro asked
      have := h.begun _ asked
      omega
    refine ⟨?_, ?_, ?_, fun _ => unmarked_of_begun overtaken up ?_⟩ <;> rw [life, begun]
    · exact .inr ⟨_, rfl, rfl⟩
    · simp
    · exact fun loop asked => Nat.le_succ_of_le (h.begun loop asked)
    · rintro loop ⟨⟩
      exact unasked

/-- The mark of a stop takes the held loop for good. -/
theorem mark (h : t.Sound) : t.mark.Sound := by
  have cannot : ¬t.mark.life.service.CanStop := t.life.service.not_canStop_markStopping
  obtain ⟨stopping, marked⟩ := t.life.service.exists_markStopping
  have service : t.mark.life.service = { t.life.service with stopping } := marked
  constructor
  case alone =>
    unfold ServiceLife.Alone
    rw [service]
    exact h.alone
  case held => rw [service]; exact h.held
  case begun => rw [service]; exact h.begun
  case unmarked => exact fun canStop => absurd canStop cannot

/-- A stop that asks the loop asks the one that is held now. -/
theorem signal (h : t.Sound) {call : Nat} (marked : t.stops[call]? = some .marked)
    (mode : StopMode) :
    ({ t.signal mode with stops := t.stops.set call .signalled } : ServiceTraffic).Sound where
  alone := h.alone
  held := h.held
  begun loop asked := by
    simp only [ServiceLife.askedLoops, ServiceTraffic.signal, List.map_append, List.mem_append]
      at asked
    rcases asked with now | earlier
    · cases held : t.life.service.thread with
      | none => simp [held] at now
      | some only =>
        simp only [held, Option.toList_some, List.map_cons, List.map_nil, List.mem_singleton] at now
        exact now ▸ h.held _ held
    · exact h.begun loop earlier
  unmarked canStop := by
    have before := h.unmarked canStop
    have fewer := StopStage.count_set marked .signalled .marked
    have same := StopStage.count_set marked .signalled .returned
    simp only [reduceCtorEq, if_true, if_false, Nat.add_zero] at fewer same
    constructor
    case none_called => exact List.length_set.trans before.none_called
    case returned_le => exact same ▸ before.returned_le
    case up_iff => exact same ▸ before.up_iff
    case marked_le =>
      have := before.marked_le
      simp only [ServiceTraffic.signal]
      omega
    case unasked_iff =>
      intro loop held
      have := before.marked_le
      have asked : loop ∈ (t.signal mode).life.askedLoops := by
        have held : t.life.service.thread = some loop := held
        simp [ServiceLife.askedLoops, ServiceTraffic.signal, held]
      refine iff_of_false (not_not_intro asked) ?_
      simp only [ServiceTraffic.signal]
      omega

/-- A stop that takes the entry down takes down the one of the loop that is held now. -/
theorem clear (h : t.Sound) {call : Nat} (signalled : t.stops[call]? = some .signalled) :
    ({ t.clear with stops := t.stops.set call .returned } : ServiceTraffic).Sound where
  alone := h.alone
  held := h.held
  begun := h.begun
  unmarked canStop := by
    have before := h.unmarked canStop
    have more := StopStage.count_set signalled .returned .returned
    have same := StopStage.count_set signalled .returned .marked
    simp only [reduceCtorEq, if_true, if_false, Nat.add_zero] at more same
    have beyond := before.returned_le
    constructor
    case none_called => exact List.length_set.trans before.none_called
    case returned_le =>
      simp only [ServiceTraffic.clear]
      omega
    case up_iff =>
      simp only [ServiceTraffic.clear, Service.entrySince_clearNotice, Bool.false_eq_true,
        false_iff]
      omega
    case marked_le => exact same ▸ before.marked_le
    case unasked_iff => exact same ▸ before.unasked_iff

theorem proceed (h : t.Sound) (call : Nat) (mode : StopMode) : (t.proceed call mode).Sound := by
  unfold ServiceTraffic.proceed
  split
  · rename_i marked
    exact h.signal marked mode
  · rename_i signalled
    exact h.clear signalled
  · exact h
  · exact h

/-- Whether the held loop has ended is nothing that its entry or the stops know of. -/
theorem ends (h : t.Sound) (loop : Nat) : (t.step (.ends loop)).Sound where
  alone := h.alone.ends loop
  held := h.held
  begun := h.begun
  unmarked canStop :=
    have before := h.unmarked canStop
    ⟨before.none_called, before.returned_le, before.up_iff, before.marked_le, before.unasked_iff⟩

theorem step (h : t.Sound) (move : Step) : (t.step move).Sound := by
  cases move with
  | start met => exact h.start met
  | mark => exact h.mark
  | proceed call mode => exact h.proceed call mode
  | ends loop => exact h.ends loop

theorem steps (h : t.Sound) (moves : List Step) : (t.steps moves).Sound := by
  induction moves generalizing t with
  | nil => exact h
  | cons move moves ih => exact ih (h.step move)

end Sound

theorem Runs.canStop {loop : Nat} (h : t.Runs loop) : t.life.service.CanStop := by
  obtain ⟨running, held⟩ := h
  simp only [ServiceLife.isRunning, Service.isRunning, Bool.and_eq_true, Bool.not_eq_true']
    at running
  exact ⟨running.1.2, running.1.1⟩

namespace Unmarked

variable {loop : Nat}

/-- Nothing happens to a loop that was begun when all stops had returned. -/
theorem announced (h : t.Unmarked) (held : t.life.service.thread = some loop)
    (none_overtaken : StopStage.AllReturned t.overtaken) :
    t.up = true ∧ loop ∉ t.life.askedLoops := by
  have bound : t.stops.count .returned ≤ t.stops.length := List.count_le_length
  have := StopStage.allReturned_iff.mp none_overtaken
  have := none_overtaken.count_marked
  have := h.none_called
  have := h.returned_le
  have := h.marked_le
  constructor
  · rw [h.up_iff]
    omega
  · rw [h.unasked_iff loop held]
    omega

/-- Once all stops have returned, every one that was overtaken has gone against the loop. -/
theorem settled (h : t.Unmarked) (held : t.life.service.thread = some loop)
    (all_returned : StopStage.AllReturned t.stops) :
    (t.up = true ↔ StopStage.AllReturned t.overtaken) ∧
    (loop ∉ t.life.askedLoops ↔ .marked ∉ t.overtaken) := by
  constructor
  · rw [h.up_iff, StopStage.allReturned_iff.mp all_returned, StopStage.allReturned_iff,
      h.none_called, eq_comm]
  · rw [h.unasked_iff loop held, all_returned.count_marked, eq_comm, List.count_eq_zero]

end Unmarked

/-- A start that comes between the request and the removal of the entry begins a loop that was not
asked and has no entry. -/
example :
    let setup : ServiceSetup := .ofChannel (.background "sync" "Sync")
    let met : Surroundings := { ended := true, channelExists := true }
    let t := (fresh setup).steps
      [.start met, .mark, .proceed 0 .ok, .ends 1, .start met, .proceed 0 .ok]
    t.overtaken = [.signalled] ∧ t.life.isRunning = true ∧ t.life.askedLoops = [1] ∧
      t.up = false := by
  decide

end ServiceTraffic

end PacedChain
