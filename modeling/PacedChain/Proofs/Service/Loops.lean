import PacedChain.Service.Rehearsal
import Mathlib.Data.List.Basic
import Mathlib.Data.List.Nodup

/-!
# The loops of a service

A service is started, stopped and dropped in any order while its loops end whenever they like:
on their own, soon after a request to stop, late, or never. `ServiceLife` keeps the loops that have
not ended and the ones that were asked to stop beside the service. However it goes, one loop at
most is alive, the one that the service holds, and a loop is asked to stop once at most.
-/
namespace PacedChain

/-- Calls that belong to the end of a loop. -/
def ServiceCall.isEnding : ServiceCall → Bool
  | .stop | .clear _ => true
  | .exists_ _ _ | .create _ | .post _ _ => false

namespace Service

/-! ### What a start can do -/

/-- What is left of `s` by the part of a start that opens the channel, posts the notice and spawns
the loop. -/
inductive Opens (s : Service) : StartResult × Service → Prop
  | failed (notes : List ServiceCall) (quiet : notes.filter ServiceCall.isEnding = [])
      (result : StartResult) (not_ok : result ≠ .ok)
      (not_refused : ∀ grace, result ≠ .failed (.stillStopping grace)) :
      Opens s (result, { s with calls := notes ++ s.calls })
  | begun (notes : List ServiceCall) (quiet : notes.filter ServiceCall.isEnding = []) :
      Opens s (.ok, { s with
        thread := some (s.started + 1), started := s.started + 1, calls := notes ++ s.calls })

theorem Opens.of_note {s : Service} (call : ServiceCall) {r : StartResult × Service}
    (quiet : call.isEnding = false) (h : (s.note call).Opens r) : s.Opens r := by
  have grows : ∀ notes : List ServiceCall, notes.filter ServiceCall.isEnding = [] →
      (notes ++ [call]).filter ServiceCall.isEnding = [] := by
    intro notes still
    simp [still, quiet]
  cases h with
  | failed notes still result not_ok not_refused =>
    have := Opens.failed (s := s) (notes ++ [call]) (grows notes still) result not_ok not_refused
    simpa [note] using this
  | begun notes still =>
    have := Opens.begun (s := s) (notes ++ [call]) (grows notes still)
    simpa [note] using this

theorem spawnLoop_opens (s : Service) (met : Surroundings) : s.Opens (s.spawnLoop met) := by
  unfold spawnLoop
  split
  · exact .failed [] rfl _ (by simp) (by simp)
  · exact .begun [] rfl

theorem postNotice_opens (s : Service) (met : Surroundings) : s.Opens (s.postNotice met) := by
  apply Opens.of_note (.post s.setup.channel.id s.setup.notice) rfl
  unfold postNotice
  split
  · apply spawnLoop_opens
  · exact .failed [] rfl _ (by simp) (by simp)
  · exact .failed [] rfl _ (by simp) (by simp)

theorem openChannel_opens (s : Service) (met : Surroundings) : s.Opens (s.openChannel met) := by
  apply Opens.of_note (.exists_ s.setup.channel.id met.channelExists) rfl
  unfold openChannel
  split
  · apply postNotice_opens
  · apply Opens.of_note (.create s.setup.channel) rfl
    split
    · apply postNotice_opens
    · exact .failed [] rfl _ (by simp) (by simp)
    · exact .failed [] rfl _ (by simp) (by simp)

/-- Nothing is left of the loop before: there was none, it had ended, or it ended in the time that
the start gave it. -/
def IsFree (s : Service) (met : Surroundings) : Prop :=
  s.thread = none ∨ met.ended = true ∨ (s.stopping = true ∧ met.endsInGrace = true)

/-- Everything that a start can do. -/
inductive Starts (s : Service) (met : Surroundings) : StartResult × Service → Prop
  | running (holds : s.thread.isSome = true) (lives : met.ended = false)
      (unasked : s.stopping = false) : Starts s met (.ok, s)
  | refused (holds : s.thread.isSome = true) (lives : met.ended = false)
      (asked : s.stopping = true) (late : met.endsInGrace = false) :
      Starts s met (.failed (.stillStopping s.setup.grace), s)
  | opens {r : StartResult × Service} (free : s.IsFree met)
      (h : Opens { s with thread := none, stopping := false } r) : Starts s met r

theorem start_starts (s : Service) (met : Surroundings) : s.Starts met (s.start met) := by
  unfold start
  split
  · rename_i running
    simp only [Bool.and_eq_true, Bool.not_eq_true'] at running
    exact .running running.1.1 running.1.2 running.2
  · rename_i not_running
    split
    · rename_i refused
      simp only [Bool.and_eq_true, Bool.not_eq_true'] at refused
      obtain ⟨⟨holds, lives⟩, late⟩ := refused
      have asked : s.stopping = true := by simpa [holds, lives] using not_running
      exact .refused holds lives asked late
    · rename_i not_refused
      refine .opens ?_ (openChannel_opens _ met)
      unfold IsFree
      cases held : s.thread with
      | none => simp
      | some loop =>
        cases ended : met.ended with
        | true => simp
        | false =>
          simp only [held, ended, Option.isSome_some, Bool.not_false, Bool.and_self, Bool.true_and,
            Bool.not_eq_true', Bool.not_eq_false] at not_running not_refused
          simp [not_running, not_refused]

/-- A stop asks the held loop if it has not been asked yet. -/
theorem stop_cases (s : Service) :
    (s.stop = (false, s) ∧ (s.thread = none ∨ s.stopping = true)) ∨
    (∃ loop, s.thread = some loop ∧ s.stopping = false ∧
      s.stop = (true, { s with
        stopping := true, calls := .clear s.setup.channel.id :: .stop :: s.calls })) := by
  cases held : s.thread with
  | none => simp [stop, markStopping, held]
  | some loop =>
    cases asked : s.stopping with
    | true => simp [stop, markStopping, asked]
    | false => simp [stop, markStopping, held, asked, signalLoop, clearNotice, note]

end Service

/-- A service and what became of its loops. -/
structure ServiceLife where
  service : Service
  /-- The owner has let go of the service. -/
  dropped : Bool := false
  /-- The loops that have not ended, the last one first. -/
  alive : List Nat := []
  /-- The loop held at each request to stop and how it took the request, the last one first. -/
  asked : List (Nat × StopMode) := []

inductive ServiceMove where
  | start (met : Surroundings)
  | stop (mode : StopMode)
  /-- A stop, and nobody can use the service any more. -/
  | drop (mode : StopMode)
  /-- A loop ends: as it was asked to, on its own, or by crashing. -/
  | ends (loop : Nat)

namespace ServiceLife

variable {w : ServiceLife} {loop : Nat}

def fresh (setup : ServiceSetup) : ServiceLife where
  service := { setup }

def loopEnded (w : ServiceLife) : Bool := !w.service.thread.any w.alive.contains

/-- What a start meets; whether the held loop has ended is no matter of choice. -/
def meets (w : ServiceLife) (met : Surroundings) : Surroundings := { met with ended := w.loopEnded }

/-- The loops that are alive when the wait of a start is over. -/
def survivors (w : ServiceLife) (met : Surroundings) : List Nat :=
  if w.service.stopping && met.endsInGrace then
    w.alive.filter fun loop => w.service.thread != some loop
  else w.alive

def start (w : ServiceLife) (met : Surroundings) : StartResult × ServiceLife :=
  let (result, after) := w.service.start (w.meets met)
  (result, { w with
    service := after
    alive :=
      if after.started = w.service.started then w.survivors met
      else after.started :: w.survivors met })

def stop (w : ServiceLife) (mode : StopMode) : ServiceLife :=
  let (stopped, after) := w.service.stop
  { w with
    service := after
    asked := if stopped then (w.service.thread.toList.map (·, mode)) ++ w.asked else w.asked }

def step (w : ServiceLife) : ServiceMove → ServiceLife
  | .start met => if w.dropped then w else (w.start met).2
  | .stop mode => if w.dropped then w else w.stop mode
  | .drop mode => if w.dropped then w else { w.stop mode with dropped := true }
  | .ends loop => { w with alive := w.alive.filter (· != loop) }

def run (w : ServiceLife) (moves : List ServiceMove) : ServiceLife := moves.foldl step w

def isRunning (w : ServiceLife) : Bool := w.service.isRunning w.loopEnded

def askedLoops (w : ServiceLife) : List Nat := w.asked.map Prod.fst

/-- The calls for the end of a loop, the last one first. -/
def partings (w : ServiceLife) : List ServiceCall := w.service.calls.filter ServiceCall.isEnding

/-- One loop at most is alive, the one that the service holds. -/
def Alone (w : ServiceLife) : Prop :=
  w.alive = [] ∨ ∃ loop, w.alive = [loop] ∧ w.service.thread = some loop

namespace Alone

/-- Once nothing is left of the loop before, no loop is alive. -/
theorem survivors_eq_nil (h : w.Alone) {met : Surroundings}
    (free : w.service.IsFree (w.meets met)) : w.survivors met = [] := by
  rcases h with none_alive | ⟨loop, one_alive, held⟩
  · simp [survivors, none_alive]
  · rcases free with none_held | ended | ⟨asked, in_grace⟩
    · simp [held] at none_held
    · simp [meets, loopEnded, held, one_alive] at ended
    · have in_grace : met.endsInGrace = true := in_grace
      simp [survivors, asked, in_grace, one_alive, held]

theorem ends (h : w.Alone) (loop : Nat) :
    ({ w with alive := w.alive.filter (· != loop) } : ServiceLife).Alone := by
  rcases h with none_alive | ⟨only, one_alive, held⟩
  · simp [Alone, none_alive]
  · by_cases same : only = loop
    · simp [Alone, one_alive, same]
    · simp [Alone, one_alive, same, held]

/-- What a start does with a service and its loops: nothing, or else nothing is left of the loop
before, and then it fails or begins the next one. -/
theorem start_cases (h : w.Alone) (met : Surroundings) :
    (w.start met).2 = w ∨
    (w.service.IsFree (w.meets met) ∧ ∃ notes, notes.filter ServiceCall.isEnding = [] ∧
      ((w.start met).2 = { w with
          service := { w.service with
            thread := none, stopping := false, calls := notes ++ w.service.calls }
          alive := [] } ∨
        (w.start met).2 = { w with
          service := { w.service with
            thread := some (w.service.started + 1), stopping := false
            started := w.service.started + 1, calls := notes ++ w.service.calls }
          alive := [w.service.started + 1] })) := by
  have spec := w.service.start_starts (w.meets met)
  unfold ServiceLife.start
  generalize w.service.start (w.meets met) = r at spec
  cases spec with
  | running _ _ unasked => simp [survivors, unasked]
  | refused _ _ _ late =>
    have late : met.endsInGrace = false := late
    simp [survivors, late]
  | opens free opened =>
    have gone := h.survivors_eq_nil free
    cases opened with
    | failed notes quiet => exact .inr ⟨free, notes, quiet, .inl (by simp [gone])⟩
    | begun notes quiet => exact .inr ⟨free, notes, quiet, .inr (by simp [gone])⟩

end Alone

/-- What holds of a service and its loops at any time. -/
structure Orderly (w : ServiceLife) : Prop where
  alone : w.alive = [] ∨ ∃ loop, w.alive = [loop] ∧ w.service.thread = some loop
  known : ∀ loop, w.service.thread = some loop → 1 ≤ loop ∧ loop ≤ w.service.started
  signalled : w.service.stopping = true ↔ ∃ loop ∈ w.askedLoops, w.service.thread = some loop
  once : w.askedLoops.Nodup
  begun : ∀ loop ∈ w.askedLoops, 1 ≤ loop ∧ loop ≤ w.service.started
  paired : w.partings =
    (List.replicate w.asked.length [.clear w.service.setup.channel.id, .stop]).flatten

namespace Orderly

/-- A start leaves the loops and the service in order. -/
theorem start (h : w.Orderly) (met : Surroundings) : (w.start met).2.Orderly := by
  rcases Alone.start_cases h.alone met with same | ⟨-, notes, quiet, failed | begun⟩
  · rwa [same]
  · rw [failed]
    constructor
    case alone => simp
    case known => simp
    case signalled => simp
    case once => exact h.once
    case begun => exact h.begun
    case paired => simpa [partings, quiet] using h.paired
  · -- The new loop has a number that none was asked by so far.
    have unasked : w.service.started + 1 ∉ w.askedLoops := by
      intro asked
      have := (h.begun _ asked).2
      omega
    rw [begun]
    constructor
    case alone => simp
    case known => simp
    case signalled => simpa [askedLoops] using unasked
    case once => exact h.once
    case begun =>
      intro loop asked
      have := h.begun loop asked
      simp only
      omega
    case paired => simpa [partings, quiet] using h.paired

/-- A stop asks a loop that was not asked before, or does nothing. -/
theorem stop (h : w.Orderly) (mode : StopMode) : (w.stop mode).Orderly := by
  unfold ServiceLife.stop
  rcases w.service.stop_cases with ⟨same, -⟩ | ⟨loop, held, unasked, stopped⟩
  · simpa [same] using h
  · have fresh_loop : loop ∉ w.askedLoops := by
      intro asked
      have := h.signalled.mpr ⟨loop, asked, held⟩
      simp [unasked] at this
    rw [stopped]
    constructor
    case alone => simpa using h.alone
    case known => simpa using h.known
    case signalled => simp [askedLoops, held]
    case once =>
      simp only [askedLoops, held, Option.toList_some, List.map_cons, List.map_nil,
        List.singleton_append, if_true, List.nodup_cons]
      exact ⟨fresh_loop, h.once⟩
    case begun =>
      intro asked
      simp only [askedLoops, held, Option.toList_some, List.map_cons, List.map_nil,
        List.singleton_append, if_true, List.mem_cons]
      rintro (rfl | earlier)
      · exact h.known _ held
      · exact h.begun asked earlier
    case paired =>
      have paired := h.paired
      simp only [partings] at paired
      simp [partings, List.filter_cons, ServiceCall.isEnding, held, paired, List.replicate_succ]

/-- A loop that ends leaves no other one behind. -/
theorem ends (h : w.Orderly) (loop : Nat) :
    ({ w with alive := w.alive.filter (· != loop) } : ServiceLife).Orderly where
  alone := Alone.ends h.alone loop
  known := h.known
  signalled := h.signalled
  once := h.once
  begun := h.begun
  paired := h.paired

theorem step (h : w.Orderly) (move : ServiceMove) : (w.step move).Orderly := by
  cases move with
  | start met =>
    simp only [ServiceLife.step]
    split
    · exact h
    · exact h.start met
  | stop mode =>
    simp only [ServiceLife.step]
    split
    · exact h
    · exact h.stop mode
  | drop mode =>
    simp only [ServiceLife.step]
    split
    · exact h
    · -- To be dropped is nothing that the loops know of.
      have stopped := h.stop mode
      exact ⟨stopped.alone, stopped.known, stopped.signalled, stopped.once, stopped.begun,
        stopped.paired⟩
  | ends loop => exact h.ends loop

theorem run (h : w.Orderly) (moves : List ServiceMove) : (w.run moves).Orderly := by
  induction moves generalizing w with
  | nil => exact h
  | cons move moves ih => exact ih (h.step move)

end Orderly

/-- A loop that is deaf to the request keeps the next one from starting until it ends. -/
example :
    let setup : ServiceSetup := .ofChannel (.background "sync" "Sync")
    let met : Surroundings := { ended := false, channelExists := true }
    let w := (fresh setup).run [.start met, .stop .deaf, .stop .ok]
    w.alive = [1] ∧ w.asked = [(1, .deaf)] ∧
      (w.start met).1 = .failed (.stillStopping setup.grace) ∧
      (w.run [.start met, .ends 1, .start met]).alive = [2] := by
  decide

end ServiceLife

end PacedChain
