import Mathlib.Data.List.Infix
import PacedChain.Proofs.Desk.Agenda
import PacedChain.Proofs.Host.Balance

/-!
# One worker at a time

A host with at most one worker that has not ended is, to its chain, a desk and one place at which
work is done (`Host.seat`). Each move is then one step of that place, something that the owner does,
or time that passes (`Host.deed_move`), and what each of these keeps is kept by every run with one
worker at a time (`Host.alone_induction`).
-/
namespace PacedChain

namespace Station

def isGone : Station → Bool
  | .gone => true
  | _ => false

/-- Nothing is being executed here, and nothing is left to be told. -/
def isIdle : Station → Bool
  | .checking | .waiting | .gone => true
  | _ => false

end Station

namespace Host

/-- The workers that have not ended. -/
def active (h : Host) : List Worker := h.workers.filter fun w => !w.station.isGone

/-- Where the only worker stands, if there is one. -/
def seat (h : Host) : Station := (h.active.head?.map (·.station)).getD .gone

/-- No execution is in progress. -/
def atRest (h : Host) : Bool := h.workers.all (·.station.isIdle)

/-- At no time on the way is there more than one worker. -/
def Alone (run : List Move → Host) (ms : List Move) : Prop :=
  ∀ before, before <+: ms → (run before).active.length ≤ 1

instance (run : List Move → Host) (ms : List Move) : Decidable (Alone run ms) :=
  decidable_of_iff (∀ before ∈ ms.inits, (run before).active.length ≤ 1)
    (forall_congr' fun before => imp_congr_left (List.mem_inits before ms))

variable {h h' : Host} {w : Worker}

theorem seat_of_active_eq (sole : h.active = [w]) : h.seat = w.station := by
  rw [seat, sole]
  rfl

theorem seat_of_active_eq_nil (none : h.active = []) : h.seat = .gone := by
  rw [seat, none]
  rfl

theorem seat_congr (same : h'.workers = h.workers) : h'.seat = h.seat := by
  rw [seat, active, same, seat, active]

theorem active_cases (alone : h.active.length ≤ 1) : h.active = [] ∨ ∃ w, h.active = [w] := by
  rcases Nat.le_one_iff_eq_zero_or_eq_one.mp alone with none | one
  · exact Or.inl (List.length_eq_zero_iff.mp none)
  · exact Or.inr (List.length_eq_one_iff.mp one)

theorem isIdle_seat (rest : h.atRest = true) : h.seat.isIdle = true := by
  unfold seat
  cases listed : h.active with
  | nil => rfl
  | cons w _ =>
    have member : w ∈ h.active := by
      rw [listed]
      exact List.mem_cons_self
    exact List.all_eq_true.mp rest w (List.mem_of_mem_filter member)

/-- A worker that has ended holds no lease. -/
theorem leases_eq (alone : h.active.length ≤ 1) : h.leases = h.seat.lease?.toList := by
  have active : h.leases = h.active.filterMap (·.station.lease?) := by
    rw [leases, Host.active, List.filterMap_filter]
    apply List.filterMap_congr
    intro w _
    cases w.station <;> rfl
  rcases active_cases alone with none | ⟨w, sole⟩
  · rw [active, none, seat_of_active_eq_nil none]
    rfl
  · rw [active, sole, seat_of_active_eq sole, List.filterMap_cons]
    cases w.station.lease? <;> rfl

/-! ### What one move does -/

/-- What a move comes to for a host with one worker at most: the desk, the chain and the place of
the worker after it. -/
inductive Deed (h : Host) : Move → Desk → Chain → Station → Prop
  | work (index : Nat) (preference : Preference) {group : Nat} {station : Station} {h' : Host} :
    Act h group h.seat station h' → Deed h (.step index preference) h'.desk h'.chain station
  | pass (duration : Nat) :
    Deed h (.pass duration) { h.desk with now := h.desk.now + duration } h.chain h.seat
  | trigger (signal : Trigger) :
    Deed h (.trigger signal) (h.trigger signal).2.desk (h.trigger signal).2.chain h.seat
  | close : Deed h .close { h.desk with queue := h.desk.queue.close } h.chain h.seat
  /-- A worker comes where there was none. -/
  | arrive (n : Nat) : h.seat = .gone → Deed h (.spawn n) h.desk h.chain .checking
  | nothing (m : Move) : m.isTrigger = false → Deed h m h.desk h.chain h.seat

theorem Act.eq_of_gone {group : Nat} {station : Station} (act : Act h group .gone station h') :
    station = .gone ∧ h' = h := by
  cases act
  exact ⟨rfl, rfl⟩

theorem isGone_eq_false {s : Station} (going : s ≠ .gone) : s.isGone = false := by
  cases s <;> first | rfl | exact absurd rfl going

theorem stepWorker_of_none {index : Nat} (none : h.workers[index]? = none)
    (preference : Preference) : h.stepWorker index preference = h := by
  rw [stepWorker, none]

theorem stepWorker_of_some {index : Nat} (found : h.workers[index]? = some w)
    (preference : Preference) :
    h.stepWorker index preference = { (h.act w preference).2 with
      workers := h.workers.set index { w with station := (h.act w preference).1 } } := by
  simp only [stepWorker, found, (h.act_spec w preference).workers]

/-- A worker that has ended does nothing more. -/
theorem stepWorker_of_gone {index : Nat} (found : h.workers[index]? = some w)
    (gone : w.station = .gone) (preference : Preference) : h.stepWorker index preference = h := by
  have act := h.act_spec w preference
  rw [gone] at act
  obtain ⟨stays, unchanged⟩ := act.eq_of_gone
  obtain ⟨within, here⟩ := List.getElem?_eq_some_iff.mp found
  have self : { w with station := (h.act w preference).1 } = h.workers[index] := by
    rw [here, stays, ← gone]
  rw [stepWorker_of_some found, self, List.set_getElem_self, unchanged]

/-- A worker that has not ended is the only one, also after it has been changed. -/
theorem active_of_some (alone : h.active.length ≤ 1) {index : Nat}
    (found : h.workers[index]? = some w) (going : w.station ≠ .gone) :
    h.active = [w] ∧ ∀ (h' : Host) (w' : Worker), h'.workers = h.workers.set index w' →
      h'.active = [w'].filter fun w => !w.station.isGone := by
  obtain ⟨within, here⟩ := List.getElem?_eq_some_iff.mp found
  have split : h.workers = h.workers.take index ++ w :: h.workers.drop (index + 1) := by
    rw [← here, List.cons_getElem_drop_succ, List.take_append_drop]
  have was : h.active = (h.workers.take index).filter (fun w => !w.station.isGone) ++
      w :: (h.workers.drop (index + 1)).filter (fun w => !w.station.isGone) := by
    rw [active]
    conv_lhs => rw [split]
    rw [List.filter_append, List.filter_cons_of_pos (by rw [isGone_eq_false going]; rfl)]
  rw [was, List.length_append, List.length_cons] at alone
  have before := List.length_eq_zero_iff.mp
    (show ((h.workers.take index).filter fun w => !w.station.isGone).length = 0 by omega)
  have behind := List.length_eq_zero_iff.mp
    (show ((h.workers.drop (index + 1)).filter fun w => !w.station.isGone).length = 0 by omega)
  refine ⟨by rw [was, before, behind]; rfl, fun h' w' changed => ?_⟩
  rw [active, changed, List.set_eq_take_append_cons_drop, if_pos within, List.filter_append, before,
    List.filter_cons, behind, List.filter_cons]
  rfl

theorem seat_of_active_eq_filter (only : h.active = [w].filter fun w => !w.station.isGone) :
    h.active.length ≤ 1 ∧ h.seat = w.station := by
  cases ended : w.station.isGone with
  | true =>
    rw [List.filter_cons_of_neg (by rw [ended]; decide), List.filter_nil] at only
    rw [seat_of_active_eq_nil only, only]
    refine ⟨Nat.zero_le 1, ?_⟩
    cases state : w.station <;> rw [state] at ended <;> first | rfl | cases ended
  | false =>
    rw [List.filter_cons_of_pos (by rw [ended]; rfl), List.filter_nil] at only
    rw [seat_of_active_eq only, only]
    exact ⟨Nat.le_refl 1, rfl⟩

/-- A step is one of the only worker, or nothing at all. -/
theorem stepWorker_cases (alone : h.active.length ≤ 1) (index : Nat) (preference : Preference) :
    let after := h.stepWorker index preference
    after.active.length ≤ 1 ∧
      ((∃ w, h.workers[index]? = some w ∧ h.seat = w.station ∧
          after.workers[index]? = some { w with station := (h.act w preference).1 } ∧
          after.seat = (h.act w preference).1 ∧ after.desk = (h.act w preference).2.desk ∧
          after.chain = (h.act w preference).2.chain) ∨
        (after = h ∧ ∀ w, h.workers[index]? = some w → w.station = .gone)) := by
  rcases found : h.workers[index]? with _ | w
  · rw [stepWorker_of_none found]
    refine ⟨alone, Or.inr ⟨rfl, ?_⟩⟩
    intro w other
    cases other
  by_cases gone : w.station = .gone
  · rw [stepWorker_of_gone found gone]
    refine ⟨alone, Or.inr ⟨rfl, fun other same => ?_⟩⟩
    rw [← Option.some.inj same]
    exact gone
  · obtain ⟨within, _⟩ := List.getElem?_eq_some_iff.mp found
    obtain ⟨sole, changed⟩ := active_of_some alone found gone
    rw [stepWorker_of_some found]
    obtain ⟨still, seat⟩ := seat_of_active_eq_filter (changed
      { (h.act w preference).2 with
        workers := h.workers.set index { w with station := (h.act w preference).1 } } _ rfl)
    exact ⟨still, Or.inl ⟨w, rfl, seat_of_active_eq sole, List.getElem?_set_self within, seat, rfl,
      rfl⟩⟩

theorem deed_step (alone : h.active.length ≤ 1) (index : Nat) (preference : Preference) :
    let after := h.stepWorker index preference
    Deed h (.step index preference) after.desk after.chain after.seat := by
  obtain ⟨_, ⟨w, _, seat, _, place, desk, chain⟩ | ⟨same, _⟩⟩ :=
    stepWorker_cases alone index preference
  · have act := h.act_spec w preference
    rw [← seat] at act
    intro after
    rw [place, desk, chain]
    exact .work index preference act
  · intro after
    rw [show after = h from same]
    exact .nothing _ rfl

theorem chain_leaveGroup (h : Host) : h.leaveGroup.2.chain = h.chain := by
  unfold leaveGroup
  split <;> rfl

theorem chain_requestShutdown (h : Host) : h.requestShutdown.chain = h.chain := by
  unfold requestShutdown
  split <;> rfl

theorem deed_spawn (n : Nat) (after : (h.spawn n).active.length ≤ 1) :
    Deed h (.spawn n) (h.spawn n).desk (h.spawn n).chain (h.spawn n).seat := by
  have is : (h.spawn n).active =
      h.active ++ List.replicate n ⟨h.leaveGroup.2.groups, .checking⟩ := by
    rw [active, workers_spawn, List.filter_append, List.filter_replicate_of_pos rfl, active]
  rw [desk_spawn, show (h.spawn n).chain = h.chain from chain_leaveGroup h, seat, is]
  rw [is, List.length_append, List.length_replicate] at after
  cases n with
  | zero =>
    rw [List.replicate_zero, List.append_nil]
    exact .nothing _ rfl
  | succ n =>
    have nobody : h.active = [] := List.length_eq_zero_iff.mp (by omega)
    rw [nobody]
    exact .arrive _ (seat_of_active_eq_nil nobody)

/-- A move with one worker at most before and after it is one deed. -/
theorem deed_move (alone : h.active.length ≤ 1) (m : Move) (after : (h.move m).active.length ≤ 1) :
    Deed h m (h.move m).desk (h.move m).chain (h.move m).seat := by
  cases m with
  | step index preference => exact deed_step alone index preference
  | pass duration => exact .pass duration
  | trigger signal => exact .trigger signal
  | close => exact .close
  | spawn n => exact deed_spawn n after
  | leave =>
    rw [move, desk_leaveGroup, chain_leaveGroup, seat_congr (workers_leaveGroup h)]
    exact .nothing _ rfl
  | requestShutdown =>
    rw [move, desk_requestShutdown, chain_requestShutdown, seat_congr (workers_requestShutdown h)]
    exact .nothing _ rfl
  | giveUp =>
    have same : (h.move .giveUp).seat = h.seat := seat_congr (workers_requestShutdown h)
    rw [same, move, desk_requestShutdown, chain_requestShutdown]
    exact .nothing _ rfl

/-- What every deed keeps is kept as long as there is one worker at a time. -/
theorem alone_induction {P : Desk → Chain → Station → Prop} {ms : List Move}
    (step : ∀ before m d c s,
      Usage.Sound ⟨(h.moves before).desk, (h.moves before).seat.lease?.toList⟩ →
      Deed (h.moves before) m d c s →
      P (h.moves before).desk (h.moves before).chain (h.moves before).seat → P d c s)
    (sound : h.usage.Sound) (first : P h.desk h.chain h.seat) (alone : Alone h.moves ms) :
    P (h.moves ms).desk (h.moves ms).chain (h.moves ms).seat := by
  induction ms using List.reverseRecOn with
  | nil => exact first
  | append_singleton ms m ih =>
    have before := alone ms (List.prefix_append ms [m])
    have after := alone (ms ++ [m]) (List.prefix_refl _)
    have used := sound_moves sound ms
    rw [usage, leases_eq before] at used
    rw [moves_append] at after ⊢
    refine step ms m _ _ _ used (deed_move before m after) (ih ?_)
    exact fun sooner le => alone sooner (le.trans (List.prefix_append ms [m]))

/-! ### Triggers -/

theorem trigger_eq {h : Host} (signal : Trigger) {result : Except QueueError Placement} {d : Desk}
    (answered : TaskQueue.enqueueUnique h.desk h.chain.policy.key .keepExisting .bootstrap =
      (result, d)) :
    (h.trigger signal).2 = { h with
      desk := d
      chain := h.chain.noteTrigger (result.mapError .scheduling) } := by
  simp only [Host.trigger, Chain.trigger, Chain.fire, answered]
  cases result <;> rfl

/-! ### What no move changes -/

theorem Act.backoff {group : Nat} {s s' : Station} (act : Act h group s s' h') :
    h'.desk.queue.backoff = h.desk.queue.backoff := by
  obtain ⟨calls, _, done⟩ := act.calls []
  have same := Usage.backoff_run ⟨h.desk, s.lease?.toList ++ []⟩ calls
  rw [done] at same
  exact same

theorem backoff_move (h : Host) (m : Move) :
    (h.move m).desk.queue.backoff = h.desk.queue.backoff := by
  cases m with
  | step index preference =>
    rw [move, stepWorker]
    cases h.workers[index]? with
    | none => rfl
    | some w => exact (h.act_spec w preference).backoff
  | trigger signal =>
    rw [move, desk_trigger]
    exact Queue.backoff_enqueueUnique _ _ _ _ _
  | pass | close => rfl
  | spawn n => exact congrArg (·.queue.backoff) (desk_spawn h n)
  | leave => exact congrArg (·.queue.backoff) (desk_leaveGroup h)
  | requestShutdown => exact congrArg (·.queue.backoff) (desk_requestShutdown h)
  | giveUp => exact congrArg (·.queue.backoff) (desk_requestShutdown h)

theorem backoff_moves (h : Host) (ms : List Move) :
    (h.moves ms).desk.queue.backoff = h.desk.queue.backoff :=
  moves_induction (P := fun g => g.desk.queue.backoff = h.desk.queue.backoff)
    (fun g m same => (backoff_move g m).trans same) rfl ms

end Host

end PacedChain
