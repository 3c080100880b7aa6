import PacedChain.Chain.Desk
import PacedChain.Proofs.Queue.Indexed
import PacedChain.Proofs.Queue.Placed

/-!
# Desks in use

A desk is used by calls in any order, each as it happens under the lock of the queue, with time
passing in between. The leases that are out are those handed out and neither completed nor given up;
no other lease can be completed. Every state that is reached from a desk without tasks is sound
(`Usage.sound_run`): tasks are kept, placed and indexed as they should be, and every lease that is
out is of a running task, no two of the same one.
-/
namespace PacedChain

/-- What happens to a desk. -/
inductive Call where
  | enqueue (job : Job)
  | enqueueDelayed (job : Job) (delay : Delay)
  | enqueueUnique (key : Key) (policy : HolderPolicy) (job : Job)
  /-- One look for a lease. -/
  | look
  /-- Complete a lease that is out. -/
  | complete (lease : Lease) (outcome : Outcome)
  /-- Give a lease up without completing it. -/
  | drop (lease : Lease)
  | close
  | pass (duration : Nat)
  deriving DecidableEq

def Call.isDrop : Call → Bool
  | .drop _ => true
  | _ => false

/-- A call in which no lease is given up and no task is replaced. -/
def Call.isGentle : Call → Bool
  | .drop _ => false
  | .enqueueUnique _ policy _ => policy == .keepExisting
  | _ => true

theorem Call.isDrop_of_isGentle {call : Call} (gentle : call.isGentle = true) :
    call.isDrop = false := by
  cases call <;> first | rfl | cases gentle

/-- A desk, and the leases that are out. -/
structure Usage where
  desk : Desk
  out : List Lease := []

namespace Usage

/-- A desk without tasks at the start of the clock. -/
def start (backoff : Backoff) (historyLimit : Nat) : Usage :=
  { desk := { queue := Queue.empty backoff historyLimit } }

def perform (u : Usage) : Call → Usage
  | .enqueue job => { u with desk := (u.desk.enqueue job).2 }
  | .enqueueDelayed job delay => { u with desk := (TaskQueue.enqueueDelayed u.desk job delay).2 }
  | .enqueueUnique key policy job =>
    { u with desk := (TaskQueue.enqueueUnique u.desk key policy job).2 }
  | .look =>
    match u.desk.look with
    | (.leased lease, desk) => { desk, out := lease :: u.out }
    | (_, desk) => { u with desk }
  | .complete lease outcome =>
    if lease ∈ u.out then
      { desk := (u.desk.complete lease.envelope.task outcome).2, out := u.out.erase lease }
    else u
  | .drop lease => { u with out := u.out.erase lease }
  | .close => { u with desk := { u.desk with queue := u.desk.queue.close } }
  | .pass duration => { u with desk := { u.desk with now := u.desk.now + duration } }

def run (u : Usage) (calls : List Call) : Usage := calls.foldl perform u

theorem perform_look_closed {u : Usage} {q : Queue}
    (seen : u.desk.queue.look u.desk.now = (.closed, q)) :
    u.perform .look = { u with desk := u.desk.enter q .leaseEnd } := by
  simp only [perform, Desk.look, seen]

theorem perform_look_leased {u : Usage} {q : Queue} {lease : Lease}
    (seen : u.desk.queue.look u.desk.now = (.leased lease, q)) :
    u.perform .look = { desk := u.desk.enter q (.lease lease), out := lease :: u.out } := by
  simp only [perform, Desk.look, seen]

theorem perform_look_idle {u : Usage} {q : Queue} {wake : Option Nat}
    (seen : u.desk.queue.look u.desk.now = (.idle wake, q)) :
    u.perform .look = { u with desk := { u.desk with queue := q } } := by
  simp only [perform, Desk.look, seen]

theorem run_singleton (u : Usage) (call : Call) : u.run [call] = u.perform call := rfl

theorem run_append (u : Usage) (calls more : List Call) :
    u.run (calls ++ more) = (u.run calls).run more := List.foldl_append

/-- What every single call keeps is kept by a row of calls. -/
theorem run_induction {P : Usage → Prop} (step : ∀ u call, P u → P (u.perform call)) {u : Usage}
    (first : P u) (calls : List Call) : P (u.run calls) := by
  induction calls generalizing u with
  | nil => exact first
  | cons call calls ih => exact ih (step u call first)

/-- What every call of a kind keeps is kept by a row of such calls. -/
theorem run_induction_of {P : Usage → Prop} {kind : Call → Prop}
    (step : ∀ u call, kind call → P u → P (u.perform call)) {u : Usage} (first : P u)
    {calls : List Call} (all : ∀ call ∈ calls, kind call) : P (u.run calls) := by
  induction calls generalizing u with
  | nil => exact first
  | cons call calls ih =>
    exact ih (step u call (all call List.mem_cons_self) first)
      fun later member => all later (List.mem_cons_of_mem _ member)

/-! ### The order of the leases -/

/-- The same desk, and the same leases in some order. -/
structure Like (u v : Usage) : Prop where
  desk : u.desk = v.desk
  out : u.out.Perm v.out

namespace Like

variable {u v : Usage}

theorem refl (u : Usage) : u.Like u := ⟨rfl, List.Perm.refl _⟩

theorem trans {w : Usage} (first : u.Like v) (second : v.Like w) : u.Like w :=
  ⟨first.desk.trans second.desk, first.out.trans second.out⟩

theorem perform (like : u.Like v) (call : Call) : (u.perform call).Like (v.perform call) := by
  obtain ⟨desk, out⟩ := u
  obtain ⟨_, out'⟩ := v
  obtain ⟨rfl, perm⟩ := like
  cases call with
  | look =>
    simp only [Usage.perform]
    rcases desk.look with ⟨_ | lease | _, d⟩
    · exact ⟨rfl, perm⟩
    · exact ⟨rfl, perm.cons lease⟩
    · exact ⟨rfl, perm⟩
  | complete lease outcome =>
    by_cases member : lease ∈ out
    · rw [Usage.perform, Usage.perform, if_pos member, if_pos (perm.subset member)]
      exact ⟨rfl, perm.erase lease⟩
    · rw [Usage.perform, Usage.perform, if_neg member, if_neg fun m => member (perm.symm.subset m)]
      exact ⟨rfl, perm⟩
  | drop lease => exact ⟨rfl, perm.erase lease⟩
  | enqueue | enqueueDelayed | enqueueUnique | close | pass => exact ⟨rfl, perm⟩

theorem run (like : u.Like v) (calls : List Call) : (u.run calls).Like (v.run calls) := by
  induction calls generalizing u v with
  | nil => exact like
  | cons call calls ih => exact ih (like.perform call)

end Like

end Usage

/-! ### Withdrawn tasks -/

/-- Some enqueue under a key put another task in the place of this one. -/
def Entry.Withdraws (e : Entry) (id : TaskId) : Prop :=
  ∃ key policy job new, e = .enqueueUnique key policy job (.ok (.replaced id new))

/-- A task was replaced, as the journal shows. -/
def Desk.Withdrew (d : Desk) (id : TaskId) : Prop := ∃ entry ∈ d.journal, entry.2.Withdraws id

namespace Desk

variable {d : Desk} {queue : Queue} {entry : Entry} {id : TaskId}

theorem withdrew_enter :
    (d.enter queue entry).Withdrew id ↔ d.Withdrew id ∨ entry.Withdraws id := by
  constructor
  · rintro ⟨seen, member, withdraws⟩
    rcases List.mem_cons.mp member with rfl | earlier
    · exact Or.inr withdraws
    · exact Or.inl ⟨seen, earlier, withdraws⟩
  · rintro (⟨seen, earlier, withdraws⟩ | withdraws)
    · exact ⟨seen, List.mem_cons_of_mem _ earlier, withdraws⟩
    · exact ⟨_, List.mem_cons_self, withdraws⟩

theorem withdrew_enter_of_not (other : ∀ id, ¬entry.Withdraws id) :
    (d.enter queue entry).Withdrew = d.Withdrew := by
  funext id
  rw [withdrew_enter, eq_iff_iff]
  exact ⟨fun either => either.resolve_right (other id), Or.inl⟩

end Desk

/-! ### What the journal says of leases -/

/-- The job of the last lease of a task. -/
def Desk.lastJob? (id : TaskId) : List (Nat × Entry) → Option Job
  | [] => none
  | (_, .lease lease) :: earlier =>
    if lease.envelope.task = id then some lease.envelope.job else lastJob? id earlier
  | _ :: earlier => lastJob? id earlier

/-! ### The invariant -/

/-- A lease is of a task that runs, and says what the queue says of that task. -/
def Queue.Runs (q : Queue) (lease : Lease) : Prop :=
  ∃ task, q.task? lease.envelope.task = some task ∧ task.state = .running ∧
    task.job = lease.envelope.job ∧ task.attempts = lease.attempt

namespace Usage

/-- What holds of every desk in use. -/
structure Sound (u : Usage) : Prop where
  kept : u.desk.queue.Kept
  placed : u.desk.queue.Placed u.desk.Withdrew
  indexed : u.desk.queue.Indexed
  leased : ∀ lease ∈ u.out, u.desk.queue.Runs lease
  noted : ∀ lease ∈ u.out,
    Desk.lastJob? lease.envelope.task u.desk.journal = some lease.envelope.job
  once : (u.out.map (·.envelope.task)).Nodup

theorem sound_start (backoff : Backoff) (historyLimit : Nat) :
    (start backoff historyLimit).Sound where
  kept := Queue.kept_empty backoff historyLimit
  placed := by
    have nothing : (start backoff historyLimit).desk.Withdrew = fun _ => False := by
      funext id
      rw [eq_iff_iff]
      refine ⟨?_, False.elim⟩
      rintro ⟨entry, member, _⟩
      cases member
    rw [nothing]
    exact Queue.placed_empty backoff historyLimit
  indexed := Queue.indexed_empty backoff historyLimit
  leased := by
    intro lease member
    cases member
  noted := by
    intro lease member
    cases member
  once := List.nodup_nil

namespace Sound

variable {u : Usage}

theorem perm (sound : u.Sound) {out : List Lease} (perm : out.Perm u.out) :
    Sound ⟨u.desk, out⟩ where
  kept := sound.kept
  placed := sound.placed
  indexed := sound.indexed
  leased := fun lease member => sound.leased lease (perm.subset member)
  noted := fun lease member => sound.noted lease (perm.subset member)
  once := (perm.map _).nodup_iff.mpr sound.once

theorem enqueueDelayed (sound : u.Sound) (job : Job) (delay : Delay) {entry : Entry}
    (other : ∀ id, ¬entry.Withdraws id)
    (silent : ∀ id, Desk.lastJob? id ((u.desk.now, entry) :: u.desk.journal) =
      Desk.lastJob? id u.desk.journal) :
    ({ u with desk := u.desk.enter (u.desk.queue.enqueueDelayed u.desk.now job delay).2 entry } :
      Usage).Sound where
  kept := sound.kept.enqueueDelayed _ job delay
  placed := by
    rw [Desk.withdrew_enter_of_not other]
    exact sound.placed.enqueueDelayed sound.kept _ job delay
  indexed := sound.indexed.enqueueDelayed sound.kept _ job delay
  leased := by
    intro lease member
    obtain ⟨task, known, rest⟩ := sound.leased lease member
    exact ⟨task, Queue.task?_enqueueDelayed_of_known sound.kept known _ job delay, rest⟩
  noted := fun lease member => (silent _).trans (sound.noted lease member)
  once := sound.once

theorem enqueueUnique (sound : u.Sound) (key : Key) (policy : HolderPolicy) (job : Job) :
    (u.perform (.enqueueUnique key policy job)).Sound where
  kept := sound.kept.enqueueUnique _ key policy job
  placed := by
    have placed := sound.placed.enqueueUnique sound.kept u.desk.now key policy job
    have same : (fun i => u.desk.Withdrew i ∨ ∃ new,
        (u.desk.queue.enqueueUnique u.desk.now key policy job).1 = .ok (.replaced i new)) =
        (u.perform (.enqueueUnique key policy job)).desk.Withdrew := by
      funext i
      rw [eq_iff_iff]
      refine Iff.trans (or_congr_right ?_) Desk.withdrew_enter.symm
      -- The entry of this call withdraws what its answer says was replaced.
      constructor
      · rintro ⟨new, placement⟩
        exact ⟨key, policy, job, new, congrArg _ placement⟩
      · rintro ⟨_, _, _, new, equal⟩
        injection equal with _ _ _ placement
        exact ⟨new, placement⟩
    rw [← same]
    exact placed
  indexed := sound.indexed.enqueueUnique sound.kept _ key policy job
  leased := by
    intro lease member
    obtain ⟨task, known, runs, rest⟩ := sound.leased lease member
    exact ⟨task, Queue.task?_enqueueUnique_of_running sound.kept known runs _ key policy job, runs,
      rest⟩
  noted := sound.noted
  once := sound.once

/-- What a look leaves behind, whether or not it is entered. -/
theorem look_with (sound : u.Sound) {journal : List (Nat × Entry)}
    (same : (Desk.mk u.desk.now (u.desk.queue.look u.desk.now).2 journal).Withdrew =
      u.desk.Withdrew)
    (noted : ∀ lease ∈ u.out,
      Desk.lastJob? lease.envelope.task journal = some lease.envelope.job) :
    Sound ⟨⟨u.desk.now, (u.desk.queue.look u.desk.now).2, journal⟩, u.out⟩ where
  kept := sound.kept.look _
  placed := by
    rw [same]
    exact sound.placed.look _
  indexed := sound.indexed.look _
  leased := by
    intro lease member
    obtain ⟨task, known, runs, rest⟩ := sound.leased lease member
    exact ⟨task, Queue.task?_look_of_running known runs _, runs, rest⟩
  noted := noted
  once := sound.once

theorem look (sound : u.Sound) : (u.perform .look).Sound := by
  have plain := fun journal => @look_with u sound journal
  rcases Queue.look_cases u.desk.queue u.desk.now with ⟨_, same⟩ |
    ⟨_, id, task, _, _, _, known, state, _, same⟩ |
    ⟨_, _, same⟩
  · rw [perform_look_closed same]
    rw [same] at plain
    have other : ∀ i, ¬Entry.leaseEnd.Withdraws i := by
      rintro i ⟨_, _, _, _, equal⟩
      cases equal
    exact plain _ (Desk.withdrew_enter_of_not (d := u.desk) other) sound.noted
  · rw [perform_look_leased same]
    rw [same] at plain
    have other : ∀ lease i, ¬(Entry.lease lease).Withdraws i := by
      rintro lease i ⟨_, _, _, _, equal⟩
      cases equal
    -- A task that was queued is not out already.
    have apart : ∀ lease ∈ u.out, lease.envelope.task ≠ id := by
      intro lease earlier
      obtain ⟨running, found, runs, _⟩ := sound.leased lease earlier
      have still := Queue.task?_promoteDue_of_running found runs u.desk.now
      exact Queue.ne_of_state_ne known still (by rw [runs, state]; decide)
    have stays := plain _ (Desk.withdrew_enter_of_not (d := u.desk) (other
      ⟨⟨id, task.job⟩, task.attempts + 1, ⟨(u.desk.queue.promoteDue u.desk.now).leases + 1⟩⟩))
      fun lease earlier => (if_neg (apart lease earlier).symm).trans (sound.noted lease earlier)
    refine ⟨stays.kept, stays.placed, stays.indexed, ?_, ?_, ?_⟩
    · intro lease member
      rcases List.mem_cons.mp member with rfl | earlier
      · have started := Queue.task?_modify_self (f := (·.start u.desk.now)) known
        exact ⟨task.start u.desk.now, started, rfl, rfl, rfl⟩
      · exact stays.leased lease earlier
    · intro lease member
      rcases List.mem_cons.mp member with rfl | earlier
      · exact if_pos rfl
      · exact stays.noted lease earlier
    · refine List.nodup_cons.mpr ⟨?_, stays.once⟩
      intro member
      obtain ⟨lease, earlier, taken⟩ := List.mem_map.mp member
      exact apart lease earlier taken
  · rw [perform_look_idle same]
    rw [same] at plain
    exact plain _ rfl sound.noted

theorem complete (sound : u.Sound) (lease : Lease) (outcome : Outcome) :
    (u.perform (.complete lease outcome)).Sound := by
  rw [Usage.perform]
  by_cases member : lease ∈ u.out
  · rw [if_pos member]
    obtain ⟨task, known, runs, _⟩ := sound.leased lease member
    have live : task.state.isTerminal = false := by rw [runs]; rfl
    refine ⟨sound.kept.complete known live _ outcome, ?_,
      sound.indexed.complete sound.kept known live _ outcome, ?_,
      fun stays stillOut => sound.noted stays (List.mem_of_mem_erase stillOut),
      sound.once.sublist (List.erase_sublist.map _)⟩
    · have other : ∀ result id,
          ¬(Entry.complete lease.envelope.task outcome result).Withdraws id := by
        rintro result id ⟨_, _, _, _, equal⟩
        cases equal
      rw [Desk.complete, Desk.withdrew_enter_of_not (other _)]
      exact sound.placed.complete sound.kept known runs _ outcome
    -- The leases that stay out are of other tasks.
    · intro stays stillOut
      have apart : stays.envelope.task ≠ lease.envelope.task := by
        have once := (((List.perm_cons_erase member).map _).nodup_iff).mp sound.once
        rw [List.map_cons, List.nodup_cons] at once
        intro same
        exact once.1 (List.mem_map.mpr ⟨stays, stillOut, same⟩)
      obtain ⟨task', known', runs', rest⟩ := sound.leased stays (List.mem_of_mem_erase stillOut)
      have live' : task'.state.isTerminal = false := by rw [runs']; rfl
      exact ⟨task', Queue.task?_complete_of_live sound.kept known known' live' apart _ outcome,
        runs', rest⟩
  · rw [if_neg member]
    exact sound

theorem perform (sound : u.Sound) (call : Call) : (u.perform call).Sound := by
  cases call with
  | enqueue job =>
    refine sound.enqueueDelayed job Delay.zero ?_ fun _ => rfl
    rintro id ⟨_, _, _, _, equal⟩
    cases equal
  | enqueueDelayed job delay =>
    refine sound.enqueueDelayed job delay ?_ fun _ => rfl
    rintro id ⟨_, _, _, _, equal⟩
    cases equal
  | enqueueUnique key policy job => exact sound.enqueueUnique key policy job
  | look => exact sound.look
  | complete lease outcome => exact sound.complete lease outcome
  -- With one lease less, what is said of the leases that are out holds of fewer of them.
  | drop lease =>
    refine ⟨sound.kept, sound.placed, sound.indexed, ?_, ?_, ?_⟩
    · exact fun other member => sound.leased other (List.mem_of_mem_erase member)
    · exact fun other member => sound.noted other (List.mem_of_mem_erase member)
    · exact sound.once.sublist (List.erase_sublist.map _)
  | close =>
    refine ⟨?_, ?_, ?_, ?_, ?_, ?_⟩
    · exact sound.kept.congr rfl rfl rfl
    · exact ⟨sound.placed.once, fun id => (sound.placed.stands id).congr rfl Iff.rfl
        (fun _ => Iff.rfl) (Nat.le_refl _)⟩
    · exact sound.indexed.congr rfl fun _ _ => Iff.rfl
    · exact sound.leased
    · exact sound.noted
    · exact sound.once
  | pass duration =>
    exact ⟨sound.kept, sound.placed, sound.indexed, sound.leased, sound.noted, sound.once⟩

end Sound

/-- Every desk in use is sound, whatever is done with it. -/
theorem sound_run {u : Usage} (sound : u.Sound) (calls : List Call) : (u.run calls).Sound :=
  run_induction (fun _ call sound => sound.perform call) sound calls

end Usage

end PacedChain
