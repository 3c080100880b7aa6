import PacedChain.Chain.Assembly
import PacedChain.Proofs.Host.Deliveries

/-!
# Syncs are spaced

Each sync that succeeds leaves behind a sync that waits for a second or longer. So, within less than
a second, no more syncs succeed than there are left in the end (`Host.Counted`), which is no more
than there are bootstraps that have succeeded; and a window of `n` seconds is covered by `n + 1`
such spans (`Host.never_zero_spacing`).
-/
namespace PacedChain

namespace Desk

/-- When tasks of a job have succeeded, the last time first. -/
def successes (job : Job) : List (Nat × Entry) → List Nat
  | [] => []
  | (t, .complete id _ (.ok .succeeded)) :: earlier =>
    if lastJob? id earlier = some job then t :: successes job earlier else successes job earlier
  | _ :: earlier => successes job earlier

/-- How many of these times lie in a window, its ends included. -/
def within (first last : Nat) (times : List Nat) : Nat :=
  times.countP fun t => decide (first ≤ t ∧ t ≤ last)

variable {job : Job} {journal : List (Nat × Entry)} {t : Nat} {times : List Nat}

theorem successes_cons (job : Job) (t : Nat) (entry : Entry) (journal : List (Nat × Entry)) :
    successes job ((t, entry) :: journal) = successes job journal ∨
      successes job ((t, entry) :: journal) = t :: successes job journal := by
  cases entry with
  | complete id outcome result =>
    rcases result with error | ⟨_ | _ | _⟩
    · exact Or.inl rfl
    · by_cases counts : lastJob? id journal = some job
      · exact Or.inr (if_pos counts)
      · exact Or.inl (if_neg counts)
    · exact Or.inl rfl
    · exact Or.inl rfl
  | enqueue | enqueueDelayed | enqueueUnique | lease | leaseEnd => exact Or.inl rfl

theorem length_successes (job : Job) (journal : List (Nat × Entry)) :
    (successes job journal).length = ended job (· == .succeeded) journal := by
  induction journal with
  | nil => rfl
  | cons first earlier ih =>
    obtain ⟨t, entry⟩ := first
    cases entry with
    | complete id outcome result =>
      rcases result with error | ⟨_ | _ | _⟩
      · exact ih
      · rw [successes, ended, ← ih, beq_self_eq_true, Bool.true_and]
        by_cases counts : lastJob? id earlier = some job
        · rw [if_pos counts, counts, beq_self_eq_true]
          rfl
        · rw [if_neg counts, beq_eq_false_iff_ne.mpr counts]
          rfl
      · exact ih
      · exact ih
    | enqueue | enqueueDelayed | enqueueUnique | lease | leaseEnd => exact ih

/-- No task has succeeded at a time without an entry. -/
theorem mem_of_mem_successes (member : t ∈ successes job journal) :
    ∃ entry, (t, entry) ∈ journal := by
  induction journal with
  | nil => cases member
  | cons first earlier ih =>
    obtain ⟨time, entry⟩ := first
    have old : t ∈ successes job earlier → ∃ found, (t, found) ∈ (time, entry) :: earlier := by
      intro before
      obtain ⟨found, listed⟩ := ih before
      exact ⟨found, List.mem_cons_of_mem _ listed⟩
    rcases successes_cons job time entry earlier with same | same <;> rw [same] at member
    · exact old member
    · rcases List.mem_cons.mp member with rfl | before
      · exact ⟨entry, List.mem_cons_self⟩
      · exact old before

theorem within_cons (first last t : Nat) (times : List Nat) :
    within first last (t :: times) =
      within first last times + if first ≤ t ∧ t ≤ last then 1 else 0 := by
  rw [within, List.countP_cons, within]
  simp only [decide_eq_true_eq]

/-- A window falls into two where it is cut. -/
theorem within_le_add (first cut last : Nat) (times : List Nat) :
    within first last times ≤ within first cut times + within (cut + 1) last times := by
  induction times with
  | nil => exact Nat.zero_le _
  | cons t times ih =>
    rw [within_cons, within_cons, within_cons]
    split <;> split <;> split <;> omega

theorem within_mono (first : Nat) {last later : Nat} (le : last ≤ later) (times : List Nat) :
    within first last times ≤ within first later times := by
  refine List.countP_mono_left fun t _ inside => ?_
  obtain ⟨above, below⟩ := of_decide_eq_true inside
  exact decide_eq_true ⟨above, Nat.le_trans below le⟩

theorem within_eq_zero {first : Nat} (last : Nat) (early : ∀ t ∈ times, t < first) :
    within first last times = 0 :=
  List.countP_eq_zero.mpr fun t member inside =>
    Nat.not_lt.mpr (of_decide_eq_true inside).1 (early t member)

theorem within_eq_length {last : Nat} (all : ∀ t ∈ times, t ≤ last) :
    within 0 last times = times.length :=
  List.countP_eq_length.mpr fun t member => decide_eq_true ⟨Nat.zero_le _, all t member⟩

/-- What holds of every span shorter than a second is multiplied over a window of seconds. -/
theorem within_ofSecs_le {syncs bootstraps : List Nat} (ends : Nat → Prop)
    (earlier : ∀ last later, last ≤ later → ends later → ends last)
    (span : ∀ first last, first ≤ last → last < first + Clock.second → ends last →
      within first last syncs ≤ within 0 last bootstraps)
    (first n : Nat) (known : ends (first + Clock.ofSecs n)) :
    within first (first + Clock.ofSecs n) syncs ≤
      within 0 (first + Clock.ofSecs n) bootstraps * (n + 1) := by
  have second : 0 < Clock.second := by decide
  induction n with
  | zero =>
    have base := span first first (Nat.le_refl _) (Nat.lt_add_of_pos_right second) known
    rw [Clock.ofSecs, Nat.mul_zero, Nat.add_zero, Nat.zero_add, Nat.mul_one]
    exact base
  | succ n ih =>
    -- The last span begins right after the window that is a second shorter.
    have longer : first + Clock.ofSecs (n + 1) = first + Clock.ofSecs n + Clock.second := by
      rw [Clock.ofSecs, Nat.mul_succ, ← Nat.add_assoc, Clock.ofSecs]
    have le : first + Clock.ofSecs n ≤ first + Clock.ofSecs (n + 1) := by omega
    have before := ih (earlier _ _ le known)
    have last := span (first + Clock.ofSecs n + 1) (first + Clock.ofSecs (n + 1)) (by omega)
      (by omega) known
    have cut := within_le_add first (first + Clock.ofSecs n) (first + Clock.ofSecs (n + 1)) syncs
    have more := Nat.mul_le_mul_right (n + 1) (within_mono 0 le bootstraps)
    rw [Nat.mul_succ]
    omega

end Desk

theorem Delay.add_second_le_deadline {delay : Delay} (positive : 1 ≤ delay.secs) (now : Nat) :
    now + Clock.second ≤ Clock.deadline now delay.duration := by
  simp only [Clock.deadline, duration, Clock.longest, Clock.ofSecs, Clock.second]
  omega

namespace Desk

variable {d d' : Desk} {id : TaskId} {task : Task} {ran : Job}

/-- A sync that is put on the queue for a second or longer is one more that rests. -/
theorem resting_of_placed {delay : Delay} {time : Nat}
    (placed : TaskQueue.enqueueDelayed d .sync delay = (.ok id, d')) (positive : 1 ≤ delay.secs)
    (late : time ≤ d.now + Clock.second) :
    d'.queue.resting time = d.queue.resting time + 1 := by
  have spaced : delay.isZero = false := beq_eq_false_iff_ne.mpr (Nat.one_le_iff_ne_zero.mp positive)
  have further := Nat.le_trans late (Delay.add_second_le_deadline positive d.now)
  exact Queue.resting_enqueueDelayed (queue_of_enqueueDelayed placed) spaced further

/-- A success counts for the job that its task was last leased for. -/
theorem successes_of_success (known : d.queue.task? id = some task)
    (noted : lastJob? id d.journal = some ran) {result : Except CompleteError Completion}
    (done : d.complete id .success = (result, d')) (job : Job) :
    successes job d'.journal =
      if ran = job then d.now :: successes job d.journal else successes job d.journal := by
  rw [complete, Queue.complete_success known] at done
  cases done
  rw [enter, successes, noted]
  simp only [Option.some.injEq]

theorem successes_of_retry (known : d.queue.task? id = some task)
    {result : Except CompleteError Completion} (done : d.complete id .retry = (result, d'))
    (job : Job) : successes job d'.journal = successes job d.journal := by
  rcases Queue.complete_cases known d.now .retry with
    ⟨success, _⟩ | ⟨_, same⟩ | ⟨_, _, same⟩ | ⟨_, _, same⟩
  · cases success
  all_goals
    rw [complete, same] at done
    cases done
    rfl

/-- From one desk to the next, the syncs that have succeeded in a span or are about to, one of them
before and one after, grow by no more than those that rest. -/
def Spaced (first last time : Nat) (d : Desk) (before : Bool) (d' : Desk) (after : Bool) : Prop :=
  within first last (successes .sync d'.journal) + after.toNat + d.queue.resting time ≤
    within first last (successes .sync d.journal) + before.toNat + d'.queue.resting time

section

variable {first last time : Nat} (rests : d.queue.resting time ≤ d'.queue.resting time)

include rests

theorem spaced_of_same {before after : Bool}
    (same : successes .sync d'.journal = successes .sync d.journal)
    (less : after.toNat ≤ before.toNat) : d.Spaced first last time before d' after := by
  rw [Spaced, same]
  exact Nat.add_le_add (Nat.add_le_add_left less _) rests

/-- The successor of a sync rests, for which that sync may succeed. -/
theorem spaced_enqueueDelayed {delay : Delay}
    (placed : TaskQueue.enqueueDelayed d .sync delay = (.ok id, d'))
    (positive : ran = .sync → 1 ≤ delay.secs) (late : time ≤ d.now + Clock.second) :
    d.Spaced first last time false d' (ran == .sync) := by
  have same : successes .sync d'.journal = successes .sync d.journal := by
    rw [show d' = (TaskQueue.enqueueDelayed d .sync delay).2 from (congrArg Prod.snd placed).symm]
    rfl
  cases ran with
  | bootstrap => exact spaced_of_same rests same (Nat.zero_le _)
  | sync =>
    rw [Spaced, same, resting_of_placed placed (positive rfl) late]
    exact Nat.le_of_eq (Nat.add_right_comm _ _ _)

theorem spaced_complete (known : d.queue.task? id = some task)
    (noted : lastJob? id d.journal = some ran) {outcome : Outcome}
    {result : Except CompleteError Completion} (done : d.complete id outcome = (result, d')) :
    d.Spaced first last time (outcome == .success && ran == .sync) d' false := by
  cases outcome with
  | retry => exact spaced_of_same rests (successes_of_retry known done .sync) (Nat.le_refl _)
  | success =>
    have ends := successes_of_success known noted done .sync
    cases ran with
    | bootstrap => exact spaced_of_same rests ends (Nat.le_refl _)
    | sync =>
      rw [if_pos rfl] at ends
      rw [Spaced, ends, within_cons]
      change _ + _ + 0 + _ ≤ _ + 1 + _
      split <;> omega

end

end Desk

/-- A worker has put the successor of a sync on the queue, and has that sync still to end. -/
def Station.owesSync (s : Station) : Bool := s.placed?.any (·.1.envelope.job == .sync)

namespace Host

open Desk (successes within)

variable {h h' : Host} {m : Move} {first last time : Nat}

/-- A step of a worker keeps syncs spaced, with what the worker owes before and after. -/
theorem Act.spaced {group : Nat} {s s' : Station} {out : List Lease} (act : Act h group s s' h')
    (onTime : h.OnTime) (sound : Usage.Sound ⟨h.desk, s.lease?.toList ++ out⟩)
    (early : h.desk.now < time) (late : time ≤ h.desk.now + Clock.second) (first last : Nat) :
    h.desk.Spaced first last time s.owesSync h'.desk s'.owesSync := by
  have rests : h.desk.queue.resting time ≤ h'.desk.queue.resting time := by
    obtain ⟨calls, gentle, done⟩ := act.calls out
    have more := @Usage.Sound.resting_run _ time sound calls gentle
    rw [done] at more
    exact more (act.now.symm ▸ early)
  cases act with
  | stop | goOn | recheck | leave | start | ask | fail | note | tell | rest =>
    exact Desk.spaced_of_same rests rfl (Nat.le_refl _)
  | idle seen | shut seen | lease seen =>
    exact Desk.spaced_of_same rests ((congrArg _ (journal_of_look seen)).trans rfl) (Nat.le_refl _)
  | refuse _ placed =>
    exact Desk.spaced_of_same rests ((congrArg _ (journal_of_enqueueDelayed placed)).trans rfl)
      (Nat.le_refl _)
  | place _ placed =>
    refine Desk.spaced_enqueueDelayed rests placed (fun job => ?_) late
    rw [job]
    exact one_le_successorDelay onTime.positive _
  | @complete lease result _ _ done =>
    obtain ⟨task, known, _⟩ := sound.leased lease List.mem_cons_self
    have completed := @Desk.spaced_complete _ _ _ _ _ first last time rests known
      (sound.noted lease List.mem_cons_self) _ _ done
    cases result <;> exact completed
  | drop done | lose done =>
    exact Desk.spaced_of_same rests ((congrArg _ (journal_of_complete done)).trans rfl)
      (Nat.zero_le _)

/-- With a move, the syncs that have succeeded or are about to grow by no more than those that
rest. -/
theorem spaced_move (onTime : h.OnTime) (m : Move) (early : h.desk.now < time)
    (late : time ≤ h.desk.now + Clock.second) (first last : Nat) :
    within first last (successes .sync (h.move m).desk.journal) +
        (h.move m).tally Station.owesSync + h.desk.queue.resting time ≤
      within first last (successes .sync h.desk.journal) + h.tally Station.owesSync +
        (h.move m).desk.queue.resting time := by
  have sound := onTime.inBalance.sound
  rcases h.meet_cases (.move m) with ⟨index, preference, same⟩ |
    ⟨call, status, outside, gentle, _, same⟩ | ⟨n, group, desk, _, staff⟩
  · cases same
    rcases found : h.workers[index]? with _ | w
    · rw [move, stepWorker_of_none found]
    · obtain ⟨before, after, station, h', split, act, same⟩ := stepWorker_eq found preference
      have own := sound.perm ((leases_perm before after w).symm.trans
        (List.Perm.of_eq (congrArg (List.filterMap (·.station.lease?)) split.symm)))
      have spaced := act.spaced onTime own early late first last
      unfold Desk.Spaced at spaced
      -- The other workers owe what they owed before.
      have old := tally_of_split split Station.owesSync
      have new : (h.stepWorker index preference).tally Station.owesSync =
          station.owesSync.toNat + (before ++ after).countP fun w => w.station.owesSync := by
        rw [same]
        exact tally_of_split (w := { w with station }) rfl Station.owesSync
      have desk : (h.stepWorker index preference).desk = h'.desk := by rw [same]
      rw [move, new, desk, old]
      omega
  · have rests := sound.resting_perform (gentle m rfl) early
    have quiet : successes .sync (h.usage.perform call).desk.journal =
        successes .sync h.desk.journal := by
      cases call with
      | enqueue | enqueueDelayed | enqueueUnique | close | pass => rfl
      | look | complete | drop => cases outside
    rw [show h.move m = _ from same]
    change within first last (successes .sync (h.usage.perform call).desk.journal) +
      h.tally Station.owesSync + _ ≤ _
    rw [quiet]
    exact Nat.add_le_add_left rests _
  · have owes : (h.move m).tally Station.owesSync = h.tally Station.owesSync :=
      tally_of_staff staff _ rfl
    rw [show (h.move m).desk = _ from desk, owes]

/-! ### Spans of less than a second -/

/-- How the syncs that succeed in a span are accounted for: while it lasts, for each of them there
is one that rests until it is over, and then for each of them a bootstrap has succeeded. -/
inductive Counted (first last : Nat) (h : Host) : Prop
  | ahead : h.desk.now < first → Counted first last h
  | during : first ≤ h.desk.now → h.desk.now ≤ last →
    within first last (successes .sync h.desk.journal) + h.tally Station.owesSync ≤
      h.desk.queue.resting (first + Clock.second) → Counted first last h
  | past : last < h.desk.now →
    within first last (successes .sync h.desk.journal) ≤
      within 0 last (successes .bootstrap h.desk.journal) → Counted first last h

theorem OnTime.le_now (onTime : h.OnTime) {job : Job} :
    ∀ t ∈ successes job h.desk.journal, t ≤ h.desk.now := by
  intro t member
  obtain ⟨entry, listed⟩ := Desk.mem_of_mem_successes member
  exact onTime.timely _ listed

theorem tally_owesSync_of_rest (rest : h.leases = []) : h.tally Station.owesSync = 0 := by
  rw [tally, List.countP_eq_zero]
  intro w listed owes
  obtain ⟨⟨lease, successor⟩, placed, _⟩ := (Option.any_eq_true _ _).mp owes
  have out : lease ∈ h.leases :=
    List.mem_filterMap.mpr ⟨w, listed, Station.lease?_of_placed? placed⟩
  rw [rest] at out
  cases out

/-- Whenever nothing is being executed, all syncs that rest are those of bootstraps that have
succeeded. -/
theorem OnTime.resting_le (onTime : h.OnTime) (rest : h.leases = []) (late : h.desk.now ≤ last)
    (time : Nat) :
    h.desk.queue.resting time ≤ within 0 last (successes .bootstrap h.desk.journal) := by
  have even := onTime.inBalance.even
  have rests := h.desk.queue.resting_le_unfinished time
  rw [owing_eq_zero rest, Desk.succeeded, ← Desk.length_successes] at even
  rw [Desk.within_eq_length fun t member => Nat.le_trans (onTime.le_now t member) late]
  omega

theorem Counted.bound (onTime : h.OnTime) (counted : h.Counted first last)
    (ends : h.leases = [] ∨ last < h.desk.now) :
    within first last (successes .sync h.desk.journal) ≤
      within 0 last (successes .bootstrap h.desk.journal) := by
  cases counted with
  | ahead early =>
    rw [Desk.within_eq_zero last fun t member => Nat.lt_of_le_of_lt (onTime.le_now t member) early]
    exact Nat.zero_le _
  | during _ late counts =>
    have rest := ends.resolve_right (Nat.not_lt.mpr late)
    have most := onTime.resting_le rest late (first + Clock.second)
    omega
  | past _ bound => exact bound

/-- What succeeds once a span is over does not count in it. -/
theorem within_successes_move (h : Host) (m : Move) (late : last < h.desk.now) (first : Nat)
    (job : Job) : within first last (successes job (h.move m).desk.journal) =
      within first last (successes job h.desk.journal) := by
  rcases journal_move_cases h m with same | ⟨entry, same, _⟩ <;> rw [same]
  rcases Desk.successes_cons job h.desk.now entry h.desk.journal with same | same <;> rw [same]
  rw [Desk.within_cons, if_neg fun inside => Nat.not_lt.mpr inside.2 late, Nat.add_zero]

/-- While nothing is being executed, the time may come at which a span begins or is over. -/
theorem counted_pass (onTime : h.OnTime) (rest : h.leases = []) (counted : h.Counted first last)
    (duration : Nat) : (h.move (.pass duration)).Counted first last := by
  have bound := counted.bound onTime (Or.inl rest)
  have none := tally_owesSync_of_rest rest
  by_cases early : h.desk.now + duration < first
  · exact .ahead early
  by_cases late : last < h.desk.now + duration
  · exact .past late bound
  refine .during (Nat.not_lt.mp early) (Nat.not_lt.mp late) ?_
  change within first last (successes .sync h.desk.journal) + h.tally Station.owesSync ≤
    h.desk.queue.resting (first + Clock.second)
  cases counted with
  | ahead before =>
    rw [none, Desk.within_eq_zero last fun t member =>
      Nat.lt_of_le_of_lt (onTime.le_now t member) before]
    exact Nat.zero_le _
  | during _ _ counts => exact counts
  | past gone => exact absurd (Nat.lt_of_lt_of_le gone (Nat.le_add_right _ _)) late

theorem counted_move (onTime : h.OnTime) (short : last < first + Clock.second)
    (counted : h.Counted first last) (m : Move)
    (instant : ∀ duration, m = .pass duration → h.leases = []) :
    (h.move m).Counted first last := by
  by_cases passes : ∃ duration, m = .pass duration
  · obtain ⟨duration, rfl⟩ := passes
    exact counted_pass onTime (instant duration rfl) counted duration
  · have now := now_move h fun duration same => passes ⟨duration, same⟩
    cases counted with
    | ahead early => exact .ahead (now ▸ early)
    | during begun late counts =>
      have spaced := spaced_move onTime m (Nat.lt_of_le_of_lt late short)
        (Nat.add_le_add_right begun Clock.second) first last
      refine .during (now ▸ begun) (now ▸ late) ?_
      omega
    | past late bound =>
      refine .past (now ▸ late) ?_
      rw [within_successes_move h m late, within_successes_move h m late]
      exact bound

theorem counted_fresh (chain : Chain) (backoff : Backoff) (historyLimit first last : Nat) :
    (fresh chain backoff historyLimit).Counted first last := by
  rcases Nat.eq_zero_or_pos first with rfl | ahead
  · exact .during (Nat.le_refl _) (Nat.zero_le _) (Nat.zero_le _)
  · exact .ahead ahead

/-! ### Every run -/

/-- How a host spaces the syncs of its chain in a run. -/
structure SpacesSyncs (start : Host) (ms : List Move) : Prop where
  /-- A sync that succeeds has put a successor on the queue, with a delay of a second or more, and
  no attempt at it starts before that delay is over. -/
  successor : ∀ t id later earlier, (start.moves ms).desk.journal =
      later ++ (t, .complete id .success (.ok .succeeded)) :: earlier →
    Desk.lastJob? id earlier = some .sync →
    ∃ before m after successor, ms = before ++ m :: after ∧
      (start.moves before).desk.journal = earlier ∧
      (start.moves before).Delivers m id successor ∧
      (t, .enqueueDelayed .sync successor.delay (.ok successor.task)) ∈ earlier ∧
      1 ≤ successor.delay.secs ∧
      ∀ t' lease, (t', .lease lease) ∈ (start.moves ms).desk.journal →
        lease.envelope.task = successor.task →
        t + min successor.delay.duration Clock.longest ≤ t'
  /-- In a window of so many seconds that is over, or while nothing is being executed, no more syncs
  succeed for each bootstrap that has succeeded by its end than one at its start and one for each
  second. -/
  rate : ∀ first n, ((start.moves ms).leases = [] ∨
      first + Clock.ofSecs n < (start.moves ms).desk.now) →
    within first (first + Clock.ofSecs n) (successes .sync (start.moves ms).desk.journal) ≤
      within 0 (first + Clock.ofSecs n) (successes .bootstrap (start.moves ms).desk.journal) *
        (n + 1)

theorem spacesSyncs {chain : Chain} (positive : chain.policy.fallback.isZero = false)
    (backoff : Backoff) (historyLimit : Nat) {ms : List Move}
    (instant : (fresh chain backoff historyLimit).isInstant ms = true) :
    (fresh chain backoff historyLimit).SpacesSyncs ms := by
  have begin := onTime_fresh positive backoff historyLimit
  refine ⟨fun t id later earlier split ran => ?_, fun first n known => ?_⟩
  · obtain ⟨before, m, after, successor, rfl, rfl, rfl, delivers⟩ := exists_delivery rfl split
    rw [isInstant_append, Bool.and_eq_true] at instant
    have onTime := onTime_moves begin instant.1
    obtain ⟨lease, noted, delivered⟩ := onTime.delivered_of_delivers delivers
    have job := Option.some.inj (noted.symm.trans ran)
    -- The successor is held back from here to the end of the run.
    have came := callsTo_moves ((fresh chain backoff historyLimit).moves before) (m :: after)
    rw [← moves_append] at came
    have holdsBack := came.holdsBack onTime.inBalance.sound delivered.holdsBack
    refine ⟨before, m, after, successor, rfl, rfl, delivers, delivered.entry,
      delivered.positive job, fun t' attempt listed own => ?_⟩
    exact holdsBack.attempts _ (List.mem_filter.mpr ⟨listed, decide_eq_true own⟩)
  · refine Desk.within_ofSecs_le (fun last => (moves _ ms).leases = [] ∨
      last < (moves _ ms).desk.now) ?_ ?_ first n known
    · exact fun last later le => Or.imp_right (Nat.lt_of_le_of_lt le)
    · intro first last _ short ends
      have counted := (moves_induction_of_instant
        (P := fun h => h.OnTime ∧ h.Counted first last)
        (fun _ m instant ⟨onTime, counted⟩ => ⟨onTime_move onTime m instant,
          counted_move onTime short counted m instant⟩)
        ⟨begin, counted_fresh chain backoff historyLimit first last⟩ instant).2
      exact counted.bound (onTime_moves begin instant) ends

/-- The fallback delay of a chain that has been put together is positive. -/
theorem positive_of_build {a : Assembly Queue} {chain : Chain} {queue : Queue}
    (built : a.build = .ok (chain, queue)) : chain.policy.fallback.isZero = false := by
  unfold Assembly.build at built
  split at built
  · split at built
    · cases built
    · next positive =>
      cases built
      exact Bool.eq_false_iff.mpr positive
  · cases built

/-- A chain that can be put together never runs its syncs without spacing: with any answers of its
boundaries, any workers in any order, any triggers and a close at any time, and with any waits
before retries, as long as executions take no time. -/
theorem never_zero_spacing {a : Assembly Queue} {chain : Chain} {backoff : Backoff}
    {historyLimit : Nat} (built : a.build = .ok (chain, Queue.empty backoff historyLimit))
    {ms : List Move} (instant : (fresh chain backoff historyLimit).isInstant ms = true) :
    (fresh chain backoff historyLimit).SpacesSyncs ms :=
  spacesSyncs (positive_of_build built) backoff historyLimit instant

/-- An engine that recommends a negative delay has its syncs run a second apart, as the fallback
says: two of them in a window of one second. -/
theorem never_zero_spacing_of_negative_answer :
    let chain : Chain := {
      policy := { fallback := ⟨1⟩ }
      oracle := Boundary.script [] (.recommends 0)
      engine := Boundary.script [] (.recommends (-3)) }
    let queue := Queue.empty Backoff.standard 0
    let a : Assembly Queue := {
      queue, oracle := chain.oracle, engine := chain.engine, policy := chain.policy }
    let ms := [.spawn 1, .trigger .bootCompleted] ++ List.replicate 16 (.step 0 .lease) ++
      [.pass Clock.second] ++ List.replicate 8 (.step 0 .lease)
    let start := fresh chain Backoff.standard 0
    a.build = .ok (chain, queue) ∧ start.isInstant ms = true ∧ (start.moves ms).leases = [] ∧
      within 0 Clock.second (successes .sync (start.moves ms).desk.journal) = 2 ∧
      within 0 Clock.second (successes .bootstrap (start.moves ms).desk.journal) = 1 ∧
      start.SpacesSyncs ms := by
  intro chain queue a ms start
  have built : a.build = .ok (chain, queue) := rfl
  have instant : start.isInstant ms = true := by decide +kernel
  exact ⟨built, instant, by decide +kernel, by decide +kernel, by decide +kernel,
    never_zero_spacing built instant⟩

end Host

end PacedChain
