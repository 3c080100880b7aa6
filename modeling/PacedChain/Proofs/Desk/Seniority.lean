import PacedChain.Proofs.Desk.Census
import PacedChain.Proofs.Desk.Sooner

/-!
# First come, first served

Tasks are handed out in the order in which they were queued, and those that wait in the order in
which they fall due, equal times in the order in which they began to wait (`Usage.served_in_turn`).
So a task whose enqueue was accepted before that of another one is handed out first if it is not to
run later: until it is served, it stands before the other one in the line (`Usage.Seniority`).
-/
namespace PacedChain

/-- Of two enqueues, the first one is of a task that is not to run later: it may run at once, or the
other one is delayed too, and not for less long. -/
def LogEntry.NotLater (first second : LogEntry) : Prop :=
  first.delay.isZero = true ∨ second.delay.isZero = false ∧ first.notBefore ≤ second.notBefore

namespace Queue

/-- An accepted enqueue has put its task in the line. -/
structure Gains (q q' : Queue) (entry : LogEntry) : Prop where
  task : entry.task = ⟨q.created + 1⟩
  atOnce : entry.delay.isZero = true →
    q'.isQueued entry.task = true ∧ q'.ready = q.ready ++ [entry.task]
  later : entry.delay.isZero = false → q'.WaitsUntil entry.task entry.notBefore ∧
    q'.scheduled = addWakeup ⟨entry.notBefore, entry.task⟩ q.scheduled

variable {q q' : Queue} {id : TaskId} {entry : LogEntry}

theorem Goes.not_running {task : Task} (goes : q.Goes id) (known : q.task? id = some task) :
    task.state ≠ .running := by
  intro runs
  obtain ⟨other, found, going⟩ := goes_iff.mp goes
  rw [known, Option.some.injEq] at found
  rw [← found, runs] at going
  simp [TaskState.isWaiting] at going

/-- A new task is in the line, and waits for its time if it waits. -/
theorem Gains.expected (gains : q.Gains q' entry) : q'.Goes entry.task ∧
    ∀ time, q'.WaitsUntil entry.task time →
      entry.delay.isZero = false ∧ time = entry.notBefore := by
  cases zero : entry.delay.isZero with
  | true =>
    have queued := (gains.atOnce zero).1
    refine ⟨Or.inl queued, ?_⟩
    rintro time ⟨task, known, waits, _⟩
    obtain ⟨other, found, state⟩ := isQueued_iff.mp queued
    rw [known, Option.some.injEq] at found
    rw [found, state] at waits
    cases waits
  | false =>
    have until_ := (gains.later zero).1
    refine ⟨Or.inr until_.isWaiting, ?_⟩
    rintro time ⟨task, known, _, same⟩
    obtain ⟨other, found, _, other_same⟩ := until_
    rw [known, Option.some.injEq] at found
    rw [found, other_same, Option.some.injEq] at same
    exact ⟨rfl, same.symm⟩

theorem gains_insert (kept : q.Kept) (now : Nat) (job : Job) (delay : Delay) (key : Option Key) :
    q.Gains (q.insert now job delay key).2 (.of now job delay ⟨q.created + 1⟩) := by
  have known := task?_insert kept now job delay key ⟨q.created + 1⟩
  rw [if_pos rfl] at known
  obtain ⟨log, same⟩ := insert_eq q now job delay key
  refine ⟨rfl, fun (zero : delay.isZero = true) => ⟨?_, ?_⟩,
    fun (later : delay.isZero = false) => ⟨?_, ?_⟩⟩
  · exact isQueued_iff.mpr ⟨_, known, by simp [Task.fresh, zero, Task.create]⟩
  · rw [same]
    exact if_pos zero
  · exact ⟨_, known, by simp [Task.fresh, later, Task.holdBack, TaskState.isWaiting],
      by simp [Task.fresh, later, Task.holdBack, LogEntry.of]⟩
  · rw [same]
    exact if_neg (by simp [later])

/-- Cancelling a task before changes neither the numbers nor the rows. -/
theorem Gains.of_finish {f : Task → Task}
    (gains : (q.finish id f).Gains q' entry) : q.Gains q' entry := by
  obtain ⟨task, atOnce, later⟩ := gains
  rw [created_finish] at task
  rw [ready_finish] at atOnce
  rw [scheduled_finish] at later
  exact ⟨task, atOnce, later⟩

end Queue

namespace Usage

variable {u v : Usage} {i j id : TaskId} {news : List (Nat × Entry)}

/-! ### Who was accepted first -/

/-- At most one more enqueue was accepted, and its task is in the line. -/
def Accepts (u v : Usage) : Prop :=
  v.desk.accepted = u.desk.accepted ∨ ∃ entry, v.desk.accepted = u.desk.accepted ++ [entry] ∧
    u.desk.queue.Gains v.desk.queue entry

theorem accepts_enter_of_none {q : Queue} {call : Entry} {out : List Lease}
    (creates : call.accepted? u.desk.now = none) : u.Accepts ⟨u.desk.enter q call, out⟩ := by
  left
  rw [Desk.accepted_enter, creates]
  exact List.append_nil _

theorem accepts_enter {q : Queue} {call : Entry} {new : LogEntry} {out : List Lease}
    (creates : call.accepted? u.desk.now = some new) (gains : u.desk.queue.Gains q new) :
    u.Accepts ⟨u.desk.enter q call, out⟩ := by
  refine Or.inr ⟨new, ?_, gains⟩
  rw [Desk.accepted_enter, creates]
  rfl

theorem Sound.accepts_enqueueDelayed (sound : u.Sound)
    (call : Except QueueError TaskId → Entry) (job : Job) (delay : Delay)
    (accepts : ∀ task, (call (.ok task)).accepted? u.desk.now =
      some (.of u.desk.now job delay task))
    (refuses : ∀ error, (call (.error error)).accepted? u.desk.now = none) :
    u.Accepts ⟨u.desk.enter (u.desk.queue.enqueueDelayed u.desk.now job delay).2
      (call (u.desk.queue.enqueueDelayed u.desk.now job delay).1), u.out⟩ := by
  rcases Queue.enqueueDelayed_cases u.desk.queue u.desk.now job delay with
    ⟨_, same⟩ | ⟨_, same⟩ <;> rw [same]
  · exact accepts_enter_of_none (refuses _)
  · exact accepts_enter (accepts _) (Queue.gains_insert sound.kept u.desk.now job delay none)

theorem Sound.accepts_enqueueUnique (sound : u.Sound) (key : Key) (policy : HolderPolicy)
    (job : Job) : u.Accepts (u.perform (.enqueueUnique key policy job)) := by
  change u.Accepts ⟨u.desk.enter (u.desk.queue.enqueueUnique u.desk.now key policy job).2
    (.enqueueUnique key policy job (u.desk.queue.enqueueUnique u.desk.now key policy job).1), u.out⟩
  rcases Queue.enqueueUnique_cases u.desk.queue u.desk.now key policy job with
    ⟨_, same⟩ | ⟨_, _, same⟩ | ⟨_, _, _, _, _, same⟩ | ⟨_, previous, _, held, _, _, same⟩ <;>
    rw [same]
  · exact accepts_enter_of_none rfl
  · exact accepts_enter rfl
      (Queue.gains_insert sound.kept u.desk.now job Delay.zero (some key))
  · exact accepts_enter_of_none rfl
  · obtain ⟨_, task, known, _, live⟩ := Queue.of_liveHolder held
    have kept := sound.kept.finish (f := (·.cancel u.desk.now)) known live rfl
    have gains := (Queue.gains_insert kept u.desk.now job Delay.zero (some key)).of_finish
    rw [Queue.created_finish] at gains
    exact accepts_enter rfl gains

theorem Proper.accepts (proper : u.Proper) (next : u.Next v) : u.Accepts v := by
  have sound := proper.sound
  cases next with
  | due => exact Or.inl rfl
  | look =>
    rcases seen : u.desk.queue.look u.desk.now with ⟨_ | lease | wake, q⟩
    · rw [perform_look_closed seen]
      exact accepts_enter_of_none rfl
    · rw [perform_look_leased seen]
      exact accepts_enter_of_none rfl
    · rw [perform_look_idle seen]
      exact Or.inl rfl
  | @call call other =>
    cases call with
    | enqueue job =>
      exact sound.accepts_enqueueDelayed (.enqueue job) job Delay.zero (fun _ => rfl) fun _ => rfl
    | enqueueDelayed job delay =>
      exact sound.accepts_enqueueDelayed (.enqueueDelayed job delay) job delay (fun _ => rfl)
        fun _ => rfl
    | enqueueUnique key policy job => exact sound.accepts_enqueueUnique key policy job
    | look => exact absurd rfl other
    | complete lease outcome =>
      rw [Usage.perform]
      split
      · exact accepts_enter_of_none rfl
      · exact Or.inl rfl
    | drop | close | pass => exact Or.inl rfl

/-- The enqueues that were accepted are served in order, as far as they are not to run later. -/
structure Seniority (u : Usage) : Prop where
  /-- A task that was not served yet is in the line, and waits for its time if it waits. -/
  expected : ∀ entry ∈ u.desk.accepted, Served entry.task u.desk.journal ∨
    u.desk.queue.Goes entry.task ∧ ∀ time, u.desk.queue.WaitsUntil entry.task time →
      entry.delay.isZero = false ∧ time = entry.notBefore
  leads : ∀ first second, [first, second].Sublist u.desk.accepted → first.NotLater second →
    u.Leads first.task second.task u.desk.journal
  unborn : ∀ id, u.desk.queue.created < id.number → ∀ e ∈ u.desk.journal, ¬e.2.Hands id

theorem created_next (next : u.Next v) : u.desk.queue.created ≤ v.desk.queue.created := by
  cases next with
  | call => exact created_perform u _
  | look => exact created_perform u .look
  | @due w rest =>
    change _ ≤ (u.desk.queue.ripen u.desk.now w rest).created
    rw [Queue.ripen, Queue.wake_with_scheduled]
    rcases Queue.wake_cases u.desk.now u.desk.queue w with ⟨_, _, _, same⟩ | ⟨_, same⟩ <;> rw [same]
    exact Nat.le_refl _

/-- A task in the line that does not wait is queued. -/
theorem Sound.isQueued_of_not_waits (sound : u.Sound) (goes : u.desk.queue.Goes id)
    (never : ∀ time, ¬u.desk.queue.WaitsUntil id time) : u.desk.queue.isQueued id = true := by
  rcases goes with queued | waits
  · exact queued
  · obtain ⟨time, until_⟩ := exists_waitsUntil sound waits
    exact absurd until_ (never time)

/-- A new task comes to stand behind one that is not to run later. -/
theorem pair_named_of_gains {first second : LogEntry} (proper : u.Proper) (after : v.Proper)
    (gains : u.desk.queue.Gains v.desk.queue second) (order : first.NotLater second)
    (apart : first.task ≠ second.task) (goes : v.desk.queue.Goes first.task)
    (waits : ∀ time, v.desk.queue.WaitsUntil first.task time →
      u.desk.queue.WaitsUntil first.task time ∧ first.delay.isZero = false ∧
        time = first.notBefore) :
    [first.task, second.task].Sublist v.desk.queue.named := by
  unfold Queue.named
  cases zero : second.delay.isZero with
  -- Where the second one may run at once, so may the first one, and it is ready already.
  | true =>
    obtain ⟨_, ready⟩ := gains.atOnce zero
    have atOnce : first.delay.isZero = true := order.resolve_right (by simp [zero])
    have queued := after.sound.isQueued_of_not_waits goes fun time until_ => by
      have later := (waits time until_).2.1
      rw [atOnce] at later
      cases later
    have member := Queue.mem_ready_of_isQueued after.sound.placed queued
    rw [ready, List.mem_append, List.mem_singleton] at member
    rw [ready]
    exact (pair_append (member.resolve_right apart) (List.mem_singleton_self _)).trans
      (List.sublist_append_left _ _)
  -- Otherwise the second one is scheduled, and the first one is ready or scheduled before it.
  | false =>
    obtain ⟨until', scheduled⟩ := gains.later zero
    rcases goes with queued | waiting
    · exact pair_append (Queue.mem_ready_of_isQueued after.sound.placed queued)
        (List.mem_map.mpr ⟨_, until'.entry after.sound.placed, rfl⟩)
    · obtain ⟨time, until_⟩ := exists_waitsUntil after.sound waiting
      obtain ⟨before, later, rfl⟩ := waits time until_
      have le := (order.resolve_left (by simp [later])).2
      have pair := Queue.pair_addWakeup (w := ⟨second.notBefore, second.task⟩) proper.ordered
        (before.entry proper.sound.placed) le
      rw [← scheduled] at pair
      exact (pair.map (·.task)).trans (List.sublist_append_right _ _)

theorem pair_sublist_concat {α : Type} {a b c : α} {l : List α}
    (pair : [a, b].Sublist (l ++ [c])) : [a, b].Sublist l ∨ a ∈ l ∧ b = c := by
  obtain ⟨front, back, split, old, new⟩ := List.sublist_append_iff.mp pair
  rcases back with _ | ⟨d, back⟩
  · rw [List.append_nil] at split
    exact Or.inl (split ▸ old)
  -- The last of the two is the last of all, and the other one is before it.
  · obtain ⟨rfl, rfl⟩ : d = c ∧ back = [] := by
      have all := new.length_le
      have member := new.subset List.mem_cons_self
      simp only [List.length_cons, List.length_nil, List.mem_singleton] at all member
      exact ⟨member, List.eq_nil_of_length_eq_zero (by omega)⟩
    change [a] ++ [b] = front ++ [d] at split
    obtain ⟨rfl, same⟩ := List.append_inj' split rfl
    exact Or.inr ⟨old.subset List.mem_cons_self, List.head_eq_of_cons_eq same⟩

theorem seniority_start (backoff : Backoff) (limit : Nat) : (start backoff limit).Seniority where
  expected := by
    intro entry member
    cases member
  leads := by
    intro first second pair
    cases pair
  unborn := by
    intro id _ e member
    cases member

/-- An enqueue that was accepted before is still expected, or was served. -/
theorem Seniority.expected_next (seniority : u.Seniority) (brings : u.Brings v news)
    {entry : LogEntry} (member : entry ∈ u.desk.accepted) :
    Served entry.task v.desk.journal ∨ u.desk.queue.Goes entry.task ∧
      v.desk.queue.Goes entry.task ∧ ∀ time, v.desk.queue.WaitsUntil entry.task time →
        u.desk.queue.WaitsUntil entry.task time ∧ entry.delay.isZero = false ∧
          time = entry.notBefore := by
  rw [brings.journal]
  rcases seniority.expected entry member with served | ⟨goes, waits⟩
  · exact Or.inl (served.append news)
  · rcases brings.stays entry.task goes with ⟨e, listed, turn⟩ | ⟨still, same⟩
    · exact Or.inl ⟨e, List.mem_append_left _ listed, turn⟩
    · refine Or.inr ⟨goes, still, fun time until_ => ?_⟩
      exact ⟨same time until_, waits time (same time until_)⟩

/-- A new task comes after all that are not to run later. Nothing was handed out of it, so that
whatever was served precedes it. -/
theorem Seniority.leads_new {first second : LogEntry} (seniority : u.Seniority) (proper : u.Proper)
    (after : v.Proper) (brings : u.Brings v news)
    (gains : u.desk.queue.Gains v.desk.queue second) (member : first ∈ u.desk.accepted)
    (order : first.NotLater second) : v.Leads first.task second.task v.desk.journal := by
  have none : ∀ e ∈ v.desk.journal, ¬e.2.Hands second.task := by
    intro e listed hands
    rw [brings.journal] at listed
    rcases List.mem_append.mp listed with late | early
    · obtain ⟨task, known, runs⟩ := brings.runs second.task ⟨e, late, hands⟩
      exact gains.expected.1.not_running known runs
    · refine seniority.unborn second.task ?_ e early hands
      rw [gains.task]
      exact Nat.lt_succ_self _
  have precedes := (precedes_nil first.task second.task).append (Or.inr none)
  rw [List.append_nil] at precedes
  refine ⟨precedes, ?_⟩
  rcases seniority.expected_next brings member with served | ⟨before, goes, waits⟩
  · exact Or.inl served
  · have apart : first.task ≠ second.task := by
      rw [gains.task]
      exact proper.sound.ne_next before
    exact Or.inr (Or.inr ⟨goes, pair_named_of_gains proper after gains order apart goes waits⟩)

theorem Seniority.next (seniority : u.Seniority) (proper : u.Proper) (next : u.Next v) :
    v.Seniority := by
  have after := proper.next next
  have grows := created_next next
  obtain ⟨news, brings⟩ := proper.brings next
  have unborn : ∀ id, v.desk.queue.created < id.number →
      ∀ e ∈ v.desk.journal, ¬e.2.Hands id := by
    intro id new e member hands
    rw [brings.journal] at member
    rcases List.mem_append.mp member with late | early
    · obtain ⟨task, known, _⟩ := brings.runs id ⟨e, late, hands⟩
      have := after.sound.kept.numbered id task known
      omega
    · exact seniority.unborn id (by omega) e early hands
  have leads : ∀ first second, [first, second].Sublist u.desk.accepted → first.NotLater second →
      v.Leads first.task second.task v.desk.journal := by
    intro first second pair order
    rw [brings.journal]
    exact brings.leads proper after (seniority.leads first second pair order)
  rcases proper.accepts next with same | ⟨new, same, gains⟩
  · refine ⟨fun entry member => ?_, fun first second pair => ?_, unborn⟩
    · rw [same] at member
      refine (seniority.expected_next brings member).imp_right ?_
      exact fun ⟨_, goes, waits⟩ => ⟨goes, fun time until_ => (waits time until_).2⟩
    · rw [same] at pair
      exact leads first second pair
  · refine ⟨fun entry member => ?_, fun first second pair order => ?_, unborn⟩
    · rw [same, List.mem_append, List.mem_singleton] at member
      rcases member with old | rfl
      · refine (seniority.expected_next brings old).imp_right ?_
        exact fun ⟨_, goes, waits⟩ => ⟨goes, fun time until_ => (waits time until_).2⟩
      · exact Or.inr gains.expected
    · rw [same] at pair
      rcases pair_sublist_concat pair with old | ⟨member, rfl⟩
      · exact leads first second old order
      · exact seniority.leads_new proper after brings gains member order

/-! ### In turn -/

/-- At one moment of a run, with those before and those after it: of two tasks that are queued, the
one that was queued first is served first, and of two that wait, the one that waits for the earlier
time, or for the same time and has begun to wait first. -/
structure InTurn (past : List Usage) (now : Usage) (future : List Usage) : Prop where
  queued : ∀ i j, now.desk.queue.isQueued i = true → now.desk.queue.isQueued j = true →
    Sooner Queue.isQueued (past ++ [now]) i j → ∀ later ∈ future, now.ServesFirst later i j
  waiting : ∀ i j s t, now.desk.queue.WaitsUntil i s → now.desk.queue.WaitsUntil j t →
    s < t ∨ s = t ∧ Sooner Queue.isWaiting (past ++ [now]) i j →
      ∀ later ∈ future, now.ServesFirst later i j
  /-- No two tasks come to be queued at the same moment, so that one of them was queued first, -/
  ranked : ∀ i j, i ≠ j → now.desk.queue.isQueued i = true → now.desk.queue.isQueued j = true →
    Sooner Queue.isQueued (past ++ [now]) i j ∨ Sooner Queue.isQueued (past ++ [now]) j i
  /-- and no two begin to wait at the same moment. -/
  ranked' : ∀ i j, i ≠ j → now.desk.queue.isWaiting i = true → now.desk.queue.isWaiting j = true →
    Sooner Queue.isWaiting (past ++ [now]) i j ∨ Sooner Queue.isWaiting (past ++ [now]) j i

/-- All tasks of a run are served in turn. -/
structure ServesInTurn (u : Usage) (calls : List Call) : Prop where
  inTurn : ∀ past now future, u.timeline calls = past ++ now :: future → InTurn past now future
  /-- Tasks are handed out in the order in which their enqueues were accepted, as far as the later
  one is not to run earlier. -/
  accepted : ∀ first second, [first, second].Sublist (u.run calls).desk.accepted →
    first.NotLater second → Precedes first.task second.task (u.run calls).desk.journal

theorem before_of_waits {past : List Usage} (chain : (past ++ [v]).IsChain Next)
    (proper : ∀ x ∈ past ++ [v], x.Proper) {s t : Nat} (first : v.desk.queue.WaitsUntil i s)
    (second : v.desk.queue.WaitsUntil j t)
    (order : s < t ∨ s = t ∧ Sooner Queue.isWaiting (past ++ [v]) i j) :
    v.desk.queue.Before i j := by
  have here := proper v (by simp)
  have placed := here.sound.placed
  have pair : [⟨s, i⟩, ⟨t, j⟩].Sublist v.desk.queue.scheduled := by
    rcases order with lt | ⟨rfl, sooner⟩
    · exact Queue.pair_of_lt here.ordered (first.entry placed) (second.entry placed) lt
    · exact pair_scheduled_of_sooner chain proper sooner first second (Nat.le_refl _)
  exact ⟨Or.inr first.isWaiting,
    (pair.map Wakeup.task).trans (List.sublist_append_right v.desk.queue.ready _)⟩

/-- In a row of moments that begins without tasks, all are served in turn. -/
theorem inTurn_of_chain {past future : List Usage} {backoff : Backoff} {limit : Nat}
    (chain : (past ++ [v]).IsChain Next) (onward : (v :: future).IsChain Next)
    (proper : ∀ x ∈ past ++ [v], x.Proper)
    (first : (past ++ [v]).head? = some (start backoff limit)) : InTurn past v future := by
  have here : v.Proper := proper v (by simp)
  have none : ∀ state : Queue → TaskId → Bool,
      (∀ id, state (Queue.empty backoff limit) id = false) →
      ∀ x ∈ (past ++ [v]).head?, ∀ id, state x.desk.queue id = false := by
    intro state idle x member id
    rw [first, Option.mem_some_iff] at member
    rw [← member]
    exact idle id
  constructor
  case queued =>
    intro i j queued queued' sooner
    have pair := pair_ready_of_sooner chain proper sooner queued'
    exact servesFirst_of_before onward here
      ⟨Or.inl queued, pair.trans (List.sublist_append_left _ _)⟩
  case waiting =>
    intro i j s t waits waits' order
    exact servesFirst_of_before onward here (before_of_waits chain proper waits waits' order)
  case ranked =>
    intro i j apart queued queued'
    exact sooner_or_sooner chain proper (none _ fun _ => rfl)
      (fun x y before _ next => before.one_isQueued next) apart queued queued'
  case ranked' =>
    intro i j apart waits waits'
    exact sooner_or_sooner chain proper (none _ fun _ => rfl)
      (fun x y before _ next => before.one_isWaiting next) apart waits waits'

/-- Whatever is done with a queue, and however many tasks fall due between two looks, tasks are
served in turn. -/
theorem served_in_turn (backoff : Backoff) (limit : Nat) (calls : List Call) :
    (start backoff limit).ServesInTurn calls := by
  have begins := Proper.start backoff limit
  constructor
  case inTurn =>
    intro past now future split
    have whole := isChain_timeline (start backoff limit) calls
    have all := proper_timeline begins calls
    obtain ⟨rest, first⟩ := timeline_eq (start backoff limit) calls
    rw [split] at whole all
    obtain ⟨chain, onward⟩ := List.isChain_split.mp whole
    have proper : ∀ x ∈ past ++ [now], x.Proper := by
      intro x member
      apply all x
      rcases List.mem_append.mp member with old | last
      · exact List.mem_append_left _ old
      · rw [List.mem_singleton.mp last]
        simp
    have heads : (past ++ [now]).head? = some (start backoff limit) := by
      have same := congrArg List.head? (split.symm.trans first)
      cases past <;> simpa using same
    exact inTurn_of_chain chain onward proper heads
  case accepted =>
    intro first second pair order
    have reached := timeline_induction (P := fun x => x.Proper ∧ x.Seniority)
      (fun x y next now => ⟨now.1.next next, now.2.next now.1 next⟩)
      ⟨begins, seniority_start backoff limit⟩ calls ((start backoff limit).run calls)
      (List.mem_of_getLast? (getLast_timeline _ calls))
    exact (reached.2.leads first second pair order).precedes

/-- Three tasks fall due between two looks, behind one that was queued at once. -/
example :
    let calls : List Call := [.enqueueDelayed .sync ⟨2⟩, .enqueueDelayed .sync ⟨1⟩,
      .enqueueDelayed .sync ⟨1⟩, .pass (Clock.ofSecs 5), .enqueue .sync, .look, .look, .look, .look]
    ((start Backoff.standard 0).run calls).out.reverse.map (·.envelope.task) =
      [⟨4⟩, ⟨2⟩, ⟨3⟩, ⟨1⟩] := by
  decide +kernel

end Usage

end PacedChain
