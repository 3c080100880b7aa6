import PacedChain.Proofs.Desk.Turns

/-!
# Who came first

Of two tasks that are queued, one was queued sooner, and so it stands before the other in the line
(`Usage.pair_ready_of_sooner`). The same goes for two that wait, if the one that began to wait
sooner does not wait for a later time (`Usage.pair_scheduled_of_sooner`). No two tasks come to be
queued at one moment, nor begin to wait at one moment, so that one of them always came first
(`Usage.sooner_or_sooner`).
-/
namespace PacedChain.Usage

variable {u v : Usage} {i j id : TaskId} {news : List (Nat × Entry)}

/-- At the last of some moments two tasks are in a state, and the first one has been so for
longer: there was a moment at which the second one was not, and the first one was and stayed so. -/
def Sooner (state : Queue → TaskId → Bool) (moments : List Usage) (i j : TaskId) : Prop :=
  ∃ before start since, moments = before ++ start :: since ∧
    state start.desk.queue j = false ∧ ∀ v ∈ start :: since, state v.desk.queue i = true

variable {state : Queue → TaskId → Bool} {past : List Usage}

/-- What holds as long as the second task is not in the state, and is kept while the first one is,
holds at the last moment. -/
theorem keeps_of_sooner {P : Usage → Prop} (chain : (past ++ [v]).IsChain Next)
    (proper : ∀ x ∈ past ++ [v], x.Proper) (sooner : Sooner state (past ++ [v]) i j)
    (first : ∀ x, state x.desk.queue j = false → P x)
    (step : ∀ x y, x.Proper → y.Proper → x.Next y → state x.desk.queue i = true →
      state y.desk.queue i = true → P x → P y) : P v := by
  obtain ⟨before, start, since, split, late, during⟩ := sooner
  rw [split] at chain proper
  have last : v ∈ start :: since := by
    have same := congrArg List.getLast? split
    rw [List.getLast?_append, List.getLast?_append_cons] at same
    exact List.mem_of_getLast? same.symm
  have chain := List.IsChain.iff_mem.mp chain.right_of_append
  refine chain.induction P _ ?_ (fun _ => first start late) v last
  rintro x y ⟨here, there, next⟩ holds
  exact step x y (proper x (List.mem_append_right _ here))
    (proper y (List.mem_append_right _ there)) next (during x here) (during y there) holds

/-- A task that is queued was ready before only if it was queued. -/
theorem Brings.isQueued_of_mem_ready (brings : u.Brings v news) (proper : u.Proper)
    (after : v.Proper) (ready : id ∈ u.desk.queue.ready)
    (queued : v.desk.queue.isQueued id = true) : u.desk.queue.isQueued id = true := by
  rcases (proper.sound.placed.stands id).ready ready with state | gone
  · rwa [Queue.isQueued, beq_iff_eq]
  · exact absurd (brings.withdrew gone) (after.sound.not_withdrew (Or.inl queued))

/-- A task that waits was scheduled before only if it waited. -/
theorem Brings.waitsUntil_of_mem_scheduled (brings : u.Brings v news) (proper : u.Proper)
    (after : v.Proper) {time : Nat} (scheduled : ⟨time, id⟩ ∈ u.desk.queue.scheduled)
    (waits : v.desk.queue.isWaiting id = true) : u.desk.queue.WaitsUntil id time := by
  have entry : id ∈ u.desk.queue.scheduled.map (·.task) := List.mem_map.mpr ⟨_, scheduled, rfl⟩
  rcases (proper.sound.placed.stands id).scheduled entry with ⟨task, known, state⟩ | gone
  · exact proper.queue.time_of_entry scheduled (Queue.isWaiting_iff.mpr ⟨task, known, state⟩)
  · exact absurd (brings.withdrew gone) (after.sound.not_withdrew (Or.inr waits))

/-- Of two tasks that are queued, the one that was queued sooner is ready before the other one. -/
theorem pair_ready_of_sooner (chain : (past ++ [v]).IsChain Next)
    (proper : ∀ x ∈ past ++ [v], x.Proper)
    (sooner : Sooner Queue.isQueued (past ++ [v]) i j)
    (second : v.desk.queue.isQueued j = true) : [i, j].Sublist v.desk.queue.ready := by
  have pair := keeps_of_sooner (P := fun x => x.desk.queue.isQueued j = true →
    [i, j].Sublist x.desk.queue.ready) chain proper sooner ?_ ?_
  · exact pair second
  · intro x late queued
    rw [late] at queued
    cases queued
  · rintro x y before after next here there pair queued
    obtain ⟨news, brings⟩ := before.brings next
    obtain ⟨handed, shift, _⟩ := brings.shift
    have first := Queue.mem_ready_of_isQueued before.sound.placed here
    by_cases old : j ∈ x.desk.queue.ready
    · have once := (List.nodup_append.mp before.sound.placed.once).1
      exact shift.pair_ready once (pair (brings.isQueued_of_mem_ready before after old queued))
        (Queue.mem_ready_of_isQueued after.sound.placed there)
    · rw [shift.joins_ready old (Queue.mem_ready_of_isQueued after.sound.placed queued)]
      exact pair_append first (List.mem_singleton_self j)

theorem exists_waitsUntil (sound : u.Sound) (waits : u.desk.queue.isWaiting id = true) :
    ∃ time, u.desk.queue.WaitsUntil id time := by
  obtain ⟨task, known, state⟩ := Queue.isWaiting_iff.mp waits
  obtain ⟨time, until_, _⟩ := (sound.placed.stands id).waiting task known state
  exact ⟨time, task, known, state, until_⟩

/-- A task that goes on waiting waits for the same time. -/
theorem Brings.waitsUntil (brings : u.Brings v news) (after : v.Proper) {time : Nat}
    (here : u.desk.queue.isWaiting id = true) (there : v.desk.queue.WaitsUntil id time) :
    u.desk.queue.WaitsUntil id time := by
  rcases brings.stays id (Or.inr here) with ⟨e, member, hands | withdraws⟩ | ⟨_, same⟩
  · obtain ⟨task, known, runs⟩ := brings.runs id ⟨e, member, hands⟩
    obtain ⟨other, found, waits, _⟩ := there
    rw [known, Option.some.injEq] at found
    rw [← found, runs] at waits
    cases waits
  · refine absurd ⟨e, ?_, withdraws⟩ (after.sound.not_withdrew (Or.inr there.isWaiting))
    rw [brings.journal]
    exact List.mem_append_left _ member
  · exact same time there

/-- Of two tasks that wait, one that waits for no later time and has waited for longer is scheduled
before the other one. -/
theorem pair_scheduled_of_sooner (chain : (past ++ [v]).IsChain Next)
    (proper : ∀ x ∈ past ++ [v], x.Proper)
    (sooner : Sooner Queue.isWaiting (past ++ [v]) i j) {s t : Nat}
    (first : v.desk.queue.WaitsUntil i s) (second : v.desk.queue.WaitsUntil j t) (le : s ≤ t) :
    [⟨s, i⟩, ⟨t, j⟩].Sublist v.desk.queue.scheduled := by
  have pair := keeps_of_sooner (P := fun x => x.desk.queue.WaitsUntil i s →
    x.desk.queue.WaitsUntil j t → [⟨s, i⟩, ⟨t, j⟩].Sublist x.desk.queue.scheduled)
    chain proper sooner ?_ ?_
  · exact pair first second
  · intro x late _ waits
    rw [waits.isWaiting] at late
    cases late
  · rintro x y before after next here _ pair first second
    obtain ⟨news, brings⟩ := before.brings next
    obtain ⟨handed, shift, _⟩ := brings.shift
    have same := brings.waitsUntil after here first
    have entry := same.entry before.sound.placed
    by_cases old : ⟨t, j⟩ ∈ x.desk.queue.scheduled
    · have once : x.desk.queue.scheduled.Nodup := before.queue.once_scheduled.of_map _
      exact shift.pair_scheduled once
        (pair same (brings.waitsUntil_of_mem_scheduled before after old second.isWaiting))
        (first.entry after.sound.placed)
    · rw [shift.joins_scheduled old (second.entry after.sound.placed)]
      exact Queue.pair_addWakeup before.ordered entry le

/-- What was said of the moments so far holds of one moment more. -/
theorem Sooner.concat {moments : List Usage} (sooner : Sooner state moments i j)
    (still : state v.desk.queue i = true) : Sooner state (moments ++ [v]) i j := by
  obtain ⟨before, start, since, split, late, during⟩ := sooner
  refine ⟨before, start, since ++ [v], by simp [split], late, fun y member => ?_⟩
  rw [← List.cons_append, List.mem_append, List.mem_singleton] at member
  rcases member with old | rfl
  · exact during y old
  · exact still

/-- Of two tasks in a state that none can enter at once with another one, and that none is in at
first, one has been in it for longer. -/
theorem sooner_or_sooner (chain : (past ++ [v]).IsChain Next)
    (proper : ∀ x ∈ past ++ [v], x.Proper)
    (none : ∀ x ∈ (past ++ [v]).head?, ∀ id, state x.desk.queue id = false)
    (one : ∀ x y : Usage, x.Proper → y.Proper → x.Next y → state x.desk.queue i = false →
      state x.desk.queue j = false → state y.desk.queue i = true → state y.desk.queue j = true →
      i = j) (apart : i ≠ j) (first : state v.desk.queue i = true)
    (second : state v.desk.queue j = true) :
    Sooner state (past ++ [v]) i j ∨ Sooner state (past ++ [v]) j i := by
  induction past using List.reverseRecOn generalizing v with
  | nil =>
    rw [none v (by simp) i] at first
    cases first
  | append_singleton past x ih =>
    have earlier : (past ++ [x]).IsChain Next := chain.left_of_append
    have next : x.Next v := by
      simpa using (List.isChain_append.mp chain).2.2
    have before : ∀ y ∈ past ++ [x], y.Proper := fun y member =>
      proper y (List.mem_append_left _ member)
    have none : ∀ y ∈ (past ++ [x]).head?, ∀ id, state y.desk.queue id = false := by
      intro y member
      apply none y
      rw [List.head?_append, Option.mem_def.mp member]
      rfl
    have begins : ∀ {i j}, state x.desk.queue i = true → state x.desk.queue j = false →
        state v.desk.queue i = true → Sooner state (past ++ [x] ++ [v]) i j := by
      intro i j here late now
      refine ⟨past, x, [v], by simp, late, ?_⟩
      simpa using ⟨here, now⟩
    cases former : state x.desk.queue i with
    | true =>
      cases latter : state x.desk.queue j with
      | true => exact (ih earlier before none former latter).imp (·.concat first) (·.concat second)
      | false => exact Or.inl (begins former latter first)
    | false =>
      cases latter : state x.desk.queue j with
      | true => exact Or.inr (begins latter former second)
      | false =>
        exact absurd (one x v (before x (by simp)) (proper v (by simp)) next former latter first
          second) apart

theorem Proper.one_isQueued (proper : u.Proper) (next : u.Next v)
    (idle : u.desk.queue.isQueued i = false) (idle' : u.desk.queue.isQueued j = false)
    (queued : v.desk.queue.isQueued i = true) (queued' : v.desk.queue.isQueued j = true) :
    i = j := by
  have after := proper.next next
  obtain ⟨news, brings⟩ := proper.brings next
  obtain ⟨handed, shift, _⟩ := brings.shift
  -- Each of the two has joined the end of the row, where there is one task only.
  have joins : ∀ {id}, u.desk.queue.isQueued id = false → v.desk.queue.isQueued id = true →
      v.desk.queue.ready = u.desk.queue.ready ++ [id] := by
    intro id idle queued
    refine shift.joins_ready (fun ready => ?_)
      (Queue.mem_ready_of_isQueued after.sound.placed queued)
    rw [brings.isQueued_of_mem_ready proper after ready queued] at idle
    cases idle
  have same := (joins idle queued).symm.trans (joins idle' queued')
  simpa using same

theorem Proper.one_isWaiting (proper : u.Proper) (next : u.Next v)
    (idle : u.desk.queue.isWaiting i = false) (idle' : u.desk.queue.isWaiting j = false)
    (waits : v.desk.queue.isWaiting i = true) (waits' : v.desk.queue.isWaiting j = true) :
    i = j := by
  have after := proper.next next
  obtain ⟨news, brings⟩ := proper.brings next
  obtain ⟨handed, shift, _⟩ := brings.shift
  obtain ⟨s, until_⟩ := exists_waitsUntil after.sound waits
  obtain ⟨t, until'⟩ := exists_waitsUntil after.sound waits'
  have new : ∀ {id time}, u.desk.queue.isWaiting id = false →
      v.desk.queue.isWaiting id = true → ⟨time, id⟩ ∉ u.desk.queue.scheduled := by
    intro id time idle waits scheduled
    rw [(brings.waitsUntil_of_mem_scheduled proper after scheduled waits).isWaiting] at idle
    cases idle
  have added := shift.joins_scheduled (new idle waits) (until_.entry after.sound.placed)
  have member := until'.entry after.sound.placed
  rw [added, (Queue.addWakeup_perm _ _).mem_iff] at member
  have same := (List.mem_cons.mp member).resolve_right (new idle' waits')
  exact (congrArg Wakeup.task same).symm

end PacedChain.Usage
