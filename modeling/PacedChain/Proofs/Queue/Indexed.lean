import PacedChain.Proofs.Queue.Calls

/-!
# Keys and their holders

The index of holders names, under each key, the one unfinished task that carries the key, and
nothing where there is none (`Queue.Indexed`). A key is given up when its task ends, kept while the
task waits to be tried again, and handed on when the task is replaced.
-/
namespace PacedChain.Queue

/-- A task is unfinished and was enqueued under a key. -/
def Carries (q : Queue) (key : Key) (id : TaskId) : Prop :=
  ∃ task, q.task? id = some task ∧ task.key = some key ∧ task.state.isTerminal = false

/-- The task that the index names under a key. -/
def holder? (q : Queue) (key : Key) : Option TaskId := (q.holders.find? (·.1 = key)).map (·.2)

/-- The index names the carrier of each key, and nothing else. -/
structure Indexed (q : Queue) : Prop where
  once : (q.holders.map Prod.fst).Nodup
  carried : ∀ key id, (key, id) ∈ q.holders ↔ q.Carries key id

variable {q q' : Queue} {id i : TaskId} {task : Task} {f : Task → Task} {key k : Key} {now : Nat}

theorem Carries.congr (same : q'.task? id = q.task? id) : q'.Carries key id ↔ q.Carries key id := by
  rw [Carries, Carries, same]

theorem carries_modify (known : q.task? id = some task) (key_eq : (f task).key = task.key)
    (goes : (f task).state.isTerminal = task.state.isTerminal) (k : Key) (i : TaskId) :
    (q.modify id f).Carries k i ↔ q.Carries k i := by
  by_cases here : i = id
  · subst here
    simp only [Carries, task?_modify_self known, known, Option.some.injEq, exists_eq_left', key_eq,
      goes]
  · exact Carries.congr (task?_modify_of_ne here)

theorem carries_insert (kept : q.Kept) (now : Nat) (job : Job) (delay : Delay) (key : Option Key)
    (k : Key) (i : TaskId) :
    (q.insert now job delay key).2.Carries k i ↔
      q.Carries k i ∨ (key = some k ∧ i = ⟨q.created + 1⟩) := by
  have view := task?_insert kept now job delay key i
  by_cases new : i = ⟨q.created + 1⟩
  -- The new number belonged to no task before.
  · rw [if_pos new] at view
    have free : ¬q.Carries k i := by
      rintro ⟨task, known, _⟩
      rw [new, kept.task?_next] at known
      cases known
    simp only [Carries, view, Option.some.injEq, exists_eq_left', Task.key_fresh,
      Task.isTerminal_fresh, and_true]
    constructor
    · exact fun carried => Or.inr ⟨carried, new⟩
    · rintro (old | ⟨carried, _⟩)
      · exact absurd old free
      · exact carried
  · rw [if_neg new] at view
    rw [Carries.congr view]
    exact ⟨Or.inl, fun either => either.resolve_right fun h => new h.2⟩

/-- A task that ends carries nothing any more, and every other one what it carried. -/
theorem carries_finish (kept : q.Kept) (known : q.task? id = some task)
    (ends : (f task).state.isTerminal = true) (k : Key) (i : TaskId) :
    (q.finish id f).Carries k i ↔ q.Carries k i ∧ i ≠ id := by
  have view := task?_finish known ends i
  constructor
  -- What carries a key afterwards has not ended, so it is another task.
  · rintro ⟨other, found, carried, live⟩
    rw [view] at found
    split at found
    · cases found
    · split at found
      · rw [Option.some.injEq] at found
        subst found
        rw [ends] at live
        cases live
      · next other_ne => exact ⟨⟨other, found, carried, live⟩, other_ne⟩
  · rintro ⟨⟨other, found, carried, live⟩, ne⟩
    exact ⟨other, kept.task?_finish_of_live known ends found live ne, carried, live⟩

theorem indexed_empty (backoff : Backoff) (limit : Nat) : (empty backoff limit).Indexed where
  once := List.nodup_nil
  carried := by
    intro key id
    constructor
    · intro member
      cases member
    · rintro ⟨task, known, _⟩
      cases known

/-- In an index without repetitions, what is found under a key is what it names there. -/
theorem find?_holders (once : (q.holders.map Prod.fst).Nodup) :
    q.holders.find? (·.1 = key) = some (key, id) ↔ (key, id) ∈ q.holders := by
  constructor
  · exact List.mem_of_find?_eq_some
  · intro member
    generalize q.holders = holders at once member
    -- Along the index: an entry under the same key before this one would be a repetition.
    induction holders with
    | nil => cases member
    | cons entry rest ih =>
      rw [List.map_cons, List.nodup_cons] at once
      rcases List.mem_cons.mp member with rfl | later
      · exact List.find?_cons_of_pos (by simp)
      · have other : entry.1 ≠ key := by
          rintro rfl
          exact once.1 (List.mem_map.mpr ⟨_, later, rfl⟩)
        rw [List.find?_cons_of_neg (by simpa using other)]
        exact ih once.2 later

namespace Indexed

theorem congr (indexed : q.Indexed) (holders : q'.holders = q.holders)
    (carries : ∀ k i, q'.Carries k i ↔ q.Carries k i) : q'.Indexed where
  once := by
    rw [holders]
    exact indexed.once
  carried := by
    intro k i
    rw [holders, carries]
    exact indexed.carried k i

theorem eq_of_carries (indexed : q.Indexed) {a b : TaskId} (first : q.Carries key a)
    (second : q.Carries key b) : a = b := by
  have one := (find?_holders indexed.once).mpr ((indexed.carried key a).mpr first)
  have two := (find?_holders indexed.once).mpr ((indexed.carried key b).mpr second)
  rw [one, Option.some.injEq, Prod.mk.injEq] at two
  exact two.2

theorem holder?_eq_some_iff (indexed : q.Indexed) : q.holder? key = some id ↔ q.Carries key id := by
  rw [← indexed.carried, ← find?_holders indexed.once, holder?, Option.map_eq_some_iff]
  constructor
  · rintro ⟨⟨other, _⟩, found, rfl⟩
    have same : other = key := by simpa using List.find?_some found
    rw [found, same]
  · intro found
    exact ⟨_, found, rfl⟩

theorem liveHolder_eq_some_iff (indexed : q.Indexed) {state : TaskState} :
    q.liveHolder key = some (id, state) ↔ q.Carries key id ∧ q.taskState id = some state := by
  constructor
  · intro held
    obtain ⟨found, task, known, rfl, _⟩ := of_liveHolder held
    refine ⟨(indexed.carried key id).mp (List.mem_of_find?_eq_some found), ?_⟩
    rw [taskState, known, Option.map_some]
  · rintro ⟨carried, state_eq⟩
    have found := (find?_holders indexed.once).mpr ((indexed.carried key id).mpr carried)
    obtain ⟨task, known, _, live⟩ := carried
    rw [taskState, known, Option.map_some, Option.some.injEq] at state_eq
    unfold liveHolder
    rw [found]
    change (q.task? id).bind _ = _
    rw [known, Option.bind_some, if_neg (Bool.eq_false_iff.mp live), state_eq]

theorem liveHolder_eq_none_iff (indexed : q.Indexed) :
    q.liveHolder key = none ↔ ∀ id, ¬q.Carries key id := by
  constructor
  · intro none id carried
    have ⟨task, known, _⟩ := carried
    have state : q.taskState id = some task.state := by rw [taskState, known, Option.map_some]
    have held := indexed.liveHolder_eq_some_iff.mpr ⟨carried, state⟩
    rw [none] at held
    cases held
  · intro free
    cases held : q.liveHolder key with
    | none => rfl
    | some found =>
      obtain ⟨id, state⟩ := found
      exact absurd ((indexed.liveHolder_eq_some_iff).mp held).1 (free id)

/-! ### Calls that create a task -/

theorem insert (indexed : q.Indexed) (kept : q.Kept) (now : Nat) (job : Job) (delay : Delay) :
    (q.insert now job delay none).2.Indexed := by
  obtain ⟨log, same⟩ := insert_eq q now job delay none
  refine indexed.congr ?_ ?_
  · rw [same]
    rfl
  · intro k i
    rw [carries_insert kept]
    exact ⟨fun either => either.resolve_right fun h => (Option.some_ne_none _ h.1.symm), Or.inl⟩

/-- A new task takes a key over. Nothing else may carry the key, but the index may still name what
carried it. -/
theorem insert_key (once : (q.holders.map Prod.fst).Nodup)
    (carried : ∀ k i, k ≠ key → ((k, i) ∈ q.holders ↔ q.Carries k i))
    (free : ∀ i, ¬q.Carries key i) (kept : q.Kept) (now : Nat) (job : Job) (delay : Delay) :
    (q.insert now job delay (some key)).2.Indexed := by
  obtain ⟨log, same⟩ := insert_eq q now job delay (some key)
  have holders : (q.insert now job delay (some key)).2.holders =
      (key, ⟨q.created + 1⟩) :: q.holders.filter (·.1 ≠ key) := by
    rw [same]
    rfl
  refine ⟨?_, ?_⟩
  -- What the index named under the key before is dropped.
  · rw [holders, List.map_cons, List.nodup_cons]
    refine ⟨?_, once.sublist (List.filter_sublist.map _)⟩
    intro member
    obtain ⟨entry, kept, equal⟩ := List.mem_map.mp member
    simp only [List.mem_filter, decide_eq_true_eq] at kept
    exact kept.2 equal
  · intro k i
    rw [holders, carries_insert kept, List.mem_cons, List.mem_filter, Prod.mk.injEq,
      decide_eq_true_eq]
    by_cases mine : k = key
    -- Under this key there is the new task only, and under every other one nothing has changed.
    · subst mine
      constructor
      · rintro (⟨_, new⟩ | ⟨_, other⟩)
        · exact Or.inr ⟨rfl, new⟩
        · exact absurd rfl other
      · rintro (old | ⟨_, new⟩)
        · exact absurd old (free i)
        · exact Or.inl ⟨rfl, new⟩
    · rw [← carried k i mine]
      constructor
      · rintro (⟨same, _⟩ | ⟨member, _⟩)
        · exact absurd same mine
        · exact Or.inl member
      · rintro (member | ⟨same, _⟩)
        · exact Or.inr ⟨member, mine⟩
        · exact absurd (Option.some.inj same).symm mine

theorem enqueueDelayed (indexed : q.Indexed) (kept : q.Kept) (now : Nat) (job : Job)
    (delay : Delay) : (q.enqueueDelayed now job delay).2.Indexed := by
  rcases enqueueDelayed_cases q now job delay with ⟨_, same⟩ | ⟨_, same⟩
  · rw [same]
    exact indexed
  · rw [same]
    exact indexed.insert kept now job delay

theorem enqueueUnique (indexed : q.Indexed) (kept : q.Kept) (now : Nat) (key : Key)
    (policy : HolderPolicy) (job : Job) : (q.enqueueUnique now key policy job).2.Indexed := by
  rcases enqueueUnique_cases q now key policy job with
    ⟨_, same⟩ | ⟨_, none, same⟩ | ⟨_, _, _, _, _, same⟩ | ⟨_, previous, state, held, _, _, same⟩
  · rw [same]
    exact indexed
  · rw [same]
    exact insert_key indexed.once (fun k i _ => indexed.carried k i)
      (indexed.liveHolder_eq_none_iff.mp none) kept now job Delay.zero
  · rw [same]
    exact indexed
  · obtain ⟨_, task, known, _, live⟩ := of_liveHolder held
    have holds := (indexed.liveHolder_eq_some_iff.mp held).1
    have carries := carries_finish (f := (·.cancel now)) kept known rfl
    have holders := holders_finish q previous (·.cancel now)
    rw [same]
    refine insert_key ?_ ?_ ?_ (kept.finish known live rfl) now job Delay.zero
    · rw [holders]
      exact indexed.once
    · intro k i other
      rw [holders, carries, indexed.carried]
      refine ⟨fun carried => ⟨carried, ?_⟩, And.left⟩
      -- The replaced task carries its own key only.
      rintro rfl
      obtain ⟨_, known₁, key₁, _⟩ := carried
      obtain ⟨_, known₂, key₂, _⟩ := holds
      rw [known₁, Option.some.injEq] at known₂
      subst known₂
      rw [key₁, Option.some.injEq] at key₂
      exact other key₂
    -- Nothing else carried the key.
    · intro i
      rw [carries]
      rintro ⟨carried, other⟩
      exact other (indexed.eq_of_carries carried holds)

/-! ### Calls that move a task on -/

theorem wake {w : Wakeup} {rest : List Wakeup} (indexed : q.Indexed) :
    (Queue.wake now { q with scheduled := rest } w).Indexed := by
  rw [wake_with_scheduled]
  rcases wake_cases now q w with ⟨task, known, waiting, same⟩ | ⟨_, same⟩
  · have changed := carries_modify (f := (·.requeue now)) known rfl
      (TaskState.isTerminal_of_isWaiting waiting).symm
    refine indexed.congr ?_ ?_
    · rw [same]
      rfl
    · intro k i
      rw [same]
      exact changed k i
  · rw [same]
    exact indexed.congr rfl fun _ _ => Iff.rfl

theorem promoteDue (indexed : q.Indexed) (now : Nat) : (q.promoteDue now).Indexed :=
  promoteDue_induction (P := Indexed) (fun _ _ _ _ indexed => indexed.wake) indexed

theorem look (indexed : q.Indexed) (now : Nat) : (q.look now).2.Indexed := by
  have woken := indexed.promoteDue now
  rcases look_cases q now with ⟨_, same⟩ | ⟨_, id, task, _, _, _, known, state, _, same⟩ |
    ⟨_, _, same⟩
  · rw [same]
    exact indexed
  · have changed := carries_modify (f := (·.start now)) known rfl (by rw [state]; rfl)
    rw [same]
    exact woken.congr rfl changed
  · rw [same]
    exact woken.congr rfl fun _ _ => Iff.rfl

theorem settle (indexed : q.Indexed) (kept : q.Kept) (known : q.task? id = some task)
    (ends : (f task).state.isTerminal = true) : (q.settle id task f).Indexed where
  once := indexed.once.sublist (List.filter_sublist.map _)
  carried := by
    intro k i
    have carries := carries_finish (f := f) kept known ends k i
    change _ ↔ (q.finish id f).Carries k i
    rw [carries, Queue.settle, List.mem_filter, indexed.carried, Bool.not_eq_true',
      decide_eq_false_iff_not]
    constructor
    -- What is left in the index is not the task that ends, since that one is under its own key.
    · rintro ⟨carried, other⟩
      refine ⟨carried, ?_⟩
      rintro rfl
      obtain ⟨_, found, key_eq, _⟩ := carried
      rw [known, Option.some.injEq] at found
      subst found
      exact other ⟨key_eq, rfl⟩
    · rintro ⟨carried, other⟩
      exact ⟨carried, fun h => other h.2⟩

theorem complete (indexed : q.Indexed) (kept : q.Kept) (known : q.task? id = some task)
    (live : task.state.isTerminal = false) (now : Nat) (outcome : Outcome) :
    (q.complete now id outcome).2.Indexed := by
  rcases complete_cases known now outcome with
    ⟨_, same⟩ | ⟨_, same⟩ | ⟨_, delay, same⟩ | ⟨_, error, same⟩
  · rw [same]
    exact indexed.settle kept known rfl
  · rw [same]
    exact indexed.settle kept known rfl
  · have changed := carries_modify (f := (·.scheduleRetry (Clock.deadline now delay) now)) known rfl
      live.symm
    rw [same]
    exact indexed.congr rfl changed
  · rw [same]
    exact indexed

end Indexed

end PacedChain.Queue
