import PacedChain.Proofs.Desk.Placement

/-!
# One task to a key

Whatever is done with a desk, each key is carried by at most one unfinished task, and the index
names that task. So the answer to an enqueue under a key says which task carries it
(`Usage.one_task_to_a_key`): a new one if the key was free, the old one if it is kept, and otherwise
a new one in place of the old one, which is cancelled for good.
-/
namespace PacedChain

namespace Queue

variable {q : Queue} {id holder new : TaskId} {task : Task} {f : Task → Task} {key : Key}
  {policy : HolderPolicy}

/-- The task that has just finished is forgotten at once only if no history is kept. -/
theorem mem_evicted_self_iff (absent : id ∉ q.finished) :
    id ∈ q.evicted id ↔ q.historyLimit = 0 := by
  rw [evicted, List.length_append, List.length_singleton]
  constructor
  -- With a history, only what stood in the list before is forgotten, and that is not this task.
  · intro member
    by_contra some
    have early : q.finished.length + 1 - q.historyLimit ≤ q.finished.length := by omega
    rw [List.take_append_of_le_length early] at member
    exact absent (List.mem_of_mem_take member)
  · intro none
    rw [none, List.take_of_length_le (by simp)]
    exact List.mem_append_right _ List.mem_cons_self

theorem taskState_finish_self (kept : q.Kept) (known : q.task? id = some task)
    (live : task.state.isTerminal = false) (ends : (f task).state.isTerminal = true) :
    (q.finish id f).taskState id = if q.historyLimit = 0 then none else some (f task).state := by
  have forgotten := mem_evicted_self_iff (kept.not_mem_finished known live)
  rw [taskState, task?_finish known ends, if_pos rfl]
  simp only [forgotten]
  split <;> rfl

namespace Indexed

/-- The three answers of an open queue, by who carries the key. -/
theorem enqueueUnique_cases (indexed : q.Indexed) (isOpen : q.closed = false) (now : Nat)
    (key : Key) (policy : HolderPolicy) (job : Job) :
    ((∀ id, ¬q.Carries key id) ∧ q.enqueueUnique now key policy job =
      (.ok (.enqueued ⟨q.created + 1⟩), (q.insert now job Delay.zero (some key)).2)) ∨
    (∃ holder, q.Carries key holder ∧
      (policy = .keepExisting ∨ q.taskState holder = some .running) ∧
      q.enqueueUnique now key policy job = (.ok (.keptExisting holder), q)) ∨
    (∃ previous, q.Carries key previous ∧ policy = .replace ∧
      q.taskState previous ≠ some .running ∧ q.enqueueUnique now key policy job =
        (.ok (.replaced previous ⟨q.created + 1⟩),
          ((q.finish previous (·.cancel now)).insert now job Delay.zero (some key)).2)) := by
  rcases Queue.enqueueUnique_cases q now key policy job with
    ⟨shut, _⟩ | ⟨_, none, same⟩ | ⟨_, holder, state, held, keeps, same⟩ |
    ⟨_, previous, state, held, replaces, idle, same⟩
  · rw [isOpen] at shut
    cases shut
  · exact Or.inl ⟨indexed.liveHolder_eq_none_iff.mp none, same⟩
  · obtain ⟨carries, found⟩ := indexed.liveHolder_eq_some_iff.mp held
    refine Or.inr (Or.inl ⟨holder, carries, ?_, same⟩)
    rw [found, Option.some.injEq]
    exact keeps
  · obtain ⟨carries, found⟩ := indexed.liveHolder_eq_some_iff.mp held
    refine Or.inr (Or.inr ⟨previous, carries, replaces, ?_, same⟩)
    rw [found, ne_eq, Option.some.injEq]
    exact idle

variable {now : Nat} {job : Job}

theorem enqueueUnique_enqueued_iff (indexed : q.Indexed) (isOpen : q.closed = false) :
    (∃ new, (q.enqueueUnique now key policy job).1 = .ok (.enqueued new)) ↔
      ∀ id, ¬q.Carries key id := by
  rcases indexed.enqueueUnique_cases isOpen now key policy job with
    ⟨free, same⟩ | ⟨holder, carries, _, same⟩ | ⟨previous, carries, _, _, same⟩
  · rw [same]
    exact ⟨fun _ => free, fun _ => ⟨_, rfl⟩⟩
  · rw [same]
    refine ⟨?_, fun free => absurd carries (free holder)⟩
    rintro ⟨new, equal⟩
    cases equal
  · rw [same]
    refine ⟨?_, fun free => absurd carries (free previous)⟩
    rintro ⟨new, equal⟩
    cases equal

theorem enqueueUnique_keptExisting_iff (indexed : q.Indexed) (isOpen : q.closed = false) :
    (q.enqueueUnique now key policy job).1 = .ok (.keptExisting id) ↔
      q.Carries key id ∧ (policy = .keepExisting ∨ q.taskState id = some .running) := by
  rcases indexed.enqueueUnique_cases isOpen now key policy job with
    ⟨free, same⟩ | ⟨holder, carries, keeps, same⟩ | ⟨previous, carries, replaces, idle, same⟩
  · rw [same]
    constructor
    · intro equal
      cases equal
    · rintro ⟨carried, _⟩
      exact absurd carried (free id)
  · rw [same]
    constructor
    · intro equal
      cases equal
      exact ⟨carries, keeps⟩
    · rintro ⟨carried, _⟩
      rw [indexed.eq_of_carries carried carries]
  · rw [same]
    constructor
    · intro equal
      cases equal
    · rintro ⟨carried, keeps | runs⟩
      · rw [replaces] at keeps
        cases keeps
      · rw [indexed.eq_of_carries carried carries] at runs
        exact absurd runs idle

theorem enqueueUnique_replaced_iff (indexed : q.Indexed) (isOpen : q.closed = false) :
    (∃ new, (q.enqueueUnique now key policy job).1 = .ok (.replaced id new)) ↔
      policy = .replace ∧ q.Carries key id ∧ q.taskState id ≠ some .running := by
  rcases indexed.enqueueUnique_cases isOpen now key policy job with
    ⟨free, same⟩ | ⟨holder, carries, keeps, same⟩ | ⟨previous, carries, replaces, idle, same⟩
  · rw [same]
    constructor
    · rintro ⟨new, equal⟩
      cases equal
    · rintro ⟨_, carried, _⟩
      exact absurd carried (free id)
  · rw [same]
    constructor
    · rintro ⟨new, equal⟩
      cases equal
    · rintro ⟨replaces, carried, idle⟩
      rw [indexed.eq_of_carries carried carries] at idle
      rcases keeps with keeps | runs
      · rw [replaces] at keeps
        cases keeps
      · exact absurd runs idle
  · rw [same]
    constructor
    · rintro ⟨new, equal⟩
      cases equal
      exact ⟨replaces, carries, idle⟩
    · rintro ⟨_, carried, _⟩
      rw [indexed.eq_of_carries carried carries]
      exact ⟨_, rfl⟩

theorem carries_enqueueUnique (indexed : q.Indexed) (kept : q.Kept) (isOpen : q.closed = false)
    {placement : Placement} (answer : (q.enqueueUnique now key policy job).1 = .ok placement) :
    (q.enqueueUnique now key policy job).2.Carries key placement.holder := by
  rcases indexed.enqueueUnique_cases isOpen now key policy job with
    ⟨free, same⟩ | ⟨holder, carries, _, same⟩ | ⟨previous, carries, _, _, same⟩
  · rw [same] at answer ⊢
    cases answer
    exact (carries_insert kept now job Delay.zero (some key) key _).mpr (Or.inr ⟨rfl, rfl⟩)
  · rw [same] at answer ⊢
    cases answer
    exact carries
  · rw [same] at answer ⊢
    cases answer
    obtain ⟨task, known, _, live⟩ := carries
    have finished := kept.finish (f := (·.cancel now)) known live rfl
    refine (carries_insert finished now job Delay.zero (some key) key _).mpr (Or.inr ⟨rfl, ?_⟩)
    rw [created_finish]
    rfl

/-- What is replaced is cancelled, and forgotten at once where no history is kept. -/
theorem enqueueUnique_replaced (indexed : q.Indexed) (kept : q.Kept) (isOpen : q.closed = false)
    (answer : (q.enqueueUnique now key policy job).1 = .ok (.replaced id new)) :
    (q.enqueueUnique now key policy job).2.taskState id =
        (if q.historyLimit = 0 then none else some .cancelled) ∧
      (q.enqueueUnique now key policy job).2.totals.cancelled = q.totals.cancelled + 1 := by
  rcases indexed.enqueueUnique_cases isOpen now key policy job with
    ⟨_, same⟩ | ⟨_, _, _, same⟩ | ⟨previous, carries, _, _, same⟩
  · rw [same] at answer
    cases answer
  · rw [same] at answer
    cases answer
  · rw [same] at answer ⊢
    cases answer
    obtain ⟨task, known, _, live⟩ := carries
    have finished := kept.finish (f := (·.cancel now)) known live rfl
    have state := taskState_finish_self (f := (·.cancel now)) kept known live rfl
    -- The new task has another number than the one that it replaces.
    have old : id ≠ ⟨(q.finish id (·.cancel now)).created + 1⟩ := by
      rw [created_finish]
      rintro rfl
      rw [kept.task?_next] at known
      cases known
    refine ⟨?_, ?_⟩
    · rw [taskState, task?_insert finished, if_neg old]
      exact state
    · obtain ⟨log, inserted⟩ := insert_eq (q.finish id (·.cancel now)) now job Delay.zero (some key)
      obtain ⟨totals, booked, done⟩ := finish_eq (f := (·.cancel now)) known rfl
      rw [inserted]
      change (q.finish id (·.cancel now)).totals.cancelled = _
      rw [done]
      cases booked
      rfl

end Indexed

end Queue

namespace Usage

/-! ### Answers under a key -/

/-- The answer of an open desk to an enqueue under a key, and what it leaves behind. -/
structure Answers (u : Usage) (key : Key) (policy : HolderPolicy) (job : Job)
    (answer : Except QueueError Placement) (after : Usage) : Prop where
  /-- The enqueue is not refused. -/
  placed : ∃ placement, answer = .ok placement
  enqueued : (∃ new, answer = .ok (.enqueued new)) ↔ ∀ id, ¬u.desk.queue.Carries key id
  keptExisting : ∀ holder, answer = .ok (.keptExisting holder) ↔
    u.desk.queue.Carries key holder ∧
      (policy = .keepExisting ∨ u.desk.queue.taskState holder = some .running)
  unchanged : ∀ holder, answer = .ok (.keptExisting holder) → after.desk.queue = u.desk.queue
  replaced : ∀ previous, (∃ new, answer = .ok (.replaced previous new)) ↔
    policy = .replace ∧ u.desk.queue.Carries key previous ∧
      u.desk.queue.taskState previous ≠ some .running
  /-- A replaced task is cancelled, and none of the looks that follow hands it out. -/
  cancelled : ∀ previous new, answer = .ok (.replaced previous new) →
    after.desk.queue.taskState previous =
        (if u.desk.queue.historyLimit = 0 then none else some .cancelled) ∧
      after.desk.queue.totals.cancelled = u.desk.queue.totals.cancelled + 1 ∧
      ∀ more lease, (after.run more).desk.look.1 = .leased lease → lease.envelope.task ≠ previous
  carries : ∀ placement, answer = .ok placement →
    ∀ id, after.desk.queue.Carries key id ↔ id = placement.holder

theorem Sound.answers {u : Usage} (sound : u.Sound) (isOpen : u.desk.queue.closed = false)
    (key : Key) (policy : HolderPolicy) (job : Job) :
    u.Answers key policy job (TaskQueue.enqueueUnique u.desk key policy job).1
      (u.perform (.enqueueUnique key policy job)) := by
  have after := sound.perform (.enqueueUnique key policy job)
  refine ⟨?_, sound.indexed.enqueueUnique_enqueued_iff isOpen,
    fun _ => sound.indexed.enqueueUnique_keptExisting_iff isOpen, ?_,
    fun _ => sound.indexed.enqueueUnique_replaced_iff isOpen, ?_, ?_⟩
  · rcases sound.indexed.enqueueUnique_cases isOpen u.desk.now key policy job with
      ⟨_, same⟩ | ⟨_, _, _, same⟩ | ⟨_, _, _, _, same⟩
    · exact ⟨_, congrArg Prod.fst same⟩
    · exact ⟨_, congrArg Prod.fst same⟩
    · exact ⟨_, congrArg Prod.fst same⟩
  · intro holder answer
    rcases sound.indexed.enqueueUnique_cases isOpen u.desk.now key policy job with
      ⟨_, same⟩ | ⟨_, _, _, same⟩ | ⟨_, _, _, _, same⟩
    · cases (congrArg Prod.fst same).symm.trans answer
    · exact congrArg Prod.snd same
    · cases (congrArg Prod.fst same).symm.trans answer
  · intro previous new answer
    obtain ⟨state, total⟩ := sound.indexed.enqueueUnique_replaced sound.kept isOpen answer
    refine ⟨state, total, ?_⟩
    -- The answer is in the journal, so that the task counts as withdrawn from now on.
    have withdrew : (u.perform (.enqueueUnique key policy job)).desk.Withdrew previous :=
      ⟨_, List.mem_cons_self, key, policy, job, new, congrArg _ answer⟩
    intro more
    exact ((sound_run after more).withdrawn (withdrew_run withdrew more)).2
  · intro placement answer id
    have holds := sound.indexed.carries_enqueueUnique sound.kept isOpen answer
    constructor
    · exact fun carries => after.indexed.eq_of_carries carries holds
    · rintro rfl
      exact holds

/-- On any way from a desk without tasks, a key is carried by at most one unfinished task, the index
names it and nothing else, and the answers to enqueues under the key go by it. -/
theorem one_task_to_a_key (backoff : Backoff) (historyLimit : Nat) (calls : List Call) (key : Key) :
    let u := (start backoff historyLimit).run calls
    (∀ a b, u.desk.queue.Carries key a → u.desk.queue.Carries key b → a = b) ∧
    (∀ id, u.desk.queue.holder? key = some id ↔ u.desk.queue.Carries key id) ∧
    (u.desk.queue.holder? key = none ↔ ∀ id, ¬u.desk.queue.Carries key id) ∧
    (u.desk.queue.closed = false → ∀ policy job,
      u.Answers key policy job (TaskQueue.enqueueUnique u.desk key policy job).1
        (u.perform (.enqueueUnique key policy job))) := by
  intro u
  have sound : u.Sound := sound_run (sound_start backoff historyLimit) calls
  refine ⟨fun a b => sound.indexed.eq_of_carries, fun id => sound.indexed.holder?_eq_some_iff, ?_,
    fun isOpen policy job => sound.answers isOpen key policy job⟩
  constructor
  · intro unnamed id carries
    rw [sound.indexed.holder?_eq_some_iff.mpr carries] at unnamed
    cases unnamed
  · intro free
    cases named : u.desk.queue.holder? key with
    | none => rfl
    | some id => exact absurd (sound.indexed.holder?_eq_some_iff.mp named) (free id)

/-- A queued task is replaced, and forgotten at once where no history is kept. -/
theorem one_task_to_a_key_replacement :
    let u := (start Backoff.standard 0).run [.enqueueUnique .standard .keepExisting .bootstrap]
    u.desk.queue.closed = false ∧
      (TaskQueue.enqueueUnique u.desk .standard .replace .bootstrap).1 = .ok (.replaced ⟨1⟩ ⟨2⟩) ∧
      (u.perform (.enqueueUnique .standard .replace .bootstrap)).desk.queue.taskState ⟨1⟩ =
        none := by
  intro u
  have isOpen : u.desk.queue.closed = false := rfl
  have answer : (TaskQueue.enqueueUnique u.desk .standard .replace .bootstrap).1 =
      .ok (.replaced ⟨1⟩ ⟨2⟩) := rfl
  have answers := (one_task_to_a_key Backoff.standard 0
    [.enqueueUnique .standard .keepExisting .bootstrap] .standard).2.2.2 isOpen .replace .bootstrap
  exact ⟨isOpen, answer, (answers.cancelled _ _ answer).1⟩

end Usage

end PacedChain
