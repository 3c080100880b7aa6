import PacedChain.Proofs.Desk.Fares
import PacedChain.Proofs.Desk.Timeline

/-!
# Turns

What happens from one moment to the next one is told by the journal and seen in the line of tasks
(`Usage.Brings`): what is handed out is entered, and who is not served stays in the line. So a task
that stands before another one stays there until it is handed out or withdrawn, and is served before
the other one (`Usage.servesFirst_of_before`).
-/
namespace PacedChain

/-- An entry hands a task out. -/
def Entry.Hands (e : Entry) (id : TaskId) : Prop :=
  ∃ lease, e = .lease lease ∧ lease.envelope.task = id

/-- A task was handed out or withdrawn, as some entries show. -/
def Served (id : TaskId) (entries : List (Nat × Entry)) : Prop :=
  ∃ e ∈ entries, e.2.Hands id ∨ e.2.Withdraws id

/-- Among entries, the last one first, one task was served whenever the other one is handed out. -/
def Precedes (i j : TaskId) (entries : List (Nat × Entry)) : Prop :=
  ∀ later e earlier, entries = later ++ e :: earlier → e.2.Hands j → Served i earlier

variable {i j id : TaskId} {entries news : List (Nat × Entry)}

theorem Served.append (served : Served id entries) (news : List (Nat × Entry)) :
    Served id (news ++ entries) := by
  obtain ⟨e, member, turn⟩ := served
  exact ⟨e, List.mem_append_right _ member, turn⟩

theorem precedes_nil (i j : TaskId) : Precedes i j [] := by
  intro later e earlier split
  simp at split

/-- More entries do no harm where the first task was served already, or where none of them hands the
second one out. -/
theorem Precedes.append (first : Precedes i j entries)
    (either : Served i entries ∨ ∀ e ∈ news, ¬e.2.Hands j) : Precedes i j (news ++ entries) := by
  induction news with
  | nil => exact first
  | cons new news ih =>
    have rest := ih (either.imp_right fun none e member => none e (List.mem_cons_of_mem _ member))
    intro later e earlier split hands
    -- The entry in question is the new one, or it was there before.
    cases later with
    | nil =>
      obtain ⟨rfl, rfl⟩ := List.cons.inj split
      rcases either with served | none
      · exact served.append news
      · exact absurd hands (none new List.mem_cons_self)
    | cons last later =>
      exact rest later e earlier (List.cons.inj split).2 hands

namespace Queue

variable {q q' : Queue} {now : Nat}

/-- What only lapses stays in the line, and does not begin to wait. -/
theorem stays_of_lapses (goes : q.Goes id)
    (lapses : Task.Lapses False now (q.task? id) (q'.task? id)) :
    q'.Goes id ∧ ∀ time, q'.WaitsUntil id time → q.WaitsUntil id time := by
  constructor
  · rw [goes_iff] at goes ⊢
    refine lapses.keeps (P := fun o => ∃ task, o = some task ∧
      (task.state = .queued ∨ task.state.isWaiting = true)) ?_ goes
    rintro o o' lapse ⟨task, rfl, going⟩
    cases lapse with
    | due => exact ⟨_, rfl, Or.inl rfl⟩
    | cancel gone => exact gone.elim
    | forget ended =>
      rcases going with queued | waits
      · rw [queued] at ended
        cases ended
      · rw [TaskState.isTerminal_of_isWaiting waits] at ended
        cases ended
  · rintro time ⟨task, known, waits, until_⟩
    rw [known] at lapses
    exact ⟨task, lapses.eq_of_waiting waits, waits, until_⟩

end Queue

namespace Usage

variable {u v : Usage} {call : Call}

/-! ### One step -/

/-- What happens from one moment to the next one, and the news in the journal. -/
structure Brings (u v : Usage) (news : List (Nat × Entry)) : Prop where
  journal : v.desk.journal = news ++ u.desk.journal
  /-- The line has moved, and what it hands out is entered. -/
  shift : ∃ handed, u.desk.queue.Shift v.desk.queue handed ∧
    ∀ id, handed = some id ↔ ∃ e ∈ news, e.2.Hands id
  runs : ∀ id, (∃ e ∈ news, e.2.Hands id) →
    ∃ task, v.desk.queue.task? id = some task ∧ task.state = .running
  /-- A task that is not served stays in the line, and does not begin to wait. -/
  stays : ∀ id, u.desk.queue.Goes id → Served id news ∨
    v.desk.queue.Goes id ∧ ∀ time, v.desk.queue.WaitsUntil id time → u.desk.queue.WaitsUntil id time

/-- A step that hands nothing out. -/
theorem brings_of_quiet (journal : v.desk.journal = news ++ u.desk.journal)
    (quiet : ∀ e ∈ news, ∀ id, ¬e.2.Hands id) (shift : u.desk.queue.Shift v.desk.queue none)
    (stays : ∀ id, u.desk.queue.Goes id → Served id news ∨ v.desk.queue.Goes id ∧
      ∀ time, v.desk.queue.WaitsUntil id time → u.desk.queue.WaitsUntil id time) :
    u.Brings v news where
  journal := journal
  shift := by
    refine ⟨none, shift, fun id => ⟨nofun, ?_⟩⟩
    rintro ⟨e, member, hands⟩
    exact absurd hands (quiet e member id)
  runs := by
    rintro id ⟨e, member, hands⟩
    exact absurd hands (quiet e member id)
  stays := stays

/-- A step that leaves the queue as far as tasks and rows go. -/
theorem brings_of_same (journal : v.desk.journal = u.desk.journal)
    (tasks : v.desk.queue.tasks = u.desk.queue.tasks)
    (ready : v.desk.queue.ready = u.desk.queue.ready)
    (scheduled : v.desk.queue.scheduled = u.desk.queue.scheduled) : u.Brings v [] := by
  refine brings_of_quiet journal (by simp) (.stays ready scheduled) fun id goes => Or.inr ?_
  have known : v.desk.queue.task? id = u.desk.queue.task? id := by
    rw [Queue.task?, tasks, Queue.task?]
  have lapses := Task.Lapses.refl False u.desk.now (u.desk.queue.task? id)
  nth_rewrite 2 [← known] at lapses
  exact Queue.stays_of_lapses goes lapses

/-- A task in the line is known, and no new one. -/
theorem Sound.ne_next (sound : u.Sound) (goes : u.desk.queue.Goes id) :
    id ≠ ⟨u.desk.queue.created + 1⟩ := by
  obtain ⟨task, known, _⟩ := Queue.goes_iff.mp goes
  rintro rfl
  rw [sound.kept.task?_next] at known
  cases known

theorem Sound.brings_enqueueDelayed (sound : u.Sound) (job : Job) (delay : Delay) {entry : Entry}
    (quiet : ∀ id, ¬entry.Hands id) :
    u.Brings { u with
      desk := u.desk.enter (u.desk.queue.enqueueDelayed u.desk.now job delay).2 entry }
      [(u.desk.now, entry)] := by
  apply brings_of_quiet rfl (by simpa using quiet)
    (Queue.shift_enqueueDelayed u.desk.queue u.desk.now job delay)
  intro id goes
  right
  rcases Queue.enqueueDelayed_fares sound.kept u.desk.now job delay id with same | ⟨new, _⟩
  · have lapses := Task.Lapses.refl False u.desk.now (u.desk.queue.task? id)
    nth_rewrite 2 [← same] at lapses
    exact Queue.stays_of_lapses goes lapses
  · exact absurd new (sound.ne_next goes)

theorem Sound.brings_enqueueUnique (sound : u.Sound) (key : Key) (policy : HolderPolicy)
    (job : Job) : ∃ news, u.Brings (u.perform (.enqueueUnique key policy job)) news := by
  refine ⟨[_], brings_of_quiet rfl ?_
    (Queue.shift_enqueueUnique u.desk.queue u.desk.now key policy job) fun id goes => ?_⟩
  · rintro e member id ⟨lease, same, _⟩
    rw [List.mem_singleton.mp member] at same
    cases same
  · rcases Queue.enqueueUnique_fares sound.kept u.desk.now key policy job id with
      lapses | ⟨new, _⟩
    · by_cases replaced : ∃ new, (u.desk.queue.enqueueUnique u.desk.now key policy job).1 =
          .ok (.replaced id new)
      · obtain ⟨new, answer⟩ := replaced
        exact Or.inl ⟨_, List.mem_singleton_self _, Or.inr ⟨key, policy, job, new,
          congrArg _ answer⟩⟩
      · exact Or.inr (Queue.stays_of_lapses goes (lapses.mono replaced))
    · exact absurd new (sound.ne_next goes)

theorem Sound.brings_complete (sound : u.Sound) (lease : Lease) (outcome : Outcome) :
    ∃ news, u.Brings (u.perform (.complete lease outcome)) news := by
  rw [Usage.perform]
  split
  · next out =>
    obtain ⟨task, known, runs, _⟩ := sound.leased lease out
    refine ⟨[_], brings_of_quiet rfl ?_
      (Queue.shift_complete known u.desk.now outcome) fun id goes => Or.inr ?_⟩
    · rintro e member id ⟨lease, same, _⟩
      rw [List.mem_singleton.mp member] at same
      cases same
    · obtain ⟨_, _, _, others⟩ := Queue.complete_fares sound.kept known u.desk.now outcome
      refine Queue.stays_of_lapses goes (others id ?_)
      -- The task that is completed runs, and is not in the line.
      rintro rfl
      obtain ⟨other, found, going⟩ := Queue.goes_iff.mp goes
      rw [known, Option.some.injEq] at found
      rw [← found, runs] at going
      simp [TaskState.isWaiting] at going
  · exact ⟨[], brings_of_same rfl rfl rfl rfl⟩

theorem Sound.brings_look (sound : u.Sound)
    (promoted : u.desk.queue.closed = true ∨
      u.desk.queue.promoteDue u.desk.now = u.desk.queue) :
    ∃ news, u.Brings (u.perform .look) news := by
  have shift := Queue.shift_look promoted
  have fares := Queue.look_fares sound.placed u.desk.now
  have after := sound.perform .look
  rcases seen : u.desk.queue.look u.desk.now with ⟨_ | lease | wake, q⟩ <;> rw [seen] at shift fares
  · rw [perform_look_closed seen]
    refine ⟨[_], brings_of_quiet rfl ?_ shift fun id goes => Or.inr ?_⟩
    · rintro e member id ⟨lease, same, _⟩
      rw [List.mem_singleton.mp member] at same
      cases same
    · exact Queue.stays_of_lapses goes ((fares id).resolve_left (by simp)).2
  · rw [perform_look_leased seen] at after ⊢
    refine ⟨[(u.desk.now, .lease lease)], rfl, ⟨_, shift, fun id => ?_⟩, ?_, fun id goes => ?_⟩
    · simp [Look.lease?, Entry.Hands]
    · rintro id ⟨e, member, other, same, rfl⟩
      rw [List.mem_singleton.mp member] at same
      cases same
      obtain ⟨task, known, runs, _⟩ := after.leased lease List.mem_cons_self
      exact ⟨task, known, runs⟩
    · rcases fares id with ⟨taken, _, same, envelope, _⟩ | ⟨_, lapses⟩
      · cases same
        exact Or.inl ⟨_, List.mem_singleton_self _, Or.inl ⟨lease, rfl, by rw [envelope]⟩⟩
      · exact Or.inr (Queue.stays_of_lapses goes lapses)
  · rw [perform_look_idle seen]
    refine ⟨[], brings_of_quiet rfl (by simp) shift fun id goes => Or.inr ?_⟩
    exact Queue.stays_of_lapses goes ((fares id).resolve_left (by simp)).2

theorem brings_ripen {w : Wakeup} {rest : List Wakeup} (all : u.desk.queue.scheduled = w :: rest) :
    u.Brings (u.withQueue (u.desk.queue.ripen u.desk.now w rest)) [] := by
  apply brings_of_quiet rfl (by simp) (Queue.shift_ripen all u.desk.now)
  intro id goes
  right
  change (u.desk.queue.ripen u.desk.now w rest).Goes id ∧ ∀ time,
    (u.desk.queue.ripen u.desk.now w rest).WaitsUntil id time → _
  rw [Queue.ripen, Queue.wake_with_scheduled]
  rcases Queue.wake_cases u.desk.now u.desk.queue w with ⟨task, known, waits, woken⟩ | ⟨_, same⟩
  · rw [woken]
    have view : ({ u.desk.queue.modify w.task (·.requeue u.desk.now) with
        ready := u.desk.queue.ready ++ [w.task], scheduled := rest } : Queue).task? id =
          (u.desk.queue.modify w.task (·.requeue u.desk.now)).task? id := rfl
    rw [Queue.goes_iff]
    unfold Queue.WaitsUntil
    rw [view]
    by_cases here : id = w.task
    · subst here
      rw [Queue.task?_modify_self known]
      refine ⟨⟨_, rfl, Or.inl rfl⟩, ?_⟩
      rintro time ⟨other, ⟨⟩, queued, _⟩
      cases queued
    · rw [Queue.task?_modify_of_ne here]
      exact ⟨Queue.goes_iff.mp goes, fun _ waits => waits⟩
  · rw [same]
    exact ⟨goes, fun _ waits => waits⟩

theorem Proper.brings (proper : u.Proper) (next : u.Next v) : ∃ news, u.Brings v news := by
  have sound := proper.sound
  cases next with
  | due all => exact ⟨[], brings_ripen all⟩
  | look promoted => exact sound.brings_look promoted
  | @call call other =>
    cases call with
    | enqueue job =>
      exact ⟨_, sound.brings_enqueueDelayed job Delay.zero (by rintro id ⟨_, ⟨⟩, _⟩)⟩
    | enqueueDelayed job delay =>
      exact ⟨_, sound.brings_enqueueDelayed job delay (by rintro id ⟨_, ⟨⟩, _⟩)⟩
    | enqueueUnique key policy job => exact sound.brings_enqueueUnique key policy job
    | look => exact absurd rfl other
    | complete lease outcome => exact sound.brings_complete lease outcome
    | drop | close | pass => exact ⟨[], brings_of_same rfl rfl rfl rfl⟩

/-! ### Who is served first -/

/-- One task precedes another one among some entries, and does so from now on: it was served, or it
stands before the other one, unless that one was withdrawn and is never handed out again. -/
structure Leads (u : Usage) (i j : TaskId) (entries : List (Nat × Entry)) : Prop where
  precedes : Precedes i j entries
  either : Served i entries ∨ u.desk.Withdrew j ∨ u.desk.queue.Before i j

theorem Brings.withdrew (brings : u.Brings v news) (gone : u.desk.Withdrew id) :
    v.desk.Withdrew id := by
  obtain ⟨e, member, withdraws⟩ := gone
  refine ⟨e, ?_, withdraws⟩
  rw [brings.journal]
  exact List.mem_append_right _ member

/-- A task in the line was not withdrawn. -/
theorem Sound.not_withdrew (sound : u.Sound) (goes : u.desk.queue.Goes id) :
    ¬u.desk.Withdrew id := by
  obtain ⟨task, known, queued | waits⟩ := Queue.goes_iff.mp goes
  · exact (sound.placed.stands id).not_withdrawn known (by rw [queued]; rfl)
  · exact (sound.placed.stands id).not_withdrawn known (TaskState.isTerminal_of_isWaiting waits)

theorem Brings.leads (brings : u.Brings v news) (proper : u.Proper) (after : v.Proper)
    (leads : u.Leads i j entries) : v.Leads i j (news ++ entries) := by
  have precedes := leads.precedes
  rcases leads.either with served | gone | before
  · exact ⟨precedes.append (Or.inl served), Or.inl (served.append news)⟩
  -- What is withdrawn does not run, so that it was not handed out.
  · have still := brings.withdrew gone
    refine ⟨precedes.append (Or.inr fun e member hands => ?_), Or.inr (Or.inl still)⟩
    obtain ⟨task, known, runs⟩ := brings.runs j ⟨e, member, hands⟩
    have cancelled := (after.sound.placed.stands j).cancelled still known
    rw [runs] at cancelled
    cases cancelled
  · obtain ⟨handed, shift, tells⟩ := brings.shift
    rcases shift.before proper.sound.placed before with first | ⟨other, line⟩
    · obtain ⟨e, member, hands⟩ := (tells i).mp first
      have apart : i ≠ j := by
        rintro rfl
        have once := proper.sound.placed.once.sublist before.line
        simp at once
      refine ⟨precedes.append (Or.inr fun e member hands => ?_),
        Or.inl ⟨e, List.mem_append_left _ member, Or.inl hands⟩⟩
      have second := (tells j).mpr ⟨e, member, hands⟩
      rw [first, Option.some.injEq] at second
      exact apart second
    · refine ⟨precedes.append (Or.inr fun e member hands =>
        other ((tells j).mpr ⟨e, member, hands⟩)), ?_⟩
      rcases brings.stays i before.goes with ⟨e, member, turn⟩ | ⟨goes, _⟩
      · exact Or.inl ⟨e, List.mem_append_left _ member, turn⟩
      · exact Or.inr (line.imp brings.withdrew fun line => ⟨goes, line⟩)

/-- Among what happens after some moment, one task precedes another one. -/
def ServesFirst (u later : Usage) (i j : TaskId) : Prop :=
  ∃ news, later.desk.journal = news ++ u.desk.journal ∧ Precedes i j news

/-- What stands before another task is served first, whatever happens. -/
theorem servesFirst_of_before {future : List Usage} (chain : (u :: future).IsChain Next)
    (proper : u.Proper) (before : u.desk.queue.Before i j) :
    ∀ later ∈ future, u.ServesFirst later i j := by
  have leads := chain.induction (fun v => v.Proper ∧ ∃ news,
    v.desk.journal = news ++ u.desk.journal ∧ v.Leads i j news) _ ?_ ?_
  · intro later member
    obtain ⟨_, news, journal, leads⟩ := leads later (List.mem_cons_of_mem _ member)
    exact ⟨news, journal, leads.precedes⟩
  · rintro v w next ⟨proper, entries, journal, leads⟩
    obtain ⟨news, brings⟩ := proper.brings next
    have after := proper.next next
    refine ⟨after, news ++ entries, ?_, brings.leads proper after leads⟩
    rw [brings.journal, journal, List.append_assoc]
  · intro _
    exact ⟨proper, [], rfl, precedes_nil i j, Or.inr (Or.inr before)⟩

end Usage

end PacedChain
