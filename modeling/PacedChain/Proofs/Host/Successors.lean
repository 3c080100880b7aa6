import PacedChain.Proofs.Host.Deliveries
import PacedChain.Proofs.Host.Diaries

/-!
# No success without a successor

A worker reports the success of a task only right after the queue has taken in a sync, in the same
execution, whatever else is done to the queue, and whenever that is closed. So every success in the
journal is the end of such a round in the diary of some worker (`Host.handedOn_of_success`).
-/
namespace PacedChain

/-- The report of a worker that a task has succeeded. -/
def Doing.success (id : TaskId) : Doing := .entry (.complete id .success (.ok .succeeded))

/-- In a diary, a task has succeeded at the end of a round that has put its successor on the
queue. -/
def HandedOn (c : Chain) (id : TaskId) (log : List Doing) : Prop :=
  ∃ front back lease answer secs successor, lease.envelope.task = id ∧
    c.guard.await (Chain.boundaryError lease.envelope.job) answer = .ok secs ∧
    log = front ++ [.entry (.lease lease), .call lease.envelope.job answer,
      .entry (.enqueueDelayed .sync (c.successorDelay lease.envelope.job secs) (.ok successor)),
      .success id] ++ back

/-- A diary ends with what has been done of the execution that is under way. -/
def Station.Began (c : Chain) (s : Station) (log : List Doing) : Prop :=
  ∀ lease stage, s = .executing lease stage →
    ∃ front last, log = front ++ last ∧ Begun c lease stage last

variable {c : Chain} {id : TaskId} {log : List Doing}

theorem HandedOn.append (handed : HandedOn c id log) (more : List Doing) :
    HandedOn c id (log ++ more) := by
  obtain ⟨front, back, lease, answer, secs, successor, own, answered, rfl⟩ := handed
  exact ⟨front, back ++ more, lease, answer, secs, successor, own, answered,
    List.append_assoc _ _ _⟩

theorem Begun.success_not_mem {lease : Lease} {stage : Stage} {last : List Doing}
    (begun : Begun c lease stage last) (id : TaskId) : .success id ∉ last := by
  cases begun <;> simp [Doing.success]

namespace Host

variable {h h' : Host} {index group : Nat} {s s' : Station}

/-- A worker that executes nothing goes on so, or takes a lease. -/
theorem Act.idles (act : Act h group s s' h') (idle : s.lease? = none) :
    (s'.lease? = none ∧ ∀ id, .success id ∉ h.doings h') ∨
      ∃ lease, s' = .executing lease .leased ∧ h.doings h' = [.entry (.lease lease)] := by
  have none : h.doings h' = [] → ∀ id, .success id ∉ h.doings h' := by
    intro same id
    rw [same]
    exact List.not_mem_nil
  cases act with
  | stop | goOn | recheck | leave | tell | rest =>
    exact Or.inl ⟨rfl, none (doings_of_same rfl rfl rfl)⟩
  | idle seen => exact Or.inl ⟨rfl, none (doings_of_same rfl rfl (journal_of_look seen))⟩
  | shut seen =>
    refine Or.inl ⟨rfl, fun id member => ?_⟩
    rw [doings_of_entry (journal_of_look seen), List.mem_singleton] at member
    cases member
  | lease seen => exact Or.inr ⟨_, rfl, doings_of_entry (journal_of_look seen)⟩
  | start | ask | fail | refuse | place | note | complete | drop | lose => cases idle

/-- A step of a worker goes on with what it has begun, and reports no success but of what it has
handed on. -/
theorem Act.began (act : Act h group s s' h') (same : SameConstants c h.chain)
    (began : s.Began c log) :
    s'.Began c (log ++ h.doings h') ∧
      ∀ id, .success id ∈ h.doings h' → HandedOn c id (log ++ h.doings h') := by
  rcases taken : s.lease? with _ | lease
  · rcases act.idles taken with ⟨still, quiet⟩ | ⟨lease, rfl, entry⟩
    · refine ⟨?_, fun id member => absurd member (quiet id)⟩
      rintro lease stage rfl
      cases still
    · rw [entry]
      refine ⟨?_, fun id member => ?_⟩
      · rintro _ _ ⟨⟩
        exact ⟨log, _, rfl, .leased⟩
      · cases List.mem_singleton.mp member
  · obtain ⟨stage, rfl⟩ : ∃ stage, s = .executing lease stage := by
      cases s with
      | executing other stage =>
        cases taken
        exact ⟨stage, rfl⟩
      | checking | waiting | completed | gone => cases taken
    obtain ⟨front, last, rfl, begun⟩ := began lease stage rfl
    rcases act.goesOn same begun with
      ⟨stage', rfl, begun⟩ | ⟨result, reply, rfl, _, entry, ends, _⟩
    · refine ⟨?_, fun id member => ?_⟩
      · rintro _ _ ⟨⟩
        exact ⟨front, _, List.append_assoc _ _ _, begun⟩
      · exact absurd (List.mem_append_right last member) (begun.success_not_mem id)
    · refine ⟨?_, fun id member => ?_⟩
      · rintro other stage rfl
        cases ends
      -- What is reported as a success is the end of a round.
      · rw [entry] at member ⊢
        have reported := List.mem_singleton.mp member
        cases result with
        | error error => cases reported
        | ok successor =>
          cases reported
          cases begun with
          | @noted answer secs task answered =>
            refine ⟨front, [], lease, answer, secs, task, rfl, answered, ?_⟩
            rw [List.append_nil, List.append_assoc]
            rfl

end Host

end PacedChain
