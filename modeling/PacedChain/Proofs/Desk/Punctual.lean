import PacedChain.Queue.Session
import PacedChain.Proofs.Desk.Agenda
import PacedChain.Proofs.Desk.Fares
import PacedChain.Proofs.Queue.Due

/-!
# Leases on time

At a desk in use, a task waits for the time that its enqueue or its last completion has set, and the
journal shows which (`Desk.Dates`). A wait for a lease ends when the first task is due, and not
before, or at its end if none is due by then (`Usage.lease_on_time`).
-/
namespace PacedChain

/-- No task begins to wait by a lapse. -/
theorem Task.Lapses.eq_of_waiting {withdrawn : Prop} {now : Nat} {o : Option Task} {task : Task}
    (waits : task.state.isWaiting = true) (lapses : Lapses withdrawn now o (some task)) :
    o = some task := by
  generalize same : some task = o' at lapses
  cases lapses with
  | refl => rfl
  | tail _ last =>
    cases last with
    | due | cancel =>
      cases same
      cases waits
    | forget => cases same

/-- A new task that waits was delayed. -/
theorem Task.fresh_of_waiting {job : Job} {key : Option Key} {delay : Delay} {now : Nat}
    (waits : (Task.fresh job key delay now).state.isWaiting = true) :
    (Task.fresh job key delay now).state = .delayed ∧
      (Task.fresh job key delay now).notBefore = some (Clock.deadline now delay.duration) := by
  cases zero : delay.isZero with
  | true => simp [Task.fresh, zero, Task.create, TaskState.isWaiting] at waits
  | false => simp [Task.fresh, zero, Task.holdBack]

namespace Desk

/-- The entry that says why a task waits until `due`: a delayed one since it was put on the queue,
one to be retried since its last completion. -/
inductive Dates (d : Desk) (id : TaskId) (task : Task) (due : Nat) : Prop
  | delayed {at_ : Nat} {job : Job} {delay : Delay} (state : task.state = .delayed)
    (entry : (at_, .enqueueDelayed job delay (.ok id)) ∈ d.journal)
    (time : due = Clock.deadline at_ delay.duration)
  | retry {at_ delay : Nat} (state : task.state = .retryScheduled)
    (entry : (at_, .complete id .retry
      (.ok (.retryScheduled task.attempts (Clock.secs delay)))) ∈ d.journal)
    (wait : d.queue.backoff.nextDelay task.attempts = .ok delay)
    (time : due = Clock.deadline at_ delay)

/-- Every task that waits does so until the time that the journal gives. -/
def Dated (d : Desk) : Prop :=
  ∀ id task, d.queue.task? id = some task → task.state.isWaiting = true →
    ∃ due, task.notBefore = some due ∧ d.Dates id task due

/-- What the journal says stays said. -/
theorem Dates.mono {d d' : Desk} {id : TaskId} {task : Task} {due : Nat}
    (dates : d.Dates id task due) (backoff : d'.queue.backoff = d.queue.backoff)
    (journal : ∀ entry ∈ d.journal, entry ∈ d'.journal) : d'.Dates id task due := by
  cases dates with
  | delayed state entry time => exact .delayed state (journal _ entry) time
  | retry state entry wait time =>
    rw [← backoff] at wait
    exact .retry state (journal _ entry) wait time

end Desk

namespace Usage

variable {u : Usage} {id : TaskId} {task : Task}

theorem dated_start (backoff : Backoff) (limit : Nat) : (start backoff limit).desk.Dated := by
  intro id task known
  cases known

/-- A task that waits after a call waited before, or has begun to wait by the call. -/
inductive Waits (u : Usage) (call : Call) (id : TaskId) (task : Task) : Prop
  | still : u.desk.queue.task? id = some task → Waits u call id task
  | enqueued {job : Job} {delay : Delay} : task.state = .delayed →
    task.notBefore = some (Clock.deadline u.desk.now delay.duration) →
    (u.desk.now, .enqueueDelayed job delay (.ok id)) ∈ (u.perform call).desk.journal →
    Waits u call id task
  | retried {delay : Nat} : task.state = .retryScheduled →
    task.notBefore = some (Clock.deadline u.desk.now delay) →
    u.desk.queue.backoff.nextDelay task.attempts = .ok delay →
    (u.desk.now, .complete id .retry (.ok (.retryScheduled task.attempts (Clock.secs delay)))) ∈
      (u.perform call).desk.journal → Waits u call id task

/-- What lapses into a task that waits was that task before. -/
theorem Waits.of_lapses {call : Call} {withdrawn : Prop} {now : Nat}
    (waits : task.state.isWaiting = true)
    (lapses : Task.Lapses withdrawn now (u.desk.queue.task? id) (some task)) :
    u.Waits call id task :=
  .still (lapses.eq_of_waiting waits)

theorem queue_look (u : Usage) :
    (u.perform .look).desk.queue = (u.desk.queue.look u.desk.now).2 := by
  rcases seen : u.desk.queue.look u.desk.now with ⟨_ | _ | _, q⟩
  · rw [perform_look_closed seen]
    rfl
  · rw [perform_look_leased seen]
    rfl
  · rw [perform_look_idle seen]

theorem Sound.waits_enqueueDelayed (sound : u.Sound) {job : Job} {delay : Delay}
    (known : (u.perform (.enqueueDelayed job delay)).desk.queue.task? id = some task)
    (waits : task.state.isWaiting = true) : u.Waits (.enqueueDelayed job delay) id task := by
  change (u.desk.queue.enqueueDelayed u.desk.now job delay).2.task? id = some task at known
  have entered : (u.desk.now, Entry.enqueueDelayed job delay
      (u.desk.queue.enqueueDelayed u.desk.now job delay).1) ∈
        (u.perform (.enqueueDelayed job delay)).desk.journal := List.mem_cons_self
  rcases Queue.enqueueDelayed_cases u.desk.queue u.desk.now job delay with ⟨_, same⟩ | ⟨_, same⟩
  · rw [same] at known
    exact .still known
  · rw [same, Queue.task?_insert sound.kept] at known
    split at known
    · rename_i new
      cases known
      obtain ⟨state, time⟩ := Task.fresh_of_waiting waits
      rw [same, ← new] at entered
      exact .enqueued state time entered
    · exact .still known

/-- Of all completions, one after which the task is tried again makes it wait. -/
theorem Sound.waits_complete (sound : u.Sound) {lease : Lease} {outcome : Outcome}
    (known : (u.perform (.complete lease outcome)).desk.queue.task? id = some task)
    (waits : task.state.isWaiting = true) : u.Waits (.complete lease outcome) id task := by
  by_cases out : lease ∈ u.out
  · have done : u.perform (.complete lease outcome) = _ := if_pos out
    have entered : (u.desk.now, Entry.complete lease.envelope.task outcome
        (u.desk.queue.complete u.desk.now lease.envelope.task outcome).1) ∈
          (u.perform (.complete lease outcome)).desk.journal := by
      rw [done]
      exact List.mem_cons_self
    rw [done] at known
    change (u.desk.queue.complete u.desk.now lease.envelope.task outcome).2.task? id =
      some task at known
    obtain ⟨running, found, runs, _⟩ := sound.leased lease out
    obtain ⟨after, completes, itself, others⟩ :=
      Queue.complete_fares sound.kept found u.desk.now outcome
    by_cases here : id = lease.envelope.task
    · subst here
      rw [known] at itself
      cases itself.eq_of_waiting waits
      generalize (u.desk.queue.complete u.desk.now lease.envelope.task outcome).1 = result
        at completes entered
      cases completes with
      | success | dead => cases waits
      | again _ wait => exact .retried rfl rfl wait entered
      | noDelay =>
        rw [runs] at waits
        cases waits
    · have lapses := others id here
      rw [known] at lapses
      exact .of_lapses waits lapses
  · rw [show u.perform (.complete lease outcome) = u from if_neg out] at known
    exact .still known

theorem Sound.waits (sound : u.Sound) {call : Call}
    (known : (u.perform call).desk.queue.task? id = some task)
    (waits : task.state.isWaiting = true) : u.Waits call id task := by
  have kept := sound.kept
  cases call with
  | enqueue job =>
    rcases Queue.enqueueDelayed_fares kept u.desk.now job Delay.zero id with same | ⟨_, comes⟩
    · exact .still (same.symm.trans known)
    · cases comes.symm.trans known
      cases waits
  | enqueueDelayed job delay => exact sound.waits_enqueueDelayed known waits
  | enqueueUnique key policy job =>
    change (u.desk.queue.enqueueUnique u.desk.now key policy job).2.task? id = some task at known
    rcases Queue.enqueueUnique_fares kept u.desk.now key policy job id with lapses | ⟨_, comes⟩
    · rw [known] at lapses
      exact .of_lapses waits lapses
    · cases comes.symm.trans known
      cases waits
  | look =>
    rw [queue_look] at known
    rcases Queue.look_fares sound.placed u.desk.now id with
      ⟨_, _, _, _, _, _, _, starts⟩ | ⟨_, lapses⟩
    · cases starts.symm.trans known
      cases waits
    · rw [known] at lapses
      exact .of_lapses waits lapses
  | complete lease outcome => exact sound.waits_complete known waits
  | drop | close | pass => exact .still known

theorem dated_perform (sound : u.Sound) (dated : u.desk.Dated) (call : Call) :
    (u.perform call).desk.Dated := by
  intro id task known waits
  have same := backoff_perform u call
  have longer := (journal_perform u call).subset
  cases sound.waits known waits with
  | still before =>
    obtain ⟨due, time, dates⟩ := dated id task before waits
    exact ⟨due, time, dates.mono same fun _ => @longer _⟩
  | enqueued state time entry => exact ⟨_, time, .delayed state entry rfl⟩
  | retried state time wait entry =>
    rw [← same] at wait
    exact ⟨_, time, .retry state entry wait rfl⟩

theorem dated_run (backoff : Backoff) (limit : Nat) (calls : List Call) :
    ((start backoff limit).run calls).desk.Dated := by
  refine (run_induction (P := fun u => u.Sound ∧ u.desk.Dated) ?_
    ⟨sound_start backoff limit, dated_start backoff limit⟩ calls).2
  rintro u call ⟨sound, dated⟩
  exact ⟨sound.perform call, dated_perform sound dated call⟩

/-- The schedule of a desk in use stays in order. -/
theorem ordered_perform (ordered : u.desk.queue.Ordered) (call : Call) :
    (u.perform call).desk.queue.Ordered := by
  cases call with
  | enqueue job => exact ordered.enqueueDelayed _ job Delay.zero
  | enqueueDelayed job delay => exact ordered.enqueueDelayed _ job delay
  | enqueueUnique key policy job => exact ordered.enqueueUnique _ key policy job
  | look =>
    rw [queue_look]
    exact ordered.look u.desk.now
  | complete lease outcome =>
    rw [perform]
    split
    · exact ordered.complete _ _ outcome
    · exact ordered
  | drop | close | pass => exact ordered

theorem proper_run (backoff : Backoff) (limit : Nat) (calls : List Call) :
    ((start backoff limit).run calls).desk.queue.Proper := by
  have sound := sound_run (sound_start backoff limit) calls
  have ordered : ((start backoff limit).run calls).desk.queue.Ordered :=
    run_induction (P := fun u => u.desk.queue.Ordered)
      (fun _ call ordered => ordered_perform ordered call) (Queue.ordered_empty backoff limit) calls
  exact ⟨sound.kept, ⟨_, sound.placed⟩, ordered⟩

end Usage

/-! ### On time -/

/-- How a wait for a lease should come out that begins at the time of a desk and has so much
patience: with a task that is due, at the first whole millisecond at which one is, or with none at
its end if none is due by then. -/
def Desk.OnTime (d : Desk) (patience : Nat) : Wait × Session → Prop
  | (.leased lease at_, after) =>
    after.now = at_ ∧
    (∃ first, IsLeast (d.queue.dueTimes d.now) first ∧ first ≤ d.now + patience ∧
      at_ = Clock.wholeMilli (max d.now first)) ∧
    ∃ due, d.queue.DueAt d.now lease.envelope.task due ∧ due ≤ at_
  | (.timedOut, after) =>
    after.now = d.now + patience ∧ ∀ due ∈ d.queue.dueTimes d.now, d.now + patience < due
  | (.closed, _) => False

/-- From a whole millisecond on, a task is found at the first one at which it is due. -/
theorem Clock.lookFor_eq_wholeMilli {now : Nat} (whole : milli ∣ now) (due : Nat) :
    lookFor now due = wholeMilli (max now due) := by
  unfold lookFor
  split
  · rename_i early
    rw [Nat.max_eq_left early, wholeMilli_eq_self whole]
  · rename_i late
    rw [Nat.max_eq_right (by omega)]

theorem Clock.le_lookFor (now due : Nat) : now ≤ lookFor now due := by
  unfold lookFor
  split
  · exact Nat.le_refl _
  · have := le_wholeMilli due
    omega

namespace Queue

variable {q : Queue} {now : Nat}

/-- What is due later on is due by then as seen earlier, too. -/
theorem DueAt.earlier {later due : Nat} {id : TaskId} (h : q.DueAt later id due)
    (early : due ≤ later) (past : now ≤ later) : ∃ due, q.DueAt now id due ∧ due ≤ later := by
  obtain ⟨task, known, ⟨queued, _⟩ | ⟨waits, time⟩⟩ := h.cases
  · exact ⟨now, dueAt_of_queued known queued, past⟩
  · exact ⟨due, dueAt_of_waiting known waits time, early⟩

end Queue

/-- A wait on an open queue in use comes out as it should. -/
theorem Desk.onTime_awaitUntil {d : Desk} (proper : d.queue.Proper)
    (opened : d.queue.closed = false) (whole : Clock.milli ∣ d.now) {patience : Nat}
    (whole_patience : Clock.milli ∣ patience) :
    d.OnTime patience
      (({ now := d.now, queue := d.queue } : Session).awaitUntil (d.now + patience)) := by
  have whole_end := Clock.wholeMilli_eq_self (Nat.dvd_add whole whole_patience)
  have awaited := Queue.leaseBy_awaited proper d.now (d.now + patience)
  unfold Session.awaitUntil
  simp only
  generalize d.queue.leaseBy d.now (d.now + patience) = r at awaited
  cases awaited with
  | closed shut =>
    rw [opened] at shut
    cases shut
  | @leased first p q' lease _ least in_time proper_p alike seen =>
    refine ⟨rfl, ⟨first, least, ?_, Clock.lookFor_eq_wholeMilli whole first⟩, ?_⟩
    · have := Clock.le_wholeMilli first
      omega
    · obtain ⟨due, h, early⟩ := Queue.dueAt_of_look_leased proper_p seen
      have h : d.queue.DueAt (Clock.lookFor d.now first) lease.envelope.task due := by
        simpa only [Queue.DueAt, Queue.task?_of_tidy_eq alike] using h
      exact h.earlier early (Clock.le_lookFor d.now first)
  | timedOut _ _ late =>
    refine ⟨rfl, fun due member => ?_⟩
    by_contra in_time
    have := Clock.wholeMilli_mono (Nat.not_lt.mp in_time)
    have := (late due member).2
    omega

namespace Usage

/-- At a desk in use with an open queue, a lease is handed out exactly on time, stale entries make
no difference to it, and tasks wait for the times that their enqueues and completions have set. -/
theorem lease_on_time (backoff : Backoff) (limit : Nat) (calls : List Call) (patience : Nat) :
    let desk := ((start backoff limit).run calls).desk
    desk.queue.closed = false → Clock.milli ∣ desk.now → Clock.milli ∣ patience →
    desk.OnTime patience
      (({ now := desk.now, queue := desk.queue } : Session).awaitUntil (desk.now + patience)) ∧
    (desk.queue.tidy.leaseBy desk.now (desk.now + patience)).1 =
      (desk.queue.leaseBy desk.now (desk.now + patience)).1 ∧
    ∀ id task, desk.queue.task? id = some task → task.state.isWaiting = true →
      ∃ due, task.notBefore = some due ∧ desk.Dates id task due := by
  intro desk opened whole whole_patience
  have proper : desk.queue.Proper := proper_run backoff limit calls
  refine ⟨Desk.onTime_awaitUntil proper opened whole whole_patience, ?_,
    dated_run backoff limit calls⟩
  have same := Queue.leaseBy_congr proper.tidy proper (Queue.tidy_tidy _) desk.now
    (desk.now + patience)
  simpa using congrArg Prod.fst same

/-- A task that was replaced has left its entry for 1.5 ms behind. The other is due at 2.5 ms. -/
theorem lease_on_time_behind_stale_entry :
    let backoff : Backoff := { Backoff.standard with base := 3 * Clock.milli / 2 }
    let calls : List Call := [.enqueueUnique .standard .replace .bootstrap, .look,
      .complete ⟨⟨⟨1⟩, .bootstrap⟩, 1, ⟨1⟩⟩ .retry, .pass Clock.milli,
      .enqueueUnique .standard .replace .bootstrap, .look,
      .complete ⟨⟨⟨2⟩, .bootstrap⟩, 1, ⟨2⟩⟩ .retry]
    let desk := ((start backoff 0).run calls).desk
    desk.queue.scheduled = [⟨1500000, ⟨1⟩⟩, ⟨2500000, ⟨2⟩⟩] ∧
      desk.queue.taskState ⟨1⟩ = none ∧
      desk.OnTime (Clock.ofMillis 2)
        (({ now := desk.now, queue := desk.queue } : Session).awaitUntil
          (desk.now + Clock.ofMillis 2)) := by
  intro backoff calls
  exact ⟨by decide +kernel, by decide +kernel, (lease_on_time backoff 0 calls (Clock.ofMillis 2)
    (by decide +kernel) (by decide +kernel) (by decide)).1⟩

end Usage

end PacedChain
