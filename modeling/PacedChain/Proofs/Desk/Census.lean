import PacedChain.Proofs.Desk.Usage
import PacedChain.Proofs.Queue.Recorded

/-!
# Counts, history and log

The journal of a desk tells which tasks were created (`Desk.accepted`) and which have ended
(`Desk.endings`), since the clock was started. The queue keeps only so much of both as its history
limit allows, and counts the rest. What it keeps and counts is exact in every state that is reached
(`Usage.census_exact`): each task is counted once, and the last ones to end and the last enqueues
are those that are kept.
-/
namespace PacedChain

/-- What the log says of the task that was created by a call at some time. -/
def Entry.accepted? (at_ : Nat) : Entry → Option LogEntry
  | .enqueue job (.ok task) => some (.of at_ job Delay.zero task)
  | .enqueueDelayed job delay (.ok task) => some (.of at_ job delay task)
  | .enqueueUnique _ _ job (.ok (.enqueued task))
  | .enqueueUnique _ _ job (.ok (.replaced _ task)) => some (.of at_ job Delay.zero task)
  | _ => none

/-- The task that was ended by a call, and the state in which it ended. -/
def Entry.ending? : Entry → Option (TaskId × TaskState)
  | .complete task _ (.ok .succeeded) => some (task, .succeeded)
  | .complete task _ (.ok (.dead _)) => some (task, .dead)
  | .enqueueUnique _ _ _ (.ok (.replaced previous _)) => some (previous, .cancelled)
  | _ => none

namespace Desk

/-- The enqueues that created a task, the first one first. -/
def accepted (d : Desk) : List LogEntry :=
  (d.journal.filterMap fun entry => entry.2.accepted? entry.1).reverse

/-- The tasks that have ended, the first one to end first. -/
def endings (d : Desk) : List (TaskId × TaskState) :=
  (d.journal.filterMap (·.2.ending?)).reverse

variable {d : Desk} {limit : Nat}

@[simp] theorem accepted_enter (d : Desk) (q : Queue) (entry : Entry) :
    (d.enter q entry).accepted = d.accepted ++ (entry.accepted? d.now).toList := by
  cases found : entry.accepted? d.now <;> simp [accepted, enter, found]

@[simp] theorem endings_enter (d : Desk) (q : Queue) (entry : Entry) :
    (d.enter q entry).endings = d.endings ++ entry.ending?.toList := by
  cases found : entry.ending? <;> simp [endings, enter, found]

/-- The queue of a desk keeps and counts what its journal tells. -/
def Recorded (d : Desk) (limit : Nat) : Prop := d.queue.Recorded limit d.accepted d.endings

/-- A call that neither creates a task nor ends one adds nothing to what is told. -/
theorem recorded_enter {q : Queue} {entry : Entry}
    (recorded : q.Recorded limit d.accepted d.endings) (creates : entry.accepted? d.now = none)
    (ends : entry.ending? = none) : (d.enter q entry).Recorded limit := by
  unfold Recorded
  rw [accepted_enter, endings_enter, creates, ends]
  simpa [enter] using recorded

/-- A call that creates a task adds its entry to the log. -/
theorem recorded_enter_insert {q : Queue} {entry : Entry} {new : LogEntry}
    (recorded : q.Recorded limit (d.accepted ++ [new]) d.endings)
    (creates : entry.accepted? d.now = some new) (ends : entry.ending? = none) :
    (d.enter q entry).Recorded limit := by
  unfold Recorded
  rw [accepted_enter, endings_enter, creates, ends]
  simpa [enter] using recorded

/-- A call that ends a task adds it to what has ended. -/
theorem recorded_enter_finish {q : Queue} {entry : Entry} {gone : TaskId × TaskState}
    (recorded : q.Recorded limit d.accepted (d.endings ++ [gone]))
    (creates : entry.accepted? d.now = none) (ends : entry.ending? = some gone) :
    (d.enter q entry).Recorded limit := by
  unfold Recorded
  rw [accepted_enter, endings_enter, creates, ends]
  simpa [enter] using recorded

/-! ### The census -/

/-- The counts, the history and the log of a queue, read off the journal of all calls on it. -/
structure Census (d : Desk) (limit : Nat) : Prop where
  /-- Every task that was ever created is counted in one state. -/
  every : d.queue.counts.queued + d.queue.counts.delayed + d.queue.counts.running +
    d.queue.counts.retryScheduled + d.queue.counts.succeeded + d.queue.counts.dead +
    d.queue.counts.cancelled = d.accepted.length
  succeeded : d.queue.counts.succeeded = d.endings.countP (·.2 = .succeeded)
  dead : d.queue.counts.dead = d.endings.countP (·.2 = .dead)
  cancelled : d.queue.counts.cancelled = d.endings.countP (·.2 = .cancelled)
  pending : d.queue.counts.pending = d.queue.unfinished .bootstrap + d.queue.unfinished .sync
  retained : d.queue.retained = d.queue.counts.pending +
    min limit (d.queue.counts.succeeded + d.queue.counts.dead + d.queue.counts.cancelled)
  /-- No task ends twice. -/
  once : (d.endings.map Prod.fst).Nodup
  /-- A task is known to have ended exactly if it is among the last ones to end. -/
  known : ∀ id state, state.isTerminal = true →
    (d.queue.taskState id = some state ↔ (id, state) ∈ lastOf limit d.endings)
  /-- The log is the last of the accepted enqueues, in order. -/
  log : d.queue.log = lastOf limit d.accepted
  size : d.queue.log.length = min limit d.accepted.length
  /-- There is one accepted enqueue for every number that was given out. -/
  numbered : d.accepted.map (·.task) = (List.range d.queue.created).map fun n => ⟨n + 1⟩
  /-- A task is held back for its delay, or for thirty years if that is less. -/
  waits : ∀ entry ∈ d.accepted, entry.notBefore =
    entry.enqueuedAt + min (Clock.ofSecs entry.delay.secs) (Clock.ofSecs (30 * 365 * 86400))

theorem countP_ended (states : List (TaskId × TaskState)) (state : TaskState) :
    (states.map Prod.snd).count state = states.countP (·.2 = state) := by
  rw [List.count, List.countP_map]
  apply List.countP_congr
  intro entry _
  simp

theorem waits_of_mem_accepted {entry : LogEntry} (member : entry ∈ d.accepted) :
    entry.notBefore =
      entry.enqueuedAt + min (Clock.ofSecs entry.delay.secs) (Clock.ofSecs (30 * 365 * 86400)) := by
  obtain ⟨⟨t, call⟩, _, accepted⟩ := List.mem_filterMap.mp (List.mem_reverse.mp member)
  unfold Entry.accepted? at accepted
  split at accepted <;> cases accepted <;> rfl

/-- What is kept of the finished tasks are the last ones to end, in the states they ended in. -/
theorem known_iff (kept : d.queue.Kept) (recorded : d.Recorded limit) {id : TaskId}
    {state : TaskState} (terminal : state.isTerminal = true) :
    d.queue.taskState id = some state ↔ (id, state) ∈ lastOf limit d.endings := by
  have listed : d.queue.finished = (lastOf limit d.endings).map Prod.fst := by
    rw [recorded.finished, lastOf, lastOf, List.map_drop, List.length_map]
  constructor
  · intro found
    obtain ⟨task, known, rfl⟩ := Option.map_eq_some_iff.mp found
    have member := (kept.finished id).mpr ⟨task, known, terminal⟩
    rw [listed] at member
    obtain ⟨entry, last, rfl⟩ := List.mem_map.mp member
    rw [recorded.settled entry (List.mem_of_mem_drop last) task known]
    exact last
  · intro last
    have member : id ∈ d.queue.finished := by
      rw [listed]
      exact List.mem_map_of_mem last
    obtain ⟨task, known, _⟩ := (kept.finished id).mp member
    rw [Queue.taskState_of_task? known,
      recorded.settled (id, state) (List.mem_of_mem_drop last) task known]

theorem Recorded.census (recorded : d.Recorded limit) (kept : d.queue.Kept) : d.Census limit := by
  have pending := d.queue.pending_eq_unfinished
  have created : d.accepted.length = d.queue.created := by
    have same := congrArg List.length recorded.numbered
    rwa [List.length_map, List.length_map, List.length_range] at same
  have totals : d.queue.totals.succeeded + d.queue.totals.dead + d.queue.totals.cancelled =
      d.endings.length := by
    rw [recorded.totals, Totals.sum_of, List.length_map]
    intro state member
    obtain ⟨entry, ended, rfl⟩ := List.mem_map.mp member
    exact recorded.terminal entry ended
  constructor
  case every =>
    have whole := recorded.whole
    rw [← pending] at whole
    simp only [Counts.pending] at whole
    simp only [Queue.counts] at whole ⊢
    omega
  case succeeded =>
    rw [← countP_ended]
    exact congrArg Totals.succeeded recorded.totals
  case dead =>
    rw [← countP_ended]
    exact congrArg Totals.dead recorded.totals
  case cancelled =>
    rw [← countP_ended]
    exact congrArg Totals.cancelled recorded.totals
  case pending => exact pending
  case retained =>
    rw [Queue.retained_eq kept, recorded.finished, length_lastOf, List.length_map, ← totals]
    rfl
  case once => exact recorded.once
  case known => exact fun id state terminal => known_iff kept recorded terminal
  case log => exact recorded.log
  case size => rw [recorded.log, length_lastOf]
  case numbered => exact recorded.numbered
  case waits => exact fun entry member => waits_of_mem_accepted member

end Desk

namespace Usage

variable {u : Usage} {limit : Nat}

theorem recorded_enqueueDelayed (sound : u.Sound) (recorded : u.desk.Recorded limit)
    (entry : Except QueueError TaskId → Entry) (job : Job) (delay : Delay)
    (accepts : ∀ task, (entry (.ok task)).accepted? u.desk.now =
      some (.of u.desk.now job delay task))
    (refuses : ∀ error, (entry (.error error)).accepted? u.desk.now = none)
    (ends : ∀ result, (entry result).ending? = none) :
    (u.desk.enter (u.desk.queue.enqueueDelayed u.desk.now job delay).2
      (entry (u.desk.queue.enqueueDelayed u.desk.now job delay).1)).Recorded limit := by
  rcases Queue.enqueueDelayed_cases u.desk.queue u.desk.now job delay with
    ⟨_, same⟩ | ⟨_, same⟩ <;> rw [same]
  · exact Desk.recorded_enter recorded (refuses _) (ends _)
  · have inserted := Queue.Recorded.insert recorded sound.kept u.desk.now job delay none
    exact Desk.recorded_enter_insert inserted (accepts _) (ends _)

theorem recorded_enqueueUnique (sound : u.Sound) (recorded : u.desk.Recorded limit) (key : Key)
    (policy : HolderPolicy) (job : Job) :
    (u.perform (.enqueueUnique key policy job)).desk.Recorded limit := by
  have kept := sound.kept
  change (u.desk.enter (u.desk.queue.enqueueUnique u.desk.now key policy job).2
    (.enqueueUnique key policy job
      (u.desk.queue.enqueueUnique u.desk.now key policy job).1)).Recorded limit
  rcases Queue.enqueueUnique_cases u.desk.queue u.desk.now key policy job with
    ⟨_, same⟩ | ⟨_, _, same⟩ | ⟨_, _, _, _, _, same⟩ | ⟨_, previous, _, held, _, _, same⟩ <;>
    rw [same]
  · exact Desk.recorded_enter recorded rfl rfl
  · have inserted := Queue.Recorded.insert recorded kept u.desk.now job Delay.zero (some key)
    exact Desk.recorded_enter_insert inserted rfl rfl
  · exact Desk.recorded_enter recorded rfl rfl
  -- A replacement ends one task and creates another one.
  · obtain ⟨_, task, known, _, live⟩ := Queue.of_liveHolder held
    have cancelled := Queue.Recorded.finish (f := (·.cancel u.desk.now)) recorded kept known live
      rfl
    have inserted := cancelled.insert (kept.finish known live rfl) u.desk.now job Delay.zero
      (some key)
    rw [Queue.created_finish] at inserted
    unfold Desk.Recorded
    rw [Desk.accepted_enter, Desk.endings_enter]
    exact inserted

theorem recorded_look (sound : u.Sound) (recorded : u.desk.Recorded limit) :
    (u.perform .look).desk.Recorded limit := by
  have looked := Queue.Recorded.look recorded sound.kept u.desk.now
  rcases seen : u.desk.queue.look u.desk.now with ⟨_ | lease | wake, q⟩ <;> rw [seen] at looked
  · rw [perform_look_closed seen]
    exact Desk.recorded_enter looked rfl rfl
  · rw [perform_look_leased seen]
    exact Desk.recorded_enter looked rfl rfl
  · rw [perform_look_idle seen]
    exact looked

theorem recorded_complete (sound : u.Sound) (recorded : u.desk.Recorded limit) (lease : Lease)
    (outcome : Outcome) : (u.perform (.complete lease outcome)).desk.Recorded limit := by
  rw [perform]
  split
  · next out =>
    obtain ⟨task, known, runs, _⟩ := sound.leased lease out
    have live : task.state.isTerminal = false := by rw [runs]; rfl
    change (u.desk.enter (u.desk.queue.complete u.desk.now lease.envelope.task outcome).2
      (.complete lease.envelope.task outcome
        (u.desk.queue.complete u.desk.now lease.envelope.task outcome).1)).Recorded limit
    rcases Queue.complete_cases known u.desk.now outcome with
      ⟨_, same⟩ | ⟨_, same⟩ | ⟨_, delay, same⟩ | ⟨_, error, same⟩ <;> rw [same]
    · have finished := Queue.Recorded.finish (f := (·.succeed u.desk.now)) recorded sound.kept known
        live rfl
      exact Desk.recorded_enter_finish (finished.congr rfl rfl rfl rfl rfl rfl) rfl rfl
    · have finished := Queue.Recorded.finish (f := (·.die u.desk.now)) recorded sound.kept known
        live rfl
      exact Desk.recorded_enter_finish (finished.congr rfl rfl rfl rfl rfl rfl) rfl rfl
    · have waits := Queue.Recorded.modify recorded
        (f := (·.scheduleRetry (Clock.deadline u.desk.now delay) u.desk.now)) sound.kept known live
        rfl rfl
      exact Desk.recorded_enter (waits.congr rfl rfl rfl rfl rfl rfl) rfl rfl
    · exact Desk.recorded_enter recorded rfl rfl
  · exact recorded

theorem recorded_perform (sound : u.Sound) (recorded : u.desk.Recorded limit) (call : Call) :
    (u.perform call).desk.Recorded limit := by
  cases call with
  | enqueue job =>
    exact recorded_enqueueDelayed sound recorded (.enqueue job) job Delay.zero (fun _ => rfl)
      (fun _ => rfl) fun _ => rfl
  | enqueueDelayed job delay =>
    exact recorded_enqueueDelayed sound recorded (.enqueueDelayed job delay) job delay
      (fun _ => rfl) (fun _ => rfl) fun _ => rfl
  | enqueueUnique key policy job => exact recorded_enqueueUnique sound recorded key policy job
  | look => exact recorded_look sound recorded
  | complete lease outcome => exact recorded_complete sound recorded lease outcome
  | close => exact Queue.Recorded.congr recorded rfl rfl rfl rfl rfl rfl
  | drop | pass => exact recorded

/-- Whatever is done with a queue, its counts, its history and its log are exact. -/
theorem census_exact (backoff : Backoff) (limit : Nat) (calls : List Call) :
    ((start backoff limit).run calls).desk.Census limit := by
  have first : (start backoff limit).desk.Recorded limit := Queue.recorded_empty backoff limit
  have reached := run_induction (P := fun u => u.Sound ∧ u.desk.Recorded limit)
    (fun _ call now => ⟨now.1.perform call, recorded_perform now.1 now.2 call⟩)
    ⟨sound_start backoff limit, first⟩ calls
  exact reached.2.census reached.1.kept

/-- Of two tasks that have ended, a limit of one keeps the second: the first, which was replaced, is
counted and forgotten. -/
example :
    let calls : List Call := [.enqueueUnique .standard .replace .sync,
      .enqueueUnique .standard .replace .sync, .look, .complete ⟨⟨⟨2⟩, .sync⟩, 1, ⟨1⟩⟩ .success]
    let d := ((start Backoff.standard 1).run calls).desk
    d.endings = [(⟨1⟩, .cancelled), (⟨2⟩, .succeeded)] ∧ d.queue.taskState ⟨1⟩ = none ∧
      d.queue.taskState ⟨2⟩ = some .succeeded ∧ d.queue.log.map (·.task) = [⟨2⟩] := by
  decide +kernel

end Usage

end PacedChain
