import PacedChain.Queue.Vigil
import PacedChain.Proofs.Queue.Alike
import PacedChain.Proofs.Queue.Lapses

/-!
# Calls and alarms are enough

While the wait in the background sleeps, nothing is due, and its alarm goes off no later than any
task falls due (`Session.Armed`). So it wakes in time to hand out every task when a session that
watches its queue all the time would, and the answers are the same (`Vigil.run_eq`).
-/
namespace PacedChain

/-- What a task lapses into is not due unless the task was. -/
theorem Task.Lapses.dueTime? {withdrawn : Prop} {now due : Nat} {o : Option Task} {task : Task}
    (lapses : Lapses withdrawn now o (some task))
    (early : ∀ old due, o = some old → old.dueTime? now = some due → now < due)
    (time : task.dueTime? now = some due) : ∃ old, o = some old ∧ old.dueTime? now = some due := by
  refine lapses.keeps (P := fun o' => ∀ task due, o' = some task → task.dueTime? now = some due →
    ∃ old, o = some old ∧ old.dueTime? now = some due) ?_
    (fun task _ same time => ⟨task, same, time⟩) task due rfl time
  intro _ _ lapse before task due same time
  cases lapse with
  | @due old notBefore waits known passed =>
    have was : old.dueTime? now = some notBefore := by
      cases state : old.state <;> simp_all [TaskState.isWaiting, Task.dueTime?]
    obtain ⟨first, same, time⟩ := before old notBefore rfl was
    have := early first notBefore same time
    omega
  | cancel =>
    cases same
    cases time
  | forget => cases same

theorem Clock.lt_of_lt_wholeMilli {now due : Nat} (whole : milli ∣ now)
    (h : now < wholeMilli due) : now < due := by
  by_contra late
  have := wholeMilli_mono (Nat.not_lt.mp late)
  rw [wholeMilli_eq_self whole] at this
  omega

namespace Queue

variable {q : Queue} {out : List Lease} {i : TaskId} {task : Task} {now : Nat}

theorem Used.glance (used : q.Used out) (now : Nat) : (q.glance now).Used out := by
  unfold Queue.glance
  rcases seen : q.look now with ⟨_ | _ | _, q'⟩
  · exact used
  · exact used
  · obtain ⟨journal, after⟩ := used.perform now .look
    rw [Usage.perform_look_idle seen] at after
    exact after

theorem Ordered.glance (ordered : q.Ordered) (now : Nat) : (q.glance now).Ordered := by
  have after := ordered.look now
  unfold Queue.glance
  rcases seen : q.look now with ⟨_ | _ | _, q'⟩ <;> rw [seen] at after
  · exact ordered
  · exact ordered
  · exact after

/-- The first of two looks drops stale entries at most. -/
theorem tidy_glance (proper : q.Proper) (now : Nat) : (q.glance now).tidy = q.tidy := by
  unfold glance
  rcases seen : q.look now with ⟨_ | _ | _, q'⟩
  · rfl
  · rfl
  · exact (idle_of_look proper seen).alike

/-- Where nothing is due yet, ending a task lets none fall due earlier. -/
theorem dueTimes_settle (kept : q.Kept) (known : q.task? i = some task) {f : Task → Task}
    (ends : (f task).state.isTerminal = true) (early : q.Early now) :
    (q.settle i task f).dueTimes now ⊆ q.dueTimes now := by
  obtain ⟨itself, others⟩ := lapses_finish kept known ends False now
  change ∀ due ∈ (q.finish i f).dueTimes now, _
  rintro due ⟨j, found, known', time⟩
  by_cases here : j = i
  · subst here
    have never : ∀ due, (f task).dueTime? now ≠ some due := by
      intro due
      cases state : (f task).state <;> simp_all [TaskState.isTerminal, Task.dueTime?]
    rw [known'] at itself
    have early_here : ∀ old due, some (f task) = some old → old.dueTime? now = some due →
        now < due := by
      rintro _ due ⟨⟩ was
      exact absurd was (never due)
    obtain ⟨_, ⟨⟩, was⟩ := itself.dueTime? early_here time
    exact absurd was (never due)
  · have lapses := others j here
    rw [known'] at lapses
    have early_here : ∀ old due, q.task? j = some old → old.dueTime? now = some due → now < due :=
      fun old due same was => early j due ⟨old, same, was⟩
    obtain ⟨old, same, was⟩ := lapses.dueTime? early_here time
    exact ⟨j, old, same, was⟩

end Queue

/-- Of whatever lets time pass, how much is a matter of whole milliseconds. -/
def Operation.Whole : Operation → Prop
  | .lease duration | .sleep duration => Clock.milli ∣ duration
  | _ => True

namespace Session

variable {s s' t : Session} {alarm : Option Nat} {deadline : Nat}

/-- A wait in the background with this alarm can sleep: the queue is open, nothing is due, and
nothing falls due before the alarm. -/
structure Armed (s : Session) (alarm : Option Nat) : Prop where
  opened : s.queue.closed = false
  later : ∀ due ∈ s.queue.dueTimes s.now, s.now < due ∧ ∃ time, alarm = some time ∧ time ≤ due

namespace Armed

theorem early (armed : s.Armed alarm) : s.queue.Early s.now :=
  fun i due h => (armed.later due ⟨i, h⟩).1

theorem of_tidy_eq (armed : s.Armed alarm) (alike : s.tidy = t.tidy) : t.Armed alarm := by
  obtain ⟨q, rfl, same⟩ := Session.of_tidy_eq alike
  refine ⟨?_, ?_⟩
  · exact (Queue.closed_of_tidy_eq same).symm.trans armed.opened
  · rw [← Queue.dueTimes_of_tidy_eq same]
    exact armed.later

/-- Where fewer tasks are due, and none earlier, the alarm is as good. -/
theorem mono (armed : s.Armed alarm) {q : Queue} (closed : q.closed = s.queue.closed)
    (fewer : q.dueTimes s.now ⊆ s.queue.dueTimes s.now) : Armed { s with queue := q } alarm :=
  ⟨closed.trans armed.opened, fun due member => armed.later due (fewer member)⟩

/-- Time may pass until something falls due. -/
theorem pass (armed : s.Armed alarm) {now : Nat}
    (late : ∀ due ∈ s.queue.dueTimes s.now, now < due) : Armed { s with now } alarm := by
  refine ⟨armed.opened, ?_⟩
  change ∀ due ∈ s.queue.dueTimes now, _
  rw [Queue.dueTimes_later armed.early.none_queued s.now now]
  exact fun due member => ⟨late due member, (armed.later due member).2⟩

/-- The first time in the schedule is as good an alarm as any. -/
theorem head (proper : s.Proper) (opened : s.queue.closed = false)
    (early : s.queue.Early s.now) : s.Armed (s.queue.scheduled.head?.map (·.notBefore)) := by
  refine ⟨opened, ?_⟩
  rintro due ⟨i, h⟩
  refine ⟨early i due h, ?_⟩
  obtain ⟨task, known, ⟨queued, rfl⟩ | ⟨waits, time⟩⟩ := h.cases
  · exact absurd (early i s.now h) (Nat.lt_irrefl _)
  · obtain ⟨notBefore, time', listed⟩ := proper.queue.entry known waits
    rw [time, Option.some.injEq] at time'
    subst time'
    exact Queue.InOrder.head_le proper.queue.ordered listed

end Armed

/-! ### The wait in the background -/

/-- A wait may as well begin at a whole millisecond before which nothing falls due. -/
theorem awaitUntil_of_reached (proper : s.Proper) (proper' : t.Proper) (alike : s.tidy = t.tidy)
    (opened : s.queue.closed = false) {now : Nat} (whole : Clock.milli ∣ now)
    (in_time : now ≤ deadline)
    (reached : ∀ due ∈ s.queue.dueTimes s.now, s.now < due ∧ now ≤ Clock.wholeMilli due) :
    Prod.map id tidy (({ s with now } : Session).awaitUntil deadline) =
      Prod.map id tidy (t.awaitUntil deadline) := by
  obtain ⟨q, rfl, same⟩ := Session.of_tidy_eq alike
  rw [Queue.closed_of_tidy_eq same] at opened
  rw [Queue.dueTimes_of_tidy_eq same] at reached
  have waited := Queue.leaseBy_later proper.queue proper'.queue same opened whole in_time reached
  have awaited := Queue.leaseBy_awaited proper'.queue s.now deadline
  obtain ⟨w, q₁, q₂, here, there, same'⟩ := prod_map_eq_cases waited
  rw [there] at awaited
  simp only [awaitUntil, here, there]
  cases awaited with
  | closed shut =>
    rw [opened] at shut
    cases shut
  | leased | timedOut => simp [Prod.map, tidy, same']

/-- A wait may as well begin when its alarm goes off. -/
theorem awaitUntil_later (proper : s.Proper) (proper' : t.Proper) (alike : s.tidy = t.tidy)
    (armed : s.Armed alarm) {now : Nat} (whole : Clock.milli ∣ now) (in_time : now ≤ deadline)
    (reached : ∀ time, alarm = some time → now ≤ max s.now (Clock.wholeMilli time)) :
    Prod.map id tidy (({ s with now } : Session).awaitUntil deadline) =
      Prod.map id tidy (t.awaitUntil deadline) := by
  refine awaitUntil_of_reached proper proper' alike armed.opened whole in_time fun due member => ?_
  obtain ⟨later, time, set, early⟩ := armed.later due member
  have := reached time set
  have := Clock.wholeMilli_mono early
  have := Clock.le_wholeMilli due
  exact ⟨later, by omega⟩

/-- Where nothing falls due, the wait in the background goes on. -/
theorem settleWaiter_of_late (proper : s.Proper) (waits : s.waiting = true)
    (armed : s.Armed alarm)
    (late : ∀ due ∈ s.queue.dueTimes s.now, deadline < Clock.wholeMilli due) :
    ∃ q, s.settleWaiter deadline = (none, { s with queue := q, now := deadline }) ∧
      q.tidy = s.queue.tidy := by
  have awaited := Queue.leaseBy_awaited proper.queue s.now deadline
  rcases found : s.queue.leaseBy s.now deadline with ⟨w, q⟩
  rw [found] at awaited
  cases awaited with
  | closed shut =>
    rw [armed.opened] at shut
    cases shut
  | @leased first _ _ _ _ least in_time =>
    have := late first least.1
    have := (armed.later first least.1).1
    omega
  | timedOut _ alike => exact ⟨q, by simp [settleWaiter, awaitUntil, found, waits], alike⟩

/-- For a wait that goes on, the first time in the schedule is alarm enough. -/
theorem armed_settleWaiter (proper : s.Proper) (waits : s.waiting = true)
    (whole : Clock.milli ∣ deadline) (still : (s.settleWaiter deadline).2.waiting = true) :
    ({ (s.settleWaiter deadline).2 with now := deadline } : Session).Armed
      ((s.settleWaiter deadline).2.queue.scheduled.head?.map (·.notBefore)) := by
  have after := proper.settleWaiter deadline
  obtain ⟨q, waited, settled, alike⟩ := settleWaiter_of_waiting proper waits still
  obtain ⟨_, _, _, _, opened, late⟩ := of_awaitUntil_timedOut proper waited
  have early : s.queue.Early s.now := fun i due h => (late due ⟨i, h⟩).1
  have times : q.dueTimes deadline = s.queue.dueTimes s.now :=
    (Queue.dueTimes_of_tidy_eq alike deadline).trans (Queue.dueTimes_later early.none_queued _ _)
  rw [settled] at after ⊢
  refine .head after ((Queue.closed_of_tidy_eq alike).trans opened) fun i due h => ?_
  have member : due ∈ s.queue.dueTimes s.now := times ▸ ⟨i, h⟩
  exact Clock.lt_of_lt_wholeMilli whole (late due member).2

/-- A wait ends at a whole millisecond if it begins at one and is to end at one. -/
theorem whole_awaitUntil (proper : s.Proper) (begins : Clock.milli ∣ s.now)
    (ends : Clock.milli ∣ deadline) : Clock.milli ∣ (s.awaitUntil deadline).2.now := by
  have awaited := Queue.leaseBy_awaited proper.queue s.now deadline
  rcases found : s.queue.leaseBy s.now deadline with ⟨w, q⟩
  rw [found] at awaited
  simp only [awaitUntil, found]
  cases awaited with
  | closed => exact begins
  | @leased first =>
    change Clock.milli ∣ Clock.lookFor s.now first
    unfold Clock.lookFor
    split
    · exact begins
    · exact Clock.milli_dvd_wholeMilli first
  | timedOut => exact ends

theorem whole_perform (proper : s.Proper) (begins : Clock.milli ∣ s.now) {op : Operation}
    (whole : op.Whole) {reply : Reply} (performed : s.perform op = .ok (reply, s')) :
    Clock.milli ∣ s'.now := by
  cases op with
  | lease patience =>
    have ends := whole_awaitUntil proper begins (Nat.dvd_add begins whole)
    simp only [perform] at performed
    rcases waited : s.awaitUntil (s.now + patience) with ⟨_ | _ | _, s₁⟩ <;>
      rw [waited] at performed ends <;> cases performed <;> exact ends
  | complete number outcome =>
    rcases of_perform_complete performed with ⟨_, rfl⟩ | ⟨_, _, _, _, _, _, rfl, _⟩ <;> exact begins
  | dropLease number =>
    obtain ⟨_, rfl⟩ := of_perform_dropLease performed
    exact begins
  | enqueue | enqueueDelayed | enqueueUnique | wait | abortWait | sleep | close | log | retained
  | taskState | unfinished =>
    cases performed
    exact begins

end Session

namespace Vigil

variable {v v' : Vigil} {s s' : Session} {op : Operation} {reply : Reply} {deadline : Nat}

/-- The wait in the background, if there is one, can sleep. -/
def Asleep (v : Vigil) : Prop := v.session.waiting = true → v.session.Armed v.alarm

/-- The wait in the background, if there is one, looks at once or can sleep. -/
def Alert (v : Vigil) : Prop :=
  v.session.waiting = true → v.nextLook = some v.session.now ∨ v.session.Armed v.alarm

theorem alert_of_called (called : v.called = true) : v.Alert := by
  intro _
  left
  simp [nextLook, called]

/-- A lease that another one waits for leaves the wait in the background time to look. -/
theorem alert_lease (proper : v.session.Proper) (begins : Clock.milli ∣ v.session.now)
    {patience : Nat} (whole : Clock.milli ∣ patience) (armed : v.session.Armed v.alarm)
    (performed : v.session.perform (.lease patience) = .ok (reply, s')) :
    ({ v with session := s', called := false } : Vigil).Alert := by
  intro _
  have awaited := Queue.leaseBy_awaited proper.queue v.session.now (v.session.now + patience)
  rcases found : v.session.queue.leaseBy v.session.now (v.session.now + patience) with ⟨w, q⟩
  rw [found] at awaited
  simp only [Session.perform, Session.awaitUntil, found] at performed
  cases awaited with
  | closed shut =>
    rw [armed.opened] at shut
    cases shut
  | @leased first _ _ lease _ least =>
    cases performed
    obtain ⟨later, time, set, early⟩ := armed.later first least.1
    left
    have := Clock.wholeMilli_mono early
    simp [nextLook, set, Clock.lookFor, Nat.not_le.mpr later, Session.take, this]
  | timedOut _ alike late =>
    cases performed
    right
    have passed := armed.pass fun due member =>
      Clock.lt_of_lt_wholeMilli (Nat.dvd_add begins whole) (late due member).2
    exact passed.of_tidy_eq (by simp [Session.tidy, alike])

/-- What a completion has not called for does not fall due any earlier. -/
theorem alert_complete (proper : v.session.Proper) (armed : v.session.Armed v.alarm) {number : Nat}
    {outcome : Outcome}
    (performed : v.session.perform (.complete number outcome) = .ok (reply, s')) :
    ({ v with session := s', called := v.called || reply.calls } : Vigil).Alert := by
  rcases Session.of_perform_complete performed with
    ⟨rfl, rfl⟩ | ⟨lease, leases, result, queue, perm, done, rfl, answer⟩
  · exact fun _ => Or.inr armed
  · have member : lease ∈ v.session.held := perm.symm.subset List.mem_cons_self
    obtain ⟨task, known, _⟩ := Queue.Used.running_of_mem proper.sound member
    have kept := Queue.Used.kept proper.sound
    have ended : ∀ f : Task → Task, (f task).state.isTerminal = true →
        queue = v.session.queue.settle lease.envelope.task task f →
        ({ v.session with queue, leases } : Session).Armed v.alarm := by
      rintro f ends rfl
      have stays := armed.mono (Queue.closed_finish v.session.queue lease.envelope.task f)
        (Queue.dueTimes_settle kept known ends armed.early)
      exact ⟨stays.opened, stays.later⟩
    rcases Queue.complete_cases known v.session.now outcome with
      ⟨_, same⟩ | ⟨_, same⟩ | ⟨_, _, same⟩ | ⟨_, _, same⟩ <;> cases same.symm.trans done
    · exact fun _ => Or.inr (ended (·.succeed v.session.now) rfl rfl)
    · exact fun _ => Or.inr (ended (·.die v.session.now) rfl rfl)
    · rcases answer with ⟨_, ⟨⟩, rfl⟩ | ⟨_, ⟨⟩, _⟩
      exact alert_of_called (by simp [Reply.calls])
    · rcases answer with ⟨_, ⟨⟩, _⟩ | ⟨_, ⟨⟩, _⟩

theorem alert_perform (proper : v.session.Proper) (begins : Clock.milli ∣ v.session.now)
    (whole : op.Whole) (asleep : v.Asleep)
    (performed : v.session.perform op = .ok (reply, s')) :
    ({ v with session := s', called := v.calledAfter op reply } : Vigil).Alert := by
  by_cases begun : op = .wait
  · subst begun
    exact alert_of_called rfl
  by_cases given_up : op = .abortWait
  · subst given_up
    cases performed
    exact fun waits => by cases waits
  intro waits
  have stays := Session.waiting_perform begun given_up performed
  have armed := asleep (stays.symm.trans waits)
  cases op with
  | wait => exact absurd rfl begun
  | abortWait => exact absurd rfl given_up
  | enqueue job =>
    rcases Queue.enqueueDelayed_cases v.session.queue v.session.now job Delay.zero with
      ⟨shut, _⟩ | ⟨_, same⟩
    · cases armed.opened.symm.trans shut
    · simp only [Session.perform, Queue.enqueue, same] at performed
      cases performed
      exact alert_of_called (by simp [calledAfter, Reply.calls]) waits
  | enqueueDelayed job delay =>
    rcases Queue.enqueueDelayed_cases v.session.queue v.session.now job delay with
      ⟨shut, _⟩ | ⟨_, same⟩
    · cases armed.opened.symm.trans shut
    · simp only [Session.perform, same] at performed
      cases performed
      exact alert_of_called (by simp [calledAfter, Reply.calls]) waits
  | enqueueUnique key policy job =>
    rcases Queue.enqueueUnique_cases v.session.queue v.session.now key policy job with
      ⟨shut, _⟩ | ⟨_, _, same⟩ | ⟨_, _, _, _, _, same⟩ | ⟨_, _, _, _, _, _, same⟩
    · cases armed.opened.symm.trans shut
    all_goals
      simp only [Session.perform, same] at performed
      cases performed
    · exact alert_of_called (by simp [calledAfter, Reply.calls]) waits
    · exact Or.inr armed
    · exact alert_of_called (by simp [calledAfter, Reply.calls]) waits
  | lease patience => exact alert_lease proper begins whole armed performed waits
  | complete number outcome => exact alert_complete proper armed performed waits
  | dropLease number =>
    obtain ⟨_, rfl⟩ := Session.of_perform_dropLease performed
    exact Or.inr ⟨armed.opened, armed.later⟩
  | close =>
    cases performed
    exact alert_of_called (by simp [calledAfter, stays.symm.trans waits]) waits
  | sleep | log | retained | taskState | unfinished =>
    cases performed
    exact Or.inr armed

/-! ### The same as in a session that watches -/

/-- Both sessions are in the same state but for stale entries, at a whole millisecond. -/
structure Follows (v : Vigil) (s : Session) : Prop where
  proper : v.session.Proper
  proper' : s.Proper
  alike : v.session.tidy = s.tidy
  whole : Clock.milli ∣ v.session.now

theorem settle_of_not_waiting (idle : v.session.waiting = false) :
    v.settle deadline = (none, v) := by
  unfold settle
  cases v.nextLook <;> simp [idle]

theorem settle_of_asleep (asleep : ∀ now, v.nextLook = some now → deadline < now) :
    v.settle deadline = (none, v) := by
  unfold settle
  cases next : v.nextLook with
  | none => rfl
  | some now => simp [Nat.not_le.mpr (asleep now next)]

theorem settle_of_look {now : Nat} (waits : v.session.waiting = true)
    (looks : v.nextLook = some now) (in_time : now ≤ deadline) :
    v.settle deadline = Prod.map id (fun session =>
      { session, alarm := session.queue.scheduled.head?.map (·.notBefore) })
        (({ v.session with now } : Session).settleWaiter deadline) := by
  simp [settle, looks, waits, in_time, Prod.map]

theorem nextLook_le {now : Nat} (looks : v.nextLook = some now) {time : Nat}
    (set : v.alarm = some time) : now ≤ max v.session.now (Clock.wholeMilli time) := by
  unfold nextLook at looks
  split at looks
  · cases looks
    exact Nat.le_max_left _ _
  · rw [set] at looks
    cases looks
    exact Nat.le_refl _

theorem whole_nextLook (begins : Clock.milli ∣ v.session.now) {now : Nat}
    (looks : v.nextLook = some now) : Clock.milli ∣ now := by
  unfold nextLook at looks
  split at looks
  · cases looks
    exact begins
  · obtain ⟨time, _, rfl⟩ := Option.map_eq_some_iff.mp looks
    rcases Nat.le_total v.session.now (Clock.wholeMilli time) with le | le
    · rw [Nat.max_eq_right le]
      exact Clock.milli_dvd_wholeMilli time
    · rw [Nat.max_eq_left le]
      exact begins

namespace Follows

theorem glance (follows : v.Follows s) :
    ({ v with session.queue := v.session.queue.glance v.session.now } : Vigil).Follows s where
  proper := ⟨Queue.Used.glance follows.proper.sound _, follows.proper.ordered.glance _⟩
  proper' := follows.proper'
  alike := by
    rw [← follows.alike]
    simp [Session.tidy, Queue.tidy_glance follows.proper.queue]
  whole := follows.whole

/-- A look finds what a session that watches would have found by then. -/
theorem look (follows : v.Follows s) (alert : v.Alert) (waits : v.session.waiting = true)
    {now : Nat} (looks : v.nextLook = some now) (in_time : now ≤ deadline) :
    Prod.map id Session.tidy (({ v.session with now } : Session).settleWaiter deadline) =
      Prod.map id Session.tidy (s.settleWaiter deadline) := by
  obtain ⟨proper, proper', alike, whole⟩ := follows
  rcases alert waits with at_once | armed
  · cases at_once.symm.trans looks
    exact Session.settleWaiter_congr proper proper' alike deadline
  · have waits' : s.waiting = true := (congrArg (·.waiting) alike).symm.trans waits
    have waited := Session.awaitUntil_later proper proper' alike armed (whole_nextLook whole looks)
      in_time fun _ set => nextLook_le looks set
    exact Session.settleWaiter_of_awaitUntil (s := { v.session with now }) waits waits' waited

/-- Letting time pass keeps what two sessions have in common. -/
theorem pass (proper : v.session.Proper) (proper' : s.Proper) (whole : Clock.milli ∣ deadline)
    (alike : v.session.tidy = s.tidy) :
    ({ v with session.now := deadline } : Vigil).Follows { s with now := deadline } where
  proper := ⟨proper.sound, proper.ordered⟩
  proper' := ⟨proper'.sound, proper'.ordered⟩
  alike := by
    obtain ⟨q, rfl, same⟩ := Session.of_tidy_eq alike
    simp [Session.tidy, same]
  whole := whole

/-- A wait that sleeps on goes on in the session that watches, too. -/
theorem sleep (follows : v.Follows s) (alert : v.Alert) (waits : v.session.waiting = true)
    (whole : Clock.milli ∣ deadline) (ahead : v.session.now ≤ deadline)
    (asleep : ∀ now, v.nextLook = some now → deadline < now) :
    ∃ s', s.settleWaiter deadline = (none, s') ∧
      ({ v with session.now := deadline } : Vigil).Follows { s' with now := deadline } ∧
      ({ v.session with now := deadline } : Session).Armed v.alarm := by
  obtain ⟨proper, proper', alike, _⟩ := follows
  have armed : v.session.Armed v.alarm := by
    rcases alert waits with at_once | armed
    · have := asleep _ at_once
      omega
    · exact armed
  have late : ∀ due ∈ v.session.queue.dueTimes v.session.now, deadline < Clock.wholeMilli due := by
    intro due member
    obtain ⟨_, time, set, early⟩ := armed.later due member
    have := Clock.wholeMilli_mono early
    cases called : v.called with
    | true =>
      have := asleep v.session.now (by simp [nextLook, called])
      omega
    | false =>
      have := asleep (max v.session.now (Clock.wholeMilli time)) (by simp [nextLook, called, set])
      omega
  have passed := armed.pass fun due member => Clock.lt_of_lt_wholeMilli whole (late due member)
  obtain ⟨q, rfl, same⟩ := Session.of_tidy_eq alike
  rw [Queue.dueTimes_of_tidy_eq same] at late
  obtain ⟨q', goes_on, same'⟩ := Session.settleWaiter_of_late proper' waits
    (armed.of_tidy_eq alike) late
  have proper₁ := proper'.settleWaiter deadline
  rw [goes_on] at proper₁
  refine ⟨_, goes_on, ⟨⟨proper.sound, proper.ordered⟩, proper₁, ?_, whole⟩, passed⟩
  simp [Session.tidy, same, same']

/-- A wait that wakes in time ends or goes on as in the session that watches. -/
theorem wake (follows : v.Follows s) (alert : v.Alert) (waits : v.session.waiting = true)
    (whole : Clock.milli ∣ deadline) {now : Nat} (looks : v.nextLook = some now)
    (in_time : now ≤ deadline) :
    ∃ ended v' s', v.settle deadline = (ended, v') ∧ s.settleWaiter deadline = (ended, s') ∧
      ({ v' with session.now := deadline } : Vigil).Follows { s' with now := deadline } ∧
      ({ v' with session.now := deadline } : Vigil).Asleep := by
  have found := follows.look alert waits looks in_time
  have proper : ({ v.session with now } : Session).Proper :=
    ⟨follows.proper.sound, follows.proper.ordered⟩
  have proper₁ := proper.settleWaiter deadline
  have proper₁' := follows.proper'.settleWaiter deadline
  have armed := Session.armed_settleWaiter proper waits whole
  obtain ⟨ended, s₁, s₁', here, there, same⟩ := prod_map_eq_cases found
  rw [here] at proper₁ armed
  rw [there] at proper₁'
  let v₁ : Vigil := { session := s₁, alarm := s₁.queue.scheduled.head?.map (·.notBefore) }
  refine ⟨ended, v₁, s₁', ?_, there, pass proper₁ proper₁' whole same, armed⟩
  rw [settle_of_look waits looks in_time, here]
  rfl

/-- The wait in the background ends in both sessions, and in the same way, or in neither. -/
theorem settle (follows : v.Follows s) (alert : v.Alert) (whole : Clock.milli ∣ deadline)
    (ahead : v.session.now ≤ deadline) :
    ∃ ended v' s', v.settle deadline = (ended, v') ∧ s.settleWaiter deadline = (ended, s') ∧
      ({ v' with session.now := deadline } : Vigil).Follows { s' with now := deadline } ∧
      ({ v' with session.now := deadline } : Vigil).Asleep := by
  cases waits : v.session.waiting with
  | false =>
    have waits' : s.waiting = false := (congrArg (·.waiting) follows.alike).symm.trans waits
    refine ⟨none, v, s, settle_of_not_waiting waits, Session.settleWaiter_of_not_waiting waits' _,
      pass follows.proper follows.proper' whole follows.alike, ?_⟩
    intro goes_on
    cases waits.symm.trans goes_on
  | true =>
    by_cases asleep : ∀ now, v.nextLook = some now → deadline < now
    · obtain ⟨s', goes_on, follows', armed⟩ := follows.sleep alert waits whole ahead asleep
      exact ⟨none, v, s', settle_of_asleep asleep, goes_on, follows', fun _ => armed⟩
    · push Not at asleep
      obtain ⟨now, looks, in_time⟩ := asleep
      exact follows.wake alert waits whole looks in_time

/-- An operation is answered alike, and the wait in the background is alert to it. -/
theorem perform (follows : v.Follows s) (asleep : v.Asleep) (whole : op.Whole) :
    (∃ error, v.perform op = .error error ∧ s.perform op = .error error) ∨
    ∃ reply v' s', v.perform op = .ok (reply, v') ∧ s.perform op = .ok (reply, s') ∧
      v'.Follows s' ∧ v'.Alert := by
  let glanced := v.session.queue.glance v.session.now
  let v₀ : Vigil :=
    { v with session.queue := if v.called && op.begins then glanced else v.session.queue }
  have follows₀ : v₀.Follows s := by
    simp only [v₀, glanced]
    split
    · exact follows.glance
    · exact follows
  have asleep₀ : v₀.Asleep := fun waits =>
    (asleep waits).of_tidy_eq (follows.alike.trans follows₀.alike.symm)
  have same := Session.perform_congr follows₀.proper follows.proper' follows₀.alike op
  have performs : v.perform op = (v₀.session.perform op).map fun done =>
      (done.1, { v with session := done.2, called := v.calledAfter op done.1 }) := by
    simp only [Vigil.perform, Bind.bind, Except.bind, pure, Except.pure, v₀, glanced]
    rfl
  rcases map_eq_map_cases same with
    ⟨error, here, there⟩ | ⟨⟨reply, s₁⟩, ⟨reply', s'⟩, here, there, same⟩
  · rw [here] at performs
    exact Or.inl ⟨error, performs, there⟩
  · simp only [Prod.map, id_eq, Prod.mk.injEq] at same
    obtain ⟨rfl, same⟩ := same
    rw [here] at performs
    refine Or.inr ⟨reply, _, s', performs, there, ?_, ?_⟩
    · exact ⟨follows₀.proper.perform here, follows.proper'.perform there, same,
        Session.whole_perform follows₀.proper follows₀.whole whole here⟩
    · have alert := alert_perform follows₀.proper follows₀.whole whole asleep₀ here
      cases op <;> exact alert

theorem step (follows : v.Follows s) (asleep : v.Asleep) (whole : op.Whole) :
    (∃ error, v.step op = .error error ∧ s.step op = .error error) ∨
    ∃ seen v' s', v.step op = .ok (seen, v') ∧ s.step op = .ok (seen, s') ∧
      v'.Follows s' ∧ v'.Asleep := by
  rcases follows.perform asleep whole with
    ⟨error, here, there⟩ | ⟨reply, v₁, s₁, here, there, follows₁, alert⟩
  · refine Or.inl ⟨error, ?_, Session.step_of_error there⟩
    simp only [Vigil.step, here, Bind.bind, Except.bind]
  · have now : v₁.session.now = s₁.now := congrArg (·.now) follows₁.alike
    have until_ : v₁.session.endTime op = s₁.endTime op := by
      cases op <;> simp [Session.endTime, now]
    have ahead : v₁.session.now ≤ v₁.session.endTime op := by
      cases op <;> simp [Session.endTime]
    have ends : Clock.milli ∣ v₁.session.endTime op := by
      cases op with
      | sleep duration => exact Nat.dvd_add follows₁.whole whole
      | _ => exact follows₁.whole
    obtain ⟨ended, v', s', settled, settled', follows', asleep'⟩ :=
      follows₁.settle alert ends ahead
    have counts : v'.session.queue.counts = s'.queue.counts :=
      Queue.counts_of_tidy_eq (congrArg Session.queue follows'.alike)
    have stepped := Session.step_of_perform there
    rw [until_] at settled settled' follows' asleep'
    rw [settled'] at stepped
    refine Or.inr ⟨_, { v' with session.now := s₁.endTime op }, _, ?_, stepped, follows', asleep'⟩
    simp only [Vigil.step, here, Bind.bind, Except.bind, pure, Except.pure, until_, settled, counts]

/-- A run is answered alike. -/
theorem run (follows : v.Follows s) (asleep : v.Asleep) {ops : List Operation}
    (whole : ∀ op ∈ ops, op.Whole) : v.run ops = s.run ops := by
  induction ops generalizing v s with
  | nil => rfl
  | cons op ops ih =>
    rw [Vigil.run, Session.run]
    rcases follows.step asleep (whole op List.mem_cons_self) with
      ⟨error, here, there⟩ | ⟨seen, v', s', here, there, follows', asleep'⟩
    · simp only [here, there, Bind.bind, Except.bind]
    · have later := ih follows' asleep' fun op member => whole op (List.mem_cons_of_mem _ member)
      simp only [here, there, Bind.bind, Except.bind, later]

end Follows

/-- The wait in the background need not watch the queue: where time passes in whole milliseconds, it
is enough for it to look when it is called and when its alarm goes off. -/
theorem run_eq (backoff : Backoff) (limit : Nat) {ops : List Operation}
    (whole : ∀ op ∈ ops, op.Whole) :
    (start (Queue.empty backoff limit)).run ops =
      (Session.start (Queue.empty backoff limit)).run ops := by
  have proper := Session.proper_start backoff limit
  have follows : (start (Queue.empty backoff limit)).Follows (.start (Queue.empty backoff limit)) :=
    ⟨proper, proper, rfl, Nat.dvd_zero _⟩
  exact follows.run (fun waits => by cases waits) whole

end Vigil

end PacedChain
