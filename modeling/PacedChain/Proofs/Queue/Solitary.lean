import PacedChain.Proofs.Queue.Unnoticed

/-!
# Lobbies in which no two wait at once

A lobby whose waits all have the same name is a session, whose wait in the background watches the
queue all the time (`Lobby.run_solitary`). What a session leaves out is thus the others: a call
that one wait takes from another, and the order in which they look.
-/
namespace PacedChain

namespace Session

variable {s s' : Session} {alarm : Option Nat} {deadline : Nat}

/-- A look that ends a wait ends the one in the background, however long that would go on. -/
theorem settleWaiter_of_ends {how : WaitEnd} (seen : s.look = (.ends how, s')) (deadline : Nat) :
    ({ s with waiting := true } : Session).settleWaiter deadline =
      (some how, { s' with waiting := false }) := by
  unfold look at seen
  rcases found : s.queue.look s.now with ⟨_ | lease | wake, q⟩ <;> simp only [found] at seen <;>
    cases seen
  · simp only [settleWaiter, awaitUntil, if_true, Queue.leaseBy_of_closed found]
  · simp only [settleWaiter, awaitUntil, if_true, Queue.leaseBy_of_leased found]
    rfl

/-- A look in vain sets an alarm that is good for as long as the wait sleeps. -/
theorem armed_of_sleeps (proper : s.Proper) (seen : s.look = (.sleeps alarm, s')) :
    s'.Proper ∧ s'.now = s.now ∧ s'.tidy = s.tidy ∧ s'.Armed alarm := by
  have proper' := proper.look
  rw [seen] at proper'
  refine ⟨proper', ?_⟩
  unfold look at seen
  rcases found : s.queue.look s.now with ⟨_ | lease | wake, q⟩ <;> simp only [found] at seen <;>
    cases seen
  have idle := Queue.idle_of_look proper.queue found
  refine ⟨rfl, by simp [tidy, idle.alike], ?_, ?_⟩
  · exact (Queue.closed_of_tidy_eq idle.alike).trans (Queue.opened_of_look found (by simp))
  · change ∀ due ∈ q.dueTimes s.now, _
    rw [Queue.dueTimes_of_tidy_eq idle.alike]
    exact idle.later

end Session

namespace Lobby

variable {l l' : Lobby} {name : Nat} {move : Move} {alarm : Option Nat} {deadline : Nat}

/-- The session whose wait in the background is the one that sleeps here. -/
def watched (l : Lobby) : Session := { l.session with waiting := !l.waiters.isEmpty }

/-- At most one wait sleeps, of this name, and its alarm goes off in time. -/
structure Solitary (name : Nat) (l : Lobby) : Prop where
  proper : l.session.Proper
  whole : Clock.milli ∣ l.session.now
  row : l.waiters = [] ∨ ∃ alarm, l.waiters = [⟨name, alarm⟩] ∧ l.session.Armed alarm

/-- The move is about no other wait. -/
def Move.isOf (name : Nat) : Move → Bool
  | .wait other | .giveUp other => decide (other = name)
  | _ => true

def Move.operation : Move → Operation
  | .call op _ => op
  | .wait _ => .wait
  | .giveUp _ => .abortWait
  | .pass millis => .sleep (millis * Clock.milli)

/-- What is seen where no two wait at once. -/
def Seen.observation (seen : Seen) : Observation :=
  ⟨seen.reply, seen.now, seen.counts, seen.ended.head?.map (·.how)⟩

/-- The wait in the background has fared as the one in the lobby, up to this time. -/
structure Fared (name deadline : Nat) (seen : List Ended × Lobby)
    (settled : Option WaitEnd × Session) : Prop where
  ended : settled.1 = seen.1.head?.map (·.how)
  alike : ({ settled.2 with now := deadline } : Session).tidy =
    (seen.2.standAt deadline).watched.tidy
  solitary : Solitary name (seen.2.standAt deadline)

theorem Solitary.watched (solitary : Solitary name l) : l.watched.Proper :=
  solitary.proper.with_waiting _

theorem watched_of_empty (empty : l.waiters = []) :
    l.watched = { l.session with waiting := false } := by
  rw [watched, empty]
  rfl

theorem watched_of_waits {w : Waiter} (waits : l.waiters = [w]) :
    l.watched = { l.session with waiting := true } := by
  rw [watched, waits]
  rfl

/-! ### While time passes -/

namespace Fared

variable {seen : List Ended × Lobby} {settled settled' : Option WaitEnd × Session}

/-- Sessions that are the same but for stale entries fare the same. -/
theorem congr (fared : Fared name deadline seen settled)
    (same : Prod.map id Session.tidy settled = Prod.map id Session.tidy settled') :
    Fared name deadline seen settled' := by
  obtain ⟨ended, s⟩ := settled
  obtain ⟨ended', s'⟩ := settled'
  simp only [Prod.map, id_eq, Prod.mk.injEq] at same
  obtain ⟨rfl, alike⟩ := same
  have later := congrArg (fun s : Session => { s with now := deadline }) alike
  exact ⟨fared.ended, later.symm.trans fared.alike, fared.solitary⟩

/-- No one waits. -/
theorem of_empty (proper : l.session.Proper) (empty : l.waiters = [])
    (whole : Clock.milli ∣ deadline) :
    Fared name deadline ([], l) (l.watched.settleWaiter deadline) := by
  rw [Session.settleWaiter_of_not_waiting (by rw [watched_of_empty empty])]
  exact ⟨rfl, rfl, proper.with_now _, whole, Or.inl empty⟩

/-- Nothing falls due. -/
theorem of_late (solitary : Solitary name l) (whole : Clock.milli ∣ deadline)
    (late : ∀ due ∈ l.session.queue.dueTimes l.session.now, deadline < Clock.wholeMilli due) :
    Fared name deadline ([], l) (l.watched.settleWaiter deadline) := by
  rcases solitary.row with empty | ⟨alarm, waits, armed⟩
  · exact of_empty solitary.proper empty whole
  · have stays : l.watched = { l.session with waiting := true } := watched_of_waits waits
    have rests : l.watched.Armed alarm := by
      rw [stays]
      exact ⟨armed.opened, armed.later⟩
    obtain ⟨q, settled, alike⟩ := Session.settleWaiter_of_late solitary.watched (by rw [stays])
      rests late
    rw [settled]
    refine ⟨rfl, ?_, solitary.proper.with_now _, whole, Or.inr ⟨alarm, waits, ?_⟩⟩
    · change ({ l.watched with queue := q.tidy, now := deadline } : Session) = _
      rw [alike]
      rfl
    · exact armed.pass fun due member => Clock.lt_of_lt_wholeMilli whole (late due member)

/-- Nothing falls due just now. -/
theorem of_rest (solitary : Solitary name l) :
    Fared name l.session.now ([], l) (l.watched.settleWaiter l.session.now) := by
  rcases solitary.row with empty | ⟨alarm, waits, armed⟩
  · exact of_empty solitary.proper empty solitary.whole
  · refine of_late solitary solitary.whole fun due member => ?_
    have later := (armed.later due member).1
    exact Nat.lt_of_lt_of_le later (Clock.le_wholeMilli due)

end Fared

/-- The clock comes by at these times, in order, and at every time at which a task falls due. -/
structure Stops (l : Lobby) (deadline : Nat) (times : List Nat) : Prop where
  ordered : times.Pairwise (· ≤ ·)
  within : ∀ time ∈ times, l.session.now ≤ time ∧ time ≤ deadline ∧ Clock.milli ∣ time
  covers : ∀ due ∈ l.session.queue.dueTimes l.session.now,
    Clock.wholeMilli due ≤ deadline → Clock.wholeMilli due ∈ times

theorem stops_wakeTimes (solitary : Solitary name l) (armed : l.session.Armed alarm)
    (deadline : Nat) : l.Stops deadline (l.session.queue.wakeTimes l.session.now deadline) := by
  obtain ⟨ordered, within⟩ := wakeTimes_ordered solitary.proper.ordered l.session.now deadline
  refine ⟨ordered, fun time member => ⟨(within time member).1, (within time member).2, ?_⟩, ?_⟩
  · obtain ⟨w, _, rfl⟩ := List.mem_map.mp (List.mem_filter.mp member).1
    exact Clock.milli_dvd_wholeMilli w.notBefore
  · rintro due ⟨i, found⟩ in_time
    have early := armed.early i due found
    obtain ⟨task, known, ⟨queued, rfl⟩ | ⟨waits, time⟩⟩ := found.cases
    · exact absurd early (Nat.lt_irrefl _)
    · obtain ⟨notBefore, time', listed⟩ := solitary.proper.queue.entry known waits
      rw [time, Option.some.injEq] at time'
      subst time'
      refine List.mem_filter.mpr ⟨List.mem_map.mpr ⟨⟨due, i⟩, ?_, rfl⟩, decide_eq_true in_time⟩
      exact List.mem_filter.mpr ⟨listed, decide_eq_true early⟩

namespace Stops

variable {now : Nat} {times : List Nat}

/-- No task falls due before the next stop. -/
theorem reached (stops : l.Stops deadline (now :: times)) :
    ∀ due ∈ l.session.queue.dueTimes l.session.now, now ≤ Clock.wholeMilli due := by
  intro due member
  by_cases in_time : Clock.wholeMilli due ≤ deadline
  · rcases List.mem_cons.mp (stops.covers due member in_time) with same | later
    · exact Nat.le_of_eq same.symm
    · exact (List.pairwise_cons.mp stops.ordered).1 _ later
  · have := (stops.within now List.mem_cons_self).2.1
    omega

/-- The stops that are left after a look in vain, or without one. -/
theorem tail (stops : l.Stops deadline (now :: times)) (armed : l.session.Armed alarm)
    (here : l'.session.now = now) {alarm' : Option Nat} (armed' : l'.session.Armed alarm')
    (alike : l'.session.queue.tidy = l.session.queue.tidy) : l'.Stops deadline times := by
  subst here
  obtain ⟨first, ordered⟩ := List.pairwise_cons.mp stops.ordered
  refine ⟨ordered, fun time member => ⟨first time member, ?_⟩, fun due member in_time => ?_⟩
  · exact (stops.within time (List.mem_cons_of_mem _ member)).2
  · have early := (armed'.later due member).1
    rw [Queue.dueTimes_of_tidy_eq alike, Queue.dueTimes_later armed.early.none_queued] at member
    have := Clock.le_wholeMilli due
    refine (List.mem_cons.mp (stops.covers due member in_time)).resolve_left fun same => ?_
    omega

end Stops

theorem passBy_of_empty (empty : l.waiters = []) (times : List Nat) :
    ∃ now, l.passBy times = ([], l.standAt now) := by
  induction times generalizing l with
  | nil => exact ⟨l.session.now, rfl⟩
  | cons now times ih =>
    have silent : (l.standAt now).ring = ([], l.standAt now) := by
      simp [ring, standAt, empty, looks]
    obtain ⟨last, rest⟩ := ih (l := l.standAt now) empty
    refine ⟨last, ?_⟩
    rw [passBy_cons, silent, rest]
    rfl

/-- The wait that watches may as well begin at the next stop. -/
theorem settleWaiter_standAt (solitary : Solitary name l) (waits : l.waiters = [⟨name, alarm⟩])
    (armed : l.session.Armed alarm) {now : Nat} {times : List Nat}
    (stops : l.Stops deadline (now :: times)) :
    Prod.map id Session.tidy ((l.standAt now).watched.settleWaiter deadline) =
      Prod.map id Session.tidy (l.watched.settleWaiter deadline) := by
  obtain ⟨_, in_time, whole⟩ := stops.within now List.mem_cons_self
  have stays : l.watched = { l.session with waiting := true } := watched_of_waits waits
  have waited := Session.awaitUntil_of_reached solitary.watched solitary.watched rfl
    (by rw [stays]; exact armed.opened) whole in_time fun due member => by
      rw [stays] at member ⊢
      exact ⟨(armed.later due member).1, stops.reached due member⟩
  exact Session.settleWaiter_of_awaitUntil (by rw [watched_of_waits (l := l.standAt now) waits])
    (by rw [stays]) waited

theorem ring_asleep {w : Waiter} (waits : l.waiters = [w])
    (asleep : w.isDue l.session.now = false) : l.ring = ([], l) := by
  obtain ⟨session, waiters, kept⟩ := l
  cases waits
  simp only [ring, List.filter_cons, List.filter_nil, asleep, Bool.not_false, if_true,
    Bool.false_eq_true, if_false]
  rfl

theorem ring_due {w : Waiter} (waits : l.waiters = [w]) (due : w.isDue l.session.now = true) :
    l.ring = ({ l with waiters := [] } : Lobby).look w.name := by
  simp only [ring, waits, List.filter_cons, List.filter_nil, due, Bool.not_true, if_true,
    Bool.false_eq_true, if_false, looks, List.append_nil]

theorem look_of_ends {how : WaitEnd} {s : Session} (seen : l.session.look = (.ends how, s)) :
    l.look name = ([⟨name, l.session.now, how⟩], { l with session := s }) := by
  simp only [look, seen]

theorem look_of_sleeps {s : Session} (seen : l.session.look = (.sleeps alarm, s)) :
    l.look name = ([], { l with session := s, waiters := l.waiters ++ [⟨name, alarm⟩] }) := by
  simp only [look, seen]

/-- A wait whose alarm has not gone off sleeps on. -/
theorem armed_of_asleep (armed : l.session.Armed alarm) {now : Nat}
    (asleep : Waiter.isDue now ⟨name, alarm⟩ = false) : (l.standAt now).session.Armed alarm := by
  refine armed.pass fun due member => ?_
  obtain ⟨_, time, rfl, early⟩ := armed.later due member
  have := of_decide_eq_false asleep
  omega

/-- A wait looks: it ends, or sleeps until one of these stops. -/
theorem look_fared (name : Nat) (times : List Nat) (proper : l.session.Proper)
    (empty : l.waiters = []) (whole : Clock.milli ∣ deadline)
    (later : ∀ alarm s, l.session.look = (.sleeps alarm, s) →
      let asleep : Lobby := { l with session := s, waiters := [⟨name, alarm⟩] }
      Fared name deadline (asleep.passBy times) (asleep.watched.settleWaiter deadline)) :
    Fared name deadline
      ((l.look name).1 ++ ((l.look name).2.passBy times).1, ((l.look name).2.passBy times).2)
      (({ l.session with waiting := true } : Session).settleWaiter deadline) := by
  have proper' := proper.look
  rcases seen : l.session.look with ⟨how | alarm, s⟩ <;> rw [seen] at proper'
  · obtain ⟨last, passed⟩ := passBy_of_empty (l := { l with session := s }) empty times
    rw [look_of_ends seen, Session.settleWaiter_of_ends seen, passed]
    refine ⟨rfl, ?_, proper'.with_now _, whole, Or.inl empty⟩
    rw [watched_of_empty (by exact empty)]
    rfl
  · obtain ⟨_, _, alike, _⟩ := Session.armed_of_sleeps proper seen
    rw [look_of_sleeps seen, empty]
    refine (later alarm s seen).congr (Session.settleWaiter_congr (proper'.with_waiting true)
      (proper.with_waiting true) ?_ deadline)
    exact congrArg (fun s : Session => { s with waiting := true }) alike

/-- The wait sleeps from one stop to the next, and the one that watches might begin at any of them:
nothing falls due on the way to it. -/
theorem passBy_fared (solitary : Solitary name l) (whole : Clock.milli ∣ deadline)
    {times : List Nat} (stops : ∀ alarm, l.waiters = [⟨name, alarm⟩] → l.Stops deadline times) :
    Fared name deadline (l.passBy times) (l.watched.settleWaiter deadline) := by
  induction times generalizing l with
  | nil =>
    rcases solitary.row with empty | ⟨alarm, waits, armed⟩
    · exact .of_empty solitary.proper empty whole
    · refine .of_late solitary whole fun due member => Nat.not_le.mp fun in_time => ?_
      cases (stops alarm waits).covers due member in_time
  | cons now times ih =>
    rcases solitary.row with empty | ⟨alarm, waits, armed⟩
    · obtain ⟨last, passed⟩ := passBy_of_empty empty (now :: times)
      rw [passed]
      have fared : Fared name deadline ([], l) (l.watched.settleWaiter deadline) :=
        .of_empty solitary.proper empty whole
      exact ⟨fared.ended, fared.alike, fared.solitary⟩
    · have stops := stops alarm waits
      refine Fared.congr ?_ (settleWaiter_standAt solitary waits armed stops)
      obtain ⟨_, in_time, whole_now⟩ := stops.within now List.mem_cons_self
      have waits' : (l.standAt now).waiters = [⟨name, alarm⟩] := waits
      rw [passBy_cons]
      -- The alarm may go off before anything is due: its task may have been replaced.
      cases due : Waiter.isDue now ⟨name, alarm⟩ with
      | false =>
        have rests := armed_of_asleep armed due
        rw [ring_asleep waits' due]
        refine ih ⟨solitary.proper.with_now now, whole_now, Or.inr ⟨alarm, waits, rests⟩⟩ ?_
        exact fun _ _ => stops.tail armed rfl rests rfl
      | true =>
        have proper := solitary.proper.with_now now
        rw [ring_due waits' due, watched_of_waits waits']
        refine look_fared (l := { l.standAt now with waiters := [] }) name times proper rfl whole ?_
        intro alarm' s seen
        obtain ⟨proper', here, alike, armed'⟩ := Session.armed_of_sleeps proper seen
        refine ih ⟨proper', ?_, Or.inr ⟨alarm', rfl, armed'⟩⟩ fun _ _ => ?_
        · rw [here]
          exact whole_now
        · exact stops.tail armed here armed' (congrArg Session.queue alike)

/-! ### One move -/

/-- The wait that is called looks at once. -/
theorem look_fared_now (proper : l.session.Proper) (empty : l.waiters = [])
    (whole : Clock.milli ∣ l.session.now) :
    Fared name l.session.now (l.look name)
      (({ l.session with waiting := true } : Session).settleWaiter l.session.now) := by
  have fared := look_fared name [] proper empty whole fun alarm s seen => by
    obtain ⟨proper', here, _, armed⟩ := Session.armed_of_sleeps proper seen
    rw [← here] at whole ⊢
    have asleep : Solitary name { l with session := s, waiters := [⟨name, alarm⟩] } :=
      ⟨proper', whole, Or.inr ⟨alarm, rfl, armed⟩⟩
    exact .of_rest asleep
  rw [passBy, List.append_nil] at fared
  exact fared

section

variable {op : Operation} {reply : Reply} {s : Session}

theorem ne_of_isInstant (instant : op.isInstant = true) : op ≠ .wait ∧ op ≠ .abortWait := by
  constructor <;> rintro rfl <;> cases instant

theorem whole_of_isInstant (instant : op.isInstant = true) : op.Whole := by
  cases op <;> simp_all [Operation.isInstant, Operation.Whole]

theorem endTime_of_isInstant (instant : op.isInstant = true) (s : Session) :
    s.endTime op = s.now := by
  cases op <;> simp_all [Operation.isInstant, Session.endTime]

/-- What has called no one lets the wait sleep on. -/
theorem armed_of_silent (solitary : Solitary name l) (armed : l.session.Armed alarm)
    (instant : op.isInstant = true) (opens : op ≠ .close)
    (performed : l.session.perform op = .ok (reply, s)) (silent : reply.calls = false) :
    s.Armed alarm := by
  -- An alarm that has gone off in the meantime is as good if it goes off once more, just now.
  let later : Option Nat := alarm.map (max (l.session.now + 1))
  have rests : ({ l.session with waiting := true } : Session).Armed later := by
    refine ⟨armed.opened, fun due member => ?_⟩
    obtain ⟨coming, time, rfl, early⟩ := armed.later due member
    exact ⟨coming, _, rfl, by omega⟩
  obtain ⟨begins, ends⟩ := ne_of_isInstant instant
  let v : Vigil := { session := { l.session with waiting := true }, alarm := later }
  have performed' : v.session.perform op = .ok (reply, { s with waiting := true }) := by
    rw [Session.perform_with_waiting _ _ begins ends, performed]
    rfl
  have uncalled : v.calledAfter op reply = false := by
    cases op <;> simp_all [Vigil.calledAfter, Operation.isInstant, v]
  have now := ((Session.Abreast.of_proper solitary.proper).ahead_perform instant performed
    performed).1
  have alert := Vigil.alert_perform (solitary.proper.with_waiting true) solitary.whole
    (whole_of_isInstant instant) (fun _ => rests) performed' rfl
  rw [uncalled] at alert
  rcases alert with at_once | rests'
  · obtain ⟨_, set, same⟩ := Option.map_eq_some_iff.mp at_once
    obtain ⟨time, _, rfl⟩ := Option.map_eq_some_iff.mp set
    have := Clock.le_wholeMilli (max (l.session.now + 1) time)
    change max s.now _ = s.now at same
    omega
  · refine ⟨rests'.opened, fun due member => ?_⟩
    obtain ⟨coming, _, set, early⟩ := rests'.later due member
    obtain ⟨time, given, rfl⟩ := Option.map_eq_some_iff.mp set
    exact ⟨coming, time, given, by omega⟩

end

/-- The move as an operation of a session is answered alike. -/
theorem step_of_fared {reply : Reply} {ended : List Ended} {s : Session}
    (here : l.perform move = .ok (reply, ended, l'.standAt deadline))
    (there : l.watched.perform move.operation = .ok (reply, s))
    (until_ : s.endTime move.operation = deadline)
    (fared : Fared name deadline (ended, l') (s.settleWaiter deadline)) :
    ∃ seen l' s', l.step move = .ok (seen, l') ∧
      l.watched.step move.operation = .ok (seen.observation, s') ∧
      Solitary name l' ∧ s'.tidy = l'.watched.tidy := by
  have counts : (s.settleWaiter deadline).2.queue.counts =
      (l'.standAt deadline).session.queue.counts :=
    Queue.counts_of_tidy_eq (congrArg Session.queue fared.alike)
  have stepped := Session.step_of_perform there
  rw [until_, fared.ended] at stepped
  refine ⟨⟨reply, deadline, (l'.standAt deadline).session.queue.counts, ended⟩,
    l'.standAt deadline, _, ?_, ?_, fared.solitary, fared.alike⟩
  · simp only [step, here, Bind.bind, Except.bind, pure, Except.pure]
    rfl
  · rw [stepped, counts]
    rfl

theorem standAt_self {now : Nat} (here : l.session.now = now) : l.standAt now = l := by
  subst here
  rfl

namespace Solitary

/-- An operation that takes no time is answered alike, and calls the wait if it has to look. -/
theorem call (solitary : Solitary name l) {op : Operation} (instant : op.isInstant = true)
    {reply : Reply} {s : Session} (performed : l.session.perform op = .ok (reply, s)) :
    ∃ ended l', l.perform (.call op instant) = .ok (reply, ended, l'.standAt s.now) ∧
      Fared name s.now (ended, l')
        (({ l with session := s } : Lobby).watched.settleWaiter s.now) := by
  have proper := solitary.proper.perform performed
  have now := ((Session.Abreast.of_proper solitary.proper).ahead_perform instant performed
    performed).1
  have whole : Clock.milli ∣ s.now := by
    rw [now]
    exact solitary.whole
  obtain ⟨session, waiters, kept⟩ := l
  rcases solitary.row with empty | ⟨alarm, waits, armed⟩
  · cases empty
    have alone : ∀ kept, Fared name s.now ([], ⟨s, [], kept⟩)
        ((⟨s, [], kept⟩ : Lobby).watched.settleWaiter s.now) :=
      fun kept => .of_empty proper rfl whole
    by_cases closes : op = .close
    · subst closes
      exact ⟨[], ⟨s, [], kept⟩, perform_close performed, alone kept⟩
    · cases calls : reply.calls with
      | true => exact ⟨[], ⟨s, [], true⟩, perform_calls performed closes calls, alone true⟩
      | false => exact ⟨[], ⟨s, [], kept⟩, perform_silent performed closes calls, alone kept⟩
  · cases waits
    let awake : Lobby := ⟨s, [], kept⟩
    have called : Fared name s.now (awake.look name)
        (({ s with waiting := true } : Session).settleWaiter s.now) :=
      look_fared_now (l := awake) proper rfl whole
    have still := standAt_self (now_look awake name)
    by_cases closes : op = .close
    · subst closes
      refine ⟨(awake.look name).1, (awake.look name).2, ?_, called⟩
      rw [still, perform_close performed, callAll, looks_cons]
      simp only [looks, List.append_nil]
      rfl
    · cases calls : reply.calls with
      | true =>
        refine ⟨(awake.look name).1, (awake.look name).2, ?_, called⟩
        rw [still, perform_calls performed closes calls]
        rfl
      | false =>
        have rests := armed_of_silent solitary armed instant closes performed calls
        let asleep : Lobby := ⟨s, [⟨name, alarm⟩], kept⟩
        have still : Solitary name asleep := ⟨proper, whole, Or.inr ⟨alarm, rfl, rests⟩⟩
        exact ⟨[], asleep, perform_silent performed closes calls, .of_rest still⟩

/-- A move is answered as in a session. -/
theorem step (solitary : Solitary name l) (of : move.isOf name = true) :
    (∃ error, l.step move = .error error ∧ l.watched.step move.operation = .error error) ∨
      ∃ seen l' s', l.step move = .ok (seen, l') ∧
        l.watched.step move.operation = .ok (seen.observation, s') ∧
        Solitary name l' ∧ s'.tidy = l'.watched.tidy := by
  cases move with
  | call op instant =>
    obtain ⟨begins, ends⟩ := ne_of_isInstant instant
    have watches := Session.perform_with_waiting l.session (!l.waiters.isEmpty) begins ends
    rcases performed : l.session.perform op with error | ⟨reply, s⟩ <;> rw [performed] at watches
    · left
      refine ⟨error, ?_, Session.step_of_error watches⟩
      simp only [Lobby.step, perform_call_error performed, Bind.bind, Except.bind]
    · right
      obtain ⟨ended, l', here, fared⟩ := solitary.call instant performed
      exact step_of_fared here watches (endTime_of_isInstant instant _) fared
  | wait other =>
    right
    cases of_decide_eq_true of
    have there : l.watched.perform .wait = .ok (.done, { l.session with waiting := true }) := rfl
    rcases solitary.row with empty | ⟨alarm, waits, _⟩
    · have idle : l.isWaiting name = false := by simp [isWaiting, empty]
      have glanced : l.answered.session.Proper ∧ l.answered.session.tidy = l.session.tidy := by
        unfold answered
        cases l.kept
        · exact ⟨solitary.proper, rfl⟩
        · have abreast := (Session.Abreast.of_proper solitary.proper).glance
          exact ⟨abreast.proper, abreast.alike⟩
      have still := standAt_self (now_look l.answered name)
      have looks : Fared name _ (l.answered.look name) _ :=
        look_fared_now glanced.1 empty solitary.whole
      have fared := looks.congr (Session.settleWaiter_congr (glanced.1.with_waiting true)
          (solitary.proper.with_waiting true)
          (congrArg (fun s : Session => { s with waiting := true }) glanced.2) _)
      rcases looked : l.answered.look name with ⟨ended, l'⟩
      rw [looked] at still fared
      have here : l.perform (.wait name) =
          .ok (.done, ended, l'.standAt l.answered.session.now) := by
        rw [perform_wait idle, looked, still]
      exact step_of_fared here there rfl fared
    · have waiting : l.isWaiting name = true := by simp [isWaiting, waits]
      have fared := Fared.of_rest solitary
      have here : l.perform (.wait name) = .ok (.done, [], l.standAt l.session.now) :=
        perform_wait_again waiting
      rw [watched_of_waits waits] at fared
      exact step_of_fared here there rfl fared
  | giveUp other =>
    right
    cases of_decide_eq_true of
    have nobody : l.waiters.filter (·.name ≠ name) = [] := by
      rcases solitary.row with empty | ⟨alarm, waits, _⟩
      · simp [empty]
      · simp [waits]
    have fared : Fared name l.session.now ([], { l with waiters := [] })
        (({ l with waiters := [] } : Lobby).watched.settleWaiter l.session.now) :=
      .of_empty solitary.proper rfl solitary.whole
    exact step_of_fared (by rw [perform, nobody]; rfl) rfl rfl fared
  | pass millis =>
    right
    have whole : Clock.milli ∣ l.session.now + millis * Clock.milli :=
      Nat.dvd_add solitary.whole (Nat.dvd_mul_left _ _)
    have fared := passBy_fared solitary whole fun alarm waits => by
      rcases solitary.row with empty | ⟨_, _, armed⟩
      · rw [empty] at waits
        cases waits
      · exact stops_wakeTimes solitary armed _
    exact step_of_fared (perform_pass l millis) rfl rfl fared

/-- No one takes a call from another where there is no other. -/
theorem not_diverts (solitary : Solitary name l) (other : Nat) {ms : List Move}
    (of : ∀ m ∈ ms, m.isOf name = true) : l.diverts other ms = false := by
  induction ms generalizing l with
  | nil => rfl
  | cons move ms ih =>
    have few : ¬1 < l.waiters.length := by
      rcases solitary.row with empty | ⟨_, waits, _⟩
      · simp [empty]
      · simp [waits]
    have untaken : l.takesCall other move = false := by
      unfold takesCall
      split
      · split <;> simp [few]
      · rfl
    rw [diverts, untaken, Bool.false_or]
    rcases solitary.step (of move List.mem_cons_self) with
      ⟨error, here, _⟩ | ⟨seen, l', _, here, _, solitary', _⟩
    · rw [here]
    · rw [here]
      exact ih solitary' fun m member => of m (List.mem_cons_of_mem _ member)

theorem run (solitary : Solitary name l) {s : Session} (proper : s.Proper)
    (alike : l.watched.tidy = s.tidy) {ms : List Move} (of : ∀ m ∈ ms, m.isOf name = true) :
    (l.run ms).map (List.map Seen.observation) = s.run (ms.map Move.operation) := by
  induction ms generalizing l s with
  | nil => rfl
  | cons move ms ih =>
    have same := Session.step_congr solitary.watched proper alike move.operation
    rw [List.map_cons, Session.run]
    rcases solitary.step (of move List.mem_cons_self) with
      ⟨error, here, there⟩ | ⟨seen, l', s₁, here, there, solitary', alike'⟩
    · rw [there] at same
      rcases map_eq_map_cases same with ⟨_, ⟨⟩, failed⟩ | ⟨_, _, ⟨⟩, _, _⟩
      simp only [Lobby.run, Lobby.proceed, here, failed, Bind.bind, Except.bind, Except.map]
    · rw [there] at same
      rcases map_eq_map_cases same with ⟨_, ⟨⟩, _⟩ | ⟨⟨_, _⟩, ⟨seen', s'⟩, ⟨⟩, stepped, equal⟩
      simp only [Prod.map, id_eq, Prod.mk.injEq] at equal
      obtain ⟨rfl, tidied⟩ := equal
      have later := ih solitary' (proper.step stepped) (alike'.symm.trans tidied)
        fun m member => of m (List.mem_cons_of_mem _ member)
      simp only [run_cons here, stepped, Bind.bind, Except.bind, ← later]
      cases l'.run ms <;> rfl

end Solitary

/-- A lobby in which no two wait at once is a session: the wait need not watch the queue, as it is
called, or its alarm goes off, whenever it has to look. -/
theorem run_solitary (backoff : Backoff) (limit : Nat) (name : Nat) {ms : List Move}
    (of : ∀ m ∈ ms, m.isOf name = true) :
    ((start (Queue.empty backoff limit)).run ms).map (List.map Seen.observation) =
      (Session.start (Queue.empty backoff limit)).run (ms.map Move.operation) := by
  have proper := Session.proper_start backoff limit
  have solitary : Solitary name (start (Queue.empty backoff limit)) :=
    ⟨proper, Nat.dvd_zero _, Or.inl rfl⟩
  exact solitary.run proper rfl of

end Lobby

end PacedChain
