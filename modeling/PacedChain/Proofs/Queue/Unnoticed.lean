import PacedChain.Proofs.Queue.Ahead

/-!
# Waits that are given up in a lobby

Without a wait that is given up before it ends, a lobby comes to the same but for stale entries
(`Lobby.Mirrors`): the looks of that wait have been in vain, and no one else looks at another time
because of it. But a call that it has answered is used up, and who slept behind it has not been
called (`Lobby.takesCall`). So the wait goes unnoticed if it has answered none while another one
slept (`Lobby.abandoned_wait_unnoticed`); if it has, the other one may sleep on as a task falls due
(`Lobby.left_asleep_by_an_abandoned_wait`).
-/
namespace PacedChain

theorem eraseIdx_two {α : Type} (l m n : List α) (x y : α) :
    ((l ++ x :: (m ++ y :: n)).eraseIdx (l.length + 1 + m.length)).eraseIdx l.length =
      l ++ (m ++ n) := by
  induction l with
  | nil =>
    have later : 0 + 1 + m.length = m.length + 1 := by omega
    simp [later, List.eraseIdx_append_of_length_le]
  | cons z l ih =>
    have later : (z :: l).length + 1 + m.length = (l.length + 1 + m.length) + 1 := by
      simp only [List.length_cons]
      omega
    rw [later]
    exact congrArg (z :: ·) ih

theorem exists_ok_of_any {ε α : Type} {x : Except ε α} {p : α → Bool}
    (holds : x.toOption.any p = true) : ∃ a, x = .ok a ∧ p a = true := by
  cases x with
  | error => cases holds
  | ok a => exact ⟨a, rfl, holds⟩

namespace Lobby

variable {l l' m m' : Lobby} {name : Nat} {gone : Nat → Bool} {move : Move} {ms : List Move}

/-- Whether a wait answers the call that a move makes while another one sleeps. -/
def takesCall (l : Lobby) (name : Nat) : Move → Bool
  | .call op _ =>
    match l.session.perform op with
    | .ok (reply, _) =>
      reply.calls && l.waiters.head?.any (·.name = name) && decide (1 < l.waiters.length)
    | .error _ => false
  | _ => false

/-- Whether a wait answers a call on the way while another one sleeps. -/
def diverts (l : Lobby) (name : Nat) : List Move → Bool
  | [] => false
  | m :: ms =>
    l.takesCall name m ||
      match l.step m with
      | .ok (_, l) => l.diverts name ms
      | .error _ => false

/-! ### The clock -/

theorem now_look (l : Lobby) (name : Nat) : (l.look name).2.session.now = l.session.now := by
  have same := l.session.now_look
  unfold look
  rcases seen : l.session.look with ⟨_ | _, session⟩ <;> rw [seen] at same <;> exact same

theorem now_looks (l : Lobby) (ws : List Waiter) :
    (l.looks ws).2.session.now = l.session.now := by
  induction ws generalizing l with
  | nil => rfl
  | cons w ws ih => exact (ih _).trans (now_look l w.name)

theorem now_ring (l : Lobby) : l.ring.2.session.now = l.session.now := now_looks _ _

theorem now_passBy_le {times : List Nat} {deadline : Nat} (began : l.session.now ≤ deadline)
    (in_time : ∀ time ∈ times, time ≤ deadline) : (l.passBy times).2.session.now ≤ deadline := by
  induction times generalizing l with
  | nil => exact began
  | cons now times ih =>
    rw [passBy_cons]
    refine ih ?_ fun time member => in_time time (List.mem_cons_of_mem _ member)
    rw [now_ring]
    exact in_time now List.mem_cons_self

/-- Alarms go off one after the other, after now and not after the deadline. -/
theorem wakeTimes_ordered {q : Queue} (ordered : q.Ordered) (now deadline : Nat) :
    (q.wakeTimes now deadline).Pairwise (· ≤ ·) ∧
      ∀ time ∈ q.wakeTimes now deadline, now ≤ time ∧ time ≤ deadline := by
  constructor
  · refine List.Pairwise.filter _ (List.Pairwise.map _ ?_ (List.Pairwise.filter _ ordered))
    exact fun v w le => Clock.wholeMilli_mono le
  · intro time member
    obtain ⟨listed, in_time⟩ := List.mem_filter.mp member
    obtain ⟨w, coming, rfl⟩ := List.mem_map.mp listed
    have later := of_decide_eq_true (List.mem_filter.mp coming).2
    have := Clock.le_wholeMilli w.notBefore
    exact ⟨by omega, of_decide_eq_true in_time⟩

/-! ### Moves -/

section

variable {op : Operation} {instant : op.isInstant = true} {reply : Reply} {s : Session}

theorem perform_close {instant : Operation.close.isInstant = true}
    (performed : l.session.perform .close = .ok (reply, s)) :
    l.perform (.call .close instant) = .ok (reply, { l with session := s }.callAll) := by
  simp only [perform, performed, Bind.bind, Except.bind, pure, Except.pure, if_true]

theorem perform_calls (performed : l.session.perform op = .ok (reply, s)) (opens : op ≠ .close)
    (calls : reply.calls = true) :
    l.perform (.call op instant) = .ok (reply, { l with session := s }.callOne) := by
  simp only [perform, performed, Bind.bind, Except.bind, pure, Except.pure, if_neg opens, calls,
    if_true]

theorem perform_silent (performed : l.session.perform op = .ok (reply, s)) (opens : op ≠ .close)
    (silent : reply.calls = false) :
    l.perform (.call op instant) = .ok (reply, [], { l with session := s }) := by
  simp only [perform, performed, Bind.bind, Except.bind, pure, Except.pure, if_neg opens, silent,
    Bool.false_eq_true, if_false]

theorem perform_call_error {error : BackoffError} (failed : l.session.perform op = .error error) :
    l.perform (.call op instant) = .error error := by
  simp only [perform, failed, Bind.bind, Except.bind]

end

theorem perform_wait (idle : l.isWaiting name = false) :
    l.perform (.wait name) = .ok (.done, l.answered.look name) := by
  rw [perform, idle]
  rfl

theorem perform_wait_again (waits : l.isWaiting name = true) :
    l.perform (.wait name) = .ok (.done, [], l) := by
  rw [perform, if_pos waits]

theorem perform_pass (l : Lobby) (millis : Nat) :
    let deadline := l.session.now + millis * Clock.milli
    let passed := l.passBy (l.session.queue.wakeTimes l.session.now deadline)
    l.perform (.pass millis) = .ok (.done, passed.1, passed.2.standAt deadline) := rfl

/-! ### Parts of a run -/

theorem proceed_cons {seen : List Seen} : l.proceed (move :: ms) = .ok (seen, l') ↔
    ∃ first l₁ later, l.step move = .ok (first, l₁) ∧ l₁.proceed ms = .ok (later, l') ∧
      seen = first :: later := by
  simp only [proceed, Bind.bind, Except.bind]
  cases stepped : l.step move with
  | error => simp
  | ok found =>
    obtain ⟨first, l₁⟩ := found
    cases rest : l₁.proceed ms with
    | error => simp [rest]
    | ok found =>
      obtain ⟨later, l₂⟩ := found
      simp [rest, pure, Except.pure, and_comm, eq_comm]

theorem length_of_proceed {seen : List Seen} (went : l.proceed ms = .ok (seen, l')) :
    seen.length = ms.length := by
  induction ms generalizing l seen with
  | nil =>
    cases went
    rfl
  | cons move ms ih =>
    obtain ⟨first, l₁, later, stepped, rest, rfl⟩ := proceed_cons.mp went
    simp [ih rest]

theorem run_cons {seen : Seen} (stepped : l.step move = .ok (seen, l')) (ms : List Move) :
    l.run (move :: ms) = (l'.run ms).map (seen :: ·) := by
  simp only [run, proceed, stepped, Bind.bind, Except.bind]
  cases l'.proceed ms <;> rfl

/-- A run goes on from where its first part has led to. -/
theorem run_append {seen : List Seen} (went : l.proceed ms = .ok (seen, l')) (more : List Move) :
    l.run (ms ++ more) = (l'.run more).map (seen ++ ·) := by
  induction ms generalizing l seen with
  | nil =>
    cases went
    rw [List.nil_append]
    cases l'.run more <;> rfl
  | cons move ms ih =>
    obtain ⟨first, l₁, later, stepped, rest, rfl⟩ := proceed_cons.mp went
    rw [List.cons_append, run_cons stepped, ih rest]
    cases l'.run more <;> rfl

/-! ### With and without some waits -/

/-- The lobby without the waits of some names, but for stale entries whose time has come and for the
call that is kept. -/
structure Mirrors (gone : Nat → Bool) (m l : Lobby) : Prop where
  abreast : l.session.Abreast m.session
  waiters : m.waiters = l.waiters.filter fun w => !gone w.name

/-- None of these waits is one of those names. -/
def Spares (gone : Nat → Bool) (ended : List Ended) : Prop := ∀ e ∈ ended, gone e.name = false

theorem Spares.append {first later : List Ended} (spares : Spares gone (first ++ later)) :
    Spares gone first ∧ Spares gone later :=
  ⟨fun e member => spares e (List.mem_append_left _ member),
    fun e member => spares e (List.mem_append_right _ member)⟩

namespace Mirrors

theorem waiters_nil (mirrors : Mirrors gone m l) :
    Mirrors gone { m with waiters := [] } { l with waiters := [] } :=
  ⟨mirrors.abreast, rfl⟩

/-- A wait of another name looks with the same result. -/
theorem look (mirrors : Mirrors gone m l) (other : gone name = false) :
    ∃ ended l' m', l.look name = (ended, l') ∧ m.look name = (ended, m') ∧ Mirrors gone m' l' := by
  obtain ⟨seen, s, t, here, there, abreast⟩ := mirrors.abreast.look
  simp only [Lobby.look, here, there, ← mirrors.abreast.now_eq]
  cases seen with
  | ends how => exact ⟨_, _, _, rfl, rfl, abreast, mirrors.waiters⟩
  | sleeps alarm =>
    refine ⟨_, _, _, rfl, rfl, abreast, ?_⟩
    simp [mirrors.waiters, other]

/-- A wait that is not there on the other side, and does not end, leaves no trace. -/
theorem look_of_gone (mirrors : Mirrors gone m l) (away : gone name = true)
    (spares : Spares gone (l.look name).1) :
    (l.look name).1 = [] ∧ Mirrors gone m (l.look name).2 := by
  unfold Lobby.look at spares ⊢
  rcases seen : l.session.look with ⟨how | alarm, s⟩
  · -- It would be told of its end, but none of those waits ends.
    rw [seen] at spares
    have stays := spares _ (List.mem_singleton.mpr rfl)
    rw [away] at stays
    cases stays
  · refine ⟨rfl, mirrors.abreast.of_sleeps seen, ?_⟩
    simp [mirrors.waiters, away]

theorem looks (mirrors : Mirrors gone m l) (ws : List Waiter)
    (spares : Spares gone (l.looks ws).1) :
    ∃ m', m.looks (ws.filter fun w => !gone w.name) = ((l.looks ws).1, m') ∧
      Mirrors gone m' (l.looks ws).2 := by
  induction ws generalizing m l with
  | nil => exact ⟨m, rfl, mirrors⟩
  | cons w ws ih =>
    rw [looks_cons] at spares ⊢
    obtain ⟨spares_first, spares_later⟩ := Spares.append spares
    cases away : gone w.name with
    | true =>
      obtain ⟨none, still⟩ := mirrors.look_of_gone away spares_first
      obtain ⟨m', there, mirrors'⟩ := ih still spares_later
      refine ⟨m', ?_, mirrors'⟩
      rw [List.filter_cons_of_neg (by simp [away]), there, none]
      rfl
    | false =>
      obtain ⟨ended, l₁, m₁, here, there, mirrors₁⟩ := mirrors.look away
      rw [here] at spares_later ⊢
      obtain ⟨m', there', mirrors'⟩ := ih mirrors₁ spares_later
      refine ⟨m', ?_, mirrors'⟩
      rw [List.filter_cons_of_pos (by simp [away]), looks_cons, there, there']

/-- Time passes for both. -/
theorem standAt (mirrors : Mirrors gone m l) {now : Nat} (le : l.session.now ≤ now) :
    Mirrors gone (m.standAt now) (l.standAt now) :=
  ⟨mirrors.abreast.later le, mirrors.waiters⟩

theorem ring (mirrors : Mirrors gone m l) (spares : Spares gone l.ring.1) :
    ∃ m', m.ring = (l.ring.1, m') ∧ Mirrors gone m' l.ring.2 := by
  let due := l.waiters.filter (·.isDue l.session.now)
  have asleep : Mirrors gone { m with waiters := m.waiters.filter (!·.isDue l.session.now) }
      { l with waiters := l.waiters.filter (!·.isDue l.session.now) } := by
    refine ⟨mirrors.abreast, ?_⟩
    rw [mirrors.waiters]
    exact List.filter_comm _ _ _
  have same : m.waiters.filter (·.isDue l.session.now) = due.filter fun w => !gone w.name := by
    rw [mirrors.waiters]
    exact List.filter_comm _ _ _
  obtain ⟨m', there, mirrors'⟩ := asleep.looks due spares
  refine ⟨m', ?_, mirrors'⟩
  rw [Lobby.ring, ← mirrors.abreast.now_eq, same]
  exact there

theorem passBy (mirrors : Mirrors gone m l) {times : List Nat}
    (ordered : times.Pairwise (· ≤ ·)) (later : ∀ time ∈ times, l.session.now ≤ time)
    (spares : Spares gone (l.passBy times).1) :
    ∃ m', m.passBy times = ((l.passBy times).1, m') ∧ Mirrors gone m' (l.passBy times).2 := by
  induction times generalizing m l with
  | nil => exact ⟨m, rfl, mirrors⟩
  | cons now times ih =>
    rw [passBy_cons] at spares ⊢
    obtain ⟨first, ordered⟩ := List.pairwise_cons.mp ordered
    obtain ⟨spares_first, spares_later⟩ := Spares.append spares
    obtain ⟨m₁, rings, mirrors₁⟩ :=
      (mirrors.standAt (later now List.mem_cons_self)).ring spares_first
    have still : (l.standAt now).ring.2.session.now = now := now_ring _
    obtain ⟨m', rest, mirrors'⟩ := ih mirrors₁ ordered (by rw [still]; exact first) spares_later
    refine ⟨m', ?_, mirrors'⟩
    rw [passBy_cons, rings, rest]

/-! ### One move -/

/-- A call is answered alike, unless a wait that is not there on the other side answers it. -/
theorem callOne (mirrors : Mirrors gone m l)
    (kept : ∀ w ws, l.waiters = w :: ws → gone w.name = true → ws = [])
    (spares : Spares gone l.callOne.1) :
    ∃ m', m.callOne = (l.callOne.1, m') ∧ Mirrors gone m' l.callOne.2 := by
  obtain ⟨session, waiters, call⟩ := l
  cases waiters with
  | nil =>
    have nobody : m.waiters = [] := mirrors.waiters
    refine ⟨{ m with kept := true }, ?_, mirrors.abreast, mirrors.waiters⟩
    simp only [Lobby.callOne, nobody]
  | cons w ws =>
    cases away : gone w.name with
    | true =>
      -- No one sleeps behind it, so no one would be called without it, and the call is kept.
      have alone := kept w ws rfl away
      subst alone
      have nobody : m.waiters = [] := by
        rw [mirrors.waiters, List.filter_cons_of_neg (by simp [away]), List.filter_nil]
      have emptied : Mirrors gone m ⟨session, [], call⟩ := ⟨mirrors.abreast, nobody⟩
      obtain ⟨none, still⟩ := emptied.look_of_gone away spares
      refine ⟨{ m with kept := true }, ?_, still.abreast, still.waiters⟩
      simp only [Lobby.callOne, nobody, none]
    | false =>
      have first : m.waiters = w :: ws.filter fun w => !gone w.name := by
        rw [mirrors.waiters, List.filter_cons_of_pos (by simp [away])]
      have behind : Mirrors gone { m with waiters := ws.filter fun w => !gone w.name }
          ⟨session, ws, call⟩ := ⟨mirrors.abreast, rfl⟩
      obtain ⟨ended, l', m', here, there, mirrors'⟩ := behind.look away
      refine ⟨m', ?_, ?_⟩
      · simp only [Lobby.callOne, first, there, here]
      · simp only [Lobby.callOne, here]
        exact mirrors'

theorem callAll (mirrors : Mirrors gone m l) (spares : Spares gone l.callAll.1) :
    ∃ m', m.callAll = (l.callAll.1, m') ∧ Mirrors gone m' l.callAll.2 := by
  obtain ⟨m', there, mirrors'⟩ := mirrors.waiters_nil.looks l.waiters spares
  refine ⟨m', ?_, mirrors'⟩
  rw [Lobby.callAll, mirrors.waiters]
  exact there

theorem isWaiting_eq (mirrors : Mirrors gone m l) (other : gone name = false) :
    m.isWaiting name = l.isWaiting name := by
  rw [isWaiting, mirrors.waiters, List.any_filter, isWaiting]
  refine List.any_congr rfl fun w => ?_
  by_cases same : w.name = name
  · simp [same, other]
  · simp [same]

theorem answered_left (mirrors : Mirrors gone m l) : Mirrors gone m l.answered := by
  refine ⟨?_, mirrors.waiters⟩
  unfold Lobby.answered
  cases l.kept
  · exact mirrors.abreast
  · exact mirrors.abreast.glance

theorem answered (mirrors : Mirrors gone m l) : Mirrors gone m.answered l.answered := by
  refine ⟨?_, mirrors.waiters⟩
  have here := mirrors.answered_left.abreast.symm
  unfold Lobby.answered at here ⊢
  cases m.kept
  · exact here.symm
  · exact here.glance.symm

/-- A move comes to the same, if it begins none of the waits that are not there on the other side,
and none of them takes a call from another. -/
theorem perform (mirrors : Mirrors gone m l)
    (begins : ∀ name, move = .wait name → gone name = false)
    (undiverted : ∀ name, gone name = true → l.takesCall name move = false) :
    (∃ error, l.perform move = .error error ∧ m.perform move = .error error) ∨
      ∃ reply ended l', l.perform move = .ok (reply, ended, l') ∧ (Spares gone ended →
        ∃ m', m.perform move = .ok (reply, ended, m') ∧ Mirrors gone m' l') := by
  cases move with
  | call op instant =>
    rcases mirrors.abreast.perform instant with
      ⟨error, here, there⟩ | ⟨reply, s, t, here, there, abreast⟩
    · exact Or.inl ⟨error, perform_call_error here, perform_call_error there⟩
    · right
      have after : Mirrors gone { m with session := t } { l with session := s } :=
        ⟨abreast, mirrors.waiters⟩
      by_cases closes : op = .close
      · subst closes
        rcases row : ({ l with session := s } : Lobby).callAll with ⟨ended, l'⟩
        refine ⟨reply, ended, l', by rw [perform_close here, row], fun spares => ?_⟩
        obtain ⟨m', called, mirrors'⟩ := after.callAll (by rw [row]; exact spares)
        rw [row] at called mirrors'
        exact ⟨m', by rw [perform_close there, called], mirrors'⟩
      · cases calls : reply.calls with
        | false =>
          exact ⟨reply, _, _, perform_silent here closes calls,
            fun _ => ⟨_, perform_silent there closes calls, after⟩⟩
        | true =>
          have kept : ∀ w ws, l.waiters = w :: ws → gone w.name = true → ws = [] := by
            intro w ws row away
            have taken := undiverted w.name away
            simpa [takesCall, here, calls, row] using taken
          rcases row : ({ l with session := s } : Lobby).callOne with ⟨ended, l'⟩
          refine ⟨reply, ended, l', by rw [perform_calls here closes calls, row],
            fun spares => ?_⟩
          obtain ⟨m', called, mirrors'⟩ := after.callOne kept (by rw [row]; exact spares)
          rw [row] at called mirrors'
          exact ⟨m', by rw [perform_calls there closes calls, called], mirrors'⟩
  | wait name =>
    right
    have other := begins name rfl
    have same := mirrors.isWaiting_eq other
    cases waits : l.isWaiting name with
    | true =>
      exact ⟨_, _, _, perform_wait_again waits,
        fun _ => ⟨m, perform_wait_again (same.trans waits), mirrors⟩⟩
    | false =>
      obtain ⟨ended, l', m', here, there, mirrors'⟩ := mirrors.answered.look other
      refine ⟨.done, ended, l', ?_, fun _ => ⟨m', ?_, mirrors'⟩⟩
      · rw [perform_wait waits, here]
      · rw [perform_wait (same.trans waits), there]
  | giveUp name =>
    right
    refine ⟨.done, [], _, rfl, fun _ => ⟨_, rfl, mirrors.abreast, ?_⟩⟩
    rw [mirrors.waiters]
    exact List.filter_comm _ _ _
  | pass millis =>
    right
    obtain ⟨ordered, within⟩ := wakeTimes_ordered mirrors.abreast.proper.ordered l.session.now
      (l.session.now + millis * Clock.milli)
    have in_time := now_passBy_le (Nat.le_add_right l.session.now (millis * Clock.milli))
      fun time member => (within time member).2
    have times : m.session.queue.wakeTimes l.session.now =
        l.session.queue.wakeTimes l.session.now := by
      funext deadline
      rw [Queue.wakeTimes, Queue.wakeTimes, mirrors.abreast.ahead]
    refine ⟨.done, _, _, perform_pass l millis, fun spares => ?_⟩
    obtain ⟨m', passed, mirrors'⟩ := mirrors.passBy ordered
      (fun time member => (within time member).1) spares
    refine ⟨m'.standAt _, ?_, mirrors'.standAt in_time⟩
    rw [perform_pass, ← mirrors.abreast.now_eq, times, passed]

theorem step (mirrors : Mirrors gone m l)
    (begins : ∀ name, move = .wait name → gone name = false)
    (undiverted : ∀ name, gone name = true → l.takesCall name move = false) :
    (∃ error, l.step move = .error error ∧ m.step move = .error error) ∨
      ∃ seen l', l.step move = .ok (seen, l') ∧ (Spares gone seen.ended →
        ∃ m', m.step move = .ok (seen, m') ∧ Mirrors gone m' l') := by
  rcases mirrors.perform begins undiverted with
    ⟨error, here, there⟩ | ⟨reply, ended, l', here, goes⟩
  · left
    refine ⟨error, ?_, ?_⟩ <;> simp only [Lobby.step, here, there, Bind.bind, Except.bind]
  · right
    refine ⟨⟨reply, l'.session.now, l'.session.queue.counts, ended⟩, l', ?_, ?_⟩
    · simp only [Lobby.step, here, Bind.bind, Except.bind, pure, Except.pure]
    · intro spares
      obtain ⟨m', there, mirrors'⟩ := goes spares
      refine ⟨m', ?_, mirrors'⟩
      simp only [Lobby.step, there, Bind.bind, Except.bind, pure, Except.pure,
        mirrors'.abreast.now_eq, mirrors'.abreast.counts_eq]

/-! ### Runs -/

/-- A row of moves comes to the same, as long as the waits that are not there on the other side do
not end. -/
theorem proceed (mirrors : Mirrors gone m l) {seen : List Seen}
    (begins : ∀ name, .wait name ∈ ms → gone name = false)
    (undiverted : ∀ name, gone name = true → l.diverts name ms = false)
    (goes : l.proceed ms = .ok (seen, l')) (spares : ∀ o ∈ seen, Spares gone o.ended) :
    ∃ m', m.proceed ms = .ok (seen, m') ∧ Mirrors gone m' l' := by
  induction ms generalizing m l seen with
  | nil =>
    cases goes
    exact ⟨m, rfl, mirrors⟩
  | cons move ms ih =>
    obtain ⟨first, l₁, later, stepped, rest, rfl⟩ := proceed_cons.mp goes
    obtain ⟨spares_first, spares_later⟩ := List.forall_mem_cons.mp spares
    have undiverted_here : ∀ name, gone name = true →
        l.takesCall name move = false ∧ l₁.diverts name ms = false := by
      intro name away
      simpa [diverts, stepped] using undiverted name away
    rcases mirrors.step (fun name same => begins name (same ▸ List.mem_cons_self))
        (fun name away => (undiverted_here name away).1) with
      ⟨error, failed, _⟩ | ⟨seen, l₁', here, goes_on⟩
    · rw [stepped] at failed
      cases failed
    · cases here.symm.trans stepped
      obtain ⟨m₁, there, mirrors₁⟩ := goes_on spares_first
      obtain ⟨m', rest', mirrors'⟩ := ih mirrors₁
        (fun name member => begins name (List.mem_cons_of_mem _ member))
        (fun name away => (undiverted_here name away).2) rest spares_later
      exact ⟨m', proceed_cons.mpr ⟨first, m₁, later, there, rest', rfl⟩, mirrors'⟩

/-- Where no wait is missing, runs come to the same. -/
theorem run (mirrors : Mirrors (fun _ => false) m l) (ms : List Move) : m.run ms = l.run ms := by
  induction ms generalizing m l with
  | nil => rfl
  | cons move ms ih =>
    rcases mirrors.step (fun name (_ : move = .wait name) => rfl) (fun _ away => nomatch away) with
      ⟨error, here, there⟩ | ⟨seen, l', here, goes⟩
    · simp only [Lobby.run, Lobby.proceed, here, there, Bind.bind, Except.bind]
    · obtain ⟨m', there, mirrors'⟩ := goes fun _ _ => rfl
      rw [run_cons here, run_cons there, ih mirrors']

theorem of_proper (proper : l.session.Proper) (missing : ∀ w ∈ l.waiters, gone w.name = false) :
    Mirrors gone l l := by
  refine ⟨.of_proper proper, (List.filter_eq_self.mpr fun w member => ?_).symm⟩
  simp [missing w member]

theorem proper_proceed (proper : l.session.Proper) {seen : List Seen}
    (went : l.proceed ms = .ok (seen, l')) : l'.session.Proper := by
  have mirrors : Mirrors (fun _ => false) l l := .of_proper proper fun _ _ => rfl
  obtain ⟨_, _, mirrors'⟩ := mirrors.proceed (fun _ _ => rfl) (fun _ away => nomatch away) went
    fun _ _ _ _ => rfl
  exact mirrors'.abreast.proper

/-- A wait that is not there on the other side begins, and looks in vain. -/
theorem of_wait (mirrors : Mirrors gone m l) (away : gone name = true)
    (idle : l.isWaiting name = false) {seen : Seen} (stepped : l.step (.wait name) = .ok (seen, l'))
    (spares : Spares gone seen.ended) : Mirrors gone m l' := by
  have looked : l.step (.wait name) = .ok (⟨.done, (l.answered.look name).2.session.now,
      (l.answered.look name).2.session.queue.counts, (l.answered.look name).1⟩,
      (l.answered.look name).2) := by
    simp only [Lobby.step, perform_wait idle, Bind.bind, Except.bind, pure, Except.pure]
  cases looked.symm.trans stepped
  exact (mirrors.answered_left.look_of_gone away spares).2

/-- What is left when it is given up. -/
theorem of_giveUp (mirrors : Mirrors (fun other => decide (other = name)) m l) :
    ∃ seen l', l.step (.giveUp name) = .ok (seen, l') ∧ Mirrors (fun _ => false) m l' := by
  refine ⟨_, _, rfl, mirrors.abreast, ?_⟩
  rw [mirrors.waiters]
  simp

end Mirrors

/-- In every run of a queue with any number of waits, one that is given up before it ends might as
well not have been: every other answer stays the same, and so does the end of every other wait,
unless the one given up has answered a call while another one slept. (A lease that times out is a
wait that is given up when its time is over.) -/
theorem abandoned_wait_unnoticed (backoff : Backoff) (limit : Nat)
    (before during after : List Move) (name : Nat) {seen seen' : List Seen} {l l' : Lobby}
    (went : (start (Queue.empty backoff limit)).proceed before = .ok (seen, l))
    (idle : l.isWaiting name = false)
    (waited : l.proceed (.wait name :: during) = .ok (seen', l'))
    (once : .wait name ∉ during)
    (in_vain : ∀ o ∈ seen', ∀ e ∈ o.ended, e.name ≠ name)
    (undiverted : l.diverts name (.wait name :: during) = false) :
    (start (Queue.empty backoff limit)).run (before ++ (during ++ after)) =
      ((start (Queue.empty backoff limit)).run
        (before ++ .wait name :: (during ++ .giveUp name :: after))).map fun all =>
          (all.eraseIdx (before.length + 1 + during.length)).eraseIdx before.length := by
  -- The lobby as it is when the wait begins goes on without it, beside the one that it waits in.
  let gone : Nat → Bool := fun other => decide (other = name)
  have spares : ∀ o ∈ seen', Spares gone o.ended := fun o member e ends =>
    decide_eq_false (in_vain o member e ends)
  have proper : l.session.Proper :=
    Mirrors.proper_proceed (Session.proper_start backoff limit) went
  have others : ∀ w ∈ l.waiters, gone w.name = false := by
    simpa [isWaiting, gone] using idle
  obtain ⟨first, l₁, rest, begun, goes_on, rfl⟩ := proceed_cons.mp waited
  obtain ⟨spares_first, spares_rest⟩ := List.forall_mem_cons.mp spares
  have undiverted_rest : ∀ other, gone other = true → l₁.diverts other during = false := by
    intro other away
    cases of_decide_eq_true away
    simpa [diverts, begun, takesCall] using undiverted
  have begins : ∀ other, .wait other ∈ during → gone other = false := by
    intro other member
    exact decide_eq_false fun same => once (same ▸ member)
  have mirrors₁ : Mirrors gone l l₁ :=
    (Mirrors.of_proper proper others).of_wait (decide_eq_true rfl) idle begun spares_first
  obtain ⟨m', goes_on', mirrors₂⟩ := mirrors₁.proceed begins undiverted_rest goes_on spares_rest
  obtain ⟨last, l₃, given_up, mirrors₃⟩ := mirrors₂.of_giveUp
  rw [run_append went, run_append went, run_cons begun, run_append goes_on, run_append goes_on',
    run_cons given_up, mirrors₃.run after, ← length_of_proceed went, ← length_of_proceed goes_on]
  cases l₃.run after with
  | error => rfl
  | ok later => exact congrArg Except.ok (eraseIdx_two seen rest later first last).symm

/-- The other wait sleeps in front of the one that is given up, and answers the call. -/
theorem abandoned_wait_unnoticed_behind_another :
    let start := start (Queue.empty Backoff.standard 0)
    let during : List Move := [.call (.enqueueDelayed .sync ⟨60⟩) rfl, .pass 10000]
    start.run ([.wait 2] ++ (during ++ [.pass 50000])) =
      (start.run ([.wait 2] ++ .wait 1 :: (during ++ .giveUp 1 :: [.pass 50000]))).map fun all =>
        (all.eraseIdx 4).eraseIdx 1 := by
  intro start during
  have evaluated : ((start.proceed [.wait 2]).toOption.any fun went =>
      !went.2.isWaiting 1 && !went.2.diverts 1 (.wait 1 :: during) &&
        (went.2.proceed (.wait 1 :: during)).toOption.any fun waited =>
          waited.1.all fun o => o.ended.all fun e => e.name ≠ 1) = true := by
    decide +kernel
  obtain ⟨⟨_, l⟩, went, holds⟩ := exists_ok_of_any evaluated
  simp only [Bool.and_eq_true, Bool.not_eq_true'] at holds
  obtain ⟨⟨idle, undiverted⟩, goes_on⟩ := holds
  obtain ⟨_, waited, in_vain⟩ := exists_ok_of_any goes_on
  exact abandoned_wait_unnoticed Backoff.standard 0 [.wait 2] during [.pass 50000] 1 went idle
    waited (by decide) (by simpa using in_vain) undiverted

/-- Two waits sleep when a task comes that is to fall due in a minute. The call wakes the one that
has slept for longest, and when this one is given up, the other sleeps on as the task falls due. If
it had been alone, it would have got the task. -/
theorem left_asleep_by_an_abandoned_wait :
    let start := start (Queue.empty Backoff.standard 0)
    let ends (ms : List Move) := (start.run ms).toOption.map fun all =>
      all.flatMap fun seen => seen.ended.map fun e => (e.name, e.at_)
    ends [.wait 1, .wait 2, .call (.enqueueDelayed .sync ⟨60⟩) rfl, .pass 10000, .giveUp 1,
        .pass 50000] = some [] ∧
      ends [.wait 2, .call (.enqueueDelayed .sync ⟨60⟩) rfl, .pass 10000, .pass 50000] =
        some [(2, Clock.ofSecs 60)] := by
  decide +kernel

end Lobby

end PacedChain
