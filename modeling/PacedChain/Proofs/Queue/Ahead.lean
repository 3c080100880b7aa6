import PacedChain.Queue.Lobby
import PacedChain.Proofs.Queue.Vigils

/-!
# What is still to come

A look drops entries of the schedule whose time has come, and leaves those that are still to come
(`Queue.ahead_look`); it is by these that alarms are set (`Queue.wake_of_look`). Two sessions that
differ in stale entries whose time has come (`Session.Abreast`) are answered alike, and stay so: by
a look (`Session.Abreast.look`), by an operation (`Session.Abreast.perform`) and while time passes
(`Session.Abreast.later`).
-/
namespace PacedChain

namespace Queue

variable {p q q' : Queue} {now later : Nat} {ws ws' : List Wakeup} {w : Wakeup}

/-! ### Looks -/

theorem ahead_of_scheduled (same : p.scheduled = q.scheduled) (now : Nat) :
    p.ahead now = q.ahead now := congrArg (List.filter _) same

/-- What is still to come later on is part of what is still to come now. -/
theorem filter_ahead (le : now ≤ later) :
    (q.ahead now).filter (later < ·.notBefore) = q.ahead later := by
  apply filter_filter_of_imp
  intro w _ after
  simp only [decide_eq_true_eq] at after ⊢
  omega

theorem scheduled_look (ordered : q.Ordered) (now : Nat) :
    (q.look now).2.scheduled = q.scheduled ∨ (q.look now).2.scheduled = q.ahead now := by
  have dropped : (q.promoteDue now).scheduled = q.ahead now :=
    (scheduled_promoteDue q now).trans (dropWhile_due ordered now)
  rcases look_cases q now with ⟨_, same⟩ | ⟨_, _, _, _, _, _, _, _, _, same⟩ | ⟨_, _, same⟩
  · rw [same]
    exact Or.inl rfl
  · rw [same]
    exact Or.inr dropped
  · rw [same]
    exact Or.inr dropped

/-- A look leaves what is still to come. -/
theorem ahead_look (ordered : q.Ordered) (now : Nat) : (q.look now).2.ahead now = q.ahead now := by
  rcases scheduled_look ordered now with same | same
  · exact ahead_of_scheduled same now
  · unfold ahead at same
    rw [ahead, same]
    exact filter_ahead (Nat.le_refl now)

/-- A look in vain names the first time that is still to come. -/
theorem wake_of_look (ordered : q.Ordered) {wake : Option Nat}
    (seen : q.look now = (.idle wake, q')) : wake = (q.ahead now).head?.map (·.notBefore) := by
  rcases look_cases q now with ⟨_, same⟩ | ⟨_, _, _, _, _, _, _, _, _, same⟩ | ⟨_, _, same⟩ <;>
    cases same.symm.trans seen
  rw [scheduled_promoteDue, dropWhile_due ordered]
  rfl

theorem ahead_glance (ordered : q.Ordered) (now : Nat) :
    (q.glance now).ahead now = q.ahead now := by
  have same := ahead_look ordered now
  unfold glance
  rcases seen : q.look now with ⟨_ | _ | _, q'⟩
  · rfl
  · rfl
  · rw [seen] at same
    exact same

/-- Queues that differ in stale entries whose time has come show the same. -/
theorem look_abreast (proper : p.Proper) (proper' : q.Proper) (alike : p.tidy = q.tidy)
    (ahead : p.ahead now = q.ahead now) : ∃ seen p' q', p.look now = (seen, p') ∧
      q.look now = (seen, q') ∧ p'.tidy = q'.tidy ∧ p'.ahead now = q'.ahead now := by
  have same := look_congr proper proper' alike now
  have here := ahead_look proper.ordered now
  have there := ahead_look proper'.ordered now
  rcases seen : p.look now with ⟨look, p'⟩
  rcases seen' : q.look now with ⟨look', q'⟩
  rw [seen] at same here
  rw [seen'] at same there
  simp only [Prod.map, Prod.mk.injEq] at same
  refine ⟨look, p', q', rfl, ?_, same.2, here.trans (ahead.trans there.symm)⟩
  -- What is seen is the same but for the time of the next look, and that is still to come.
  have equal : look = look' := by
    cases look <;> cases look' <;> simp only [Look.withoutWake, reduceCtorEq, false_and,
      Look.leased.injEq] at same
    · rfl
    · rw [same.1]
    · rw [wake_of_look proper.ordered seen, wake_of_look proper'.ordered seen', ahead]
  rw [equal]

/-! ### Operations -/

theorem filter_addWakeup_of_not {p : Wakeup → Bool} (goes : p w = false) :
    (addWakeup w ws).filter p = ws.filter p := by
  induction ws with
  | nil => simp [addWakeup, goes]
  | cons v rest ih =>
    unfold addWakeup
    split
    · rw [List.filter_cons_of_neg (by rw [goes]; exact Bool.false_ne_true)]
    · rw [List.filter_cons, List.filter_cons, ih]

/-- Where the same is still to come, it is so after the same wake-up has been added. -/
theorem filter_addWakeup_congr (order : InOrder ws) (order' : InOrder ws') {p : Wakeup → Bool}
    (same : ws.filter p = ws'.filter p) (w : Wakeup) :
    (addWakeup w ws).filter p = (addWakeup w ws').filter p := by
  cases stays : p w with
  | true => rw [filter_addWakeup order stays, filter_addWakeup order' stays, same]
  | false => rw [filter_addWakeup_of_not stays, filter_addWakeup_of_not stays, same]

theorem ahead_enqueueDelayed_congr (ordered : p.Ordered) (ordered' : q.Ordered)
    (alike : p.tidy = q.tidy) (ahead : p.ahead now = q.ahead now) (job : Job) (delay : Delay) :
    (p.enqueueDelayed now job delay).2.ahead now =
      (q.enqueueDelayed now job delay).2.ahead now := by
  have created : p.created = q.created := congrArg (·.created) alike
  have closed := closed_of_tidy_eq alike
  rcases enqueueDelayed_cases p now job delay with ⟨shut, here⟩ | ⟨opened, here⟩ <;>
    rcases enqueueDelayed_cases q now job delay with ⟨shut', there⟩ | ⟨opened', there⟩
  · rw [here, there]
    exact ahead
  · rw [shut, opened'] at closed
    cases closed
  · rw [opened, shut'] at closed
    cases closed
  · obtain ⟨_, same⟩ := insert_eq p now job delay none
    obtain ⟨_, same'⟩ := insert_eq q now job delay none
    rw [here, there, same, same']
    unfold Queue.ahead
    simp only [created]
    split
    · exact ahead
    · exact filter_addWakeup_congr ordered ordered' ahead _

theorem scheduled_enqueueUnique (q : Queue) (now : Nat) (key : Key) (policy : HolderPolicy)
    (job : Job) : (q.enqueueUnique now key policy job).2.scheduled = q.scheduled := by
  have inserted : ∀ q : Queue,
      (q.insert now job Delay.zero (some key)).2.scheduled = q.scheduled := by
    intro q
    obtain ⟨_, same⟩ := insert_eq q now job Delay.zero (some key)
    rw [same]
    rfl
  rcases enqueueUnique_cases q now key policy job with
    ⟨_, same⟩ | ⟨_, _, same⟩ | ⟨_, _, _, _, _, same⟩ | ⟨_, previous, _, _, _, _, same⟩
  · rw [same]
  · rw [same]
    exact inserted q
  · rw [same]
  · rw [same]
    exact (inserted _).trans (scheduled_finish q previous _)

theorem ahead_complete_congr (ordered : p.Ordered) (ordered' : q.Ordered) (alike : p.tidy = q.tidy)
    (ahead : p.ahead now = q.ahead now) {id : TaskId} {task : Task}
    (known : p.task? id = some task) (outcome : Outcome) :
    (p.complete now id outcome).2.ahead now = (q.complete now id outcome).2.ahead now := by
  have known' : q.task? id = some task := (task?_of_tidy_eq alike id).symm.trans known
  have backoff : p.backoff = q.backoff := congrArg (·.backoff) alike
  have settled : ∀ f, (p.settle id task f).ahead now = (q.settle id task f).ahead now := by
    intro f
    unfold Queue.ahead settle
    simp only [scheduled_finish]
    exact ahead
  cases outcome with
  | success =>
    rw [complete_success known, complete_success known']
    exact settled _
  | retry =>
    cases allowed : q.backoff.allowsRetry task.attempts with
    | false =>
      rw [complete_dead known now (backoff ▸ allowed), complete_dead known' now allowed]
      exact settled _
    | true =>
      cases wait : q.backoff.nextDelay task.attempts with
      | error =>
        rw [complete_noDelay known now (backoff ▸ allowed) (backoff ▸ wait),
          complete_noDelay known' now allowed wait]
        exact ahead
      | ok delay =>
        rw [complete_retry known now (backoff ▸ allowed) (backoff ▸ wait),
          complete_retry known' now allowed wait]
        exact filter_addWakeup_congr ordered ordered' ahead _

end Queue

namespace Session

variable {s s' t t' : Session}

/-! ### The look of a wait -/

theorem Proper.look (proper : s.Proper) : s.look.2.Proper := by
  obtain ⟨journal, used⟩ := Queue.Used.perform proper.sound s.now .look
  have ordered := proper.ordered.look s.now
  unfold Session.look
  rcases seen : s.queue.look s.now with ⟨_ | lease | _, q⟩ <;> rw [seen] at ordered
  · rw [Usage.perform_look_closed seen] at used
    exact ⟨used, ordered⟩
  · rw [Usage.perform_look_leased seen] at used
    exact ⟨Sound.take used, ordered⟩
  · rw [Usage.perform_look_idle seen] at used
    exact ⟨used, ordered⟩

theorem now_look (s : Session) : s.look.2.now = s.now := by
  unfold look
  rcases s.queue.look s.now with ⟨_ | _ | _, q⟩ <;> rfl

/-- Sessions that differ in stale entries whose time has come. -/
structure Abreast (s t : Session) : Prop where
  proper : s.Proper
  proper' : t.Proper
  alike : s.tidy = t.tidy
  ahead : s.queue.ahead s.now = t.queue.ahead s.now

namespace Abreast

theorem of_proper (proper : s.Proper) : s.Abreast s := ⟨proper, proper, rfl, rfl⟩

theorem now_eq (abreast : s.Abreast t) : s.now = t.now := congrArg (·.now) abreast.alike

theorem counts_eq (abreast : s.Abreast t) : s.queue.counts = t.queue.counts :=
  Queue.counts_of_tidy_eq (congrArg Session.queue abreast.alike)

/-- Time passes for both. -/
theorem later (abreast : s.Abreast t) {now : Nat} (le : s.now ≤ now) :
    ({ s with now } : Session).Abreast { t with now } := by
  obtain ⟨q, rfl, same⟩ := of_tidy_eq abreast.alike
  refine ⟨⟨abreast.proper.sound, abreast.proper.ordered⟩,
    ⟨abreast.proper'.sound, abreast.proper'.ordered⟩, ?_, ?_⟩
  · simp [tidy, same]
  · change s.queue.ahead now = q.ahead now
    rw [← Queue.filter_ahead le, ← Queue.filter_ahead le, abreast.ahead]

/-- Both see the same. -/
theorem look (abreast : s.Abreast t) :
    ∃ seen s' t', s.look = (seen, s') ∧ t.look = (seen, t') ∧ s'.Abreast t' := by
  have here := abreast.proper.look
  have there := abreast.proper'.look
  obtain ⟨q, rfl, same⟩ := of_tidy_eq abreast.alike
  obtain ⟨seen, p', q', seen_here, seen_there, alike, ahead⟩ := Queue.look_abreast
    abreast.proper.queue abreast.proper'.queue same abreast.ahead
  unfold Session.look at here there ⊢
  simp only [seen_here, seen_there] at here there ⊢
  cases seen with
  | closed | idle => exact ⟨_, _, _, rfl, rfl, here, there, by simp [tidy, alike], ahead⟩
  | leased lease => exact ⟨_, _, _, rfl, rfl, here, there, by simp [tidy, take, alike], ahead⟩

/-- A look in vain might as well not have been. -/
theorem of_sleeps (abreast : s.Abreast t) {alarm : Option Nat}
    (seen : s.look = (.sleeps alarm, s')) : s'.Abreast t := by
  have proper := abreast.proper.look
  have dropped := Queue.ahead_look abreast.proper.ordered s.now
  unfold Session.look at seen proper
  rcases found : s.queue.look s.now with ⟨_ | _ | wake, q⟩ <;>
    simp only [found] at seen proper dropped <;> cases seen
  have idle := Queue.idle_of_look abreast.proper.queue found
  refine ⟨proper, abreast.proper', ?_, dropped.trans abreast.ahead⟩
  rw [← abreast.alike]
  simp [tidy, idle.alike]

/-- The first of two looks might as well not have been. -/
theorem glance (abreast : s.Abreast t) :
    ({ s with queue := s.queue.glance s.now } : Session).Abreast t := by
  refine ⟨⟨Queue.Used.glance abreast.proper.sound s.now, abreast.proper.ordered.glance s.now⟩,
    abreast.proper', ?_, ?_⟩
  · rw [← abreast.alike]
    simp [tidy, Queue.tidy_glance abreast.proper.queue]
  · exact (Queue.ahead_glance abreast.proper.ordered s.now).trans abreast.ahead

/-- What is still to come stays the same for both by an operation that takes no time. -/
theorem ahead_perform (abreast : s.Abreast t) {op : Operation} (instant : op.isInstant = true)
    {reply reply' : Reply} (here : s.perform op = .ok (reply, s'))
    (there : t.perform op = .ok (reply', t')) :
    s'.now = s.now ∧ s'.queue.ahead s.now = t'.queue.ahead s.now := by
  have ordered := abreast.proper.ordered
  have ordered' := abreast.proper'.ordered
  have ahead := abreast.ahead
  obtain ⟨q, rfl, same⟩ := of_tidy_eq abreast.alike
  cases op with
  | enqueue job =>
    cases here
    cases there
    exact ⟨rfl, Queue.ahead_enqueueDelayed_congr ordered ordered' same ahead job Delay.zero⟩
  | enqueueDelayed job delay =>
    cases here
    cases there
    exact ⟨rfl, Queue.ahead_enqueueDelayed_congr ordered ordered' same ahead job delay⟩
  | enqueueUnique key policy job =>
    cases here
    cases there
    refine ⟨rfl, ?_⟩
    change (s.queue.enqueueUnique s.now key policy job).2.ahead s.now =
      (q.enqueueUnique s.now key policy job).2.ahead s.now
    rw [Queue.ahead_of_scheduled (Queue.scheduled_enqueueUnique s.queue s.now key policy job),
      Queue.ahead_of_scheduled (Queue.scheduled_enqueueUnique q s.now key policy job), ahead]
  | complete number outcome =>
    simp only [Session.perform] at here
    simp only [Session.perform, release_with_queue] at there
    rcases released : s.release number with _ | ⟨lease, s₁⟩ <;> rw [released] at here there
    · cases here
      cases there
      exact ⟨rfl, ahead⟩
    · obtain ⟨leases, rfl, perm⟩ := release_eq_some released
      have member : lease ∈ s.held := perm.symm.subset List.mem_cons_self
      obtain ⟨task, known, _⟩ := Queue.Used.running_of_mem abreast.proper.sound member
      have completed := Queue.ahead_complete_congr ordered ordered' same ahead known outcome
      simp only [Option.map_some] at there
      rcases done : s.queue.complete s.now lease.envelope.task outcome with
        ⟨(_ | _) | _, p'⟩ <;>
        rcases done' : q.complete s.now lease.envelope.task outcome with ⟨(_ | _) | _, q'⟩ <;>
        simp only [done] at here <;> simp only [done'] at there <;> cases here <;> cases there <;>
        exact ⟨rfl, by simpa only [done, done'] using completed⟩
  | dropLease number =>
    simp only [Session.perform] at here
    simp only [Session.perform, release_with_queue] at there
    rcases released : s.release number with _ | ⟨lease, s₁⟩ <;> rw [released] at here there
    · cases here
      cases there
      exact ⟨rfl, ahead⟩
    · obtain ⟨leases, rfl, _⟩ := release_eq_some released
      cases here
      cases there
      exact ⟨rfl, ahead⟩
  | close | log | retained | taskState | unfinished =>
    cases here
    cases there
    exact ⟨rfl, ahead⟩
  | lease | wait | abortWait | sleep => cases instant

/-- Both answer alike. -/
theorem perform (abreast : s.Abreast t) {op : Operation} (instant : op.isInstant = true) :
    (∃ error, s.perform op = .error error ∧ t.perform op = .error error) ∨
      ∃ reply s' t', s.perform op = .ok (reply, s') ∧ t.perform op = .ok (reply, t') ∧
        s'.Abreast t' := by
  rcases map_eq_map_cases (perform_congr abreast.proper abreast.proper' abreast.alike op) with
    failed | ⟨⟨reply, s'⟩, ⟨reply', t'⟩, here, there, same⟩
  · exact Or.inl failed
  · simp only [Prod.map, id_eq, Prod.mk.injEq] at same
    obtain ⟨rfl, alike⟩ := same
    obtain ⟨now, ahead⟩ := abreast.ahead_perform instant here there
    refine Or.inr ⟨reply, s', t', here, there, ?_⟩
    exact ⟨abreast.proper.perform here, abreast.proper'.perform there, alike, by rw [now, ahead]⟩

theorem symm (abreast : s.Abreast t) : t.Abreast s :=
  ⟨abreast.proper', abreast.proper, abreast.alike.symm, abreast.now_eq ▸ abreast.ahead.symm⟩

end Abreast

end Session

end PacedChain
