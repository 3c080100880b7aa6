import PacedChain.Json.Durable
import PacedChain.Proofs.Backoff.Rounding
import PacedChain.Proofs.Json.Values
import Mathlib.Data.String.Basic

/-!
# Durable forms restored

A value is restored from the text that is kept of it, and whatever a text is read as has a text of
its own that is read as the same value (`Durable.RoundTrips`). What is kept has to fit: identifiers
into 128 bits, numbers into the bits that are given for them. Everything that is read fits.
-/
namespace PacedChain

/-! ### Fields -/

namespace Json

/-- The members of a record as they stand in an object. -/
def labelled (members : List (String × Json)) : List (Option String × Json) :=
  members.map fun (name, value) => (some name, value)

variable {members chosen : List (String × Json)} {name : String} {value : Json}

theorem named_eq_nil (absent : name ∉ members.map Prod.fst) :
    named (labelled members) name = [] := by
  simp only [named, labelled, List.map_eq_nil_iff, List.filter_eq_nil_iff, List.mem_map]
  rintro _ ⟨⟨other, value⟩, known, rfl⟩ same
  simp only [beq_iff_eq, Option.some.injEq] at same
  exact absent (same ▸ List.mem_map_of_mem known)

theorem only?_labelled (once : (members.map Prod.fst).Nodup) (known : (name, value) ∈ members) :
    only? (labelled members) name = some value := by
  have found : named (labelled members) name = [value] := by
    induction members with
    | nil => simp at known
    | cons member members ih =>
      obtain ⟨first, kept⟩ := member
      simp only [List.map_cons, List.nodup_cons] at once
      rcases List.mem_cons.mp known with same | later
      · cases same
        have others := named_eq_nil once.1
        simp only [named, labelled, List.map_eq_nil_iff] at others
        simp [named, labelled, others]
      · have differs : first ≠ name := by
          rintro rfl
          exact once.1 (List.mem_map_of_mem later)
        have others := ih once.2 later
        simp only [named, labelled] at others
        simp [named, labelled, differs, others]
  rw [only?, found]

theorem fieldsOfMembers?_labelled (once : (members.map Prod.fst).Nodup)
    (known : ∀ member ∈ chosen, member ∈ members) :
    fieldsOfMembers? (labelled members) (chosen.map Prod.fst) = some (chosen.map Prod.snd) := by
  have proper : (labelled members).all (·.1.isSome) = true := by simp [labelled]
  rw [fieldsOfMembers?, if_pos proper]
  induction chosen with
  | nil => rfl
  | cons member chosen ih =>
    have first := only?_labelled once (known member List.mem_cons_self)
    have others := ih fun other later => known other (List.mem_cons_of_mem member later)
    simp [List.mapM_cons, first, others]

theorem fields?_record (once : (members.map Prod.fst).Nodup) :
    (record members).fields? (members.map Prod.fst) = some (members.map Prod.snd) :=
  fieldsOfMembers?_labelled once fun _ known => known

theorem isPlain_record (h : ∀ member ∈ members, member.2.IsPlain) : (record members).IsPlain := by
  change ArePlainMembers (labelled members)
  induction members with
  | nil => trivial
  | cons member members ih =>
    exact ⟨rfl, h member List.mem_cons_self,
      ih fun other later => h other (List.mem_cons_of_mem member later)⟩

theorem isPlain_nat (n : Nat) : (nat n).IsPlain := Numeral.isWhole_ofNat n

theorem isPlain_str (s : String) : (str s).IsPlain := rfl

theorem nat?_nat {bits n : Nat} (small : n < 2 ^ bits) : (nat n).nat? bits = some n := by
  simpa [nat?, nat, Numeral.natural?, Numeral.ofNat] using small

theorem lt_of_nat? {j : Json} {bits n : Nat} (h : j.nat? bits = some n) : n < 2 ^ bits := by
  unfold nat? at h
  split at h
  · have small := (Option.filter_eq_some_iff.mp h).2
    exact of_decide_eq_true small
  · cases h

end Json

namespace Durable

variable {α : Type} [Durable α] {fits : α → Prop}

/-- What is written of a value is JSON. A value that fits is read back; whatever is read fits, and
is read again from what is written of it. -/
def RoundTrips (fits : α → Prop) : Prop :=
  (∀ a : α, Json.parse (text a) = some (toJson a)) ∧
  (∀ a : α, fits a → parse? (text a) = some a) ∧
  ∀ (s : String) (a : α), parse? s = some a → fits a ∧ parse? (text a) = some a

/-- The same of the JSON values that stand between a text and a value. -/
structure Faithful (fits : α → Prop) : Prop where
  plain : ∀ a : α, (toJson a).IsPlain
  restored : ∀ a : α, fits a → ofJson? (toJson a) = some a
  fits : ∀ (j : Json) (a : α), ofJson? j = some a → fits a

theorem Faithful.roundTrips (h : Faithful fits) : RoundTrips fits := by
  have written : ∀ a : α, Json.parse (text a) = some (toJson a) :=
    fun a => Json.parse_render (h.plain a)
  have again : ∀ a : α, fits a → parse? (text a) = some a := by
    intro a fit
    rw [parse?, written a, Option.bind_some, h.restored a fit]
  refine ⟨written, again, ?_⟩
  intro s a read
  obtain ⟨j, -, given⟩ := Option.bind_eq_some_iff.mp read
  exact ⟨h.fits j a given, again a (h.fits j a given)⟩

end Durable

/-! ### Identifiers -/

namespace Base32

theorem utf8Size_digit {v : Nat} (h : v < 32) : (digit v).utf8Size = 1 := by
  have all : ∀ v < 32, (digit v).utf8Size = 1 := by decide
  exact all v h

theorem utf8ByteSize_digits (count n : Nat) :
    (String.ofList (digits count n)).utf8ByteSize = count := by
  rw [String.utf8ByteSize_ofList]
  induction count generalizing n with
  | zero => rfl
  | succ count ih =>
    have low : n % 32 < 32 := Nat.mod_lt _ (by decide)
    simp [digits, ih, utf8Size_digit low]

theorem mem_alphabet_of_mem_digits (count n : Nat) : ∀ c ∈ digits count n, c ∈ alphabet := by
  have all : ∀ v < 32, digit v ∈ alphabet := by decide
  induction count generalizing n with
  | zero => simp [digits]
  | succ count ih =>
    intro c known
    rcases List.mem_append.mp known with high | low
    · exact ih (n / 32) c high
    · rw [List.mem_singleton.mp low]
      exact all _ (Nat.mod_lt _ (by decide))

theorem parse_text {n : Nat} (fits : n < modulus) : parse (text n) = .ok n := by
  have room : modulus ≤ Nat.pow 32 width := by decide +kernel
  have whole : n % modulus % Nat.pow 32 width = n := by
    rw [Nat.mod_eq_of_lt fits, Nat.mod_eq_of_lt (Nat.lt_of_lt_of_le fits room)]
  have read : number? 0 (text n).toList = some n := by
    rw [text, String.toList_ofList, number?_digits, whole, Nat.zero_mul, Nat.zero_add]
  have long : (text n).utf8ByteSize = width := utf8ByteSize_digits width _
  simp [parse, long, read, Nat.mod_eq_of_lt fits]

theorem lt_of_parse {s : String} {n : Nat} (h : parse s = .ok n) : n < modulus := by
  unfold parse at h
  split at h
  · cases h
  · split at h
    · cases h
      exact Nat.mod_lt _ (by decide)
    · cases h

theorem isPlain_toJson (n : Nat) : (toJson n).IsPlain :=
  Json.isPlain_record (by simp [Json.isPlain_str])

theorem ofJson?_toJson {n : Nat} (fits : n < modulus) : ofJson? (toJson n) = some n := by
  have fields : (toJson n).fields? ["ulid"] = some [.str (text n)] :=
    Json.fields?_record (by simp)
  simp [ofJson?, fields, Json.text?, Json.str, parse_text fits, Except.toOption]

theorem lt_of_ofJson? {j : Json} {n : Nat} (h : ofJson? j = some n) : n < modulus := by
  unfold ofJson? at h
  split at h
  · obtain ⟨s, -, read⟩ := Option.bind_eq_some_iff.mp h
    cases parsed : parse s with
    | error e => simp [parsed, Except.toOption] at read
    | ok m =>
      simp only [parsed, Except.toOption, Option.some.injEq] at read
      exact read ▸ lt_of_parse parsed
  · cases h

end Base32

/-! ### The types -/

namespace Durable

theorem faithful_named {α : Type} [Named α]
    (known : ∀ a : α, Named.parse? (Named.text a) = some a) : Faithful fun _ : α => True where
  plain a := Json.isPlain_str (Named.text a)
  restored a _ := known a
  fits _ _ _ := trivial

theorem faithful_job : Faithful fun _ : Job => True :=
  faithful_named fun job => by cases job <;> rfl

theorem faithful_importance : Faithful fun _ : Importance => True :=
  faithful_named fun importance => by cases importance <;> rfl

theorem faithful_taskId : Faithful fun t : TaskId => t.number < Base32.modulus where
  plain t := Base32.isPlain_toJson t.number
  restored t fits := by simp [ofJson?, toJson, Base32.ofJson?_toJson fits]
  fits j t given := by
    obtain ⟨n, read, rfl⟩ := Option.map_eq_some_iff.mp given
    exact Base32.lt_of_ofJson? read

theorem faithful_delay : Faithful fun d : Delay => d.secs < 2 ^ 64 where
  plain d := Json.isPlain_nat d.secs
  restored d fits := by simp [ofJson?, toJson, Json.nat?_nat fits]
  fits j d given := by
    obtain ⟨n, read, rfl⟩ := Option.map_eq_some_iff.mp given
    exact Json.lt_of_nat? read

theorem faithful_key : Faithful fun _ : Key => True where
  plain k := Json.isPlain_str k.text
  restored _ _ := rfl
  fits _ _ _ := trivial

theorem faithful_envelope : Faithful fun e : Envelope => e.task.number < Base32.modulus where
  plain e := Json.isPlain_record (by simp [faithful_taskId.plain, faithful_job.plain])
  restored e fits := by
    have fields : (toJson e).fields? ["task_id", "job"] = some [toJson e.task, toJson e.job] :=
      Json.fields?_record (by simp)
    change ((toJson e).fields? _ >>= _) = _
    rw [fields]
    simp [faithful_taskId.restored e.task fits, faithful_job.restored e.job trivial]
  fits j e given := by
    change (j.fields? _ >>= _) = _ at given
    obtain ⟨fields, -, given⟩ := Option.bind_eq_some_iff.mp given
    split at given
    · obtain ⟨task, read, given⟩ := Option.bind_eq_some_iff.mp given
      obtain ⟨job, -, given⟩ := Option.bind_eq_some_iff.mp given
      cases given
      exact faithful_taskId.fits _ task read
    · cases given

theorem faithful_notice : Faithful fun _ : Notice => True where
  plain n := Json.isPlain_record (by simp [Json.isPlain_str, Json.IsPlain])
  restored n _ := by
    have fields : (toJson n).fields? ["title", "text", "ongoing", "only_alert_once"] =
        some [.str n.title, .str n.text, .bool n.ongoing, .bool n.onlyAlertOnce] :=
      Json.fields?_record (by simp)
    change ((toJson n).fields? _ >>= _) = _
    rw [fields]
    rfl
  fits _ _ _ := trivial

theorem faithful_channelSpec : Faithful fun _ : ChannelSpec => True where
  plain s := Json.isPlain_record (by
    simp [Json.isPlain_str, Json.IsPlain, faithful_importance.plain])
  restored s _ := by
    have fields : (toJson s).fields? ["id", "name", "description", "importance", "show_badge"] =
        some [.str s.id, .str s.name, .str s.description, toJson s.importance, .bool s.showBadge] :=
      Json.fields?_record (by simp)
    change ((toJson s).fields? _ >>= _) = _
    rw [fields]
    simp [Json.text?, Json.str, Json.bool?, faithful_importance.restored s.importance trivial]
  fits _ _ _ := trivial

end Durable

/-- No count has more than 64 bits. -/
def Counts.Fits (c : Counts) : Prop :=
  ∀ n ∈ [c.queued, c.delayed, c.running, c.succeeded, c.retryScheduled, c.dead, c.cancelled],
    n < 2 ^ 64

theorem Durable.faithful_counts : Faithful Counts.Fits where
  plain c := Json.isPlain_record (by simp [Json.isPlain_nat])
  restored c fits := by
    have fields : (toJson c).fields? ["queued", "delayed", "running", "succeeded",
          "retry_scheduled", "dead", "cancelled"] =
        some [.nat c.queued, .nat c.delayed, .nat c.running, .nat c.succeeded,
          .nat c.retryScheduled, .nat c.dead, .nat c.cancelled] :=
      Json.fields?_record (by simp)
    have restored : ∀ n ∈ [c.queued, c.delayed, c.running, c.succeeded, c.retryScheduled, c.dead,
        c.cancelled], (Json.nat n).nat? 64 = some n := fun n known => Json.nat?_nat (fits n known)
    simp only [List.forall_mem_cons] at restored
    change ((toJson c).fields? _ >>= _) = _
    rw [fields]
    simp [restored]
  fits j c given := by
    change (j.fields? _ >>= _) = _ at given
    obtain ⟨fields, -, given⟩ := Option.bind_eq_some_iff.mp given
    split at given
    · simp only [Option.bind_eq_bind, Option.bind_eq_some_iff, Option.pure_def,
        Option.some.injEq] at given
      obtain ⟨queued, h₁, delayed, h₂, running, h₃, succeeded, h₄, retryScheduled, h₅, dead, h₆,
        cancelled, h₇, rfl⟩ := given
      simp only [Counts.Fits, List.forall_mem_cons]
      exact ⟨Json.lt_of_nat? h₁, Json.lt_of_nat? h₂, Json.lt_of_nat? h₃, Json.lt_of_nat? h₄,
        Json.lt_of_nat? h₅, Json.lt_of_nat? h₆, Json.lt_of_nat? h₇, by simp⟩
    · cases given

/-! ### Completions -/

namespace Binary64

/-- A whole number that is far below the largest double is rounded to a finite one. -/
theorem isFinite_round {n : Nat} (small : n ≤ 2 ^ 64) :
    (round false (n * unity) 1).isFinite = true := by
  rcases round_cases false (n * unity) 1 with ⟨finite, -⟩ | ⟨-, large⟩
  · rw [finite]
    rfl
  · have fits : Representable (2 ^ 64 * unity) := by
      rw [unity_eq]
      exact (representable_two_pow 64).mul_two_pow unityExponent
    have bound : nearest (n * unity) 1 ≤ 2 ^ 64 * unity :=
      nearest_le fits Nat.one_pos (by simpa using Nat.mul_le_mul_right unity small)
    have top : 2 ^ 64 * unity < overflow := by
      rw [overflow_eq]
      exact Nat.mul_lt_mul_of_pos_right (Nat.pow_lt_pow_right (by decide) (by decide)) unity_pos
    exact absurd (Nat.le_trans large bound) (Nat.not_le_of_lt top)

end Binary64

theorem Numeral.inRange_ofNat {n : Nat} (small : n < 2 ^ 64) :
    (Numeral.ofNat n).inRange = true := by
  have short : (Nat.toDigits 10 n).length ≤ 20 :=
    (Nat.length_toDigits_le_iff (by decide) (by decide)).mpr (by omega)
  have finite := Binary64.isFinite_round (Nat.le_of_lt small)
  change (Binary64.ofDecimal false n 0).isFinite = true
  rw [Binary64.ofDecimal, if_pos (Int.le_refl 0)]
  split
  · rfl
  · rw [if_neg (by omega)]
    simpa using finite

namespace Json

variable {members : List (String × Json)}

/-- A record whose members are neither arrays nor objects is not nested deep. -/
theorem isBufferable_record
    (flat : ∀ member ∈ members, member.2.depth = 0 ∧ member.2.isSound = true) :
    (record members).isBufferable = true := by
  have shallow : depthMembers (labelled members) = 0 ∧
      areSoundMembers (labelled members) = true := by
    induction members with
    | nil => exact ⟨rfl, rfl⟩
    | cons member members ih =>
      obtain ⟨depth, sound⟩ := flat member List.mem_cons_self
      obtain ⟨depths, sounds⟩ := ih fun other later =>
        flat other (List.mem_cons_of_mem member later)
      simp only [labelled] at depths sounds
      simp [labelled, depthMembers, areSoundMembers, depth, sound, depths, sounds]
  change (areSoundMembers (labelled members) &&
    decide (depthMembers (labelled members) + 1 ≤ maxDepth)) = true
  rw [shallow.1, shallow.2]
  rfl

end Json

namespace Completion

/-- Numbers of attempts have at most 32 bits, and delays at most 64. -/
def Fits : Completion → Prop
  | .succeeded => True
  | .retryScheduled attempt delaySecs => attempt < 2 ^ 32 ∧ delaySecs < 2 ^ 64
  | .dead attempts => attempts < 2 ^ 32

theorem fits_of_ofFields? {kind : String} {fields? : List String → Option (List Json)}
    {c : Completion} (h : ofFields? kind fields? = some c) : c.Fits := by
  unfold ofFields? at h
  split at h
  case h_1 =>
    obtain ⟨fields, -, rfl⟩ := Option.map_eq_some_iff.mp h
    trivial
  case h_2 =>
    obtain ⟨fields, -, h⟩ := Option.bind_eq_some_iff.mp h
    split at h
    · obtain ⟨attempt, first, h⟩ := Option.bind_eq_some_iff.mp h
      obtain ⟨delaySecs, second, h⟩ := Option.bind_eq_some_iff.mp h
      cases h
      exact ⟨Json.lt_of_nat? first, Json.lt_of_nat? second⟩
    · cases h
  case h_3 =>
    obtain ⟨fields, -, h⟩ := Option.bind_eq_some_iff.mp h
    split at h
    · obtain ⟨attempts, only, h⟩ := Option.bind_eq_some_iff.mp h
      cases h
      exact Json.lt_of_nat? only
    · cases h
  case h_4 => cases h

/-- What is written of a completion is read by the kind that comes first. -/
theorem ofJson?_tagged {kind : String} {fields : List (String × Json)}
    (once : ((("kind", Json.str kind) :: fields).map Prod.fst).Nodup)
    (flat : ∀ field ∈ fields, field.2.depth = 0 ∧ field.2.isSound = true) :
    (Durable.ofJson? (Json.record (("kind", .str kind) :: fields)) : Option Completion) =
      ofFields? kind (Json.fieldsOfMembers? (Json.labelled (("kind", .str kind) :: fields))) := by
  have tag := Json.only?_labelled once List.mem_cons_self
  have kept : (Json.record (("kind", .str kind) :: fields)).isBufferable = true :=
    Json.isBufferable_record (List.forall_mem_cons.mpr ⟨⟨rfl, rfl⟩, flat⟩)
  change (if !_ then none else
    Json.only? (Json.labelled (("kind", .str kind) :: fields)) "kind" >>= _) = _
  rw [kept, tag]
  rfl

/-- The fields behind the kind. -/
theorem fields_tagged {kind : String} {fields : List (String × Json)}
    (once : ((("kind", Json.str kind) :: fields).map Prod.fst).Nodup) :
    Json.fieldsOfMembers? (Json.labelled (("kind", .str kind) :: fields)) (fields.map Prod.fst) =
      some (fields.map Prod.snd) :=
  Json.fieldsOfMembers?_labelled once fun _ => List.mem_cons_of_mem ("kind", Json.str kind)

theorem flat_nat {n : Nat} (small : n < 2 ^ 64) :
    (Json.nat n).depth = 0 ∧ (Json.nat n).isSound = true :=
  ⟨rfl, Numeral.inRange_ofNat small⟩

end Completion

theorem Durable.faithful_completion : Faithful Completion.Fits where
  plain c := by
    cases c <;> exact Json.isPlain_record (by simp [Json.isPlain_nat, Json.isPlain_str])
  restored c fits := by
    cases c with
    | succeeded =>
      have once : ([("kind", Json.str "succeeded")].map Prod.fst).Nodup := by simp
      exact Completion.ofJson?_tagged once (by simp)
    | retryScheduled attempt delaySecs =>
      have once : ((("kind", Json.str "retry_scheduled") :: [("attempt", Json.nat attempt),
        ("delay_secs", .nat delaySecs)]).map Prod.fst).Nodup := by simp
      have attempt_small : attempt < 2 ^ 64 := Nat.lt_of_lt_of_le fits.1 (by decide)
      have fields := Completion.fields_tagged once
      rw [List.map_cons, List.map_cons, List.map_nil] at fields
      refine (Completion.ofJson?_tagged once ?_).trans ?_
      · simp [Completion.flat_nat attempt_small, Completion.flat_nat fits.2]
      · change Json.fieldsOfMembers? _ ["attempt", "delay_secs"] >>= _ = _
        rw [fields]
        simp [Json.nat?_nat fits.1, Json.nat?_nat fits.2]
    | dead attempts =>
      have once : ((("kind", Json.str "dead") :: [("attempts", Json.nat attempts)]).map
        Prod.fst).Nodup := by simp
      have attempts_small : attempts < 2 ^ 64 := Nat.lt_of_lt_of_le fits (by decide)
      have fields := Completion.fields_tagged once
      rw [List.map_cons, List.map_nil] at fields
      refine (Completion.ofJson?_tagged once ?_).trans ?_
      · simp [Completion.flat_nat attempts_small]
      · change Json.fieldsOfMembers? _ ["attempts"] >>= _ = _
        rw [fields]
        simp [Json.nat?_nat fits]
  fits j c given := by
    simp only [Durable.ofJson?] at given
    split at given
    · cases given
    · split at given
      · obtain ⟨kind, -, given⟩ := Option.bind_eq_some_iff.mp given
        obtain ⟨name, -, given⟩ := Option.bind_eq_some_iff.mp given
        exact Completion.fits_of_ofFields? given
      · obtain ⟨name, -, given⟩ := Option.bind_eq_some_iff.mp given
        exact Completion.fits_of_ofFields? given
      · cases given

namespace Durable

/-- Every envelope, completion, row of counts, delay, key, notice and channel that fits is restored
from the JSON that is written of it, and so is everything that any text is read as. An identifier is
written with 26 digits. -/
theorem durable_forms_restored :
    RoundTrips (fun e : Envelope => e.task.number < 2 ^ 128) ∧ RoundTrips Completion.Fits ∧
    RoundTrips Counts.Fits ∧ RoundTrips (fun d : Delay => d.secs < 2 ^ 64) ∧
    RoundTrips (fun _ : Key => True) ∧ RoundTrips (fun _ : Notice => True) ∧
    RoundTrips (fun _ : ChannelSpec => True) ∧
    ∀ t : TaskId, ∃ digits : String, toJson t = .record [("ulid", .str digits)] ∧
      digits.length = 26 ∧ ∀ c ∈ digits.toList, c ∈ Base32.alphabet := by
  refine ⟨faithful_envelope.roundTrips, faithful_completion.roundTrips,
    faithful_counts.roundTrips, faithful_delay.roundTrips, faithful_key.roundTrips,
    faithful_notice.roundTrips, faithful_channelSpec.roundTrips, ?_⟩
  intro t
  refine ⟨Base32.text t.number, rfl, ?_, ?_⟩
  · rw [Base32.text, String.length_ofList, Base32.length_digits]
    rfl
  · rw [Base32.text, String.toList_ofList]
    exact Base32.mem_alphabet_of_mem_digits _ _

/-- The largest identifier, written, and read from small letters that stand for more than 128 bits;
the largest numbers; a text of characters that need a backslash. -/
theorem durable_forms_restored_of_largest :
    let e : Envelope := ⟨⟨2 ^ 128 - 1⟩, .sync⟩
    let s := "\x7b\"x\": null, \"job\": \"sync\", \"task_id\": [\"zzzzzzzzzzzzzzzzzzzzzzzzzz\"]\x7d"
    let c : Completion := .retryScheduled (2 ^ 32 - 1) (2 ^ 64 - 1)
    let k : Key := ⟨"\"\\\x00\n"⟩
    (parse? s = some e ∧ e.task.number < 2 ^ 128 ∧ parse? (text e) = some e) ∧
      (c.Fits ∧ parse? (text c) = some c) ∧ parse? (text k) = some k := by
  intro e s c k
  have read : parse? s = some e := by decide +kernel
  have fits : c.Fits := ⟨by decide, by decide⟩
  obtain ⟨envelopes, completions, -, -, keys, -⟩ := durable_forms_restored
  exact ⟨⟨read, envelopes.2.2 s e read⟩, ⟨fits, completions.2.1 c fits⟩, keys.2.1 k trivial⟩

end Durable

end PacedChain
