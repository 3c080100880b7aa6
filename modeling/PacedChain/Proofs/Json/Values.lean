import PacedChain.Proofs.Json.Lexemes

/-!
# Values read back

A plain value (`Json.IsPlain`), whose numbers are whole and whose texts stand for characters, is
read back from its written form (`parse_render`). The reader never runs out of fuel on it: it needs
no more than there are characters (`ReadsBack`).
-/
namespace PacedChain.Json

variable {c : Char} {fuel : Nat} {cs rest : List Char}

mutual

/-- Every number is whole and every text stands for characters. -/
def IsPlain : Json → Prop
  | .number value => value.IsWhole
  | .text value => value.isSome = true
  | .array items => ArePlain items
  | .object members => ArePlainMembers members
  | .null | .bool _ => True

def ArePlain : List Json → Prop
  | [] => True
  | item :: rest => IsPlain item ∧ ArePlain rest

def ArePlainMembers : List (Option String × Json) → Prop
  | [] => True
  | (name, value) :: rest => name.isSome = true ∧ IsPlain value ∧ ArePlainMembers rest

end

/-! ### How written values begin -/

theorem skipBlank_cons (h : isBlank c = false) : skipBlank (c :: cs) = c :: cs :=
  List.dropWhile_cons_of_neg (by simp [h])

theorem isBlank_of_isDigit (h : c.isDigit = true) : isBlank c = false := by
  cases blank : isBlank c with
  | false => rfl
  | true =>
    simp only [isBlank, Bool.or_eq_true, beq_iff_eq] at blank
    rcases blank with ((rfl | rfl) | rfl) | rfl <;> simp at h

theorem exists_renderNumeral (n : Numeral) :
    ∃ c tail, renderNumeral n = c :: tail ∧ (c = '-' ∨ c.isDigit = true) := by
  obtain ⟨d, digits, written, digit⟩ := exists_digit_toDigits n.coefficient
  unfold renderNumeral
  rw [written]
  split
  · exact ⟨'-', _, rfl, .inl rfl⟩
  · exact ⟨d, _, rfl, .inr digit⟩

/-- The first character of a written value is neither blank nor a closing mark. -/
theorem exists_render (j : Json) :
    ∃ c tail, render j = c :: tail ∧ isBlank c = false ∧ c ≠ ']' ∧ c ≠ '\x7d' := by
  cases j with
  | null => exact ⟨'n', _, rfl, by decide⟩
  | bool value => cases value with
    | true => exact ⟨'t', _, rfl, by decide⟩
    | false => exact ⟨'f', _, rfl, by decide⟩
  | number n =>
    obtain ⟨c, tail, written, first⟩ := exists_renderNumeral n
    refine ⟨c, tail, by rw [render, written], ?_⟩
    rcases first with rfl | digit
    · decide
    · refine ⟨isBlank_of_isDigit digit, ?_, ?_⟩ <;> rintro rfl <;> simp at digit
  | text value => cases value with
    | none => exact ⟨'"', _, rfl, by decide⟩
    | some s => exact ⟨'"', _, rfl, by decide⟩
  | array items => cases items with
    | nil => exact ⟨'[', _, rfl, by decide⟩
    | cons item rest => exact ⟨'[', _, by rw [render]; rfl, by decide⟩
  | object members => cases members with
    | nil => exact ⟨'\x7b', _, rfl, by decide⟩
    | cons member rest => exact ⟨'\x7b', _, by rw [render]; rfl, by decide⟩

theorem length_render_pos (j : Json) : 0 < (render j).length := by
  obtain ⟨c, tail, written, -⟩ := exists_render j
  simp [written]

theorem skipBlank_render (j : Json) (rest : List Char) :
    skipBlank (render j ++ rest) = render j ++ rest := by
  obtain ⟨c, tail, written, visible, -⟩ := exists_render j
  rw [written, List.cons_append, skipBlank_cons visible]

theorem length_renderItems_pos (items : List Json) : 0 < (renderItems items).length := by
  cases items <;> simp [renderItems]

theorem length_renderMembers_pos (members : List (Option String × Json)) :
    0 < (renderMembers members).length := by
  cases members <;> simp [renderMembers]

theorem endsNumber_renderItems (items : List Json) (rest : List Char) :
    EndsNumber (renderItems items ++ rest) := by
  intro c first
  cases items <;> simp [renderItems] at first <;> simp [← first]

theorem endsNumber_renderMembers (members : List (Option String × Json)) (rest : List Char) :
    EndsNumber (renderMembers members ++ rest) := by
  intro c first
  cases members <;> simp [renderMembers] at first <;> simp [← first]

/-! ### Reading -/

theorem readValue_renderNumeral {n : Numeral} (whole : n.IsWhole) (ends : EndsNumber rest) :
    readValue (fuel + 1) (renderNumeral n ++ rest) = some (.number n, rest) := by
  have read := readNumber_renderNumeral whole ends
  obtain ⟨c, tail, written, first⟩ := exists_renderNumeral n
  have visible : isBlank c = false := by
    rcases first with rfl | digit
    · decide
    · exact isBlank_of_isDigit digit
  have no_mark : c ∉ ['n', 't', 'f', '"', '[', '\x7b'] := by
    rcases first with rfl | digit
    · decide
    · have no_digit : ∀ mark ∈ ['n', 't', 'f', '"', '[', '\x7b'], mark.isDigit = false := by
        simp [Char.isDigit]
      intro mark
      simp [no_digit c mark] at digit
  rw [written, List.cons_append] at read ⊢
  rw [readValue, skipBlank_cons visible]
  split
  all_goals simp_all

theorem readValue_quote (cs : List Char) : readValue (fuel + 1) ('"' :: cs) =
    (readText cs).map fun (s, rest) => (.text s, rest) := rfl

theorem readValue_bracket (h : ∀ tail, skipBlank cs ≠ ']' :: tail) :
    readValue (fuel + 1) ('[' :: cs) =
      (readItems fuel cs).map fun (items, rest) => (.array items, rest) := by
  have visible : skipBlank ('[' :: cs) = '[' :: cs := skipBlank_cons rfl
  -- The premise leaves the second arm of the inner match only.
  simp [readValue, visible]

theorem readValue_brace (h : ∀ tail, skipBlank cs ≠ '\x7d' :: tail) :
    readValue (fuel + 1) ('\x7b' :: cs) =
      (readMembers fuel cs).map fun (members, rest) => (.object members, rest) := by
  have visible : skipBlank ('\x7b' :: cs) = '\x7b' :: cs := skipBlank_cons rfl
  simp [readValue, visible]

theorem readItems_comma {item : Json} (first : readValue fuel cs = some (item, ',' :: rest)) :
    readItems (fuel + 1) cs =
      (readItems fuel rest).map fun (items, rest) => (item :: items, rest) := by
  rw [readItems, first]
  rfl

theorem readItems_bracket {item : Json} (first : readValue fuel cs = some (item, ']' :: rest)) :
    readItems (fuel + 1) cs = some ([item], rest) := by
  rw [readItems, first]
  rfl

theorem readMembers_comma {s : String} {value : Json}
    (first : readValue fuel cs = some (value, ',' :: rest)) :
    readMembers (fuel + 1) (renderText s ++ ':' :: cs) =
      (readMembers fuel rest).map fun (members, rest) => ((some s, value) :: members, rest) := by
  have name := readText_escape s (':' :: cs)
  have written : renderText s ++ ':' :: cs =
      '"' :: (s.toList.flatMap escape ++ '"' :: ':' :: cs) := by
    simp [renderText]
  rw [written, readMembers, skipBlank_cons (by decide)]
  simp only [name, Option.bind_eq_bind, Option.bind_some, skipBlank_cons (c := ':') rfl, first,
    skipBlank_cons (c := ',') rfl]

theorem readMembers_brace {s : String} {value : Json}
    (first : readValue fuel cs = some (value, '\x7d' :: rest)) :
    readMembers (fuel + 1) (renderText s ++ ':' :: cs) = some ([(some s, value)], rest) := by
  have name := readText_escape s (':' :: cs)
  have written : renderText s ++ ':' :: cs =
      '"' :: (s.toList.flatMap escape ++ '"' :: ':' :: cs) := by
    simp [renderText]
  rw [written, readMembers, skipBlank_cons (by decide)]
  simp only [name, Option.bind_eq_bind, Option.bind_some, skipBlank_cons (c := ':') rfl, first,
    skipBlank_cons (c := '\x7d') rfl]

/-- With this fuel the reader takes every written value of no more characters off the front. -/
structure ReadsBack (fuel : Nat) : Prop where
  value : ∀ (j : Json) (rest : List Char), j.IsPlain → EndsNumber rest →
    (render j).length ≤ fuel → readValue fuel (render j ++ rest) = some (j, rest)
  items : ∀ (item : Json) (items : List Json) (rest : List Char), ArePlain (item :: items) →
    (render item).length + (renderItems items).length ≤ fuel →
    readItems fuel (render item ++ (renderItems items ++ rest)) = some (item :: items, rest)
  members : ∀ (s : String) (value : Json) (members : List (Option String × Json))
    (rest : List Char), value.IsPlain → ArePlainMembers members →
    (render value).length + (renderMembers members).length ≤ fuel →
    readMembers fuel (renderText s ++ ':' :: (render value ++ (renderMembers members ++ rest))) =
      some ((some s, value) :: members, rest)

namespace ReadsBack

theorem zero : ReadsBack 0 where
  value j rest _ _ enough := by
    have := length_render_pos j
    omega
  items item items rest _ enough := by
    have := length_render_pos item
    omega
  members s value members rest _ _ enough := by
    have := length_render_pos value
    omega

theorem succ_value (h : ReadsBack fuel) (j : Json) (rest : List Char) (plain : j.IsPlain)
    (ends : EndsNumber rest) (enough : (render j).length ≤ fuel + 1) :
    readValue (fuel + 1) (render j ++ rest) = some (j, rest) := by
  cases j with
  | null => rfl
  | bool value => cases value <;> rfl
  | number n => exact readValue_renderNumeral plain ends
  | text value =>
    obtain ⟨s, rfl⟩ := Option.isSome_iff_exists.mp plain
    have written : render (.text (some s)) ++ rest =
        '"' :: (s.toList.flatMap escape ++ '"' :: rest) := by
      simp [render, renderText?, renderText]
    rw [written, readValue_quote, readText_escape, Option.map_some]
  | array items =>
    cases items with
    | nil => rfl
    | cons item items =>
      have written : render (.array (item :: items)) ++ rest =
          '[' :: (render item ++ (renderItems items ++ rest)) := by
        simp [render]
      have opens : ∀ tail,
          skipBlank (render item ++ (renderItems items ++ rest)) ≠ ']' :: tail := by
        obtain ⟨c, others, first, -, no_bracket, -⟩ := exists_render item
        rw [skipBlank_render, first]
        simp [no_bracket]
      have read := h.items item items rest plain (by
        simp only [render, List.length_cons, List.length_append] at enough
        omega)
      rw [written, readValue_bracket opens, read, Option.map_some]
  | object members =>
    cases members with
    | nil => rfl
    | cons member members =>
      obtain ⟨name, value⟩ := member
      obtain ⟨s, rfl⟩ := Option.isSome_iff_exists.mp plain.1
      have written : render (.object ((some s, value) :: members)) ++ rest =
          '\x7b' :: (renderText s ++ ':' :: (render value ++ (renderMembers members ++ rest))) := by
        simp [render, renderText?]
      have opens : ∀ tail, skipBlank (renderText s ++ ':' ::
          (render value ++ (renderMembers members ++ rest))) ≠ '\x7d' :: tail := by
        intro tail
        rw [renderText, List.cons_append, List.cons_append, skipBlank_cons (by decide)]
        simp
      have read := h.members s value members rest plain.2.1 plain.2.2 (by
        simp only [render, List.length_cons, List.length_append] at enough
        omega)
      rw [written, readValue_brace opens, read, Option.map_some]

theorem succ_items (h : ReadsBack fuel) (item : Json) (items : List Json) (rest : List Char)
    (plain : ArePlain (item :: items))
    (enough : (render item).length + (renderItems items).length ≤ fuel + 1) :
    readItems (fuel + 1) (render item ++ (renderItems items ++ rest)) =
      some (item :: items, rest) := by
  have first : readValue fuel (render item ++ (renderItems items ++ rest)) =
      some (item, renderItems items ++ rest) := by
    have := length_renderItems_pos items
    exact h.value item _ plain.1 (endsNumber_renderItems items rest) (by omega)
  cases items with
  | nil => exact readItems_bracket first
  | cons next items =>
    have written : renderItems (next :: items) ++ rest =
        ',' :: (render next ++ (renderItems items ++ rest)) := by
      simp [renderItems]
    have others := h.items next items rest plain.2 (by
      have := length_render_pos item
      simp only [renderItems, List.length_cons, List.length_append] at enough
      omega)
    rw [written] at first ⊢
    rw [readItems_comma first, others, Option.map_some]

theorem succ_members (h : ReadsBack fuel) (s : String) (value : Json)
    (members : List (Option String × Json)) (rest : List Char) (plain : value.IsPlain)
    (plain_members : ArePlainMembers members)
    (enough : (render value).length + (renderMembers members).length ≤ fuel + 1) :
    readMembers (fuel + 1)
        (renderText s ++ ':' :: (render value ++ (renderMembers members ++ rest))) =
      some ((some s, value) :: members, rest) := by
  have first : readValue fuel (render value ++ (renderMembers members ++ rest)) =
      some (value, renderMembers members ++ rest) := by
    have := length_renderMembers_pos members
    exact h.value value _ plain (endsNumber_renderMembers members rest) (by omega)
  cases members with
  | nil => exact readMembers_brace first
  | cons member members =>
    obtain ⟨name, next⟩ := member
    obtain ⟨t, rfl⟩ := Option.isSome_iff_exists.mp plain_members.1
    have written : renderMembers ((some t, next) :: members) ++ rest =
        ',' :: (renderText t ++ ':' :: (render next ++ (renderMembers members ++ rest))) := by
      simp [renderMembers, renderText?]
    have others := h.members t next members rest plain_members.2.1 plain_members.2.2 (by
      have := length_render_pos value
      simp only [renderMembers, List.length_cons, List.length_append] at enough
      omega)
    rw [written] at first ⊢
    rw [readMembers_comma first, others, Option.map_some]

end ReadsBack

/-- By the fuel, which every value, item and member takes one of. -/
theorem readsBack (fuel : Nat) : ReadsBack fuel := by
  induction fuel with
  | zero => exact .zero
  | succ fuel ih => exact ⟨ih.succ_value, ih.succ_items, ih.succ_members⟩

/-- What is written of a plain value is read as that value. -/
theorem parse_render {j : Json} (plain : j.IsPlain) :
    parse (String.ofList (render j)) = some j := by
  have ends : EndsNumber [] := by simp [EndsNumber]
  have read := (readsBack (2 * (render j).length + 2)).value j [] plain ends (by omega)
  rw [List.append_nil] at read
  simp [parse, read, skipBlank]

end PacedChain.Json
