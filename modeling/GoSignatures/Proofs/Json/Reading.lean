import GoSignatures.Json.Printer
import GoSignatures.Proofs.Json.Grammar

/-!
# Reading what was written

The text of a value spells the value, as long as there are no numbers in it and its strings have
texts: a string by the characters that stand for its own, and arrays and objects with the blanks and
line feeds between their parts. So it is read back.

* `Json.Plain` — the values whose texts spell them
* `Json.isString_encode` — strings
* `Json.spelled_chars` — values
* `Json.read?_render` — documents
-/

namespace GoSignatures.Json

/-! ## Plain values -/

mutual

/-- A value without numbers whose strings all have texts. -/
def Plain : Json → Prop
  | .null => True
  | .bool _ => True
  | .number _ => False
  | .string text => text.isSome = true
  | .array items => AllPlain items
  | .object members => MembersPlain members

/-- All are plain. -/
def AllPlain : List Json → Prop
  | [] => True
  | item :: items => item.Plain ∧ AllPlain items

/-- All have readable names and plain values. -/
def MembersPlain : List (Option String × Json) → Prop
  | [] => True
  | ⟨name, value⟩ :: members => name.isSome = true ∧ value.Plain ∧ MembersPlain members

end

theorem allPlain_iff {items : List Json} : AllPlain items ↔ ∀ v ∈ items, v.Plain := by
  induction items with
  | nil => simp [AllPlain]
  | cons item items ih => simp [AllPlain, ih]

@[simp] theorem plain_text (s : String) : (Json.text s).Plain := by
  simp [Json.text, Plain]

@[simp] theorem plain_bool (b : Bool) : (Json.bool b).Plain := by
  simp [Plain]

theorem plain_array {items : List Json} : (Json.array items).Plain ↔ ∀ v ∈ items, v.Plain := by
  rw [Plain, allPlain_iff]

theorem plain_record {members : List (String × Json)} :
    (Json.record members).Plain ↔ ∀ m ∈ members, m.2.Plain := by
  rw [Json.record, Plain]
  induction members with
  | nil => simp [MembersPlain]
  | cons m members ih => simp [MembersPlain, ih]

/-! ## Strings -/

/-- How a character that was written is read: as itself, or by its number. -/
def Text.unit (c : Char) : Unit16 :=
  if c.toNat < 32 ∧ c ∉ ['\x08', '\x0c', '\n', '\r', '\t'] then .code c.toNat else .char c

theorem spelled_encodeNumber : ∀ n < 32, Unit16.Spelled (.code n) (Text.encodeNumber n) := by
  intro n hn
  have hzero : Text.IsDigit 16 '0' 0 := ⟨by decide, .inl rfl⟩
  have hdigits : Nat.ofDigits 16 [n % 16, n / 16, 0, 0] = n := by
    simp only [Nat.ofDigits_cons, Nat.ofDigits_nil]
    omega
  have hhigh : Text.IsDigit 16 (Nat.digitChar (n / 16)) (n / 16) := ⟨by omega, .inl rfl⟩
  have hlow : Text.IsDigit 16 (Nat.digitChar (n % 16)) (n % 16) := ⟨by omega, .inl rfl⟩
  have hspelled := Unit16.Spelled.number hzero hzero hhigh hlow
  rw [hdigits] at hspelled
  exact hspelled

/-- A character that was written is spelled as one unit. -/
theorem spelled_encodeChar (c : Char) : (Text.unit c).Spelled (Text.encodeChar c) := by
  unfold Text.encodeChar
  split
  case h_8 _ hquote hescape hb hf hn hr ht =>
    have hshort : c ∉ ['\x08', '\x0c', '\n', '\r', '\t'] := by
      simp only [List.mem_cons, List.not_mem_nil, or_false, not_or]
      exact ⟨hb, hf, hn, hr, ht⟩
    by_cases hcontrol : c.toNat < 32
    · rw [Text.unit, if_pos ⟨hcontrol, hshort⟩, if_pos hcontrol]
      exact spelled_encodeNumber c.toNat hcontrol
    · rw [Text.unit, if_neg fun h => hcontrol h.1, if_neg hcontrol]
      exact .plain hquote hescape (Nat.not_lt.mp hcontrol)
  all_goals exact .short (by decide)

/-- A unit denotes the character that was written. -/
theorem decodeUnits_unit (c : Char) (units : List Unit16) :
    decodeUnits (Text.unit c :: units) = (decodeUnits units).map (c :: ·) := by
  rw [Text.unit]
  split
  · -- a control is no surrogate
    rw [decodeUnits_code (by omega) (by omega), Char.ofNat_toNat]
  · rw [decodeUnits]

theorem spelledUnits_flatMap (cs : List Char) :
    SpelledUnits (cs.map Text.unit) (cs.flatMap Text.encodeChar) := by
  induction cs with
  | nil => exact .nil
  | cons c cs ih => exact .cons (spelled_encodeChar c) ih

theorem decodeUnits_map (cs : List Char) : decodeUnits (cs.map Text.unit) = some cs := by
  induction cs with
  | nil => rfl
  | cons c cs ih =>
    rw [List.map_cons, decodeUnits_unit, ih]
    rfl

/-- What was written for a text is a string with that text. -/
theorem isString_encode (s : String) : IsString (some s) (Text.encode s) := by
  have hspelled := spelledUnits_flatMap s.toList
  refine ⟨_, _, hspelled, rfl, fun t => ?_⟩
  rw [← hspelled.text_eq_some_iff, decodeUnits_map, Option.map_some, String.ofList_toList]

/-! ## Values -/

/-- The characters of the items of an array. -/
def itemsChars (depth : Nat) : List Json → List Char
  | [] => []
  | item :: items => item.chars depth ++ itemChars depth items

/-- The characters of the members of an object. -/
def membersChars (depth : Nat) : List (Option String × Json) → List Char
  | [] => []
  | ⟨name, value⟩ :: members =>
    Text.encode (name.getD "") ++ ':' :: ' ' :: value.chars depth ++ memberChars depth members

theorem blanks_newLine (depth : Nat) : Blanks (newLine depth) :=
  List.forall_mem_cons.mpr ⟨.inr (.inl rfl), fun _ hc => .inl (List.eq_of_mem_replicate hc)⟩

mutual

/-- The characters of a plain value spell it. -/
theorem spelled_chars : ∀ (v : Json) (depth : Nat), v.Plain → Spelled v (v.chars depth)
  | .null, _, _ => .null
  | .bool true, _, _ => .true
  | .bool false, _, _ => .false
  | .number _, _, h => nomatch h
  | .string (some s), _, _ => .string (isString_encode s)
  | .string none, _, h => nomatch h
  | .array [], _, _ => .emptyArray blanks_nil
  | .array (item :: items), depth, h => by
    have hitems := spelledItems_chars (item :: items) (depth + 1) depth h (List.cons_ne_nil _ _)
    have hspelled := Spelled.array hitems
    rw [chars]
    simpa [itemsChars] using hspelled
  | .object [], _, _ => .emptyObject blanks_nil
  | .object (m :: members), depth, h => by
    have hmembers := spelledMembers_chars (m :: members) (depth + 1) depth h (List.cons_ne_nil _ _)
    have hspelled := Spelled.object hmembers
    rw [chars]
    simpa [membersChars] using hspelled

theorem spelledItems_chars : ∀ (items : List Json) (depth outer : Nat), AllPlain items →
    items ≠ [] → SpelledItems items (newLine depth ++ itemsChars depth items ++ newLine outer)
  | [], _, _, _, h => absurd rfl h
  | [item], depth, outer, h, _ => by
    have hitem := Padded.mk (blanks_newLine depth) (spelled_chars item depth h.1)
      (blanks_newLine outer)
    rw [itemsChars, itemChars, List.append_nil]
    exact .last hitem
  | item :: next :: items, depth, outer, h, _ => by
    have hitem := Padded.mk (blanks_newLine depth) (spelled_chars item depth h.1) blanks_nil
    have hspelled := SpelledItems.more hitem
      (spelledItems_chars (next :: items) depth outer h.2 (List.cons_ne_nil _ _))
    rw [itemsChars, itemChars]
    simpa [itemsChars] using hspelled

theorem spelledMembers_chars : ∀ (members : List (Option String × Json)) (depth outer : Nat),
    MembersPlain members → members ≠ [] →
    SpelledMembers members (newLine depth ++ membersChars depth members ++ newLine outer)
  | [], _, _, _, h => absurd rfl h
  | [⟨some name, value⟩], depth, outer, h, _ => by
    have hname := Padded.mk (blanks_newLine depth) (.string (isString_encode name)) blanks_nil
    have hvalue := Padded.mk blanks_space
      (spelled_chars value depth h.2.1) (blanks_newLine outer)
    have hspelled := SpelledMembers.last hname hvalue
    rw [membersChars, memberChars]
    simpa using hspelled
  | ⟨some name, value⟩ :: next :: members, depth, outer, h, _ => by
    have hname := Padded.mk (blanks_newLine depth) (.string (isString_encode name)) blanks_nil
    have hvalue := Padded.mk blanks_space
      (spelled_chars value depth h.2.1) blanks_nil
    have hspelled := SpelledMembers.more hname hvalue
      (spelledMembers_chars (next :: members) depth outer h.2.2 (List.cons_ne_nil _ _))
    rw [membersChars, memberChars]
    simpa [membersChars] using hspelled
  | ⟨none, _⟩ :: _, _, _, h, _ => nomatch h.1

end

/-- A plain value is read back from its document. -/
theorem read?_render {v : Json} (h : v.Plain) : read? v.render = some v := by
  have hpadded := Padded.mk blanks_nil (spelled_chars v 0 h) blanks_nil
  refine read?_of_spelledBy ?_
  rw [SpelledBy, render, String.toList_ofList]
  simpa using hpadded

end GoSignatures.Json
