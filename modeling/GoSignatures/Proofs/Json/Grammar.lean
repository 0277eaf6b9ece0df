import GoSignatures.Proofs.Json.Numbers
import GoSignatures.Proofs.Json.Strings
import Mathlib.Data.List.DropRight

/-!
# The documents of a value

A value is spelled by a literal, a number, a string, or by an array or object whose parts stand
between blanks; a document is a value between blanks. Reading a document gives the value that it
spells, and no document spells two values.

* `Json.Spelled`, `Json.Padded` — the spellings of a value, without and with blanks around
* `Json.Reads` — spellings are read, by the budget
* `Json.Recognizes` — what is read is a spelling, by the budget
* `Json.read?_eq_some_iff` — reading gives a value just if the document spells it
-/

namespace GoSignatures.Json

/-! ## Blanks -/

/-- The characters that may stand between the parts of a document. -/
def IsBlank (c : Char) : Prop :=
  c = ' ' ∨ c = '\n' ∨ c = '\t' ∨ c = '\r'

/-- All are blanks. -/
def Blanks (cs : List Char) : Prop :=
  ∀ c ∈ cs, IsBlank c

section Blanks

variable {bs cs : List Char} {c : Char}

theorem blanks_nil : Blanks [] := nofun

theorem blanks_space : Blanks [' '] := List.forall_mem_singleton.mpr (.inl rfl)

theorem isBlank_iff :
    IsBlank c ↔ (c == ' ' || c == '\n' || c == '\t' || c == '\r') = true := by
  simp [IsBlank, or_assoc]

theorem skipBlanks_append (h : Blanks bs) : skipBlanks (bs ++ cs) = skipBlanks cs :=
  List.dropWhile_append_of_pos fun c hc => isBlank_iff.mp (h c hc)

theorem skipBlanks_cons (h : ¬ IsBlank c) : skipBlanks (c :: cs) = c :: cs :=
  List.dropWhile_cons_of_neg fun hc => h (isBlank_iff.mpr hc)

/-- What is skipped is blank. -/
theorem exists_blanks (cs : List Char) : ∃ bs, Blanks bs ∧ cs = bs ++ skipBlanks cs :=
  ⟨_, fun c hc => isBlank_iff.mpr (List.mem_takeWhile_imp (x := c) hc),
    List.takeWhile_append_dropWhile.symm⟩

end Blanks

/-! ## Spellings -/

mutual

/-- The spellings of a value. -/
inductive Spelled : Json → List Char → Prop where
  | null : Spelled .null ['n', 'u', 'l', 'l']
  | true : Spelled (.bool true) ['t', 'r', 'u', 'e']
  | false : Spelled (.bool false) ['f', 'a', 'l', 's', 'e']
  | number {cs : List Char} (h : IsNumber cs) : Spelled (.number cs) cs
  | string {text : Option String} {cs : List Char} (h : IsString text cs) :
      Spelled (.string text) cs
  | emptyArray {bs : List Char} (h : Blanks bs) : Spelled (.array []) ('[' :: bs ++ [']'])
  | array {items : List Json} {cs : List Char} (h : SpelledItems items cs) :
      Spelled (.array items) ('[' :: cs ++ [']'])
  | emptyObject {bs : List Char} (h : Blanks bs) : Spelled (.object []) ('{' :: bs ++ ['}'])
  | object {members : List (Option String × Json)} {cs : List Char}
      (h : SpelledMembers members cs) : Spelled (.object members) ('{' :: cs ++ ['}'])

/-- The spellings of a value with blanks around. -/
inductive Padded : Json → List Char → Prop where
  | mk {v : Json} {before cs after : List Char} (hbefore : Blanks before) (h : Spelled v cs)
      (hafter : Blanks after) : Padded v (before ++ cs ++ after)

/-- The spellings of items; there is at least one. -/
inductive SpelledItems : List Json → List Char → Prop where
  | last {item : Json} {cs : List Char} (h : Padded item cs) : SpelledItems [item] cs
  | more {item : Json} {items : List Json} {cs cs' : List Char} (h : Padded item cs)
      (hmore : SpelledItems items cs') : SpelledItems (item :: items) (cs ++ ',' :: cs')

/-- The spellings of members; there is at least one. -/
inductive SpelledMembers : List (Option String × Json) → List Char → Prop where
  | last {name : Option String} {value : Json} {ns cs : List Char}
      (hname : Padded (.string name) ns) (hvalue : Padded value cs) :
      SpelledMembers [(name, value)] (ns ++ ':' :: cs)
  | more {name : Option String} {value : Json} {members : List (Option String × Json)}
      {ns cs cs' : List Char} (hname : Padded (.string name) ns) (hvalue : Padded value cs)
      (hmore : SpelledMembers members cs') :
      SpelledMembers ((name, value) :: members) (ns ++ ':' :: cs ++ ',' :: cs')

end

/-- A document spells a value. -/
def SpelledBy (v : Json) (document : String) : Prop :=
  v.Padded document.toList

/-! ## Reading -/

section Heads

variable {v : Json} {bs cs rest : List Char} {c : Char}

theorem stops_append (h : Blanks bs) (hrest : Stops rest) : Stops (bs ++ rest) := by
  cases bs with
  | nil => exact hrest
  | cons b bs =>
    rintro _ ⟨⟩
    rcases h b List.mem_cons_self with rfl | rfl | rfl | rfl <;> decide

theorem stops_nil : Stops [] := nofun

theorem stops_comma (cs : List Char) : Stops (',' :: cs) := by
  rintro _ ⟨⟩
  decide

theorem stops_bracket (cs : List Char) : Stops (']' :: cs) := by
  rintro _ ⟨⟩
  decide

theorem stops_brace (cs : List Char) : Stops ('}' :: cs) := by
  rintro _ ⟨⟩
  decide

theorem IsNumber.head (h : IsNumber cs) : ∃ d ds, cs = d :: ds ∧ (d = '-' ∨ d.isDigit = true) := by
  obtain ⟨hsign, hwhole, -, -⟩ := h
  simp only [List.mem_cons, List.not_mem_nil, or_false] at hsign
  rcases hsign with rfl | rfl
  · obtain ⟨d, ds, rfl, hd⟩ := hwhole.head
    exact ⟨d, _, rfl, .inr hd⟩
  · exact ⟨_, _, rfl, .inl rfl⟩

/-- A spelling begins with a character that is neither blank nor closes anything. -/
theorem Spelled.head (h : Spelled v cs) :
    ∃ c cs', cs = c :: cs' ∧ ¬ IsBlank c ∧ c ≠ ']' ∧ c ≠ '}' := by
  cases h with
  | number h =>
    obtain ⟨d, ds, rfl, hd⟩ := h.head
    refine ⟨d, ds, rfl, ?_, ?_, ?_⟩
    · rintro (rfl | rfl | rfl | rfl) <;> simp at hd
    · rintro rfl
      simp at hd
    · rintro rfl
      simp at hd
  | string h =>
    obtain ⟨us, body, -, rfl, -⟩ := h
    exact ⟨_, _, rfl, by simp [IsBlank], by decide, by decide⟩
  | _ => exact ⟨_, _, rfl, by simp [IsBlank], by decide, by decide⟩

theorem Padded.ne_closing (h : Padded v cs) (tail : List Char) :
    skipBlanks (cs ++ rest) ≠ ']' :: tail ∧ skipBlanks (cs ++ rest) ≠ '}' :: tail := by
  obtain ⟨hbefore, hv, -⟩ := h
  obtain ⟨c, s, rfl, hblank, hbracket, hbrace⟩ := hv.head
  rw [List.append_assoc, List.append_assoc, skipBlanks_append hbefore, List.cons_append,
    skipBlanks_cons hblank]
  exact ⟨fun h => hbracket (List.cons.inj h).1, fun h => hbrace (List.cons.inj h).1⟩

theorem SpelledItems.ne_bracket {items : List Json} (h : SpelledItems items cs)
    (tail : List Char) : skipBlanks (cs ++ rest) ≠ ']' :: tail := by
  cases h with
  | last h => exact (h.ne_closing tail).1
  | more h _ =>
    rw [List.append_assoc]
    exact (h.ne_closing tail).1

theorem SpelledMembers.ne_brace {members : List (Option String × Json)}
    (h : SpelledMembers members cs) (tail : List Char) :
    skipBlanks (cs ++ rest) ≠ '}' :: tail := by
  cases h with
  | last h _ =>
    rw [List.append_assoc]
    exact (h.ne_closing tail).2
  | more h _ _ =>
    rw [List.append_assoc, List.append_assoc]
    exact (h.ne_closing tail).2

end Heads

section Budgets

variable {budget : Nat} {bs cs rest : List Char}

/-- Each part of the reading skips the blanks before it. -/
theorem readValue_append (h : Blanks bs) : readValue budget (bs ++ cs) = readValue budget cs := by
  cases budget with
  | zero => rw [readValue, readValue]
  | succ budget => rw [readValue, readValue, skipBlanks_append h]

theorem readItems_append (h : Blanks bs) : readItems budget (bs ++ cs) = readItems budget cs := by
  cases budget with
  | zero => rw [readItems, readItems]
  | succ budget => rw [readItems, readItems, readValue_append h]

theorem readMembers_append (h : Blanks bs) :
    readMembers budget (bs ++ cs) = readMembers budget cs := by
  cases budget with
  | zero => rw [readMembers, readMembers]
  | succ budget => rw [readMembers, readMembers, skipBlanks_append h]

theorem readItems_skipBlanks (cs : List Char) :
    readItems budget (skipBlanks cs) = readItems budget cs := by
  obtain ⟨bs, hbs, hcs⟩ := exists_blanks cs
  rw [← readItems_append hbs, ← hcs]

theorem readMembers_skipBlanks (cs : List Char) :
    readMembers budget (skipBlanks cs) = readMembers budget cs := by
  obtain ⟨bs, hbs, hcs⟩ := exists_blanks cs
  rw [← readMembers_append hbs, ← hcs]

theorem readValue_bracket : readValue (budget + 1) ('[' :: cs) =
    match skipBlanks cs with
    | ']' :: rest => some (.array [], rest)
    | rest => (readItems budget rest).map fun (r : List Json × List Char) =>
        (.array r.1, r.2) := by
  rw [readValue]
  rfl

theorem readValue_brace : readValue (budget + 1) ('{' :: cs) =
    match skipBlanks cs with
    | '}' :: rest => some (.object [], rest)
    | rest => (readMembers budget rest).map fun (r : List (Option String × Json) × List Char) =>
        (.object r.1, r.2) := by
  rw [readValue]
  rfl

/-- A value that begins like a number is one. -/
theorem readValue_number {c : Char} (h : c = '-' ∨ c.isDigit = true) :
    readValue (budget + 1) (c :: cs) = (readNumber (c :: cs)).map fun r => (.number r.1, r.2) := by
  have hblank : ¬ IsBlank c := by
    rintro (rfl | rfl | rfl | rfl) <;> simp at h
  rw [readValue, skipBlanks_cons hblank]
  split
  case h_7 => rfl
  all_goals
    next heq =>
      rw [(List.cons.inj heq).1] at h
      simp at h

end Budgets

/-- Spellings that are shorter than the budget are read. -/
structure Reads (budget : Nat) : Prop where
  value : ∀ {v : Json} {cs rest : List Char}, Spelled v cs → Stops rest → cs.length < budget →
    readValue budget (cs ++ rest) = some (v, rest)
  items : ∀ {items : List Json} {cs rest : List Char}, SpelledItems items cs →
    cs.length + 1 < budget → readItems budget (cs ++ ']' :: rest) = some (items, rest)
  members : ∀ {members : List (Option String × Json)} {cs rest : List Char},
    SpelledMembers members cs → cs.length + 1 < budget →
      readMembers budget (cs ++ '}' :: rest) = some (members, rest)

namespace Reads

variable {budget : Nat} {v : Json} {cs rest : List Char}

/-- Between blanks, a value is read and the blanks behind it are left. -/
theorem padded (h : Reads budget) (hv : Padded v cs) (hrest : Stops rest)
    (hbudget : cs.length < budget) : ∃ after, Blanks after ∧
      readValue budget (cs ++ rest) = some (v, after ++ rest) := by
  obtain ⟨hbefore, hv, hafter⟩ := hv
  refine ⟨_, hafter, ?_⟩
  rw [List.append_assoc, List.append_assoc, readValue_append hbefore]
  simp only [List.length_append] at hbudget
  exact h.value hv (stops_append hafter hrest) (by omega)

theorem value_succ (h : Reads budget) (hv : Spelled v cs) (hrest : Stops rest)
    (hbudget : cs.length < budget + 1) : readValue (budget + 1) (cs ++ rest) = some (v, rest) := by
  cases hv with
  | null => rfl
  | true => rfl
  | false => rfl
  | number hnumber =>
    have hread := readNumber_append hnumber hrest
    obtain ⟨d, ds, rfl, hd⟩ := hnumber.head
    rw [List.cons_append] at hread ⊢
    rw [readValue_number hd, hread]
    rfl
  | string hstring =>
    obtain ⟨body, rfl, hread⟩ := readString_of_isString hstring rest
    show (readString (body ++ rest)).map _ = _
    rw [hread]
    rfl
  | emptyArray hblanks =>
    rw [List.append_assoc, List.cons_append, readValue_bracket, skipBlanks_append hblanks]
    rfl
  | array hitems =>
    simp only [List.length_append, List.length_cons, List.length_nil] at hbudget
    rw [List.append_assoc, List.cons_append, List.singleton_append, readValue_bracket]
    split
    · next heq => exact absurd heq (hitems.ne_bracket _)
    · rw [readItems_skipBlanks, h.items hitems (by omega)]
      rfl
  | emptyObject hblanks =>
    rw [List.append_assoc, List.cons_append, readValue_brace, skipBlanks_append hblanks]
    rfl
  | object hmembers =>
    simp only [List.length_append, List.length_cons, List.length_nil] at hbudget
    rw [List.append_assoc, List.cons_append, List.singleton_append, readValue_brace]
    split
    · next heq => exact absurd heq (hmembers.ne_brace _)
    · rw [readMembers_skipBlanks, h.members hmembers (by omega)]
      rfl

/-- The first item is read, and what follows it tells whether there are more. -/
theorem item (h : Reads budget) {item : Json} (hitem : Padded item cs) (hrest : Stops rest)
    (hbudget : cs.length < budget) : readItems (budget + 1) (cs ++ rest) =
      match skipBlanks rest with
      | ']' :: rest => some ([item], rest)
      | ',' :: rest =>
        (readItems budget rest).map fun (r : List Json × List Char) => (item :: r.1, r.2)
      | _ => none := by
  obtain ⟨after, hafter, hread⟩ := h.padded hitem hrest hbudget
  rw [readItems, hread]
  show (match skipBlanks (after ++ rest) with
    | ']' :: rest => _
    | ',' :: rest => _
    | _ => none) = _
  rw [skipBlanks_append hafter]
  split
  · rfl
  · cases readItems budget _ <;> rfl
  · rfl

theorem items_succ {items : List Json} (h : Reads budget) (hitems : SpelledItems items cs)
    (hbudget : cs.length + 1 < budget + 1) :
    readItems (budget + 1) (cs ++ ']' :: rest) = some (items, rest) := by
  cases hitems with
  | last hitem => exact h.item hitem (stops_bracket rest) (by omega)
  | more hitem hmore =>
    simp only [List.length_append, List.length_cons] at hbudget
    rw [List.append_assoc, List.cons_append, h.item hitem (stops_comma _) (by omega)]
    show (readItems budget _).map _ = _
    rw [h.items hmore (by omega)]
    rfl

/-- The first member is read, and what follows it tells whether there are more. -/
theorem member (h : Reads budget) {name : Option String} {value : Json} {ns : List Char}
    (hname : Padded (.string name) ns) (hvalue : Padded value cs) (hrest : Stops rest)
    (hbudget : cs.length < budget) : readMembers (budget + 1) (ns ++ ':' :: (cs ++ rest)) =
      match skipBlanks rest with
      | '}' :: rest => some ([(name, value)], rest)
      | ',' :: rest => (readMembers budget rest).map
          fun (r : List (Option String × Json) × List Char) => ((name, value) :: r.1, r.2)
      | _ => none := by
  obtain ⟨after, hafter, hread⟩ := h.padded hvalue hrest hbudget
  obtain ⟨hbefore, hstring, hblanks⟩ := hname
  cases hstring with
  | string hstring =>
    obtain ⟨body, rfl, hbody⟩ := readString_of_isString hstring _
    rw [List.append_assoc, List.append_assoc, readMembers_append hbefore, readMembers]
    show (readString (body ++ _) >>= _) = _
    rw [hbody, Option.bind_eq_bind, Option.bind_some]
    dsimp only
    rw [skipBlanks_append hblanks]
    show (readValue budget (cs ++ rest) >>= _) = _
    rw [hread]
    show (match skipBlanks (after ++ rest) with
      | '}' :: rest => _
      | ',' :: rest => _
      | _ => none) = _
    rw [skipBlanks_append hafter]
    split
    · rfl
    · cases readMembers budget _ <;> rfl
    · rfl

theorem members_succ {members : List (Option String × Json)} (h : Reads budget)
    (hmembers : SpelledMembers members cs) (hbudget : cs.length + 1 < budget + 1) :
    readMembers (budget + 1) (cs ++ '}' :: rest) = some (members, rest) := by
  cases hmembers with
  | last hname hvalue =>
    simp only [List.length_append, List.length_cons] at hbudget
    rw [List.append_assoc, List.cons_append,
      h.member hname hvalue (stops_brace rest) (by omega)]
    rfl
  | more hname hvalue hmore =>
    simp only [List.length_append, List.length_cons] at hbudget
    rw [List.append_assoc, List.append_assoc, List.cons_append, List.cons_append,
      h.member hname hvalue (stops_comma _) (by omega)]
    show (readMembers budget _).map _ = _
    rw [h.members hmore (by omega)]
    rfl

end Reads

/-- A budget is enough for all documents that are shorter. -/
theorem reads : ∀ budget, Reads budget
  | 0 => ⟨fun _ _ h => absurd h (Nat.not_lt_zero _), fun _ h => absurd h (Nat.not_lt_zero _),
      fun _ h => absurd h (Nat.not_lt_zero _)⟩
  | budget + 1 => ⟨(reads budget).value_succ, (reads budget).items_succ,
      (reads budget).members_succ⟩

/-- A document is read as the value that it spells. -/
theorem read?_of_spelledBy {v : Json} {document : String} (h : v.SpelledBy document) :
    read? document = some v := by
  obtain ⟨after, hafter, hread⟩ :=
    (reads (2 * document.toList.length + 1)).padded h stops_nil (by omega)
  rw [List.append_nil, List.append_nil] at hread
  have hrest : skipBlanks after = [] := by
    rw [← List.append_nil after, skipBlanks_append hafter]
    rfl
  rw [read?]
  show (readValue (2 * document.toList.length + 1) document.toList >>= _) = _
  rw [hread]
  show (if (skipBlanks after).isEmpty then some v else none) = _
  rw [hrest]
  rfl

/-! ## What is read -/

theorem append_of_after? {word cs rest : List Char} (h : after? word cs = some rest) :
    cs = word ++ rest := by
  induction word generalizing cs with
  | nil =>
    rw [after?] at h
    exact Option.some.inj h
  | cons w word ih =>
    cases cs with
    | nil => cases h
    | cons c cs =>
      rw [after?] at h
      split at h
      · next heq => rw [heq, ih h, List.cons_append]
      · cases h



/-- What is read within the budget is a spelling. -/
structure Recognizes (budget : Nat) : Prop where
  value : ∀ {v : Json} {cs rest : List Char}, readValue budget cs = some (v, rest) →
    ∃ before s, Blanks before ∧ Spelled v s ∧ cs = before ++ s ++ rest
  items : ∀ {items : List Json} {cs rest : List Char}, readItems budget cs = some (items, rest) →
    ∃ s, SpelledItems items s ∧ cs = s ++ ']' :: rest
  members : ∀ {members : List (Option String × Json)} {cs rest : List Char},
    readMembers budget cs = some (members, rest) →
      ∃ s, SpelledMembers members s ∧ cs = s ++ '}' :: rest

namespace Recognizes

variable {budget : Nat} {v : Json} {cs rest : List Char}

theorem padded (h : Recognizes budget) (hread : readValue budget cs = some (v, rest)) :
    ∃ s, Padded v s ∧ cs = s ++ skipBlanks rest := by
  obtain ⟨before, s, hbefore, hs, rfl⟩ := h.value hread
  obtain ⟨after, hafter, hrest⟩ := exists_blanks rest
  refine ⟨_, .mk hbefore hs hafter, ?_⟩
  rw [List.append_assoc _ after, ← hrest]

theorem value_succ (h : Recognizes budget) (hread : readValue (budget + 1) cs = some (v, rest)) :
    ∃ before s, Blanks before ∧ Spelled v s ∧ cs = before ++ s ++ rest := by
  obtain ⟨before, hbefore, hcs⟩ := exists_blanks cs
  suffices hs : ∃ s, Spelled v s ∧ skipBlanks cs = s ++ rest by
    obtain ⟨s, hs, hskip⟩ := hs
    refine ⟨before, s, hbefore, hs, ?_⟩
    rw [List.append_assoc, ← hskip, ← hcs]
  rw [readValue] at hread
  split at hread
  · next cs' heq =>
    obtain ⟨⟨text, rest⟩, hstring, hread⟩ := Option.map_eq_some_iff.mp hread
    cases hread
    obtain ⟨s, hs, hcs'⟩ := isString_of_readString hstring
    exact ⟨s, .string hs, heq.trans hcs'⟩
  · next cs' heq =>
    obtain ⟨bs, hbs, hcs'⟩ := exists_blanks cs'
    split at hread
    · next hskip =>
      cases hread
      refine ⟨_, .emptyArray hbs, ?_⟩
      rw [heq, hcs', hskip]
      simp
    · obtain ⟨⟨items, rest⟩, hitems, hread⟩ := Option.map_eq_some_iff.mp hread
      cases hread
      rw [readItems_skipBlanks] at hitems
      obtain ⟨s, hs, rfl⟩ := h.items hitems
      exact ⟨_, .array hs, by simp [heq]⟩
  · next cs' heq =>
    obtain ⟨bs, hbs, hcs'⟩ := exists_blanks cs'
    split at hread
    · next hskip =>
      cases hread
      refine ⟨_, .emptyObject hbs, ?_⟩
      rw [heq, hcs', hskip]
      simp
    · obtain ⟨⟨members, rest⟩, hmembers, hread⟩ := Option.map_eq_some_iff.mp hread
      cases hread
      rw [readMembers_skipBlanks] at hmembers
      obtain ⟨s, hs, rfl⟩ := h.members hmembers
      exact ⟨_, .object hs, by simp [heq]⟩
  · next heq =>
    obtain ⟨rest, hafter, hread⟩ := Option.map_eq_some_iff.mp hread
    cases hread
    exact ⟨_, .true, heq.trans (congrArg _ (append_of_after? hafter))⟩
  · next heq =>
    obtain ⟨rest, hafter, hread⟩ := Option.map_eq_some_iff.mp hread
    cases hread
    exact ⟨_, .false, heq.trans (congrArg _ (append_of_after? hafter))⟩
  · next heq =>
    obtain ⟨rest, hafter, hread⟩ := Option.map_eq_some_iff.mp hread
    cases hread
    exact ⟨_, .null, heq.trans (congrArg _ (append_of_after? hafter))⟩
  · obtain ⟨⟨number, rest⟩, hnumber, hread⟩ := Option.map_eq_some_iff.mp hread
    cases hread
    obtain ⟨hs, heq⟩ := isNumber_of_readNumber hnumber
    exact ⟨number, .number hs, heq⟩

theorem items_succ {items : List Json} (h : Recognizes budget)
    (hread : readItems (budget + 1) cs = some (items, rest)) :
    ∃ s, SpelledItems items s ∧ cs = s ++ ']' :: rest := by
  rw [readItems] at hread
  obtain ⟨⟨item, cs'⟩, hitem, hrest⟩ := Option.bind_eq_some_iff.mp hread
  obtain ⟨s, hs, hcs⟩ := h.padded hitem
  dsimp only at hrest
  split at hrest
  · next heq =>
    cases hrest
    exact ⟨s, .last hs, by rw [hcs, heq]⟩
  · next heq =>
    obtain ⟨⟨items, rest⟩, hitems, hrest⟩ := Option.bind_eq_some_iff.mp hrest
    cases hrest
    obtain ⟨s', hs', rfl⟩ := h.items hitems
    exact ⟨_, .more hs hs', by simp [hcs, heq]⟩
  · cases hrest

theorem members_succ {members : List (Option String × Json)} (h : Recognizes budget)
    (hread : readMembers (budget + 1) cs = some (members, rest)) :
    ∃ s, SpelledMembers members s ∧ cs = s ++ '}' :: rest := by
  obtain ⟨before, hbefore, hcs⟩ := exists_blanks cs
  rw [readMembers] at hread
  split at hread
  · next cs₁ heq =>
    obtain ⟨⟨name, cs₂⟩, hname, hread⟩ := Option.bind_eq_some_iff.mp hread
    obtain ⟨ns, hns, hcs₁⟩ := isString_of_readString hname
    obtain ⟨after, hafter, hcs₂⟩ := exists_blanks cs₂
    have hpadded : Padded (.string name) (before ++ ns ++ after) := .mk hbefore (.string hns) hafter
    dsimp only at hread
    split at hread
    · next cs₃ hcolon =>
      obtain ⟨⟨value, cs₄⟩, hvalue, hread⟩ := Option.bind_eq_some_iff.mp hread
      obtain ⟨s, hs, hcs₃⟩ := h.padded hvalue
      have hmember : cs = before ++ ns ++ after ++ ':' :: (s ++ skipBlanks cs₄) := by
        rw [hcs, heq, hcs₁, hcs₂, hcolon, hcs₃]
        simp
      split at hread
      · next hbrace =>
        cases hread
        rw [hmember, hbrace]
        exact ⟨_, .last hpadded hs, by simp⟩
      · next hcomma =>
        obtain ⟨⟨members, rest⟩, hmembers, hread⟩ := Option.bind_eq_some_iff.mp hread
        cases hread
        obtain ⟨s', hs', rfl⟩ := h.members hmembers
        rw [hmember, hcomma]
        exact ⟨_, .more hpadded hs hs', by simp⟩
      · cases hread
    · cases hread
  · cases hread

end Recognizes

theorem recognizes : ∀ budget, Recognizes budget
  | 0 => by
    refine ⟨fun h => ?_, fun h => ?_, fun h => ?_⟩
    · rw [readValue] at h
      cases h
    · rw [readItems] at h
      cases h
    · rw [readMembers] at h
      cases h
  | budget + 1 => ⟨(recognizes budget).value_succ, (recognizes budget).items_succ,
      (recognizes budget).members_succ⟩

/-- Reading a document gives a value just if the document spells it. -/
theorem read?_eq_some_iff {v : Json} {document : String} :
    read? document = some v ↔ v.SpelledBy document := by
  refine ⟨fun h => ?_, read?_of_spelledBy⟩
  obtain ⟨⟨value, rest⟩, hread, h⟩ := Option.bind_eq_some_iff.mp h
  obtain ⟨s, hs, hdocument⟩ := (recognizes _).padded hread
  dsimp only at h
  split at h
  · next hempty =>
    cases h
    rw [List.isEmpty_iff.mp hempty, List.append_nil] at hdocument
    rw [SpelledBy, hdocument]
    exact hs
  · cases h

end GoSignatures.Json
