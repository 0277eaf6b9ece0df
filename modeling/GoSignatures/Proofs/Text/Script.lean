import GoSignatures.Ty.Printer

/-!
# Texts that tell what they show

A text that stands in a longer one tells what it shows if nothing else can be read at its place: a
text of another thing, with whatever may follow it, does not read alike. Then what follows is told
as well, and things written one after the other are told one by one.

* `Opens`, `StartsWith` — how a text begins
* `Script.Tells` — the text of a thing tells it, and what follows
* `Script.list_tells` — parts joined by a separator are told if each of them is
* `eq_of_append_eq` — a word is told by the characters it is made of
-/

namespace GoSignatures

/-! ## How texts begin -/

/-- A text that begins with a character. -/
def StartsWith (c : Char) (text : List Char) : Prop :=
  ∃ cs, text = c :: cs

/-- A text that begins with one of some characters. -/
def Opens (p : Char → Bool) (text : List Char) : Prop :=
  ∃ c cs, text = c :: cs ∧ p c = true

namespace Opens

variable {p : Char → Bool} {text : List Char}

theorem append (h : Opens p text) (r : List Char) : Opens p (text ++ r) := by
  obtain ⟨c, cs, rfl, hc⟩ := h
  exact ⟨c, cs ++ r, List.cons_append, hc⟩

theorem imp {q : Char → Bool} (h : Opens p text) (hpq : ∀ {c}, p c = true → q c = true) :
    Opens q text := by
  obtain ⟨c, cs, htext, hc⟩ := h
  exact ⟨c, cs, htext, hpq hc⟩

theorem not_startsWith (h : Opens p text) {c : Char} (hc : p c = false) : ¬ StartsWith c text := by
  rintro ⟨cs, rfl⟩
  obtain ⟨_, _, heq, hd⟩ := h
  rw [← (List.cons.inj heq).1, hc] at hd
  cases hd

end Opens

/-! ## Scripts -/

/-- How things are shown. -/
structure Script (α β : Type) where
  chars : α → List Char
  /-- What the text of a thing tells of it. -/
  view : α → β
  /-- The things that are shown. -/
  Shown : α → Prop
  /-- What may follow a text. -/
  Follows : List Char → Prop

namespace Script

variable {α β : Type} (S : Script α β)

/-- The text of a thing tells it: wherever another text reads alike, it is a text of the same thing
and the same follows. -/
def Tells (a : α) : Prop :=
  ∀ ⦃b : α⦄, S.Shown b → ∀ ⦃r r' : List Char⦄, S.Follows r → S.Follows r' →
    S.chars a ++ r = S.chars b ++ r' → S.view a = S.view b ∧ r = r'

/-- Lists, shown part by part with a separator; `Ends` is what may follow a list. -/
def list (separator : String) (Ends : List Char → Prop) : Script (List α) (List β) where
  chars as := joined separator (as.map S.chars)
  view as := as.map S.view
  Shown as := ∀ a ∈ as, S.Shown a
  Follows := Ends

/-- What follows a part shows whether there is another one. -/
structure Separates (separator : String) (Ends : List Char → Prop) : Prop where
  between : ∀ r, S.Follows (separator.toList ++ r)
  after : ∀ {r}, Ends r → S.Follows r
  not_first : ∀ {a}, S.Shown a → ∀ r, ¬ Ends (S.chars a ++ r)
  not_next : ∀ {a}, S.Shown a → ∀ r, ¬ Ends (separator.toList ++ (S.chars a ++ r))

end Script

/-! ## Parts with a separator -/

theorem joined_cons (separator : String) (part : List Char) (parts : List (List Char)) :
    joined separator (part :: parts) = part ++ parts.flatMap (separator.toList ++ ·) := by
  rw [joined]
  induction parts generalizing part with
  | nil => rw [List.intercalate_singleton, List.flatMap_nil, List.append_nil]
  | cons next parts ih =>
    rw [List.intercalate_cons_cons, ih, List.flatMap_cons, List.append_assoc, List.append_assoc]

theorem joined_empty (parts : List (List Char)) : joined "" parts = parts.flatten := by
  cases parts with
  | nil => rfl
  | cons part parts =>
    rw [joined_cons, List.flatten_cons]
    exact congrArg (part ++ ·) List.flatMap_id

namespace Script

variable {α β : Type} {S : Script α β} {separator : String} {Ends : List Char → Prop}

/-- The parts behind the first one, each with the separator in front. -/
def nextChars (S : Script α β) (separator : String) (as : List α) : List Char :=
  as.flatMap fun a => separator.toList ++ S.chars a

/-- A list begins with its first part, and more parts follow behind a separator. -/
theorem list_chars_cons_append (a : α) (as : List α) (r : List Char) :
    (S.list separator Ends).chars (a :: as) ++ r =
      S.chars a ++ (S.nextChars separator as ++ r) := by
  change joined separator ((a :: as).map S.chars) ++ r = _
  rw [List.map_cons, joined_cons, List.flatMap_map, nextChars, List.append_assoc]

theorem nextChars_cons_append (a : α) (as : List α) (r : List Char) :
    S.nextChars separator (a :: as) ++ r =
      separator.toList ++ (S.chars a ++ (S.nextChars separator as ++ r)) := by
  rw [nextChars, List.flatMap_cons, ← nextChars, List.append_assoc, List.append_assoc]

/-- Whatever follows a part in a list may follow it on its own. -/
theorem Separates.follows (h : S.Separates separator Ends) (as : List α) {r : List Char}
    (hr : Ends r) : S.Follows (S.nextChars separator as ++ r) := by
  cases as with
  | nil => exact h.after hr
  | cons a as =>
    rw [nextChars_cons_append]
    exact h.between _

/-- By induction on the parts. The list ends where no separator follows. -/
theorem Separates.next_tells (h : S.Separates separator Ends) {as : List α}
    (hshown : ∀ a ∈ as, S.Shown a) (htells : ∀ a ∈ as, S.Tells a) {bs : List α}
    (hbs : ∀ b ∈ bs, S.Shown b) {r r' : List Char} (hr : Ends r) (hr' : Ends r')
    (heq : S.nextChars separator as ++ r = S.nextChars separator bs ++ r') :
    as.map S.view = bs.map S.view ∧ r = r' := by
  -- where one list ends, the other one cannot go on with a separator
  induction as generalizing bs with
  | nil =>
    cases bs with
    | nil => exact ⟨rfl, heq⟩
    | cons b bs =>
      obtain rfl : r = _ := heq.trans (nextChars_cons_append b bs r')
      exact absurd hr (h.not_next (hbs b List.mem_cons_self) _)
  | cons a as ih =>
    rw [List.forall_mem_cons] at hshown htells
    cases bs with
    | nil =>
      obtain rfl : r' = _ := heq.symm.trans (nextChars_cons_append a as r)
      exact absurd hr' (h.not_next hshown.1 _)
    | cons b bs =>
      rw [List.forall_mem_cons] at hbs
      rw [nextChars_cons_append, nextChars_cons_append] at heq
      obtain ⟨ha, hrest⟩ := htells.1 hbs.1 (h.follows as hr) (h.follows bs hr')
        (List.append_cancel_left heq)
      obtain ⟨has, hend⟩ := ih hshown.2 htells.2 hbs.2 hrest
      exact ⟨by rw [List.map_cons, List.map_cons, ha, has], hend⟩

/-- The text of a list tells it if the text of each part tells the part. -/
theorem list_tells (h : S.Separates separator Ends) {as : List α}
    (hshown : ∀ a ∈ as, S.Shown a) (htells : ∀ a ∈ as, S.Tells a) :
    (S.list separator Ends).Tells as := by
  intro bs hbs r r' hr hr' heq
  cases as with
  | nil =>
    cases bs with
    | nil => exact ⟨rfl, heq⟩
    | cons b bs =>
      obtain rfl : r = _ := heq.trans (list_chars_cons_append b bs r')
      exact absurd hr (h.not_first (hbs b List.mem_cons_self) _)
  | cons a as =>
    rw [List.forall_mem_cons] at hshown htells
    cases bs with
    | nil =>
      obtain rfl : r' = _ := heq.symm.trans (list_chars_cons_append a as r)
      exact absurd hr' (h.not_first hshown.1 _)
    | cons b bs =>
      replace hbs : S.Shown b ∧ ∀ b ∈ bs, S.Shown b := List.forall_mem_cons.mp hbs
      rw [list_chars_cons_append, list_chars_cons_append] at heq
      obtain ⟨ha, hrest⟩ := htells.1 hbs.1 (h.follows as hr) (h.follows bs hr') heq
      obtain ⟨has, hend⟩ := h.next_tells hshown.2 htells.2 hbs.2 hr hr' hrest
      exact ⟨List.cons_eq_cons.mpr ⟨ha, has⟩, hend⟩

end Script

/-! ## Words -/

/-- A word ends where another sort of character follows. -/
theorem takeWhile_append_of_stop {p : Char → Bool} {word r : List Char}
    (hword : word.all p = true) (hr : ∀ c ∈ r.head?, p c = false) :
    (word ++ r).takeWhile p = word := by
  rw [List.takeWhile_append_of_pos (List.all_eq_true.mp hword)]
  cases r with
  | nil => rw [List.takeWhile_nil, List.append_nil]
  | cons c r => rw [List.takeWhile_cons_of_neg (by simp [hr c rfl]), List.append_nil]

/-- A word is told by the characters it is made of, if no such character follows. -/
theorem eq_of_append_eq {p : Char → Bool} {word word' r r' : List Char}
    (hword : word.all p = true) (hr : ∀ c ∈ r.head?, p c = false)
    (hword' : word'.all p = true) (hr' : ∀ c ∈ r'.head?, p c = false)
    (h : word ++ r = word' ++ r') : word = word' ∧ r = r' := by
  have hwords : word = word' := by
    rw [← takeWhile_append_of_stop hword hr, h, takeWhile_append_of_stop hword' hr']
  exact ⟨hwords, List.append_cancel_left (hwords ▸ h)⟩

end GoSignatures
