import GoSignatures.Json.Reader
import GoSignatures.Proofs.Text.Unsigned

/-!
# The strings of a document

A string is spelled by units, which are characters and escaped numbers of 16 bits. The units denote
a text if its characters are given, one by one, as themselves or by their numbers in UTF-16. A
string whose units denote no text, because of a surrogate without its partner, is a string none the
less.

* `Json.IsString` — the spellings of a string, with the text that it has
* `Json.readString_of_isString`, `Json.isString_of_readString` — these are what is read
-/

namespace GoSignatures.Json

/-! ## Units -/

/-- The escapes by one character, with the characters that they denote. -/
def shortEscapes : List (Char × Char) :=
  [('"', '"'), ('\\', '\\'), ('/', '/'), ('b', '\x08'), ('f', '\x0c'), ('n', '\n'), ('r', '\r'),
    ('t', '\t')]

/-- The spellings of a unit. -/
inductive Unit16.Spelled : Unit16 → List Char → Prop where
  | plain {c : Char} (hquote : c ≠ '"') (hescape : c ≠ '\\') (hcontrol : 32 ≤ c.toNat) :
      Spelled (.char c) [c]
  | short {e c : Char} (h : (e, c) ∈ shortEscapes) : Spelled (.char c) ['\\', e]
  | number {a b c d : Char} {k l m n : Nat} (ha : Text.IsDigit 16 a k) (hb : Text.IsDigit 16 b l)
      (hc : Text.IsDigit 16 c m) (hd : Text.IsDigit 16 d n) :
      Spelled (.code (Nat.ofDigits 16 [n, m, l, k])) ['\\', 'u', a, b, c, d]

/-- The spellings of units one after the other. -/
inductive SpelledUnits : List Unit16 → List Char → Prop where
  | nil : SpelledUnits [] []
  | cons {u : Unit16} {us : List Unit16} {cs cs' : List Char} (h : u.Spelled cs)
      (hmore : SpelledUnits us cs') : SpelledUnits (u :: us) (cs ++ cs')

/-- The numbers that stand for a character in UTF-16. -/
def utf16 (c : Char) : List Nat :=
  if c.toNat < 0x10000 then [c.toNat]
  else [0xD800 + (c.toNat - 0x10000) / 0x400, 0xDC00 + (c.toNat - 0x10000) % 0x400]

/-- Units denote the characters that they are and those whose numbers they give. -/
inductive Denotes : List Unit16 → List Char → Prop where
  | nil : Denotes [] []
  | char {c : Char} {us : List Unit16} {cs : List Char} (h : Denotes us cs) :
      Denotes (.char c :: us) (c :: cs)
  | codes {c : Char} {us : List Unit16} {cs : List Char} (h : Denotes us cs) :
      Denotes ((utf16 c).map .code ++ us) (c :: cs)

/-- The spellings of a string. It has the text that its units denote, if there is one. -/
def IsString (text : Option String) (cs : List Char) : Prop :=
  ∃ us body, SpelledUnits us body ∧ cs = '"' :: body ++ ['"'] ∧
    ∀ s, text = some s ↔ Denotes us s.toList

theorem shortEscape?_eq_some_iff {e c : Char} :
    shortEscape? e = some c ↔ (e, c) ∈ shortEscapes := by
  unfold shortEscape?
  split <;> simp_all [shortEscapes, eq_comm]

/-- A hexadecimal digit has its value. -/
theorem hexValue?_eq_some_iff {c : Char} {d : Nat} :
    hexValue? c = some d ↔ Text.IsDigit 16 c d := by
  constructor
  · intro h
    rw [Text.IsDigit, ← Char.ofNat_toNat c]
    simp only [hexValue?, Bool.and_eq_true, decide_eq_true_eq] at h
    split at h
    · have hsub := Option.some.inj h
      obtain ⟨hd, hc⟩ : d < 10 ∧ c.toNat = 48 + d := by omega
      rw [hc]
      interval_cases d <;> decide
    · split at h
      · have hsub := Option.some.inj h
        obtain ⟨hle, hd, hc⟩ : 10 ≤ d ∧ d < 16 ∧ c.toNat = 87 + d := by omega
        rw [hc]
        interval_cases d <;> decide
      · split at h
        · have hsub := Option.some.inj h
          obtain ⟨hle, hd, hc⟩ : 10 ≤ d ∧ d < 16 ∧ c.toNat = 55 + d := by omega
          rw [hc]
          interval_cases d <;> decide
        · cases h
  · rintro ⟨hd, rfl | rfl⟩ <;> interval_cases d <;> rfl

theorem hexNumber?_eq_some_iff {a b c d : Char} {n : Nat} : hexNumber? a b c d = some n ↔
    ∃ k l m o, Text.IsDigit 16 a k ∧ Text.IsDigit 16 b l ∧ Text.IsDigit 16 c m ∧
      Text.IsDigit 16 d o ∧ Nat.ofDigits 16 [o, m, l, k] = n := by
  have hvalue : ∀ k l m o : Nat,
      ((k * 16 + l) * 16 + m) * 16 + o = Nat.ofDigits 16 [o, m, l, k] := by
    intro k l m o
    simp only [Nat.ofDigits_cons, Nat.ofDigits_nil]
    omega
  simp only [hexNumber?, Option.bind_eq_bind, Option.bind_eq_some_iff, hexValue?_eq_some_iff,
    Option.pure_def, Option.some.injEq, hvalue]
  constructor
  · rintro ⟨k, ha, l, hb, m, hc, o, hd, h⟩
    exact ⟨k, l, m, o, ha, hb, hc, hd, h⟩
  · rintro ⟨k, l, m, o, ha, hb, hc, hd, h⟩
    exact ⟨k, ha, l, hb, m, hc, o, hd, h⟩

section Units

variable {c : Char} {cs rest : List Char} {us : List Unit16} {u : Unit16}

theorem readUnits_short {e : Char} (h : shortEscape? e = some c) :
    readUnits ('\\' :: e :: rest) = (readUnits rest).map fun r => (.char c :: r.1, r.2) := by
  have hu : e ≠ 'u' := by
    rintro rfl
    cases h
  rw [readUnits.eq_4 _ _ (fun _ _ _ _ _ he => absurd he hu), h]
  cases readUnits rest <;> rfl

theorem readUnits_plain (hquote : c ≠ '"') (hescape : c ≠ '\\') (hcontrol : 32 ≤ c.toNat) :
    readUnits (c :: rest) = (readUnits rest).map fun r => (.char c :: r.1, r.2) := by
  rw [readUnits.eq_5 _ _ hquote (fun _ _ _ _ _ he => absurd he hescape)
    (fun _ _ he => absurd he hescape), if_neg (by simp [hcontrol, hescape])]
  cases readUnits rest <;> rfl

theorem readUnits_number {a b c d : Char} {n : Nat} (h : hexNumber? a b c d = some n) :
    readUnits ('\\' :: 'u' :: a :: b :: c :: d :: rest) =
      (readUnits rest).map fun r => (.code n :: r.1, r.2) := by
  rw [readUnits, h]
  cases readUnits rest <;> rfl

/-- A unit is read from its spelling. -/
theorem Unit16.Spelled.readUnits (h : u.Spelled cs) :
    readUnits (cs ++ rest) = (readUnits rest).map fun r => (u :: r.1, r.2) := by
  cases h with
  | plain hquote hescape hcontrol => exact readUnits_plain hquote hescape hcontrol
  | short h => exact readUnits_short (shortEscape?_eq_some_iff.mpr h)
  | number ha hb hc hd =>
    exact readUnits_number (hexNumber?_eq_some_iff.mpr ⟨_, _, _, _, ha, hb, hc, hd, rfl⟩)

theorem SpelledUnits.readUnits (h : SpelledUnits us cs) :
    readUnits (cs ++ '"' :: rest) = some (us, rest) := by
  induction h with
  | nil => rw [List.nil_append, Json.readUnits]
  | cons h _ ih =>
    rw [List.append_assoc, h.readUnits, ih]
    rfl

/-- Whatever is read as units is a spelling of them, up to the closing quote. -/
theorem spelledUnits_of_readUnits (h : readUnits cs = some (us, rest)) :
    ∃ body, SpelledUnits us body ∧ cs = body ++ '"' :: rest := by
  have hcons : ∀ {u : Unit16} {cs' body : List Char} {us : List Unit16}, u.Spelled cs' →
      SpelledUnits us body → ∃ body', SpelledUnits (u :: us) body' ∧
        cs' ++ (body ++ '"' :: rest) = body' ++ '"' :: rest := fun hu hus =>
    ⟨_, .cons hu hus, (List.append_assoc _ _ _).symm⟩
  induction cs using readUnits.induct generalizing us with
  | case1 => cases h
  | case2 cs =>
    rw [readUnits] at h
    cases h
    exact ⟨[], .nil, rfl⟩
  | case3 a b c d cs ih =>
    simp only [readUnits, Option.bind_eq_bind, Option.bind_eq_some_iff] at h
    obtain ⟨n, hn, ⟨us, rest⟩, hus, h⟩ := h
    cases h
    obtain ⟨k, l, m, o, ha, hb, hc, hd, rfl⟩ := hexNumber?_eq_some_iff.mp hn
    obtain ⟨body, hbody, rfl⟩ := ih hus
    exact hcons (.number ha hb hc hd) hbody
  | case4 e cs hu ih =>
    rw [readUnits.eq_4 _ _ hu] at h
    simp only [Option.bind_eq_bind, Option.bind_eq_some_iff] at h
    obtain ⟨c, hc, ⟨us, rest⟩, hus, h⟩ := h
    cases h
    obtain ⟨body, hbody, rfl⟩ := ih hus
    exact hcons (.short (shortEscape?_eq_some_iff.mp hc)) hbody
  | case5 c cs hquote hnumber hshort hcontrol =>
    rw [readUnits.eq_5 _ _ hquote hnumber hshort, if_pos hcontrol] at h
    cases h
  | case6 c cs hquote hnumber hshort hplain ih =>
    rw [readUnits.eq_5 _ _ hquote hnumber hshort, if_neg hplain] at h
    simp only [Option.bind_eq_bind, Option.bind_eq_some_iff] at h
    obtain ⟨⟨us, rest⟩, hus, h⟩ := h
    cases h
    obtain ⟨body, hbody, rfl⟩ := ih hus
    rw [not_or, Nat.not_lt] at hplain
    exact hcons (.plain hquote hplain.2 hplain.1) hbody

end Units

/-! ## Texts -/

theorem isLeading_iff {n : Nat} : isLeading n = true ↔ 0xD800 ≤ n ∧ n < 0xDC00 := by
  simp [isLeading]

theorem isTrailing_iff {n : Nat} : isTrailing n = true ↔ 0xDC00 ≤ n ∧ n < 0xE000 := by
  simp [isTrailing]

section Denoting

variable {us : List Unit16} {cs : List Char} {n m : Nat}

theorem decodeUnits_code (hleading : ¬ (0xD800 ≤ n ∧ n < 0xDC00))
    (htrailing : ¬ (0xDC00 ≤ n ∧ n < 0xE000)) :
    decodeUnits (.code n :: us) = (decodeUnits us).map (Char.ofNat n :: ·) := by
  rw [decodeUnits.eq_def]
  dsimp only
  rw [if_neg (isLeading_iff.not.mpr hleading), if_neg (isTrailing_iff.not.mpr htrailing)]

theorem decodeUnits_pair (hleading : 0xD800 ≤ n ∧ n < 0xDC00)
    (htrailing : 0xDC00 ≤ m ∧ m < 0xE000) :
    decodeUnits (.code n :: .code m :: us) = (decodeUnits us).map
      (Char.ofNat (0x10000 + (n - 0xD800) * 0x400 + (m - 0xDC00)) :: ·) := by
  rw [decodeUnits.eq_def]
  dsimp only
  rw [if_pos (isLeading_iff.mpr hleading), if_pos (isTrailing_iff.mpr htrailing)]

/-- The numbers of a character are decoded to it. -/
theorem decodeUnits_utf16 (c : Char) (us : List Unit16) :
    decodeUnits ((utf16 c).map .code ++ us) = (decodeUnits us).map (c :: ·) := by
  have hvalid : c.toNat < 0xD800 ∨ 0xDFFF < c.toNat ∧ c.toNat < 0x110000 := c.valid
  rw [utf16]
  split
  · show decodeUnits (.code c.toNat :: us) = _
    rw [decodeUnits_code (by omega) (by omega), Char.ofNat_toNat]
  · show decodeUnits (.code _ :: .code _ :: us) = _
    rw [decodeUnits_pair (by omega) (by omega)]
    have hnumber : 0x10000 + (0xD800 + (c.toNat - 0x10000) / 0x400 - 0xD800) * 0x400 +
        (0xDC00 + (c.toNat - 0x10000) % 0x400 - 0xDC00) = c.toNat := by omega
    rw [hnumber, Char.ofNat_toNat]

theorem Denotes.decodeUnits (h : Denotes us cs) : decodeUnits us = some cs := by
  induction h with
  | nil => rfl
  | char _ ih => rw [Json.decodeUnits, ih, Option.map_some]
  | codes _ ih => rw [decodeUnits_utf16, ih, Option.map_some]

theorem toNat_ofNat (h : n < 0xD800 ∨ 0xDFFF < n ∧ n < 0x110000) : (Char.ofNat n).toNat = n := by
  have hvalid : n.isValidChar := h
  rw [Char.ofNat, dif_pos hvalid]
  rfl

/-- Units that are decoded denote what comes out. -/
theorem denotes_of_decodeUnits (hus : ∀ n, .code n ∈ us → n < 0x10000)
    (h : decodeUnits us = some cs) : Denotes us cs := by
  induction us using decodeUnits.induct generalizing cs with
  | case1 =>
    cases h
    exact .nil
  | case2 c us ih =>
    rw [decodeUnits] at h
    obtain ⟨cs, hcs, rfl⟩ := Option.map_eq_some_iff.mp h
    exact .char (ih (fun n hn => hus n (.tail _ hn)) hcs)
  | case3 n hleading m us htrailing ih =>
    rw [isLeading_iff] at hleading
    rw [isTrailing_iff] at htrailing
    rw [decodeUnits_pair hleading htrailing] at h
    obtain ⟨cs, hcs, rfl⟩ := Option.map_eq_some_iff.mp h
    have hcodes := Denotes.codes (c := Char.ofNat (0x10000 + (n - 0xD800) * 0x400 + (m - 0xDC00)))
      (ih (fun n hn => hus n (.tail _ (.tail _ hn))) hcs)
    rw [utf16, toNat_ofNat (by omega), if_neg (by omega)] at hcodes
    have hn : 0xD800 + (0x10000 + (n - 0xD800) * 0x400 + (m - 0xDC00) - 0x10000) / 0x400 = n := by
      omega
    have hm : 0xDC00 + (0x10000 + (n - 0xD800) * 0x400 + (m - 0xDC00) - 0x10000) % 0x400 = m := by
      omega
    rw [hn, hm] at hcodes
    exact hcodes
  | case4 n hleading m us htrailing =>
    rw [decodeUnits, if_pos hleading, if_neg htrailing] at h
    cases h
  | case5 n us hleading hsingle =>
    rw [decodeUnits.eq_def] at h
    dsimp only at h
    rw [if_pos hleading] at h
    split at h
    · next m us => exact absurd rfl (hsingle m us)
    · cases h
  | case6 n us hleading htrailing =>
    rw [decodeUnits.eq_def] at h
    dsimp only at h
    rw [if_neg hleading, if_pos htrailing] at h
    cases h
  | case7 n us hleading htrailing ih =>
    rw [isLeading_iff] at hleading
    rw [isTrailing_iff] at htrailing
    rw [decodeUnits_code hleading htrailing] at h
    obtain ⟨cs, hcs, rfl⟩ := Option.map_eq_some_iff.mp h
    have hlt := hus n List.mem_cons_self
    have hcodes := Denotes.codes (c := Char.ofNat n) (ih (fun n hn => hus n (.tail _ hn)) hcs)
    rw [utf16, toNat_ofNat (by omega), if_pos hlt] at hcodes
    exact hcodes

end Denoting

theorem SpelledUnits.code_lt {us : List Unit16} {cs : List Char} (h : SpelledUnits us cs) :
    ∀ n, .code n ∈ us → n < 0x10000 := by
  induction h with
  | nil => exact fun _ hn => nomatch hn
  | cons h _ ih =>
    intro n hn
    rcases List.mem_cons.mp hn with rfl | hn
    · cases h with
      | number ha hb hc hd =>
        have hdigits := And.intro (And.intro ha.1 hb.1) (And.intro hc.1 hd.1)
        simp only [Nat.ofDigits_cons, Nat.ofDigits_nil]
        omega
    · exact ih n hn

/-- The text of a string that is read is the one that its units denote. -/
theorem SpelledUnits.text_eq_some_iff {us : List Unit16} {cs : List Char} (h : SpelledUnits us cs)
    {s : String} : (decodeUnits us).map String.ofList = some s ↔ Denotes us s.toList := by
  rw [Option.map_eq_some_iff]
  constructor
  · rintro ⟨cs, hcs, rfl⟩
    rw [String.toList_ofList]
    exact denotes_of_decodeUnits h.code_lt hcs
  · exact fun hs => ⟨_, hs.decodeUnits, String.ofList_toList⟩

/-- A string is read behind its opening quote. -/
theorem readString_of_isString {text : Option String} {cs : List Char} (h : IsString text cs)
    (rest : List Char) :
    ∃ body, cs = '"' :: body ∧ readString (body ++ rest) = some (text, rest) := by
  obtain ⟨us, body, hus, rfl, htext⟩ := h
  have hdecode : (decodeUnits us).map String.ofList = text :=
    Option.ext fun s => hus.text_eq_some_iff.trans (htext s).symm
  refine ⟨body ++ ['"'], rfl, ?_⟩
  rw [readString, List.append_assoc, List.singleton_append, hus.readUnits, ← hdecode]
  rfl

/-- Whatever is read behind a quote is a string. -/
theorem isString_of_readString {text : Option String} {cs rest : List Char}
    (h : readString cs = some (text, rest)) : ∃ s, IsString text s ∧ '"' :: cs = s ++ rest := by
  obtain ⟨⟨us, rest⟩, hus, htext⟩ := Option.bind_eq_some_iff.mp h
  cases htext
  obtain ⟨body, hbody, rfl⟩ := spelledUnits_of_readUnits hus
  exact ⟨_, ⟨us, body, hbody, rfl, fun s => hbody.text_eq_some_iff⟩, by simp⟩

end GoSignatures.Json
