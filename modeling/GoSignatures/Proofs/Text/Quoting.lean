import Mathlib.Data.Nat.Digits.Defs
import GoSignatures.Proofs.Text.Script

/-!
# What numbers and quoted texts tell

Numbers are written with digits up to those of radix sixteen, and different numbers differently. A
quoted text is written character by character: a character is an escape or stands for itself, and
no escape begins like another.

* `toDigits_tells` — a number is told if no digit follows
* `Quoted.encode_tells` — a text is told by its quoted form
-/

namespace GoSignatures.Text

/-! ## Numbers -/

/-- The digits up to those of radix sixteen. -/
def isHexDigit (c : Char) : Bool :=
  "0123456789abcdef".toList.contains c

theorem digitChar_injective :
    ∀ m < 16, ∀ n < 16, m.digitChar = n.digitChar → m = n := by
  decide

theorem isHexDigit_digitChar : ∀ n < 16, isHexDigit n.digitChar = true := by
  decide

section

variable {radix : Nat} (hradix : 1 < radix) (hsixteen : radix ≤ 16)
include hradix

/-- A number is written with the digits of what is left without its last one, and this one. -/
theorem toDigits_eq_append (n : Nat) :
    Nat.toDigits radix n =
      (if n < radix then [] else Nat.toDigits radix (n / radix)) ++ [(n % radix).digitChar] := by
  rw [Nat.toDigits_eq_if hradix]
  split
  · rw [Nat.mod_eq_of_lt ‹_›, List.nil_append]
  · rfl

include hsixteen

theorem all_isHexDigit_toDigits (n : Nat) : (Nat.toDigits radix n).all isHexDigit = true := by
  induction n using Nat.strongRecOn with
  | ind n ih =>
    have hmod : n % radix < radix := Nat.mod_lt n (by omega)
    have hlast : isHexDigit (n % radix).digitChar = true := isHexDigit_digitChar _ (by omega)
    rw [toDigits_eq_append hradix]
    split
    · simpa using hlast
    · have hless : n / radix < n := Nat.div_lt_self (by omega) hradix
      rw [List.all_append, ih _ hless]
      simpa using hlast

theorem toDigits_injective {m n : Nat} (h : Nat.toDigits radix m = Nat.toDigits radix n) :
    m = n := by
  induction m using Nat.strongRecOn generalizing n with
  | ind m ih =>
    have hm : m % radix < radix := Nat.mod_lt m (by omega)
    have hn : n % radix < radix := Nat.mod_lt n (by omega)
    rw [toDigits_eq_append hradix m, toDigits_eq_append hradix n] at h
    obtain ⟨hfront, hlast⟩ := List.append_inj' h rfl
    have hmod : m % radix = n % radix :=
      digitChar_injective _ (by omega) _ (by omega) (List.singleton_inj.mp hlast)
    have hdiv : m / radix = n / radix := by
      by_cases hsmall : m < radix <;> by_cases hsmall' : n < radix
      · rw [Nat.div_eq_of_lt hsmall, Nat.div_eq_of_lt hsmall']
      · rw [if_pos hsmall, if_neg hsmall'] at hfront
        exact absurd (congrArg List.length hfront) Nat.length_toDigits_pos.ne
      · rw [if_neg hsmall, if_pos hsmall'] at hfront
        exact absurd (congrArg List.length hfront) Nat.length_toDigits_pos.ne'
      · rw [if_neg hsmall, if_neg hsmall'] at hfront
        exact ih _ (Nat.div_lt_self (by omega) hradix) hfront
    rw [← Nat.div_add_mod m radix, hdiv, hmod, Nat.div_add_mod]

/-- A number is told by its digits if no digit follows. -/
theorem toDigits_tells {m n : Nat} {r r' : List Char} (hr : ∀ c ∈ r.head?, isHexDigit c = false)
    (hr' : ∀ c ∈ r'.head?, isHexDigit c = false)
    (h : Nat.toDigits radix m ++ r = Nat.toDigits radix n ++ r') : m = n ∧ r = r' := by
  obtain ⟨hdigits, hrest⟩ := eq_of_append_eq (all_isHexDigit_toDigits hradix hsixteen m) hr
    (all_isHexDigit_toDigits hradix hsixteen n) hr' h
  exact ⟨toDigits_injective hradix hsixteen hdigits, hrest⟩

end

/-! ## Quoted texts -/

namespace Quoted

/-- The characters whose escape is a single letter, and these letters. -/
def letters : List (Char × Char) :=
  [('"', '"'), ('\\', '\\'), ('\t', 't'), ('\r', 'r'), ('\n', 'n'), ('\x00', '0')]

/-- A character is written as a letter behind a backslash, as itself or as a number. -/
theorem encodeChar_cases (c : Char) :
    (∃ letter, (c, letter) ∈ letters ∧ encodeChar c = ['\\', letter]) ∨
      (c ≠ '"' ∧ c ≠ '\\' ∧ encodeChar c = [c]) ∨ encodeChar c = encodeNumber c.toNat := by
  by_cases hletter : c ∈ letters.map Prod.fst
  · obtain ⟨⟨_, letter⟩, hmem, rfl⟩ := List.mem_map.mp hletter
    refine .inl ⟨letter, hmem, ?_⟩
    simp only [letters, List.mem_cons, Prod.mk.injEq, List.not_mem_nil, or_false] at hmem
    rcases hmem with h | h | h | h | h | h <;> obtain ⟨rfl, rfl⟩ := h <;> rfl
  · have hencode : encodeChar c = if isPlain c then [c] else encodeNumber c.toNat := by
      unfold encodeChar
      split
      case h_7 => rfl
      all_goals exact absurd (by decide) hletter
    by_cases hplain : isPlain c = true
    · refine .inr (.inl ⟨?_, ?_, hencode.trans (if_pos hplain)⟩) <;> rintro rfl <;>
        exact hletter (by decide)
    · exact .inr (.inr (hencode.trans (if_neg hplain)))

theorem letters_injective :
    ∀ p ∈ letters, ∀ q ∈ letters, p.2 = q.2 → p.1 = q.1 := by
  decide

theorem ne_of_mem_letters : ∀ p ∈ letters, p.2 ≠ 'u' := by
  decide

/-- Characters between quotes. -/
def charScript : Script Char Char where
  chars := encodeChar
  view := id
  Shown _ := True
  Follows _ := True

theorem charScript_tells (c : Char) : charScript.Tells c := by
  intro d _ r r' _ _ h
  change encodeChar c ++ r = encodeChar d ++ r' at h
  change c = d ∧ r = r'
  rcases encodeChar_cases c with ⟨l, hl, hc⟩ | ⟨-, hslash, hc⟩ | hc <;>
    rcases encodeChar_cases d with ⟨l', hl', hd⟩ | ⟨-, hslash', hd⟩ | hd <;>
    rw [hc, hd] at h
  -- the first character tells escapes, the second one letters from numbers
  · obtain ⟨-, hletter⟩ := List.cons.inj h
    obtain ⟨hletter, hr⟩ := List.cons.inj hletter
    exact ⟨letters_injective _ hl _ hl' hletter, hr⟩
  · exact absurd (List.cons.inj h).1.symm hslash'
  · exact absurd (List.cons.inj (List.cons.inj h).2).1 (ne_of_mem_letters _ hl)
  · exact absurd (List.cons.inj h).1 hslash
  · exact List.cons.inj h
  · exact absurd (List.cons.inj h).1 hslash
  · exact absurd (List.cons.inj (List.cons.inj h).2).1.symm (ne_of_mem_letters _ hl')
  · exact absurd (List.cons.inj h).1.symm hslash'
  · rw [encodeNumber, encodeNumber, List.append_assoc, List.append_assoc, List.append_assoc,
      List.append_assoc] at h
    have hstop : ∀ s : List Char, ∀ c ∈ (['}'] ++ s).head?, isHexDigit c = false := by
      rintro s c ⟨⟩
      decide
    obtain ⟨hnat, hr⟩ := toDigits_tells (by decide) (by decide) (hstop r) (hstop r')
      (List.append_cancel_left h)
    exact ⟨Char.toNat_inj.mp hnat, List.append_cancel_left hr⟩

/-- Behind a character another one follows, or the quote that ends the text. -/
theorem charScript_separates : charScript.Separates "" (StartsWith '"') := by
  have hquote : ∀ (c : Char) (r : List Char), ¬ StartsWith '"' (encodeChar c ++ r) := by
    rintro c r ⟨r', h⟩
    rcases encodeChar_cases c with ⟨l, -, hc⟩ | ⟨hne, -, hc⟩ | hc <;> rw [hc] at h
    · exact absurd (List.cons.inj h).1 (by decide)
    · exact hne (List.cons.inj h).1
    · exact absurd (List.cons.inj h).1 (by decide)
  exact ⟨fun _ => trivial, fun _ => trivial, fun {c} _ => hquote c, fun {c} _ => hquote c⟩

/-- A text is told by its quoted form. -/
theorem encode_tells {s s' : String} {r r' : List Char}
    (h : (encode s).toList ++ r = (encode s').toList ++ r') : s = s' ∧ r = r' := by
  have hchars : ∀ s r, (encode s).toList ++ r = '"' ::
      ((charScript.list "" (StartsWith '"')).chars s.toList ++ '"' :: r) := by
    intro s r
    change (String.ofList _).toList ++ r = _ :: (joined "" (s.toList.map encodeChar) ++ _)
    rw [String.toList_ofList, joined_empty, List.flatMap]
    simp
  rw [hchars, hchars] at h
  obtain ⟨hview, hr⟩ := Script.list_tells charScript_separates (fun _ _ => trivial)
    (fun c _ => charScript_tells c) (fun _ _ => trivial) ⟨r, rfl⟩ ⟨r', rfl⟩ (List.cons.inj h).2
  have hlists : s.toList.map id = s'.toList.map id := hview
  rw [List.map_id, List.map_id] at hlists
  exact ⟨String.toList_inj.mp hlists, (List.cons.inj hr).2⟩

end Quoted

end GoSignatures.Text
