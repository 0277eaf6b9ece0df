/-!
# Unsigned numbers in text

Numerals of a given radix that denote a number below 2^64. One leading plus sign is allowed,
letters count as digits in either case, and nothing else may stand in the text.

* `digitValue` — the value of a digit or letter
* `ofDigits` — the number that a list of digit values denotes
* `read` — the number that a text denotes, if it is a numeral below `limit`
-/

namespace GoSignatures.Text.Unsigned

/-- Numbers must stay below this, which is 2 to the power of 64. -/
def limit : Nat := 0x10000000000000000

/-- The value of a digit: `0` to `9`, then the letters in either case. -/
def digitValue (c : Char) : Option Nat :=
  let n := c.toNat
  if 48 ≤ n && n ≤ 57 then some (n - 48)
  else if 97 ≤ n && n ≤ 122 then some (n - 87)
  else if 65 ≤ n && n ≤ 90 then some (n - 55)
  else none

/-- The value of a digit of the given radix. -/
def digitOf (radix : Nat) (c : Char) : Option Nat :=
  (digitValue c).filter (· < radix)

/-- The number that digit values denote, the most significant first. -/
def ofDigits (radix : Nat) (ds : List Nat) : Nat :=
  ds.foldl (fun acc d => acc * radix + d) 0

/-- The number that the digits `cs` denote, if there is a digit, all are digits of the radix and
the number is below `limit`. -/
def readDigits (radix : Nat) (cs : List Char) : Option Nat :=
  if cs.isEmpty then none
  else (cs.mapM (digitOf radix)).bind fun ds =>
    let n := ofDigits radix ds
    if n < limit then some n else none

/-- The number that a numeral denotes; one leading `+` is allowed. -/
def read (radix : Nat) : List Char → Option Nat
  | '+' :: cs => readDigits radix cs
  | cs => readDigits radix cs

theorem readDigits_lt {radix n : Nat} {cs : List Char} (h : readDigits radix cs = some n) :
    n < limit := by
  unfold readDigits at h
  split at h
  · simp at h
  · obtain ⟨ds, -, hds⟩ := Option.bind_eq_some_iff.1 h
    dsimp only at hds
    split at hds
    · next hlt => cases hds; exact hlt
    · simp at hds

theorem read_lt {radix n : Nat} {cs : List Char} (h : read radix cs = some n) : n < limit := by
  unfold read at h
  split at h <;> exact readDigits_lt h

end GoSignatures.Text.Unsigned
