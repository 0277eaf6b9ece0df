/-!
# White space

Two sets are in use. Between the tokens of a source text only the six ASCII blanks are skipped;
where text is cut into words, every character of the Unicode property White_Space separates.
-/

namespace GoSignatures.Text

/-- A blank between tokens: tab, line feed, vertical tab, form feed, carriage return, space. -/
def isBlank (c : Char) : Bool :=
  c == ' ' || (9 ≤ c.toNat && c.toNat ≤ 13)

/-- The Unicode property White_Space. -/
def isSpace (c : Char) : Bool :=
  isBlank c || c.toNat == 0x85 || c.toNat == 0xA0 || c.toNat == 0x1680 ||
    (0x2000 ≤ c.toNat && c.toNat ≤ 0x200A) || c.toNat == 0x2028 || c.toNat == 0x2029 ||
    c.toNat == 0x202F || c.toNat == 0x205F || c.toNat == 0x3000

/-- The characters of `cs` without the white space at both ends. -/
def trim (cs : List Char) : List Char :=
  ((cs.dropWhile isSpace).reverse.dropWhile isSpace).reverse

/-- The leading characters of `cs` up to the first white space. -/
def firstWord (cs : List Char) : List Char :=
  cs.takeWhile fun c => !isSpace c

theorem isSpace_of_isBlank {c : Char} (h : isBlank c = true) : isSpace c = true := by
  simp [isSpace, h]

theorem isSpace_of_isWhitespace {c : Char} (h : c.isWhitespace = true) : isSpace c = true := by
  simp only [Char.isWhitespace, Bool.or_eq_true, decide_eq_true_eq] at h
  rcases h with ((rfl | rfl) | rfl) | rfl <;> decide

end GoSignatures.Text
