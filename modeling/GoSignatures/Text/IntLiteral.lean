import GoSignatures.Text.Unsigned

/-!
# Integer literals

Decimal literals, literals with one of the marks `0x`, `0o` and `0b`, and octal literals that
only start with a zero. Underscores between digits carry no meaning.

* `IntLiteral.split` — the radix of a literal and its digits
* `IntLiteral.value?` — the value of a literal, if it is below 2^64
-/

namespace GoSignatures.Text.IntLiteral

/-- The radix that the opening of a literal announces, and the digits after it. The literal is
written in lower case and without underscores. -/
def split : List Char → Nat × List Char
  | '0' :: 'x' :: digits => (16, digits)
  | '0' :: 'o' :: digits => (8, digits)
  | '0' :: 'b' :: digits => (2, digits)
  | '0' :: c :: digits => (8, c :: digits)
  | digits => (10, digits)

/-- The value of a literal, if it is below 2^64. -/
def value? (literal : String) : Option Nat :=
  let (radix, digits) := split ((literal.toList.filter (· != '_')).map Char.toLower)
  Unsigned.read radix digits

end GoSignatures.Text.IntLiteral
