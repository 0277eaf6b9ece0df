/-!
# Number literals in a source text

How far the number literal at the start of a text reaches. Each form of literal is measured on its
own, with length zero where the form does not apply, and the longest form wins. Underscores may
stand between digits and behind the mark of a radix.

* `Numeral.digits` — the length of a run of digits
* `Numeral.int`, `Numeral.float`, `Numeral.imaginary` — the lengths of the forms
-/

namespace GoSignatures.Numeral

/-! ## Digits -/

/-- A decimal digit. -/
def isDecimal (c : Char) : Bool := c.isDigit

/-- A binary digit. -/
def isBinary (c : Char) : Bool := c == '0' || c == '1'

/-- An octal digit. -/
def isOctal (c : Char) : Bool := '0' ≤ c && c ≤ '7'

/-- A hexadecimal digit. -/
def isHex (c : Char) : Bool :=
  c.isDigit || ('a' ≤ c && c ≤ 'f') || ('A' ≤ c && c ≤ 'F')

/-- The length of the digits that continue a run; each may have one underscore before it. -/
def moreDigits (isDigit : Char → Bool) : List Char → Nat
  | '_' :: c :: cs => if isDigit c then moreDigits isDigit cs + 2 else 0
  | c :: cs => if isDigit c then moreDigits isDigit cs + 1 else 0
  | [] => 0

/-- The length of a run of digits, zero if no digit comes first. -/
def digits (isDigit : Char → Bool) : List Char → Nat
  | c :: cs => if isDigit c then moreDigits isDigit cs + 1 else 0
  | [] => 0

/-- The length of a run of digits that may have an underscore in front. -/
def spacedDigits (isDigit : Char → Bool) : List Char → Nat
  | '_' :: cs =>
    match digits isDigit cs with
    | 0 => 0
    | n => n + 1
  | cs => digits isDigit cs

/-! ## Integers -/

/-- The length of an integer with a mark of its radix after the zero, such as `0x1f`. -/
def marked (marks : List Char) (isDigit : Char → Bool) : List Char → Nat
  | '0' :: mark :: cs =>
    if marks.contains mark then
      match spacedDigits isDigit cs with
      | 0 => 0
      | n => n + 2
    else 0
  | _ => 0

/-- The length of an octal integer that only starts with a zero. -/
def zeroOctal : List Char → Nat
  | '0' :: cs =>
    match spacedDigits isOctal cs with
    | 0 => 0
    | n => n + 1
  | _ => 0

/-- The length of a decimal integer; a zero stands alone. -/
def decimal : List Char → Nat
  | '0' :: _ => 1
  | cs => digits isDecimal cs

/-- The length of an integer. -/
def int (cs : List Char) : Nat :=
  [decimal cs, zeroOctal cs, marked ['x', 'X'] isHex cs, marked ['o', 'O'] isOctal cs,
    marked ['b', 'B'] isBinary cs].foldl max 0

/-! ## Floating-point numbers -/

/-- The length of an exponent with one of the given letters. -/
def exponent (letters : List Char) : List Char → Nat
  | letter :: cs =>
    if letters.contains letter then
      match cs with
      | sign :: rest =>
        if sign == '+' || sign == '-' then
          match digits isDecimal rest with
          | 0 => 0
          | n => n + 2
        else
          match digits isDecimal cs with
          | 0 => 0
          | n => n + 1
      | [] => 0
    else 0
  | [] => 0

/-- The length of what may follow the point: digits and an exponent. -/
def fraction (cs : List Char) : Nat :=
  let n := digits isDecimal cs
  n + exponent ['e', 'E'] (cs.drop n)

/-- The length of a decimal floating-point number. -/
def decimalFloat (cs : List Char) : Nat :=
  match digits isDecimal cs, cs with
  | 0, '.' :: rest => if digits isDecimal rest == 0 then 0 else fraction rest + 1
  | 0, _ => 0
  | n, _ =>
    match cs.drop n with
    | '.' :: rest => n + 1 + fraction rest
    | rest =>
      match exponent ['e', 'E'] rest with
      | 0 => 0
      | e => n + e

/-- The length of a hexadecimal mantissa. -/
def hexMantissa (cs : List Char) : Nat :=
  match spacedDigits isHex cs, cs with
  | 0, '.' :: rest =>
    match digits isHex rest with
    | 0 => 0
    | n => n + 1
  | 0, _ => 0
  | n, _ =>
    match cs.drop n with
    | '.' :: rest => n + 1 + digits isHex rest
    | _ => n

/-- The length of a hexadecimal floating-point number, which needs an exponent. -/
def hexFloat : List Char → Nat
  | '0' :: mark :: cs =>
    if mark == 'x' || mark == 'X' then
      let n := hexMantissa cs
      match n, exponent ['p', 'P'] (cs.drop n) with
      | 0, _ => 0
      | _, 0 => 0
      | n, e => n + e + 2
    else 0
  | _ => 0

/-- The length of a floating-point number. -/
def float (cs : List Char) : Nat :=
  max (decimalFloat cs) (hexFloat cs)

/-! ## Imaginary numbers -/

/-- The length of a number of length `n` with the letter `i` behind it. -/
def withUnit (cs : List Char) (n : Nat) : Nat :=
  if n != 0 && (cs.drop n).head? == some 'i' then n + 1 else 0

/-- The length of an imaginary number. -/
def imaginary (cs : List Char) : Nat :=
  [digits isDecimal cs, int cs, float cs].foldl (fun n m => max n (withUnit cs m)) 0

end GoSignatures.Numeral
