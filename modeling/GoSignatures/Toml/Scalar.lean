import GoSignatures.Text.Unsigned
import GoSignatures.Toml.Basic

/-!
# Numbers, truth values and dates

A value without quotes and brackets is a run of characters. What the run denotes is told from its
whole spelling: a truth value, an integer below 2^63 in size, a number with a fraction or an
exponent, or a date or time of the calendar.

* `Scalar.integer?` — an integer
* `Scalar.isFloat` — whether a run spells a number with a fraction or an exponent, within its range
* `Scalar.isDate` — whether a run spells a date, a time, or both
* `Scalar.read?` — the value of a run
-/

namespace GoSignatures.Toml.Scalar

/-! ## Numbers -/

/-- The digits of a run in which single underscores stand between digits. -/
def digits? (isDigit : Char → Bool) : List Char → Option (List Char)
  | [c] => if isDigit c then some [c] else none
  | c :: '_' :: cs => if isDigit c then (digits? isDigit cs).map (c :: ·) else none
  | c :: cs => if isDigit c then (digits? isDigit cs).map (c :: ·) else none
  | [] => none

/-- The number that digits of a radix denote. -/
def magnitude? (radix : Nat) (cs : List Char) : Option Nat := do
  let ds ← digits? (fun c => (Text.Unsigned.digitOf radix c).isSome) cs
  return Text.Unsigned.ofDigits radix (ds.filterMap (Text.Unsigned.digitOf radix))

/-- The digits of a decimal integer: a zero stands alone. -/
def decimal? : List Char → Option Nat
  | ['0'] => some 0
  | '0' :: _ => none
  | cs => magnitude? 10 cs

/-- The integer that a run spells, before its size is looked at. -/
def anyInteger? : List Char → Option Int
  | '0' :: 'x' :: cs => (magnitude? 16 cs).map Int.ofNat
  | '0' :: 'o' :: cs => (magnitude? 8 cs).map Int.ofNat
  | '0' :: 'b' :: cs => (magnitude? 2 cs).map Int.ofNat
  | '+' :: cs => (decimal? cs).map Int.ofNat
  | '-' :: cs => (decimal? cs).map fun n => -Int.ofNat n
  | cs => (decimal? cs).map Int.ofNat

/-- The integer that a run spells. -/
def integer? (cs : List Char) : Option Int :=
  (anyInteger? cs).filter fun n => -0x8000000000000000 ≤ n && n < 0x8000000000000000

/-- A run without its sign. -/
def unsigned : List Char → List Char
  | '+' :: cs => cs
  | '-' :: cs => cs
  | cs => cs

/-- Whether digits with underscores between them make up a run. -/
def isDigits (cs : List Char) : Bool :=
  (digits? Char.isDigit cs).isSome

/-- Half the way from the greatest number with a fraction to 2^1024. From here on, numbers are out
of range. -/
def tooLarge : Nat := Nat.pow 2 1024 - Nat.pow 2 970

/-- Whether `m * 10 ^ e` is out of the range of numbers with a fraction. -/
def isOutOfRange (m : Nat) (e : Int) : Bool :=
  -- the place of the first digit decides, unless it is that of the bound, which has 309 digits
  let place := (Nat.toDigits 10 m).length + e
  m != 0 && (309 < place || place == 309 &&
    tooLarge * Nat.pow 10 (-e).toNat ≤ m * Nat.pow 10 e.toNat)

/-- The number that the digits in a run denote. -/
def number (cs : List Char) : Nat :=
  Text.Unsigned.ofDigits 10 (cs.filterMap (Text.Unsigned.digitOf 10))

/-- Whether a run spells a number with a fraction or an exponent. One that is too large spells none;
one that is too small stands for the negative infinity. -/
def isFloat (cs : List Char) : Bool :=
  let isNegative := cs.head? == some '-'
  let cs := unsigned cs
  let isExponent := fun c : Char => c == 'e' || c == 'E'
  let mantissa := cs.takeWhile fun c => !isExponent c
  let exponent := cs.dropWhile fun c => !isExponent c
  let whole := mantissa.takeWhile (· != '.')
  let fraction := mantissa.dropWhile (· != '.')
  let shift : Int :=
    if (exponent.drop 1).head? == some '-' then -number exponent else number exponent
  cs == "inf".toList || cs == "nan".toList ||
    (decimal? whole).isSome && !(fraction.isEmpty && exponent.isEmpty) &&
      (fraction.isEmpty || isDigits (fraction.drop 1)) &&
      (exponent.isEmpty || isDigits (unsigned (exponent.drop 1))) &&
      (isNegative || !isOutOfRange (number mantissa) (shift - fraction.countP Char.isDigit))

/-! ## Dates and times -/

/-- The number that exactly `n` decimal digits denote, and what follows them. -/
def fixed? (n : Nat) (cs : List Char) : Option (Nat × List Char) :=
  let front := cs.take n
  if front.length == n && front.all Char.isDigit then
    some (Text.Unsigned.ofDigits 10 (front.filterMap Text.Unsigned.digitValue), cs.drop n)
  else none

/-- What follows the character `c` at the start. -/
def after? (c : Char) : List Char → Option (List Char)
  | d :: cs => if d = c then some cs else none
  | [] => none

/-- The number of days of a month. -/
def daysIn (year month : Nat) : Nat :=
  if month = 2 then
    if year % 4 = 0 && (year % 100 != 0 || year % 400 = 0) then 29 else 28
  else if [4, 6, 9, 11].contains month then 30
  else 31

/-- What follows a date at the start. -/
def afterDate? (cs : List Char) : Option (List Char) := do
  let (year, cs) ← fixed? 4 cs
  let (month, cs) ← fixed? 2 (← after? '-' cs)
  let (day, cs) ← fixed? 2 (← after? '-' cs)
  if 1 ≤ month && month ≤ 12 && 1 ≤ day && day ≤ daysIn year month then some cs else none

/-- What follows the fraction of a second at the start, if there is one. -/
def afterFraction? : List Char → Option (List Char)
  | '.' :: cs =>
    if (cs.takeWhile Char.isDigit).isEmpty then none else some (cs.dropWhile Char.isDigit)
  | cs => some cs

/-- What follows a time at the start. -/
def afterTime? (cs : List Char) : Option (List Char) := do
  let (hour, cs) ← fixed? 2 cs
  let (minute, cs) ← fixed? 2 (← after? ':' cs)
  let (second, cs) ← fixed? 2 (← after? ':' cs)
  if hour < 24 && minute < 60 && second ≤ 60 then afterFraction? cs else none

/-- Whether a text is the distance of a time from universal time. -/
def isOffset : List Char → Bool
  | ['Z'] => true
  | ['z'] => true
  | sign :: cs =>
    (sign == '+' || sign == '-') &&
      ((do
        let (hour, cs) ← fixed? 2 cs
        let (minute, cs) ← fixed? 2 (← after? ':' cs)
        return hour < 24 && minute < 60 && cs.isEmpty) == some true)
  | [] => false

/-- Whether a run spells a date, a time, or both. -/
def isDate (cs : List Char) : Bool :=
  match afterDate? cs with
  | some [] => true
  | some (mark :: rest) =>
    ['T', 't', ' '].contains mark &&
      match afterTime? rest with
      | some [] => true
      | some offset => isOffset offset
      | none => false
  | none => afterTime? cs == some []

/-! ## Values -/

/-- The value of a run. -/
def read? (cs : List Char) : Option Toml :=
  if cs == "true".toList then some (.boolean true)
  else if cs == "false".toList then some (.boolean false)
  else
    match integer? cs with
    | some n => some (.integer n)
    | none => if isFloat cs then some .float else if isDate cs then some .date else none

end GoSignatures.Toml.Scalar
