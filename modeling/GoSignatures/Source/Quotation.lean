import GoSignatures.Source.Numeral

/-!
# Quoted literals in a source text

How far a character literal or a string literal reaches. The opening quote is already read. A
string that does not end is measured up to the place where its closing quote is missing.

* `Quotation.escape?` — the length of an escape after its backslash
* `Quotation.rune` — the length of a character literal
* `Quotation.string`, `Quotation.raw` — the extent of a string literal
-/

namespace GoSignatures.Quotation

open Numeral (isHex isOctal)

/-- How far a string reaches, and whether its closing quote is there. -/
structure Extent where
  size : Nat
  closed : Bool
deriving DecidableEq, Repr

/-- Whether a text starts with `n` characters that satisfy `p`. -/
def startsWith (p : Char → Bool) (n : Nat) (cs : List Char) : Bool :=
  let front := cs.take n
  front.length == n && front.all p

/-- The length of the escape of a character literal, behind its backslash; zero if it is none. -/
def escape : List Char → Nat
  | 'x' :: cs => if startsWith isHex 2 cs then 3 else 0
  | 'u' :: cs => if startsWith isHex 4 cs then 5 else 0
  | 'U' :: cs => if startsWith isHex 8 cs then 9 else 0
  | c :: cs =>
    if ['a', 'b', 'f', 'n', 'r', 't', 'v', '\\', '\'', '"'].contains c then 1
    else if startsWith isOctal 3 (c :: cs) then 3
    else 0
  | [] => 0

/-- The length of a character literal behind its opening quote; zero if it is none. -/
def rune : List Char → Nat
  | '\\' :: cs =>
    match escape cs with
    | 0 => 0
    | n => if (cs.drop n).head? == some '\'' then n + 2 else 0
  | '\'' :: _ => 0
  | _ :: '\'' :: _ => 2
  | _ => 0

/-- The number of hexadecimal digits that the letter of an escape demands behind it. -/
def hexDigits (c : Char) : Nat :=
  if c = 'x' then 2 else if c = 'u' then 4 else if c = 'U' then 8 else 0

/-- The extent of an interpreted string behind its opening quote, `n` characters being read. A
backslash takes the next character with it. -/
def stringFrom (n : Nat) : List Char → Extent
  | '"' :: _ => ⟨n + 1, true⟩
  | '\n' :: _ => ⟨n, false⟩
  | '\\' :: c :: cs =>
    if startsWith isHex (hexDigits c) cs then stringFrom (n + 2) cs else ⟨n, false⟩
  | ['\\'] => ⟨n, false⟩
  | _ :: cs => stringFrom (n + 1) cs
  | [] => ⟨n, false⟩

/-- The extent of an interpreted string behind its opening quote. -/
def string (cs : List Char) : Extent := stringFrom 0 cs

/-- The extent of a raw string behind its opening quote. -/
def raw (cs : List Char) : Extent :=
  let n := (cs.takeWhile (· != '\x60')).length
  if (cs.drop n).isEmpty then ⟨n, false⟩ else ⟨n + 1, true⟩

end GoSignatures.Quotation
