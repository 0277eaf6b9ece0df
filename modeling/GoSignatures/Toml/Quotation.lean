import GoSignatures.Text.Unsigned

/-!
# Strings

A string stands between quotes or apostrophes; tripled, they also allow line feeds inside. Between
quotes a backslash escapes, between apostrophes every character stands for itself.

* `Quotation.literal` — a string between apostrophes
* `Quotation.basic` — a string between quotes
* `Quotation.read?` — any string
-/

namespace GoSignatures.Toml.Quotation

/-- A character that may stand in a string: a tab, or no control character. -/
def isPlain (c : Char) : Bool :=
  c == '\t' || (32 ≤ c.toNat && c.toNat != 127)

/-- The character that a short escape denotes. -/
def shortEscape? : Char → Option Char
  | 'b' => some '\x08'
  | 't' => some '\t'
  | 'n' => some '\n'
  | 'f' => some '\x0c'
  | 'r' => some '\r'
  | '"' => some '"'
  | '\\' => some '\\'
  | _ => none

/-- The character whose number hexadecimal digits denote, if there is one. -/
def charOf? (digits : List Char) : Option Char := do
  let ds ← digits.mapM (Text.Unsigned.digitOf 16)
  let n := Text.Unsigned.ofDigits 16 ds
  if n.isValidChar then some (Char.ofNat n) else none

/-- Whether the rest of a line is blank. -/
def blankLine (cs : List Char) : Bool :=
  match cs.dropWhile fun c => c == ' ' || c == '\t' with
  | '\n' :: _ => true
  | '\r' :: '\n' :: _ => true
  | _ => false

/-- What follows the blanks and line feeds at the start. -/
def skipLines : List Char → List Char
  | ' ' :: cs => skipLines cs
  | '\t' :: cs => skipLines cs
  | '\n' :: cs => skipLines cs
  | '\r' :: '\n' :: cs => skipLines cs
  | cs => cs

/-! ## Strings on one line -/

/-- The text of a string between apostrophes behind the first one, and what follows it. -/
def literal : List Char → Option (List Char × List Char)
  | '\'' :: rest => some ([], rest)
  | c :: cs => if isPlain c then (literal cs).map fun r => (c :: r.1, r.2) else none
  | [] => none

/-- The text of a string between quotes behind the first one, and what follows it. -/
def basic : List Char → Option (List Char × List Char)
  | '"' :: rest => some ([], rest)
  | '\\' :: 'u' :: a :: b :: c :: d :: cs => do
    let e ← charOf? [a, b, c, d]
    (basic cs).map fun r => (e :: r.1, r.2)
  | '\\' :: 'U' :: a :: b :: c :: d :: a' :: b' :: c' :: d' :: cs => do
    let e ← charOf? [a, b, c, d, a', b', c', d']
    (basic cs).map fun r => (e :: r.1, r.2)
  | '\\' :: c :: cs => do
    let e ← shortEscape? c
    (basic cs).map fun r => (e :: r.1, r.2)
  | c :: cs =>
    if isPlain c && c != '\\' then (basic cs).map fun r => (c :: r.1, r.2) else none
  | [] => none

/-! ## Strings on several lines -/

/-- What follows a line feed at the start of a string on several lines, which does not count. -/
def dropLineFeed : List Char → List Char
  | '\n' :: cs => cs
  | '\r' :: '\n' :: cs => cs
  | cs => cs

/-- The quotes that belong to the text at the end of a string on several lines, and what follows
its closing quotes. Up to two quotes may stand before these. -/
def closing? (quote : Char) (cs : List Char) : Option (List Char × List Char) :=
  let n := (cs.takeWhile (· == quote)).length
  if n < 3 then none
  else if 5 < n then some (List.replicate 2 quote, cs.drop 5)
  else some (List.replicate (n - 3) quote, cs.drop n)

/-- The text of a literal string on several lines, at most `n` characters of it, and what follows
it. -/
def literalLines : Nat → List Char → Option (List Char × List Char)
  | 0, _ => none
  | n + 1, cs =>
    match closing? '\'' cs with
    | some found => some found
    | none =>
      match cs with
      | '\r' :: '\n' :: cs => (literalLines n cs).map fun r => ('\n' :: r.1, r.2)
      | c :: cs =>
        if isPlain c || c == '\n' then (literalLines n cs).map fun r => (c :: r.1, r.2) else none
      | [] => none

/-- The text of a string on several lines, at most `n` steps of it, and what follows it. A
backslash at the end of a line takes the line feed and the blanks behind it away. -/
def basicLines : Nat → List Char → Option (List Char × List Char)
  | 0, _ => none
  | n + 1, cs =>
    match closing? '"' cs with
    | some found => some found
    | none =>
      match cs with
      | '\r' :: '\n' :: cs => (basicLines n cs).map fun r => ('\n' :: r.1, r.2)
      | '\\' :: 'u' :: a :: b :: c :: d :: cs => do
        let e ← charOf? [a, b, c, d]
        (basicLines n cs).map fun r => (e :: r.1, r.2)
      | '\\' :: 'U' :: a :: b :: c :: d :: a' :: b' :: c' :: d' :: cs => do
        let e ← charOf? [a, b, c, d, a', b', c', d']
        (basicLines n cs).map fun r => (e :: r.1, r.2)
      | '\\' :: cs =>
        if blankLine cs then basicLines n (skipLines cs)
        else
          match cs with
          | c :: cs => do
            let e ← shortEscape? c
            (basicLines n cs).map fun r => (e :: r.1, r.2)
          | [] => none
      | c :: cs =>
        if isPlain c || c == '\n' then (basicLines n cs).map fun r => (c :: r.1, r.2) else none
      | [] => none

/-! ## All strings -/

/-- The string at the start of a text that opens with a quote or an apostrophe, and what follows
it. -/
def read? : List Char → Option (List Char × List Char)
  | '"' :: '"' :: '"' :: cs =>
    let cs := dropLineFeed cs
    basicLines (cs.length + 1) cs
  | '\'' :: '\'' :: '\'' :: cs =>
    let cs := dropLineFeed cs
    literalLines (cs.length + 1) cs
  | '"' :: cs => basic cs
  | '\'' :: cs => literal cs
  | _ => none

end GoSignatures.Toml.Quotation
