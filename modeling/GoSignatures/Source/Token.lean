import GoSignatures.Position
import GoSignatures.Source.Quotation
import GoSignatures.Text.Blank
import GoSignatures.Text.Identifier

/-!
# Tokens

A source text is cut into lexemes, each the longest that fits. Blanks and comments between tokens
are dropped, but a token knows whether a line ended in the gap before it, because a line break may
end a statement. Words are not divided into identifiers and keywords: which words are keywords
depends on the place.

* `Lexeme.first` — the first lexeme of a text; it holds at least one character
* `Token.list` — the tokens of a text, closed by one that stands for its end
-/

namespace GoSignatures

/-- The kinds of lexemes. -/
inductive LexemeKind where
  | blank
  | comment
  | word
  | int
  | float
  | imaginary
  | rune
  | string
  /-- A string without its closing quote. -/
  | unclosed
  /-- An operator or a mark of punctuation. -/
  | symbol
  /-- A character that opens no lexeme. -/
  | stray
  /-- The end of the text. -/
  | finish
deriving DecidableEq, Repr

/-- The first lexeme of a text: its kind and how many characters follow its first one. -/
structure Lexeme where
  kind : LexemeKind
  more : Nat
deriving DecidableEq, Repr

namespace Lexeme

/-- Operators and punctuation, longer ones before shorter ones. -/
def symbols : List (List Char) :=
  ["&^=", "<<=", ">>=", "...", "&^", "<<", ">>", "&&", "||", "==", "!=", "<=", ">=", ":=", "<-",
    "++", "--", "+=", "-=", "*=", "/=", "%=", "&=", "|=", "^=", "+", "-", "*", "/", "%", "&", "|",
    "^", "<", ">", "=", "!", "(", ")", "[", "]", "\x7b", "\x7d", ",", ";", ".", ":",
    "~"].map String.toList

/-- The number of characters that are left of a comment between `/*` and `*/`, `n` of them being
read; none if the comment does not end. -/
def blockComment (n : Nat) : List Char → Option Nat
  | '*' :: '/' :: _ => some (n + 2)
  | _ :: cs => blockComment (n + 1) cs
  | [] => none

/-- The lexeme of the first symbol that fits, or of a stray character. -/
def symbol (cs : List Char) : Lexeme :=
  match symbols.find? fun s => s.isPrefixOf cs with
  | some s => ⟨.symbol, s.length - 1⟩
  | none => ⟨.stray, 0⟩

/-- The lexeme of the number at the start of a text, or of a symbol. -/
def number (cs : List Char) : Lexeme :=
  let imaginary := Numeral.imaginary cs
  let float := Numeral.float cs
  let int := Numeral.int cs
  let longest := max imaginary (max float int)
  if longest == 0 then symbol cs
  else if longest == imaginary then ⟨.imaginary, longest - 1⟩
  else if longest == float then ⟨.float, longest - 1⟩
  else ⟨.int, longest - 1⟩

/-- The lexeme of a string of the given extent behind its opening quote. -/
def quoted (extent : Quotation.Extent) : Lexeme :=
  ⟨if extent.closed then .string else .unclosed, extent.size⟩

/-- The lexeme that a slash opens. -/
def slash : List Char → Lexeme
  | '/' :: cs => ⟨.comment, (cs.takeWhile (· != '\n')).length + 1⟩
  | '*' :: cs =>
    match blockComment 0 cs with
    | some n => ⟨.comment, n + 1⟩
    | none => symbol ('/' :: '*' :: cs)
  | cs => symbol ('/' :: cs)

/-- The first lexeme of the text that `c` opens and `cs` continues. -/
def first (c : Char) (cs : List Char) : Lexeme :=
  if Text.isBlank c then ⟨.blank, 0⟩
  else if Text.Identifier.isStart c then ⟨.word, (cs.takeWhile Text.Identifier.isPart).length⟩
  else if c == '/' then slash cs
  else if c == '"' then quoted (Quotation.string cs)
  else if c == '\x60' then quoted (Quotation.raw cs)
  else if c == '\'' then
    match Quotation.rune cs with
    | 0 => ⟨.stray, 0⟩
    | n => ⟨.rune, n⟩
  else number (c :: cs)

end Lexeme

/-- A token, with the source text from its first character on. -/
structure Token where
  kind : LexemeKind
  text : String
  start : Position
  stop : Position
  /-- The place behind the first line feed in the gap before the token, comments left out. -/
  lineBreak : Option Position
  source : List Char

namespace Token

/-- The tokens of a text that starts at a place, after those already found, which come last first.
A line break in the gap before the text is passed along. -/
def scan (found : List Token) (gap : Option Position) (place : Position) :
    List Char → List Token
  | [] => (⟨.finish, "", place, place, gap, []⟩ :: found).reverse
  | c :: cs =>
    let lexeme := Lexeme.first c cs
    let chars := c :: cs.take lexeme.more
    let stop := place.advanceAll chars
    match lexeme.kind with
    | .blank => scan found (if c = '\n' then gap.or (some stop) else gap) stop (cs.drop lexeme.more)
    | .comment => scan found gap stop (cs.drop lexeme.more)
    | kind =>
      scan (⟨kind, String.ofList chars, place, stop, gap, c :: cs⟩ :: found) none stop
        (cs.drop lexeme.more)
termination_by cs => cs.length
decreasing_by all_goals simp only [List.length_cons, List.length_drop]; omega

/-- The mark that a text may open with to tell its byte order. -/
def byteOrderMark : Char := '\uFEFF'

/-- The tokens of a text. A byte order mark in front is passed over. -/
def list (text : String) : List Token :=
  match text.toList with
  | c :: cs =>
    if c = byteOrderMark then scan [] none (Position.start.advance c) cs
    else scan [] none Position.start (c :: cs)
  | [] => scan [] none Position.start []

/-- Whether a token is the given operator or mark of punctuation. -/
def isSymbol (t : Token) (text : String) : Bool :=
  t.kind == .symbol && t.text == text

/-- Whether a token is the given word. -/
def isWord (t : Token) (text : String) : Bool :=
  t.kind == .word && t.text == text

/-- The token as a piece of the source. -/
def piece (t : Token) : Piece :=
  ⟨t.text, t.start⟩

end Token

end GoSignatures
