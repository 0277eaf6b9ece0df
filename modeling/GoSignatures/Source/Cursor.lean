import GoSignatures.Source.Token

/-!
# Reading tokens

A `Reader` takes tokens from the front of a text and answers with what they say, or fails at some
place with a note of what it wanted there. A line break counts as a token only where a terminator
is wanted; everywhere else it separates tokens like any blank.

* `Cursor` — a place in a text: the next token and what follows it
* `Reader` — a step from cursor to cursor
* `Failure.describe` — where a failure is shown, and in which words
-/

namespace GoSignatures

/-- A place between two tokens of a text. -/
structure Cursor where
  /-- The next token. -/
  next : Token
  /-- The tokens after the next one. -/
  rest : List Token
  /-- The end of what was taken last. -/
  last : Position

/-- What a reader wanted where it failed. -/
inductive Wanted where
  /-- The closing bracket of what is open. -/
  | closing (bracket : String)
  | type
  | other
deriving DecidableEq, Repr

/-- A place where no reader can go on. -/
structure Failure where
  cursor : Cursor
  wanted : Wanted

/-- A step through the tokens of a text. -/
abbrev Reader := StateT Cursor (Except Failure)

/-! ## Failures -/

namespace Failure

/-- Tokens before which a closing bracket may have been forgotten. -/
def followsBracket (t : Token) : Bool :=
  t.kind == .finish || t.kind == .word || t.isSymbol "\x7b"

/-- Tokens before which a type may have been forgotten. -/
def followsType (t : Token) : Bool :=
  t.kind == .finish || t.kind == .symbol && [")", "]", ",", "\x7b", "\x7d"].contains t.text

/-- The words that a message quotes from a text: the first word, cut to 24 characters. -/
def quote (source : List Char) : String :=
  match (Text.firstWord source).take 24 with
  | [] => "unexpected input"
  | word => "unexpected '" ++ String.ofList word ++ "'"

/-- Where a failure is shown, and in which words. A bracket, quote or type that could stand at the
end of what was read is reported as missing there; any other token is reported itself. -/
def describe (f : Failure) : Position × String :=
  let t := f.cursor.next
  let unexpected := (t.start, quote t.source)
  match t.kind, f.wanted with
  | .unclosed, _ => (t.stop, "missing " ++ String.ofList (t.source.take 1))
  | _, .closing bracket =>
    if followsBracket t then (f.cursor.last, "missing " ++ bracket) else unexpected
  | _, .type =>
    if followsType t then (f.cursor.last, "missing type_identifier") else unexpected
  | _, .other => unexpected

end Failure

/-! ## Steps -/

namespace Cursor

/-- The start of the text that the tokens make up. -/
def ofTokens : List Token → Cursor
  | t :: ts => ⟨t, ts, Position.start⟩
  | [] => ⟨⟨.finish, "", Position.start, Position.start, none, []⟩, [], Position.start⟩

/-- The place after the next token; there is none after the end of the text. -/
def advance (c : Cursor) : Cursor :=
  match c.rest with
  | t :: ts => ⟨t, ts, c.next.stop⟩
  | [] => c

/-- Whether a line ends before the next token. -/
def atLineBreak (c : Cursor) : Bool :=
  c.next.lineBreak.isSome

end Cursor

namespace Reader

variable {α β : Type}

/-- Fails here. -/
def fail (wanted : Wanted) : Reader α :=
  fun c => .error ⟨c, wanted⟩

/-- The next token, which stays. -/
def peek : Reader Token :=
  fun c => .ok (c.next, c)

/-- Takes the next token. -/
def take : Reader Token :=
  fun c => .ok (c.next, c.advance)

/-- Whether a line ends before the next token. -/
def atLineBreak : Reader Bool :=
  fun c => .ok (c.atLineBreak, c)

/-- What a reader sees from here, without taking anything. -/
def here : Reader Cursor :=
  fun c => .ok (c, c)

/-- What `p` answers, or what `q` answers from the same place if `p` fails. -/
def orElse (p q : Reader α) : Reader α :=
  fun c =>
    match p c with
    | .ok r => .ok r
    | .error _ => q c

/-- Whether the next token is the given symbol. -/
def sees (text : String) : Reader Bool :=
  fun c => .ok (c.next.isSymbol text, c)

/-- Whether the next token is the given word. -/
def seesWord (text : String) : Reader Bool :=
  fun c => .ok (c.next.isWord text, c)

/-- Whether the next token is the given symbol and, where `lines` count, on the same line. -/
def continues (lines : Bool) (text : String) : Reader Bool :=
  fun c => .ok (c.next.isSymbol text && !(lines && c.atLineBreak), c)

/-- Takes the next token if it is the given symbol, and tells whether it did. -/
def takes (text : String) : Reader Bool :=
  fun c => if c.next.isSymbol text then .ok (true, c.advance) else .ok (false, c)

/-- Takes the given symbol. -/
def symbol (text : String) : Reader Token :=
  fun c => if c.next.isSymbol text then .ok (c.next, c.advance) else .error ⟨c, .other⟩

/-- Takes the closing bracket of what is open. -/
def closing (bracket : String) : Reader Token :=
  fun c =>
    if c.next.isSymbol bracket then .ok (c.next, c.advance) else .error ⟨c, .closing bracket⟩

/-- Takes a word, whatever it is. -/
def word : Reader Token :=
  fun c => if c.next.kind = .word then .ok (c.next, c.advance) else .error ⟨c, .other⟩

/-- Takes the given word. -/
def keyword (text : String) : Reader Token :=
  fun c => if c.next.isWord text then .ok (c.next, c.advance) else .error ⟨c, .other⟩

/-- Takes a string literal. -/
def string : Reader Token :=
  fun c => if c.next.kind = .string then .ok (c.next, c.advance) else .error ⟨c, .other⟩

/-- Takes a terminator: the line break before the next token, a semicolon, or the end of the
text, which stays. -/
def terminator : Reader Unit :=
  fun c =>
    match c.next.lineBreak with
    | some stop => .ok ((), { c with next := { c.next with lineBreak := none }, last := stop })
    | none =>
      if c.next.isSymbol ";" then .ok ((), c.advance)
      else if c.next.kind = .finish then .ok ((), c)
      else .error ⟨c, .other⟩

/-- Items that `p` reads, at least one, with commas between them. Where `lines` count, a line break
before a comma ends them. At most `n` more items are read after the first. -/
def commaSeparated (lines : Bool) (p : Reader α) : Nat → Reader (List α)
  | 0 => do return [← p]
  | n + 1 => do
    let item ← p
    if ← continues lines "," then
      let _ ← take
      return item :: (← commaSeparated lines p n)
    else return [item]

end Reader

/-! ## Source text -/

/-- The characters that make up the first `n` bytes of a text, after those already taken, which
come last first. -/
def takeBytes (taken : List Char) (n : Nat) : List Char → List Char
  | [] => taken.reverse
  | c :: cs => if n = 0 then taken.reverse else takeBytes (c :: taken) (n - c.utf8Size) cs

/-- The source text from a token up to a place. -/
def Token.textTo (t : Token) (stop : Position) : String :=
  String.ofList (takeBytes [] (stop.offset - t.start.offset) t.source)

end GoSignatures
