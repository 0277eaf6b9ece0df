import GoSignatures.Toml.Builder
import GoSignatures.Toml.Quotation
import GoSignatures.Toml.Scalar

/-!
# Reading TOML

A document is a sequence of lines: pairs of a key and a value, headers, and blank lines. Comments
run to the end of their line. Arrays may extend over several lines, tables in braces may not.
Reading a value consumes its characters, so their number bounds the recursion; values may nest up
to `Reader.maxDepth`.

* `Reader.readKey` — a key, which may be dotted
* `Reader.readValue` — a value
* `Toml.read?` — the table that a document makes up
-/

namespace GoSignatures.Toml

namespace Reader

/-! ## Blanks and comments -/

/-- What follows the blanks at the start. -/
def skipBlanks (cs : List Char) : List Char :=
  cs.dropWhile fun c => c == ' ' || c == '\t'

/-- What follows the comment at the start, if there is one; none if it holds a control character. -/
def skipComment : List Char → Option (List Char)
  | '#' :: cs =>
    let isEnd := fun c : Char => c == '\n' || c == '\r'
    if (cs.takeWhile fun c => !isEnd c).all Quotation.isPlain then
      some (cs.dropWhile fun c => !isEnd c)
    else none
  | cs => some cs

/-- What follows the end of a line, before which blanks and a comment may stand. -/
def lineEnd (cs : List Char) : Option (List Char) := do
  match ← skipComment (skipBlanks cs) with
  | '\n' :: rest => return rest
  | '\r' :: '\n' :: rest => return rest
  | [] => return []
  | _ => none

/-- What follows the blanks, line feeds and comments at the start, at most `n` lines of them. -/
def skipLines : Nat → List Char → Option (List Char)
  | 0, cs => some cs
  | n + 1, cs => do
    match ← skipComment (skipBlanks cs) with
    | '\n' :: rest => skipLines n rest
    | '\r' :: '\n' :: rest => skipLines n rest
    | rest => return rest

/-! ## Keys -/

/-- A character of a key without quotes. -/
def isKeyChar (c : Char) : Bool :=
  c.isAlphanum || c == '_' || c == '-'

/-- A part of a key, and what follows it. -/
def readPart (cs : List Char) : Option (String × List Char) :=
  match cs with
  | '"' :: rest => (Quotation.basic rest).map fun r => (String.ofList r.1, r.2)
  | '\'' :: rest => (Quotation.literal rest).map fun r => (String.ofList r.1, r.2)
  | _ =>
    let part := cs.takeWhile isKeyChar
    if part.isEmpty then none else some (String.ofList part, cs.dropWhile isKeyChar)

/-- The parts of a key, at most `n` of them, and what follows the blanks behind it. -/
def readKey : Nat → List Char → Option (List String × List Char)
  | 0, _ => none
  | n + 1, cs => do
    let (part, cs) ← readPart (skipBlanks cs)
    match skipBlanks cs with
    | '.' :: rest => do
      let (parts, rest) ← readKey n rest
      return (part :: parts, rest)
    | rest => return ([part], rest)

/-- The keys before the last point of a key, and the last part. -/
def splitKey (parts : List String) : List String × String :=
  (parts.dropLast, parts.getLastD "")

/-! ## Values -/

/-- A character of a value without quotes and brackets. -/
def isRunChar (c : Char) : Bool :=
  c.isAlphanum || ['_', '+', '-', '.', ':'].contains c

/-- A value without quotes and brackets, and what follows it. A blank may part a date from a
time. -/
def readRun (cs : List Char) : Option (Toml × List Char) := do
  let run := cs.takeWhile isRunChar
  let rest := cs.dropWhile isRunChar
  let more := (rest.drop 1).takeWhile isRunChar
  if (rest.head? == some ' ') && Scalar.afterDate? run == some [] && more.head?.any Char.isDigit then
    return (← Scalar.read? (run ++ ' ' :: more), (rest.drop 1).dropWhile isRunChar)
  else return (← Scalar.read? run, rest)

/-- How deep arrays and tables in braces may nest, and how many parts a key may have. -/
def maxDepth : Nat := 79

mutual

/-- A value at the start of a text, after at most `n` steps, and what follows it. The arrays and
tables in it may nest `depth` deep. -/
def readValue (depth : Nat) : Nat → List Char → Option (Toml × List Char)
  | 0, _ => none
  | n + 1, cs =>
    match cs with
    | '"' :: _ => (Quotation.read? cs).map fun r => (.string (String.ofList r.1), r.2)
    | '\'' :: _ => (Quotation.read? cs).map fun r => (.string (String.ofList r.1), r.2)
    | '[' :: rest =>
      if depth = 0 then none else (readItems (depth - 1) n rest).map fun r => (.array r.1, r.2)
    | '{' :: rest =>
      if depth = 0 then none
      else
        match skipBlanks rest with
        | '}' :: rest => some (.table [], rest)
        | rest => do
          let (pairs, rest) ← readPairs (depth - 1) n rest
          return ((← pairs.foldlM Builder.addPair []).toToml, rest)
    | _ => readRun cs

/-- The items of an array up to its closing bracket. A comma may follow the last. -/
def readItems (depth : Nat) : Nat → List Char → Option (List Toml × List Char)
  | 0, _ => none
  | n + 1, cs => do
    match ← skipLines n cs with
    | ']' :: rest => return ([], rest)
    | cs => do
      let (item, cs) ← readValue depth n cs
      match ← skipLines n cs with
      | ']' :: rest => return ([item], rest)
      | ',' :: rest => do
        let (items, rest) ← readItems depth n rest
        return (item :: items, rest)
      | _ => none

/-- The pairs of a table in braces up to its closing brace; there is at least one. -/
def readPairs (depth : Nat) : Nat → List Char → Option (List Pair × List Char)
  | 0, _ => none
  | n + 1, cs => do
    let (parts, cs) ← readKey maxDepth cs
    match cs with
    | '=' :: cs => do
      let (value, cs) ← readValue depth n (skipBlanks cs)
      let (path, key) := splitKey parts
      match skipBlanks cs with
      | '}' :: rest => return ([⟨path, key, value⟩], rest)
      | ',' :: rest => do
        let (pairs, rest) ← readPairs depth n rest
        return (⟨path, key, value⟩ :: pairs, rest)
      | _ => none
    | _ => none

end

/-! ## Lines -/

/-- A pair on its line, and what follows the line. -/
def readPair (n : Nat) (cs : List Char) : Option (Pair × List Char) := do
  let (parts, cs) ← readKey maxDepth cs
  match cs with
  | '=' :: cs => do
    let (value, cs) ← readValue maxDepth n (skipBlanks cs)
    let (path, key) := splitKey parts
    return (⟨path, key, value⟩, ← lineEnd cs)
  | _ => none

/-- The pairs up to the next header or the end of the text, at most `n` lines of them. -/
def readBody (n : Nat) : Nat → List Char → Option (List Pair × List Char)
  | 0, _ => none
  | m + 1, cs => do
    match ← skipLines n cs with
    | [] => return ([], [])
    | '[' :: rest => return ([], '[' :: rest)
    | cs => do
      let (pair, cs) ← readPair n cs
      let (pairs, cs) ← readBody n m cs
      return (pair :: pairs, cs)

/-- A header behind its first bracket: the parts of its key, whether it stands in double brackets,
and what follows its line. -/
def readHeader : List Char → Option (List String × Bool × List Char)
  | '[' :: cs => do
    match ← readKey maxDepth cs with
    | (parts, ']' :: ']' :: rest) => return (parts, true, ← lineEnd rest)
    | _ => none
  | cs => do
    match ← readKey maxDepth cs with
    | (parts, ']' :: rest) => return (parts, false, ← lineEnd rest)
    | _ => none

/-- The sections up to the end of the text, at most `m` of them. -/
def readSections (n : Nat) : Nat → List Char → Option (List Section)
  | 0, _ => none
  | _ + 1, [] => some []
  | m + 1, '[' :: cs => do
    let (parts, repeated, cs) ← readHeader cs
    let (path, key) := splitKey parts
    let (pairs, cs) ← readBody n (n + 1) cs
    return ⟨path, key, repeated, pairs⟩ :: (← readSections n m cs)
  | _ + 1, _ => none

end Reader

/-- The table that a document makes up. A byte order mark in front is passed over. -/
def read? (document : String) : Option Toml := do
  let cs := match document.toList with
    | '\uFEFF' :: cs => cs
    | cs => cs
  let n := 2 * cs.length + 2
  let (pairs, cs) ← Reader.readBody n n cs
  let sections ← Reader.readSections n n cs
  let top ← pairs.foldlM Builder.addPair []
  return (← sections.foldlM Builder.addSection top).toToml

end GoSignatures.Toml
