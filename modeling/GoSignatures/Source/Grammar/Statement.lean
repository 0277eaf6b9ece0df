import GoSignatures.Source.Grammar.Declaration

/-!
# Statements

Statements are checked and dropped. With them the grammar is complete: `Grammar.ofBudget` ties its
recursive places.

* `Grammar.statementRule` — any statement
* `Grammar.blockRule` — a block
* `Grammar.ofBudget` — the whole grammar, nested up to a depth
-/

namespace GoSignatures.Grammar

open Reader

/-- The operators that assign. -/
def assignOperators : List String :=
  [":=", "=", "+=", "-=", "*=", "/=", "%=", "&=", "|=", "^=", "<<=", ">>=", "&^="]

/-- The words that end the statements of a case. -/
def caseWords : List String := ["case", "default"]

/-- What a simple statement turned out to be. -/
inductive SimpleForm where
  /-- One expression. -/
  | expression
  /-- A name with a colon behind it; the colon is taken. -/
  | label
  | other
deriving DecidableEq

variable (g : Grammar)

/-! ## Simple statements -/

/-- The expressions that open a simple statement. Behind a comma a line break ends nothing, because
an assignment must follow. -/
def targets (mode : Mode) : Reader (List Operand) := do
  let first ← asValue (← exprRule g mode)
  if ← continues mode.lines "," then
    let _ ← take
    let others := { mode with lines := false }
    return first :: (← values g others)
  else return [first]

/-- A simple statement behind its first expressions. -/
def simpleAfter (mode : Mode) (labels : Bool) (operands : List Operand) : Reader SimpleForm := do
  let t ← peek
  let single := operands.length == 1
  let isName := match operands with
    | [⟨.name _, _, _, _⟩] => true
    | _ => false
  if single && mode.lines && (← atLineBreak) then return .expression
  else if t.kind == .symbol && assignOperators.contains t.text then
    let _ ← take
    let _ ← values g mode
    return .other
  else if single && (t.isSymbol "++" || t.isSymbol "--") then
    let _ ← take
    return .other
  else if single && t.isSymbol "<-" then
    let _ ← take
    let _ ← asValue (← g.expr mode)
    return .other
  else if labels && isName && t.isSymbol ":" then
    let _ ← take
    return .label
  else if single then return .expression
  else fail .other

/-- A simple statement. -/
def simple (mode : Mode) (labels : Bool) : Reader SimpleForm := do
  let operands ← targets g mode
  simpleAfter g mode labels operands

/-- Fails unless a simple statement is one expression. -/
def asExpression (form : SimpleForm) : Reader Unit := do
  if form != .expression then fail .other

/-! ## Lists of statements -/

/-- Statements with terminators between them, up to the closing brace or, inside a case, the next
case. -/
def statements (inCase : Bool) : Nat → Reader Unit
  | 0 => fail .other
  | n + 1 => do
    let ends := fun (t : Token) =>
      t.isSymbol "\x7d" || inCase && t.kind == .word && caseWords.contains t.text
    let t ← peek
    if ends t then return ()
    if t.kind == .finish then fail (.closing "\x7d")
    g.statement
    if ends (← peek) then return ()
    terminator
    statements inCase n

/-- A block. -/
def blockRule : Reader Unit := do
  let _ ← symbol "\x7b"
  statements g false g.budget
  let _ ← closing "\x7d"

/-- The cases of a switch or select in their braces, each with what `guard` reads behind `case`. -/
def cases (guard : Reader Unit) : Reader Unit := do
  let _ ← symbol "\x7b"
  let rec more : Nat → Reader Unit
    | 0 => fail .other
    | n + 1 => do
      if ← takes "\x7d" then return ()
      let t ← peek
      if t.isWord "case" then
        let _ ← take
        guard
      else if t.isWord "default" then
        let _ ← take
      else fail (.closing "\x7d")
      let _ ← symbol ":"
      statements g true g.budget
      more n
  more g.budget

/-! ## Statements with blocks -/

/-- The rest of an `if` statement. -/
def ifRest : Reader Unit := do
  let first ← simple g .header false
  if ← takes ";" then
    let _ ← asValue (← g.expr .header)
  else asExpression first
  g.block
  if (← seesWord "else") && !(← atLineBreak) then
    let _ ← take
    if ← seesWord "if" then g.statement else g.block

/-- The condition and the step of a `for` statement behind its first semicolon. -/
def forClause : Reader Unit := do
  if !(← sees ";") then
    let _ ← asValue (← g.expr .header)
  let _ ← symbol ";"
  if !(← sees "\x7b") then
    let _ ← simple g .header false

/-- What is iterated over, behind `range`. -/
def rangeRest : Reader Unit := do
  let _ ← keyword "range"
  let _ ← asValue (← g.expr .header)

/-- What stands between `for` and its block. -/
def forHeader : Reader Unit := do
  if ← seesWord "range" then rangeRest g
  else if ← takes ";" then forClause g
  else
    let operands ← targets g .header
    let c ← here
    let assigns := c.next.isSymbol ":=" || c.next.isSymbol "="
    if assigns && c.advance.next.isWord "range" then
      let _ ← take
      rangeRest g
    else
      let form ← simpleAfter g .header false operands
      if ← takes ";" then forClause g else asExpression form

/-- Takes the guard of a type switch if it stands here, and tells whether it did. -/
def takesTypeGuard : Reader Bool := do
  if atTypeGuard (← here) then
    let _ ← take
    let _ ← take
    let _ ← take
    let _ ← closing ")"
    return true
  else return false

/-- The types of a case. -/
def typeCase : Reader Unit := do
  let _ ← commaSeparated false (g.type false) g.budget

/-- The expressions of a case. -/
def valueCase : Reader Unit := do
  let _ ← values g .brackets

/-- The communication of a case: a value is sent, or received and perhaps assigned. -/
def communicationCase : Reader Unit := do
  let operands ← values g .brackets
  let assigns ← if ← takes "=" then pure true else takes ":="
  if assigns then
    let _ ← asValue (← g.expr .brackets)
  else if operands.length != 1 then fail .other
  else if ← takes "<-" then
    let _ ← asValue (← g.expr .brackets)

/-- The value of a `switch` statement and its cases. -/
def switchValue : Reader Unit := do
  if ← sees "\x7b" then cases g (valueCase g)
  else
    let form ← simple g .switchHeader false
    if ← takesTypeGuard then cases g (typeCase g)
    else
      asExpression form
      cases g (valueCase g)

/-- The rest of a `switch` statement. -/
def switchRest : Reader Unit := do
  if ← sees "\x7b" then cases g (valueCase g)
  else
    let form ← simple g .switchHeader false
    if ← takesTypeGuard then cases g (typeCase g)
    else if ← takes ";" then switchValue g
    else
      asExpression form
      cases g (valueCase g)

/-! ## Statements -/

/-- What may follow `return`, `break` and `continue` on their line. -/
def atStatementEnd : Reader Bool := do
  let t ← peek
  return (← atLineBreak) || t.isSymbol ";" || t.isSymbol "\x7d" || t.kind == .finish ||
    t.kind == .word && caseWords.contains t.text

/-- A statement that its first word opens, behind that word. -/
def wordStatement (first : String) : Reader Unit := do
  match first with
  | "return" =>
    if !(← atStatementEnd) then
      let _ ← values g .block
  | "go" | "defer" =>
    let _ ← asValue (← g.expr .block)
  | "if" => ifRest g
  | "for" =>
    if !(← sees "\x7b") then forHeader g
    g.block
  | "switch" => switchRest g
  | "select" => cases g (communicationCase g)
  | "break" | "continue" =>
    if !(← atStatementEnd) then
      let _ ← word
  | "goto" =>
    let _ ← word
  | _ => return ()

/-- The words that open a statement other than a declaration. -/
def statementWords : List String :=
  ["return", "go", "defer", "if", "for", "switch", "select", "break", "continue", "goto",
    "fallthrough"]

/-- A simple statement, or a label and the statement behind it. A label may end a block. -/
def simpleStatement : Reader Unit := do
  let form ← simple g .block true
  if form == .label then
    let t ← peek
    let ends := t.isSymbol "\x7d" || t.kind == .word && caseWords.contains t.text
    if !ends then g.statement

/-- A statement. -/
def statementRule : Reader Unit := do
  let t ← peek
  if t.isSymbol ";" then
    let _ ← take
  else if t.isSymbol "\x7b" then blockRule g
  else if t.kind == .word && declarationWords.contains t.text then
    let _ ← declaration g
  else if t.kind == .word && statementWords.contains t.text then
    let _ ← take
    wordStatement g t.text
  else simpleStatement g

/-! ## The whole grammar -/

/-- The grammar, nested up to the given depth. -/
def ofBudget : Nat → Grammar
  | 0 => .empty
  | n + 1 =>
    { budget := n + 1
      type := fun lines c => typeRule (ofBudget n) lines c
      expr := fun mode c => exprRule (ofBudget n) mode c
      literal := fun c => literalRule (ofBudget n) c
      statement := fun c => statementRule (ofBudget n) c
      block := fun c => blockRule (ofBudget n) c }

end GoSignatures.Grammar
