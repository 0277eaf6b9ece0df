import GoSignatures.Source.Grammar.Type

/-!
# Expressions

Expressions are checked and mostly dropped; what is kept is an `Operand`. A type is read as an
operand where it can open an expression, as in a conversion or a composite literal, and must not
be left over where a value is wanted.

* `Grammar.exprRule` — any expression
* `Grammar.values` — expressions with commas between them
* `Grammar.literalRule` — the braces of a composite literal
-/

namespace GoSignatures.Grammar

open Reader

/-- The operators that stand before an operand. -/
def unaryOperators : List String := ["+", "-", "!", "^", "*", "&", "<-"]

/-- The operators that stand between two operands. -/
def binaryOperators : List String :=
  ["||", "&&", "==", "!=", "<", "<=", ">", ">=", "+", "-", "|", "^", "*", "/", "%", "<<", ">>",
    "&", "&^"]

/-- The predeclared values, which are no identifiers in an expression. -/
def valueWords : List String := ["nil", "true", "false", "iota"]

/-- The functions whose first argument is a type. -/
def typeFunctions : List String := ["new", "make"]

/-- The operand of the given form that is a value and nothing else. -/
def valueOperand (start : Token) (stop : Position) : Operand :=
  ⟨.other start stop, true, false, false⟩

/-- An operand, which must be a value. -/
def asValue (operand : Operand) : Reader Operand := do
  if operand.isValue then return operand else fail .other

variable (g : Grammar)

/-! ## Brackets behind an operand -/

/-- Expressions with commas between them; each must be a value. -/
def values (mode : Mode) : Reader (List Operand) :=
  commaSeparated mode.lines (do asValue (← g.expr mode)) g.budget

/-- The arguments of a call behind the opening parenthesis, the closing one included. A comma may
follow the last, and dots an argument that `spreads` allows. -/
def arguments (spreads : Bool) : Nat → Reader Unit
  | 0 => fail .other
  | n + 1 => do
    if ← takes ")" then return ()
    let _ ← asValue (← g.expr .brackets)
    if spreads then
      let _ ← takes "..."
    if ← takes "," then arguments spreads n
    else
      let _ ← closing ")"

/-- The same for the arguments of a function whose first argument may be a type. No dots may follow
an argument after a type. -/
def typeArguments : Reader Unit := do
  if ← takes ")" then return ()
  let first ← g.expr .brackets
  if first.isValue then
    let _ ← takes "..."
  if ← takes "," then arguments g first.isValue g.budget
  else
    let _ ← closing ")"

/-- The value that a type is applied to, behind the opening parenthesis, with the closing one. -/
def conversion : Reader Unit := do
  let _ ← asValue (← g.expr .brackets)
  let _ ← takes ","
  let _ ← closing ")"

/-- The rest of a slice expression behind its first colon. -/
def sliceBounds : Reader Unit := do
  if ← takes "]" then return ()
  let _ ← asValue (← g.expr .brackets)
  if ← takes ":" then
    let _ ← asValue (← g.expr .brackets)
  let _ ← closing "]"

/-- More type arguments behind a comma, the closing bracket included. -/
def moreTypes : Nat → Reader Unit
  | 0 => fail .other
  | n + 1 => do
    if ← takes "]" then return ()
    let arg ← g.expr .brackets
    if !arg.isType then fail .other
    if ← takes "," then moreTypes n
    else
      let _ ← closing "]"

/-- What `operand` becomes with brackets behind it: an element, a slice, or a generic type or
function with type arguments. -/
def indexed (operand : Operand) (start : Token) : Reader Operand := do
  let _ ← symbol "["
  if ← takes ":" then
    sliceBounds g
    return valueOperand start (← here).last
  let index ← g.expr .brackets
  if ← takes ":" then
    let _ ← asValue index
    sliceBounds g
    return valueOperand start (← here).last
  if ← takes "," then
    if !index.isType then fail .other
    moreTypes g g.budget
  else
    let _ ← closing "]"
  return ⟨.other start (← here).last, operand.isValue, operand.isType && index.isType,
    operand.opensLiteral && index.isType⟩

/-! ## Operands -/

/-- The value or the elements in the braces of a composite literal. -/
def element : Reader Unit := do
  if ← sees "\x7b" then g.literal
  else
    let _ ← asValue (← g.expr .brackets)

/-- The braces of a composite literal and what they hold. A comma may stand before the end, also
alone. -/
def literalRule : Reader Unit := do
  let _ ← symbol "\x7b"
  let rec elements : Nat → Reader Unit
    | 0 => fail .other
    | n + 1 => do
      if ← takes "\x7d" then return ()
      element g
      if ← takes ":" then element g
      if ← takes "," then elements n
      else
        let _ ← closing "\x7d"
  if ← takes "," then
    let _ ← closing "\x7d"
  else elements g.budget

/-- A function literal, or a function type if no body follows. -/
def funcOperand (start : Token) : Reader Operand := do
  let _ ← keyword "func"
  let _ ← signature g false
  if ← sees "\x7b" then
    g.block
    return valueOperand start (← here).last
  else return ⟨.other start (← here).last, false, true, false⟩

/-- An operand that starts with a bracket: a type, or a literal that counts its elements. -/
def bracketOperand (start : Token) : Reader Operand := do
  let opening ← here
  if opening.advance.next.isSymbol "..." then
    let _ ← take
    let _ ← take
    let _ ← closing "]"
    let _ ← g.type false
    g.literal
    return valueOperand start (← here).last
  else
    let _ ← bracketed g false
    return ⟨.other start (← here).last, false, true, true⟩

/-- An operand that starts with a word. -/
def wordOperand (mode : Mode) (start : Token) : Reader Operand := do
  if start.text == "func" then funcOperand g start
  else if typeWords.contains start.text then
    let _ ← wordType g false start
    return ⟨.other start (← here).last, false, true, ["struct", "map"].contains start.text⟩
  else
    let _ ← take
    if valueWords.contains start.text then return valueOperand start start.stop
    else if typeFunctions.contains start.text then return ⟨.name start, true, false, false⟩
    else return ⟨.name start, true, true, mode.literals⟩

/-- An operand without anything behind it. -/
def operand (mode : Mode) : Reader Operand := do
  let start ← peek
  match start.kind with
  | .word => wordOperand g mode start
  | .int =>
    let _ ← take
    return ⟨.int start, true, false, false⟩
  | .float | .imaginary | .rune | .string =>
    let _ ← take
    return valueOperand start start.stop
  | _ =>
    if start.isSymbol "(" then
      let _ ← take
      let inner ← g.expr .brackets
      let _ ← closing ")"
      return ⟨.group inner.shape, inner.isValue, inner.isType, false⟩
    else if start.isSymbol "[" then bracketOperand g start
    else if start.isSymbol "<-" || start.isSymbol "~" then
      let _ ← g.type false
      return ⟨.other start (← here).last, false, true, false⟩
    else fail .other

/-- What stands behind a point: a selected name, or the type of an assertion. -/
def selected (operand : Operand) (start : Token) : Reader Operand := do
  if ← takes "(" then
    let _ ← g.type false
    let _ ← closing ")"
    return valueOperand start (← here).last
  else
    let _ ← word
    let stop := (← here).last
    match operand.shape with
    | .name _ => return ⟨.other start stop, true, operand.isType, operand.opensLiteral⟩
    | _ => return valueOperand start stop

/-- Whether the guard of a type switch ends here with its `.(type)`. -/
def atTypeGuard (c : Cursor) : Bool :=
  c.next.isSymbol "." && c.advance.next.isSymbol "(" && c.advance.advance.next.isWord "type"

/-- An operand with selectors, brackets, calls and literals behind it. A line break may end it only
where it stands for a value. -/
def suffixes (mode : Mode) (start : Token) : Nat → Operand → Reader Operand
  | 0, operand => return operand
  | n + 1, operand => do
    let c ← here
    let t := c.next
    let ended := mode.lines && operand.isValue && c.atLineBreak
    if ended || mode.guard && atTypeGuard c then return operand
    else if t.isSymbol "." then
      let _ ← asValue operand
      let _ ← take
      suffixes mode start n (← selected g operand start)
    else if t.isSymbol "(" then
      let typeFirst := match operand.shape with
        | .name name => typeFunctions.contains name.text
        | _ => false
      let _ ← take
      if typeFirst then typeArguments g
      else if operand.isValue then arguments g true g.budget
      else conversion g
      suffixes mode start n (valueOperand start (← here).last)
    else if t.isSymbol "[" then
      let _ ← asValue operand
      suffixes mode start n (← indexed g operand start)
    else if t.isSymbol "\x7b" && operand.opensLiteral then
      g.literal
      suffixes mode start n (valueOperand start (← here).last)
    else return operand

/-- An operand with everything behind it. -/
def primary (mode : Mode) : Reader Operand := do
  let start ← peek
  suffixes g mode start g.budget (← operand g mode)

/-! ## Operators -/

/-- An operand with operators before it. An arrow before `chan` belongs to a type. -/
def unary (mode : Mode) : Nat → Reader Operand
  | 0 => fail .other
  | n + 1 => do
    let c ← here
    let t := c.next
    let receives := t.isSymbol "<-" && c.advance.next.isWord "chan"
    if t.kind == .symbol && unaryOperators.contains t.text && !receives then
      let _ ← take
      let inner ← unary mode n
      if t.text != "*" && !inner.isValue then fail .other
      return ⟨.other t (← here).last, inner.isValue, inner.isType && t.text == "*", false⟩
    else primary g mode

/-- Operands with operators between them, behind the first. -/
def binary (mode : Mode) (start : Token) : Nat → Operand → Reader Operand
  | 0, left => return left
  | n + 1, left => do
    let c ← here
    let t := c.next
    if t.kind == .symbol && binaryOperators.contains t.text && !(mode.lines && c.atLineBreak) then
      let _ ← take
      let right ← unary g mode g.budget
      let isValue := left.isValue && right.isValue
      let isType := t.text == "|" && left.isType && right.isType
      if !isValue && !isType then fail .other
      binary mode start n ⟨.other start (← here).last, isValue, isType, false⟩
    else return left

/-- An expression. -/
def exprRule (mode : Mode) : Reader Operand := do
  let start ← peek
  binary g mode start g.budget (← unary g mode g.budget)

end GoSignatures.Grammar
