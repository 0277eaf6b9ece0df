import GoSignatures.Source.Cursor
import GoSignatures.Source.Tree

/-!
# The grammar, tied at its recursive places

Types, expressions and statements contain each other. Each rule of the grammar is written over a
`Grammar` that tells how the constituents inside it are read, and a rule takes at least one token
before it turns to a constituent. Nested to the depth of the number of tokens, the rules therefore
read every text (`GoSignatures.Source.Grammar.Statement`).

* `Mode` — what the surroundings of an expression rule out
* `Operand` — what is kept of an expression while it is read
* `Grammar` — readers for the constituents
-/

namespace GoSignatures

/-- What the surroundings of an expression rule out. -/
structure Mode where
  /-- A line break ends the expression. -/
  lines : Bool
  /-- A brace behind a name opens a composite literal, not a block. -/
  literals : Bool
  /-- The expression may be the guard of a type switch. -/
  guard : Bool

namespace Mode

/-- In a block: an expression ends with its line. -/
def block : Mode := ⟨true, true, false⟩

/-- In brackets. -/
def brackets : Mode := ⟨false, true, false⟩

/-- Between a keyword and the block that it controls. -/
def header : Mode := ⟨false, false, false⟩

/-- Between `switch` and its block. -/
def switchHeader : Mode := ⟨false, false, true⟩

end Mode

/-- The outer form of an expression. -/
inductive Shape where
  | int (token : Token)
  | name (token : Token)
  | group (inner : Shape)
  /-- Any other form: where it starts and where it ends. -/
  | other (start : Token) (stop : Position)

/-- The expression of a given form. -/
def Shape.expr : Shape → Expr
  | int token => .int token.text
  | name token => .name token.text
  | group inner => .group inner.expr
  | other start stop => .other (start.textTo stop)

/-- An expression while it is read. Types are read as expressions too, because a name may be
either. -/
structure Operand where
  shape : Shape
  /-- Whether it may stand for a value. -/
  isValue : Bool
  /-- Whether it may stand for a type. -/
  isType : Bool
  /-- Whether a brace behind it opens a composite literal. -/
  opensLiteral : Bool

/-- Readers for the constituents that contain each other. -/
structure Grammar where
  /-- Bounds how often an item can repeat. -/
  budget : Nat
  /-- A type; a line break may end it where lines count. -/
  type : Bool → Reader TypeExpr
  expr : Mode → Reader Operand
  /-- The braces of a composite literal and what they hold. -/
  literal : Reader Unit
  statement : Reader Unit
  /-- A block in braces. -/
  block : Reader Unit

/-- The grammar by which nothing can be read. -/
def Grammar.empty : Grammar where
  budget := 0
  type _ := Reader.fail .other
  expr _ := Reader.fail .other
  literal := Reader.fail .other
  statement := Reader.fail .other
  block := Reader.fail .other

end GoSignatures
