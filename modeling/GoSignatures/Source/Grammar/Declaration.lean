import GoSignatures.Source.Grammar.Expression

/-!
# Declarations

Declarations of types, variables and constants stand at file level and in blocks; imports,
functions and methods at file level only. A rule answers with the declarations that it reads.

* `Grammar.declaration` — types, variables and constants
* `Grammar.importDecl`, `Grammar.funcDecl`, `Grammar.methodDecl` — the others
-/

namespace GoSignatures.Grammar

open Reader

variable (g : Grammar)

/-! ## Groups -/

/-- Items in parentheses, each with a terminator behind it. -/
def terminatedGroup {α : Type} (item : Reader α) : Reader (List α) := do
  let _ ← symbol "("
  let rec items : Nat → Reader (List α)
    | 0 => return []
    | n + 1 => do
      let t ← peek
      if t.isSymbol ")" then return []
      if t.kind == .finish then fail (.closing ")")
      let found ← item
      terminator
      return found :: (← items n)
  let found ← items g.budget
  let _ ← closing ")"
  return found

/-- One item, or a group of items. -/
def oneOrGroup {α : Type} (item : Reader α) : Reader (List α) := do
  if ← sees "(" then terminatedGroup g item else return [← item]

/-! ## Variables and constants -/

/-- The values behind an equals sign. -/
def initialValues : Reader (List Expr) := do
  let operands ← values g .block
  return operands.map fun operand => operand.shape.expr

/-- Names with the commas between them, which count as names. -/
def namesAndCommas : Nat → Reader (List Piece)
  | 0 => return [(← word).piece]
  | n + 1 => do
    let name ← word
    if ← continues true "," then
      let comma ← take
      return name.piece :: comma.piece :: (← namesAndCommas n)
    else return [name.piece]

/-- A declaration of constants. Both type and values may be left out together. -/
def constSpec : Reader ValueSpec := do
  let names ← namesAndCommas g.budget
  let t ← peek
  if ← atLineBreak then return ⟨true, names, none, []⟩
  else if ← takes "=" then return ⟨true, names, none, ← initialValues g⟩
  else if opensType t then
    let type ← g.type false
    let _ ← symbol "="
    return ⟨true, names, some type, ← initialValues g⟩
  else return ⟨true, names, none, []⟩

/-- A declaration of variables: a type, values, or both. -/
def varSpec : Reader ValueSpec := do
  let names ← commaSeparated false (do return (← word).piece) g.budget
  if ← takes "=" then return ⟨false, names, none, ← initialValues g⟩
  else
    let type ← g.type true
    if ← continues true "=" then
      let _ ← take
      return ⟨false, names, some type, ← initialValues g⟩
    else return ⟨false, names, some type, []⟩

/-! ## Types -/

/-- Whether a word, in brackets behind the name of a type, can only open an expression. -/
def opensOperand (t : Token) : Bool :=
  t.kind == .word && (typeWords ++ valueWords ++ typeFunctions).contains t.text

/-- A declaration of a type. Brackets behind the name are the length of an array type if they can
be, and type parameters otherwise. -/
def typeSpec : Reader TypeSpec := do
  let name := (← word).piece
  let plain : Reader TypeSpec := do
    return ⟨name, false, [], ← g.type true⟩
  let generic : Reader TypeSpec := do
    let c ← here
    if opensOperand c.advance.next then fail .other
    let params ← typeParams g
    return ⟨name, false, params, ← g.type true⟩
  if ← takes "=" then return ⟨name, true, [], ← g.type true⟩
  else if ← sees "[" then orElse plain generic
  else plain

/-- A declaration of types, variables or constants, with its keyword. -/
def declaration : Reader (List Declaration) := do
  let t ← take
  if t.text == "const" then return (← oneOrGroup g (constSpec g)).map .value
  else if t.text == "var" then return (← oneOrGroup g (varSpec g)).map .value
  else return (← oneOrGroup g (typeSpec g)).map .type

/-- The words that open a declaration of types, variables or constants. -/
def declarationWords : List String := ["const", "var", "type"]

/-! ## Imports -/

/-- An import: a path with an optional name, a point or an underscore before it. -/
def importSpec : Reader ImportSpec := do
  let t ← peek
  if t.kind == .word || t.isSymbol "." then
    let _ ← take
    return ⟨t.start, some t.text, (← string).text⟩
  else return ⟨t.start, none, (← string).text⟩

/-- Imports in parentheses with terminators between them. -/
def importGroup : Reader (List ImportSpec) := do
  let _ ← symbol "("
  let rec items : Nat → Reader (List ImportSpec)
    | 0 => return []
    | n + 1 => do
      let t ← peek
      if t.isSymbol ")" then return []
      if t.kind == .finish then fail (.closing ")")
      let found ← importSpec
      if ← sees ")" then return [found]
      terminator
      return found :: (← items n)
  let found ← items g.budget
  let _ ← closing ")"
  return found

/-- An import declaration. -/
def importDecl : Reader (List Declaration) := do
  let _ ← keyword "import"
  let specs ← if ← sees "(" then importGroup g else pure [← importSpec]
  return specs.map .imported

/-! ## Functions and methods -/

/-- A body, if there is one on the line. -/
def optionalBody : Reader Unit := do
  if ← continues true "\x7b" then g.block

/-- A function declaration behind its keyword. -/
def funcDecl : Reader (List Declaration) := do
  let name ← word
  let params ← if ← sees "[" then typeParams g else pure []
  let sig ← signature g true
  optionalBody g
  return [.func ⟨name.piece, params, sig⟩]

/-- The place behind the pointers and parentheses that open a type. -/
def behindPointers : Nat → Cursor → Cursor
  | 0, c => c
  | n + 1, c =>
    if c.next.isSymbol "*" || c.next.isSymbol "(" then behindPointers n c.advance else c

/-- A receiver, with the base of its type found in the source. -/
def receiverExpr (param : Param) : Reader ReceiverExpr := fun c => do
  let baseAt := behindPointers g.budget param.typeAt
  let (base, after) ← typeRule g false baseAt
  let whole : Piece := ⟨baseAt.next.textTo after.last, baseAt.next.start⟩
  let name := param.decl.names.headD ""
  match base with
  | .named typeName (arg :: args) =>
    let text := baseAt.next.textTo { baseAt.next.start with offset := typeName.endOffset }
    return (⟨name, param.decl.type, ⟨text, whole.position⟩,
      (arg :: args).map TypeArg.text⟩, c)
  | _ => return (⟨name, param.decl.type, whole, []⟩, c)

/-- A method declaration behind its keyword. -/
def methodDecl : Reader (List Declaration) := do
  let opening ← peek
  let receivers ← paramList g
  let listed : Piece := ⟨opening.textTo (← here).last, opening.start⟩
  let receiver ← match receivers.find? fun param => !param.decl.variadic with
    | some param => do pure (some (← receiverExpr g param))
    | none => pure none
  let name ← word
  let sig ← signature g true
  optionalBody g
  return [.method ⟨listed, receiver, name.piece, sig⟩]

/-- Whether a method is declared at a place behind `func`, and not a function without a name: a
name, which opens no type of results, and parameters must follow the first parameters. -/
def declaresMethod (c : Cursor) : Bool :=
  match paramList g c with
  | .ok (_, after) =>
    after.next.kind == .word && !typeWords.contains after.next.text &&
      after.advance.next.isSymbol "("
  | .error _ => false

end GoSignatures.Grammar
