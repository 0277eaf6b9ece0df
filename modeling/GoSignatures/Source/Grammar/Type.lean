import GoSignatures.Source.Grammar.Basic

/-!
# Type expressions

* `Grammar.typeRule` — any type
* `Grammar.signature` — parameters and results
* `Grammar.typeParams` — a list of type parameters
-/

namespace GoSignatures.Grammar

open Reader

/-- The words that open a type other than a name. -/
def typeWords : List String := ["struct", "interface", "map", "chan", "func"]

/-- Whether a token may open a type that has no parentheses around it. -/
def opensSimpleType (t : Token) : Bool :=
  t.kind == .word || t.kind == .symbol && ["*", "[", "<-", "~"].contains t.text

/-- Whether a token may open a type. -/
def opensType (t : Token) : Bool :=
  opensSimpleType t || t.isSymbol "("

variable (g : Grammar)

/-! ## Names -/

/-- The terms of a union, at least one. -/
def terms (lines : Bool) : Reader (List TypeExpr) := do
  let first ← g.type lines
  let rec more : Nat → Reader (List TypeExpr)
    | 0 => return []
    | n + 1 => do
      if ← continues lines "|" then
        let _ ← take
        let term ← g.type lines
        return term :: (← more n)
      else return []
  return first :: (← more g.budget)

/-- A type argument. -/
def typeArg : Reader TypeArg := do
  let start ← peek
  let first ← g.type false
  let text := start.textTo (← here).last
  if ← takes "|" then return ⟨text, first :: (← terms g false)⟩
  else return ⟨text, [first]⟩

/-- Type arguments in their brackets. A comma may follow the last. -/
def typeArgs : Reader (List TypeArg) := do
  let _ ← symbol "["
  let rec more : Nat → Reader (List TypeArg)
    | 0 => return []
    | n + 1 => do
      if ← takes "," then
        if ← sees "]" then return []
        let arg ← typeArg g
        return arg :: (← more n)
      else return []
  let first ← typeArg g
  let others ← more g.budget
  let _ ← closing "]"
  return first :: others

/-- A name of a type behind its first word. -/
def typeNameAfter (first : Token) (lines : Bool) : Reader TypeName := do
  if ← continues lines "." then
    let _ ← take
    return .qualified first.piece (← word).piece
  else return .plain first.piece

/-- The type arguments behind a name, if there are any. -/
def optionalTypeArgs (lines : Bool) : Reader (List TypeArg) := do
  if ← continues lines "[" then typeArgs g else return []

/-- A named type, with type arguments if there are any. -/
def namedType (lines : Bool) : Reader TypeExpr := do
  let name ← typeNameAfter (← word) lines
  return .named name (← optionalTypeArgs g lines)

/-! ## Parameters -/

/-- One entry of a parameter list. -/
inductive ParamEntry where
  /-- A word alone: a type, or a name whose type follows later in the list. -/
  | bare (name : Token) (place : Cursor)
  | named (name : Token) (type : TypeExpr) (place : Cursor)
  | unnamed (type : TypeExpr) (place : Cursor)
  | variadic (name : Option Token) (type : TypeExpr)

/-- A declaration of parameters and the place where its type is written. -/
structure Param where
  decl : ParamDecl
  typeAt : Cursor

/-- Whether an entry of a parameter list may end here. -/
def atEntryEnd : Reader Bool := do
  let t ← peek
  return t.isSymbol "," || t.isSymbol ")"

/-- An entry that starts with a word: the word is a type or a name. Brackets behind it are type
arguments if the entry ends with them. -/
def paramEntryAfter (name : Token) (place : Cursor) : Reader ParamEntry := do
  let t ← peek
  if ← atEntryEnd then return .bare name place
  else if t.isSymbol "..." then
    let _ ← take
    return .variadic (some name) (← g.type false)
  else if t.isSymbol "." then
    let typeName ← typeNameAfter name false
    return .unnamed (.named typeName (← optionalTypeArgs g false)) place
  else
    let typeAt ← here
    let withType : Reader ParamEntry := do
      return .named name (← g.type false) typeAt
    let generic : Reader ParamEntry := do
      let args ← typeArgs g
      if ← atEntryEnd then return .unnamed (.named (.plain name.piece) args) place
      else fail .other
    if t.isSymbol "[" then orElse generic withType
    else if opensType t then withType
    else fail (.closing ")")

/-- An entry whose first word is a name, although it could open a type. -/
def namedEntry : Reader ParamEntry := do
  let name ← take
  let typeAt ← here
  let type ← g.type false
  if ← atEntryEnd then return .named name type typeAt else fail .other

/-- An entry of a parameter list. A word that opens a type, such as `chan`, is a name all the same
if words alone stand before it, which then share the type behind it, and if a type is behind it. -/
def paramEntry (afterWord : Bool) : Reader ParamEntry := do
  let t ← peek
  let place ← here
  let unnamed : Reader ParamEntry := do
    return .unnamed (← g.type false) place
  if t.isSymbol "..." then
    let _ ← take
    return .variadic none (← g.type false)
  else if t.kind == .word then
    if !typeWords.contains t.text then paramEntryAfter g (← take) place
    else if afterWord then orElse (namedEntry g) unnamed
    else unnamed
  else unnamed

/-- Whether an entry is a word alone. -/
def ParamEntry.isBare : ParamEntry → Bool
  | bare _ _ => true
  | _ => false

/-- A type without a name, read from a word alone. -/
def bareParam (entry : Token × Cursor) : Param :=
  ⟨⟨[], .named (.plain entry.1.piece) [], false⟩, entry.2⟩

/-- The declarations that entries make up. Words alone share the type of the name that follows
them; if none follows they are types. The words that wait for a type come last first. -/
def groupParams (waiting : List (Token × Cursor)) : List ParamEntry → List Param
  | [] => waiting.reverse.map bareParam
  | .bare name place :: entries => groupParams ((name, place) :: waiting) entries
  | .named name type place :: entries =>
    ⟨⟨(waiting.reverse.map (·.1.text)) ++ [name.text], type, false⟩, place⟩ :: groupParams [] entries
  | .unnamed type place :: entries =>
    waiting.reverse.map bareParam ++ ⟨⟨[], type, false⟩, place⟩ :: groupParams [] entries
  | .variadic name type :: entries =>
    waiting.reverse.map bareParam ++
      ⟨⟨(name.map Token.text).toList, type, true⟩, Cursor.ofTokens []⟩ :: groupParams [] entries

/-- A list of parameters in its parentheses. A comma may stand before the end, also alone. -/
def paramList : Reader (List Param) := do
  let _ ← symbol "("
  let rec entries (afterWord : Bool) : Nat → Reader (List ParamEntry)
    | 0 => return []
    | n + 1 => do
      if ← sees ")" then return []
      let entry ← paramEntry g afterWord
      if ← takes "," then return entry :: (← entries entry.isBare n)
      else return [entry]
  let alone ← takes ","
  let found ← if alone then pure [] else entries false g.budget
  let _ ← closing ")"
  return groupParams [] found

/-- The results of a function, if the next token opens any. -/
def results (lines : Bool) : Reader ResultExpr := do
  let t ← peek
  if lines && (← atLineBreak) then return .list []
  else if t.isSymbol "(" then return .list ((← paramList g).map Param.decl)
  else if opensSimpleType t then return .single (← g.type lines)
  else return .list []

/-- Parameters and results. -/
def signature (lines : Bool) : Reader SignatureExpr := do
  let params ← paramList g
  return ⟨params.map Param.decl, ← results g lines⟩

/-! ## Structs and interfaces -/

/-- The tag of a field, if there is one on the line. -/
def tag : Reader (Option String) := do
  let t ← peek
  if t.kind == .string && !(← atLineBreak) then
    let _ ← take
    return some t.text
  else return none

/-- Whether a field may end here. -/
def atFieldEnd : Reader Bool := do
  let t ← peek
  return (← atLineBreak) || t.isSymbol ";" || t.isSymbol "\x7d" || t.kind == .string ||
    t.kind == .finish

/-- An embedded field behind the first word of its type. -/
def embeddedAfter (pointer : Bool) (first : Token) : Reader FieldDecl := do
  let name ← typeNameAfter first true
  let args ← optionalTypeArgs g true
  return .embedded pointer name args (← tag)

/-- Fields that share a type, behind their first name. -/
def namedFields (first : Token) : Reader FieldDecl := do
  let others ← if ← takes "," then commaSeparated false word g.budget else pure []
  let type ← g.type true
  return .named ((first :: others).map Token.text) type (← tag)

/-- A field. Brackets behind a word are type arguments of an embedded type if the field ends with
them. -/
def field : Reader FieldDecl := do
  if ← takes "*" then embeddedAfter g true (← word)
  else
    let first ← word
    let generic : Reader FieldDecl := do
      let args ← typeArgs g
      if ← atFieldEnd then return .embedded false (.plain first.piece) args (← tag)
      else fail .other
    if ← atFieldEnd then embeddedAfter g false first
    else if ← sees "." then embeddedAfter g false first
    else if ← sees "[" then orElse generic (namedFields g first)
    else namedFields g first

/-- Items in braces with terminators between them. -/
def braced {α : Type} (item : Reader α) : Reader (List α) := do
  let _ ← symbol "\x7b"
  let rec items : Nat → Reader (List α)
    | 0 => return []
    | n + 1 => do
      let t ← peek
      if t.isSymbol "\x7d" then return []
      if t.kind == .finish then fail (.closing "\x7d")
      let found ← item
      if ← sees "\x7d" then return [found]
      terminator
      return found :: (← items n)
  let found ← items g.budget
  let _ ← closing "\x7d"
  return found

/-- An element of an interface. -/
def interfaceElem : Reader InterfaceElem := do
  let t ← peek
  let union : Reader InterfaceElem := do return .union (← terms g true)
  if t.kind == .word && !typeWords.contains t.text then
    let method : Reader InterfaceElem := do
      let name ← word
      if ← continues true "(" then return .method name.piece (← signature g true)
      else fail .other
    let c ← here
    if c.advance.next.isSymbol "(" && !c.advance.atLineBreak then method else union
  else union

/-! ## Types -/

/-- The type with a channel inside that `chan <- chan` writes: the arrow belongs to the inner
channel unless that has a direction of its own. -/
def sendOrReceive : TypeExpr → TypeExpr
  | .chan .both elem => .chan .both (.chan .recv elem)
  | inner => .chan .send inner

/-- A channel type. -/
def channel (lines : Bool) : Reader TypeExpr := do
  if ← takes "<-" then
    let _ ← keyword "chan"
    return .chan .recv (← g.type lines)
  else
    let _ ← keyword "chan"
    if ← takes "<-" then
      if ← seesWord "chan" then return sendOrReceive (← g.type lines)
      else return .chan .send (← g.type lines)
    else return .chan .both (← g.type lines)

/-- A type that starts with a bracket: a slice or an array. -/
def bracketed (lines : Bool) : Reader TypeExpr := do
  let _ ← symbol "["
  if ← takes "]" then return .slice (← g.type lines)
  else
    let length ← g.expr .brackets
    if !length.isValue then fail .other
    let _ ← closing "]"
    return .array length.shape.expr (← g.type lines)

/-- A type that starts with a word. -/
def wordType (lines : Bool) (first : Token) : Reader TypeExpr := do
  match first.text with
  | "struct" =>
    let _ ← take
    return .struct (← braced g (field g))
  | "interface" =>
    let _ ← take
    return .interface (← braced g (interfaceElem g))
  | "map" =>
    let _ ← take
    let _ ← symbol "["
    let key ← g.type false
    let _ ← closing "]"
    return .map key (← g.type lines)
  | "chan" => channel g lines
  | "func" =>
    let _ ← take
    return .func (← signature g lines)
  | _ => namedType g lines

/-- A type. -/
def typeRule (lines : Bool) : Reader TypeExpr := do
  let t ← peek
  if t.kind == .word then wordType g lines t
  else if t.isSymbol "*" then
    let _ ← take
    return .pointer (← g.type lines)
  else if t.isSymbol "(" then
    let _ ← take
    let inner ← g.type false
    let _ ← closing ")"
    return .group inner
  else if t.isSymbol "[" then bracketed g lines
  else if t.isSymbol "<-" then channel g lines
  else if t.isSymbol "~" then
    let _ ← take
    return .tilde (← g.type lines)
  else fail .type

/-- Type parameters in their brackets. A comma may follow the last. -/
def typeParams : Reader (List TypeParamDecl) := do
  let _ ← symbol "["
  let rec more : Nat → Reader (List TypeParamDecl)
    | 0 => return []
    | n + 1 => do
      let names ← commaSeparated false word g.budget
      let constraint ← terms g false
      let decl : TypeParamDecl := ⟨names.map Token.text, constraint⟩
      if ← takes "," then
        if ← sees "]" then return [decl]
        return decl :: (← more n)
      else return [decl]
  let found ← more g.budget
  let _ ← closing "]"
  return found

end GoSignatures.Grammar
