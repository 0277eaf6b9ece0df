import GoSignatures.Error
import GoSignatures.Source.Grammar.Statement

/-!
# Reading source files

A file is a sequence of declarations and statements with terminators between them. The package
clause may stand anywhere, and the first one names the package.

* `SourceFile.read` — the file that a text makes up, or why it makes up none
* `SourceFile.ofBytes` — the same for a text in UTF-8
-/

namespace GoSignatures

open Reader

/-- What is found at file level. -/
inductive FileItem where
  | package (name : String)
  | declarations (found : List Declaration)

namespace FileItem

variable (g : Grammar)

/-- An item that starts with `func`: a function, a method, or a statement that calls a function
literal. -/
def funcItem : Reader FileItem := do
  let c ← here
  let inside := c.advance
  if inside.next.kind == .word then
    let _ ← take
    return .declarations (← g.funcDecl)
  else if g.declaresMethod inside then
    let _ ← take
    return .declarations (← g.methodDecl)
  else
    g.statementRule
    return .declarations []

/-- A declaration or statement at file level. -/
def reader : Reader FileItem := do
  let t ← peek
  if t.isWord "package" then
    let _ ← take
    return .package (← word).text
  else if t.isWord "import" then return .declarations (← g.importDecl)
  else if t.isWord "func" then funcItem g
  else if t.kind == .word && Grammar.declarationWords.contains t.text then
    return .declarations (← g.declaration)
  else
    g.statementRule
    return .declarations []

/-- The items up to the end of the text, after those already found, which come last first. -/
def readAll : List FileItem → Nat → Reader (List FileItem)
  | found, 0 => return found.reverse
  | found, n + 1 => do
    if (← peek).kind == .finish then return found.reverse
    let item ← reader g
    terminator
    readAll (item :: found) n

/-- All items of a text. The first may not be an empty statement. -/
def readFile : Reader (List FileItem) := do
  if ← sees ";" then fail .other
  readAll g [] g.budget

/-- The package that an item names. -/
def package? : FileItem → Option String
  | package name => some name
  | declarations _ => none

/-- The declarations of an item. -/
def declared : FileItem → List Declaration
  | package _ => []
  | declarations found => found

end FileItem

namespace SourceFile

/-- The items of a text. -/
def items (text : String) : Except Failure (List FileItem) := do
  let tokens := Token.list text
  let (found, _) ← FileItem.readFile (Grammar.ofBudget tokens.length) (Cursor.ofTokens tokens)
  return found

/-- The file that a text makes up. -/
def read (path text : String) : Except ParseError SourceFile :=
  match items text with
  | .error failure =>
    let (place, detail) := failure.describe
    .error (.malformed path place.line place.column detail)
  | .ok found =>
    match found.findSome? FileItem.package? with
    | some name => .ok ⟨path, name, found.flatMap FileItem.declared⟩
    | none => .error (.missingPackageClause path)

/-- The file that a text in UTF-8 makes up. -/
def ofBytes (path : String) (bytes : ByteArray) : Except ParseError SourceFile :=
  match String.fromUTF8? bytes with
  | some text => read path text
  | none => .error (.invalidEncoding path)

end SourceFile

end GoSignatures
