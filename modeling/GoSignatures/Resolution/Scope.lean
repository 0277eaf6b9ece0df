import GoSignatures.Error
import GoSignatures.Scope.Imports
import GoSignatures.Source.Tree
import GoSignatures.Text.StringLiteral

/-!
# The scope of a file

All names that the declarations of a file introduce, entered in file order before any type is
resolved. A name may be declared once; blank names and the functions called `init` introduce
nothing.

* `FileScope.declare` — enters one name
* `FileScope.ofDeclarations` — the scope of a file, or the first name that is declared twice
-/

namespace GoSignatures

/-- An error at a place in the file at `path`. -/
def ResolveError.at (path : String) (position : Position) (cause : ResolveCause) : ResolveError :=
  ⟨path, position.line, position.column, cause⟩

/-- What a name of the file scope stands for. -/
inductive ScopeEntry where
  | type (spec : TypeSpec)
  | func
  | var
  /-- A constant and the value at its place in the declaration, if there is one. -/
  | const (value : Option Expr)

/-- The scope of a file: its imports and the names that it declares. -/
structure FileScope where
  imports : Imports
  /-- The declared names, each once. -/
  entries : List (String × ScopeEntry)

namespace FileScope

/-- The scope of a file without declarations. -/
def empty : FileScope := ⟨.empty, []⟩

/-- What a name stands for. -/
def lookup (scope : FileScope) (name : String) : Option ScopeEntry :=
  scope.entries.lookup name

/-- Whether a declaration introduces no name. -/
def introducesNothing (name : String) : ScopeEntry → Bool
  | .func => name == "_" || name == "init"
  | _ => name == "_"

/-- The scope with a name entered. -/
def declare (path : String) (scope : FileScope) (name : Piece) (entry : ScopeEntry) :
    Except ResolveError FileScope :=
  if introducesNothing name.text entry then .ok scope
  else
    match scope.lookup name.text with
    | some _ => .error (.at path name.position (.redeclared name.text))
    | none => .ok { scope with entries := scope.entries ++ [(name.text, entry)] }

/-- The scope with constants entered. Names and values correspond by their places. -/
def declareConstants (path : String) :
    FileScope → List Piece → List Expr → Except ResolveError FileScope
  | scope, [], _ => .ok scope
  | scope, name :: names, values => do
    let scope ← scope.declare path name (.const values.head?)
    declareConstants path scope names values.tail

/-- The scope with an import entered. -/
def addImport (path : String) (scope : FileScope) (spec : ImportSpec) :
    Except ResolveError FileScope :=
  let imported := Text.StringLiteral.unquote spec.path
  match scope.imports.add spec.givenName imported spec.position with
  | (.duplicate, _) =>
    .error (.at path spec.position (.redeclared (Imports.effectiveName spec.givenName imported)))
  | (_, imports) => .ok { scope with imports }

/-- The scope with everything entered that a declaration introduces. Methods belong to their
receivers. -/
def add (path : String) (scope : FileScope) : Declaration → Except ResolveError FileScope
  | .imported spec => scope.addImport path spec
  | .type spec => scope.declare path spec.name (.type spec)
  | .value spec =>
    if spec.constant then declareConstants path scope spec.names spec.values
    else spec.names.foldlM (fun scope name => scope.declare path name .var) scope
  | .func decl => scope.declare path decl.name .func
  | .method _ => .ok scope

/-- The scope of a file. -/
def ofDeclarations (path : String) (declarations : List Declaration) :
    Except ResolveError FileScope :=
  declarations.foldlM (fun scope declaration => scope.add path declaration) empty

end FileScope

end GoSignatures
