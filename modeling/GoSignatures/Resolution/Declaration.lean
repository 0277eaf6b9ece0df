import GoSignatures.Resolution.Entering
import GoSignatures.Resolution.Recursion

/-!
# Resolving the declarations of a file

First all names are collected. Then types are resolved in file order, each at its first use; after
them the types of variables and constants, the functions and the methods. Each step records its
definitions.

* `Env.resolveAll` — all declarations of a file
* `SourceFile.resolve` — what is known about a file, or its first error
-/

namespace GoSignatures

/-! ## Views on declarations -/

namespace SourceFile

/-- The type declarations of a file. -/
def typeSpecs (file : SourceFile) : List TypeSpec :=
  file.declarations.filterMap fun
    | .type spec => some spec
    | _ => none

/-- The declarations of variables and constants of a file. -/
def valueSpecs (file : SourceFile) : List ValueSpec :=
  file.declarations.filterMap fun
    | .value spec => some spec
    | _ => none

/-- The function declarations of a file. -/
def funcDecls (file : SourceFile) : List FuncDecl :=
  file.declarations.filterMap fun
    | .func decl => some decl
    | _ => none

/-- The method declarations of a file. -/
def methodDecls (file : SourceFile) : List MethodDecl :=
  file.declarations.filterMap fun
    | .method decl => some decl
    | _ => none

end SourceFile

/-- The definitions that a declaration of variables or constants makes. -/
def ValueSpec.definitions (spec : ValueSpec) : List Definition :=
  spec.names.map fun name =>
    let d : ValueDef := ⟨name.text, name.position⟩
    if spec.constant then .const d else .var d

namespace Env

variable (env : Env)

/-! ## Types -/

/-- Resolves a type declaration. A blank name is not entered, but its right-hand side must
resolve. -/
def resolveTypeSpec (spec : TypeSpec) : Resolve Unit := do
  let type ←
    if spec.name.text = "_" then spec.type.resolve env env.enter []
    else env.enter spec.name
  modify fun p => p.define (.type ⟨spec.name.text, type, spec.isAlias, spec.name.position⟩)

/-- Ends because the declared type at `id` is recursive. -/
def failRecursive (id : Nat) : Resolve Unit := do
  let p ← get
  match p.entered.find? fun e => e.id == id with
  | some entered => env.fail entered.name.position (.invalidRecursiveType (p.table.name id))
  | none => env.fail Position.start (.invalidRecursiveType (p.table.name id))

/-- Gives every type that is defined as another type its underlying type. -/
def settlePending : Resolve Unit := do
  let p ← get
  match p.table.settle p.pending with
  | .ok table => set { p with table, pending := [] }
  | .error id => env.failRecursive id

/-- Ends if a declared type contains itself by value. -/
def checkContainment : Resolve Unit := do
  let p ← get
  match p.entered.find? fun e => p.table.containsItself e.id with
  | some entered => env.failRecursive entered.id
  | none => return ()

/-! ## Functions and methods -/

/-- Resolves a function declaration. -/
def resolveFunc (decl : FuncDecl) : Resolve Unit := do
  let names := TypeParamDecl.allNames decl.typeParams
  let params ← TypeParamDecl.resolveAll env env.enter names decl.typeParams
  let sig ← decl.signature.resolve env env.enter names
  modify fun p =>
    p.define (.func ⟨decl.name.text, { sig with typeParams := params }, decl.name.position, .package⟩)

/-- Ends unless the base of a receiver is a type that the file declares. -/
def checkReceiverBase (base : Piece) : Resolve Unit :=
  match env.scope.lookup base.text with
  | some (.type _) => return ()
  | some _ => env.fail base.position (.notAType base.text)
  | none => env.fail base.position (.undefinedType base.text)

/-- Resolves a method declaration and tells the base of its receiver. -/
def resolveMethod (decl : MethodDecl) : Resolve String := do
  match decl.receiver with
  | none => env.fail decl.receiverList.position (.notAType decl.receiverList.text)
  | some receiver =>
    env.checkReceiverBase receiver.base
    let type ← receiver.type.resolve env env.enter receiver.typeParams
    let sig ← decl.signature.resolve env env.enter receiver.typeParams
    let sig := { sig with receiver := some ⟨receiver.name, type⟩ }
    modify fun p => p.define (.func ⟨decl.name.text, sig, decl.name.position, .package⟩)
    return receiver.base.text

/-- Resolves method declarations. A receiver may have one method of a name; blank names do not
count. The methods so far are `seen`. -/
def resolveMethods (seen : List (String × String)) : List MethodDecl → Resolve Unit
  | [] => return ()
  | decl :: decls => do
    let base ← env.resolveMethod decl
    if decl.name.text = "_" then resolveMethods seen decls
    else if seen.contains (base, decl.name.text) then
      env.fail decl.name.position (.duplicateMethod base decl.name.text)
    else resolveMethods ((base, decl.name.text) :: seen) decls

/-! ## The whole file -/

/-- Resolves all declarations of a file. -/
def resolveAll (file : SourceFile) : Resolve Unit := do
  file.typeSpecs.forM env.resolveTypeSpec
  env.settlePending
  env.checkContainment
  file.valueSpecs.forM fun spec => do
    if let some type := spec.type then
      let _ ← type.resolve env env.enter []
  modify fun p =>
    { p with definitions := p.definitions ++ file.valueSpecs.flatMap ValueSpec.definitions }
  file.funcDecls.forM env.resolveFunc
  env.resolveMethods [] file.methodDecls

end Env

/-- What is known about a file, or the first error in its declarations. -/
def SourceFile.resolve (file : SourceFile) (config : Config) : Except ResolveError ResolvedFile := do
  let scope ← FileScope.ofDeclarations file.path file.declarations
  let env : Env := ⟨file.path, file.packageName, config, scope⟩
  let (_, progress) ← (env.resolveAll file).run {}
  return ⟨file.path, file.packageName, progress.definitions, progress.table⟩

end GoSignatures
