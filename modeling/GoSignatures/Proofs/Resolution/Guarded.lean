import GoSignatures.Proofs.Resolution.Declarations
import GoSignatures.Proofs.Ty.References

/-!
# Resolving under guard

Looking up a place that a table does not have gives nothing, and a recursion that reaches its bound
gives up, both without a trace. Here a file is resolved once more with a guard in front of every
lookup and at every bound: where a place is missing or a bound is reached, the run ends with an
error `broken` of its own. The bounds are also raised, by any number `more`. If such a run always
ends as the run without guards does, whatever `broken` is, then no guard ever strikes: every place
that is looked up exists, and each recursion ends by itself.

* `Resolve.guardPlace`, `Resolve.guardTypes` — the guards in front of lookups
* `TypeExpr.resolveGuarded`, `Env.enterTypeGuarded` — type expressions and declared names
* `Table.settleGuarded`, `Table.containsItselfGuarded` — types defined as others, and containment
* `SourceFile.resolveGuarded` — the whole file
-/

namespace GoSignatures

/-! ## Guards -/

/-- Ends with `broken` unless the progress satisfies a test. -/
def Resolve.guard (broken : ResolveError) (test : Progress → Bool) : Resolve Unit := do
  unless test (← get) do throw broken

/-- Ends with `broken` unless the table has the place. -/
def Resolve.guardPlace (broken : ResolveError) (id : Nat) : Resolve Unit :=
  Resolve.guard broken fun p => decide (id < p.table.size)

/-- Ends with `broken` unless the table has all places to which the types refer. -/
def Resolve.guardTypes (broken : ResolveError) (types : List Ty) : Resolve Unit :=
  Resolve.guard broken fun p =>
    (Ty.allReferences types).all fun r => decide (r.1 < p.table.size)

open Resolve

/-! ## Names -/

section

variable (broken : ResolveError) (env : Env) (enter : EnterType) (params : List String)

/-- What a name without type arguments means. The number of its type parameters is looked up. -/
def Ty.ofBareNameGuarded (name : Piece) : Resolve Ty := do
  let type ← Ty.ofName env enter params name
  match type with
  | .named id args =>
    guardPlace broken id
    let expected := ((← get).table.typeParams id).length
    if args.isEmpty && expected > 0 then
      env.fail name.position (.typeArgumentCount name.text expected 0)
    else return type
  | _ => return type

/-- What a name with type arguments means. The number of its type parameters is looked up. -/
def Ty.ofGenericNameGuarded (name : Piece) (args : List Ty) : Resolve Ty := do
  let type ← Ty.ofName env enter params name
  match type with
  | .named id [] =>
    guardPlace broken id
    let expected := ((← get).table.typeParams id).length
    if expected = args.length then return .named id args
    else env.fail name.position (.typeArgumentCount name.text expected args.length)
  | _ =>
    if env.scope.isAlias name.text then return type
    else env.fail name.position (.typeArgumentCount name.text 0 args.length)

/-- What a qualified name means. The names of its type arguments are looked up. -/
def Ty.ofQualifiedNameGuarded (package name : Piece) (args : List Ty) : Resolve Ty := do
  match env.scope.imports.lookup package.text with
  | some entry =>
    guardTypes broken args
    return (env.importedType entry.path name.text).withArguments (← get).table args
  | none => env.fail package.position (.undefinedPackage package.text)

/-- What a name with its type arguments means. -/
def TypeName.resolveGuarded (args : List Ty) : TypeName → Resolve Ty
  | plain name =>
    if args.isEmpty then Ty.ofBareNameGuarded broken env enter params name
    else Ty.ofGenericNameGuarded broken env enter params name args
  | qualified package name => Ty.ofQualifiedNameGuarded broken env package name args

/-! ## Type expressions -/

mutual

/-- What a type expression means. -/
def TypeExpr.resolveGuarded : TypeExpr → Resolve Ty
  | .named name args => do
    name.resolveGuarded broken env enter params (← TypeArg.resolveAllGuarded args)
  | .pointer elem => return .pointer (← elem.resolveGuarded)
  | .slice elem => return .slice (← elem.resolveGuarded)
  | .array length elem => return .array (length.arrayLen env.scope) (← elem.resolveGuarded)
  | .map key value => return .map (← key.resolveGuarded) (← value.resolveGuarded)
  | .chan dir elem => return .chan dir (← elem.resolveGuarded)
  | .func sig => return .func (← sig.resolveGuarded)
  | .struct fields => return .struct (← FieldDecl.resolveAllGuarded fields)
  | .interface elems => do
    let found ← InterfaceElem.resolveAllGuarded elems
    return .interface (.ofElems (found.filterMap Sum.getLeft?) (found.filterMap Sum.getRight?))
  | .group inner => inner.resolveGuarded
  | .tilde inner => return .union [⟨true, ← inner.resolveGuarded⟩]

/-- What the terms of a union mean. -/
def TypeExpr.resolveTermsGuarded : List TypeExpr → Resolve (List Term)
  | [] => return []
  | .tilde inner :: terms =>
    return ⟨true, ← inner.resolveGuarded⟩ :: (← TypeExpr.resolveTermsGuarded terms)
  | term :: terms =>
    return ⟨false, ← term.resolveGuarded⟩ :: (← TypeExpr.resolveTermsGuarded terms)

/-- What type arguments mean. -/
def TypeArg.resolveAllGuarded : List TypeArg → Resolve (List Ty)
  | [] => return []
  | ⟨_, terms⟩ :: args =>
    return .ofTerms (← TypeExpr.resolveTermsGuarded terms) :: (← TypeArg.resolveAllGuarded args)

/-- What parameters and results mean. -/
def SignatureExpr.resolveGuarded : SignatureExpr → Resolve Signature
  | ⟨paramDecls, results⟩ => do
    let vars ← ParamDecl.resolveAllGuarded paramDecls
    return ⟨none, [], vars, ← results.resolveGuarded, paramDecls.any ParamDecl.variadic⟩

/-- What results mean. -/
def ResultExpr.resolveGuarded : ResultExpr → Resolve (List Var)
  | .list results => ParamDecl.resolveAllGuarded results
  | .single type => return [⟨"", ← type.resolveGuarded⟩]

/-- What the declarations of a parameter list mean. -/
def ParamDecl.resolveAllGuarded : List ParamDecl → Resolve (List Var)
  | [] => return []
  | ⟨names, type, variadic⟩ :: decls => do
    let type ← type.resolveGuarded
    return Var.ofNames names (if variadic then .slice type else type) ++
      (← ParamDecl.resolveAllGuarded decls)

/-- What the declarations of fields mean. -/
def FieldDecl.resolveAllGuarded : List FieldDecl → Resolve (List Field)
  | [] => return []
  | .named names type tag :: decls => do
    let type ← type.resolveGuarded
    return Field.ofNames names type (tag.map Text.StringLiteral.unquote) ++
      (← FieldDecl.resolveAllGuarded decls)
  | .embedded pointer name args tag :: decls => do
    let type ← name.resolveGuarded broken env enter params (← TypeArg.resolveAllGuarded args)
    return ⟨name.unqualified, if pointer then .pointer type else type, true,
      tag.map Text.StringLiteral.unquote⟩ :: (← FieldDecl.resolveAllGuarded decls)

/-- What the elements of an interface mean. -/
def InterfaceElem.resolveAllGuarded : List InterfaceElem → Resolve (List ResolvedElem)
  | [] => return []
  | .method name sig :: elems => do
    let sig ← sig.resolveGuarded
    modify fun p => p.define (.func ⟨name.text, sig, name.position, .interface⟩)
    return .inl ⟨name.text, sig⟩ :: (← InterfaceElem.resolveAllGuarded elems)
  | .union terms :: elems =>
    return .inr (.ofTerms (← TypeExpr.resolveTermsGuarded terms)) ::
      (← InterfaceElem.resolveAllGuarded elems)

end

/-- What declarations of type parameters mean. -/
def TypeParamDecl.resolveAllGuarded : List TypeParamDecl → Resolve (List TypeParam)
  | [] => return []
  | ⟨names, constraint⟩ :: decls => do
    let constraint :=
      Ty.ofTerms (← TypeExpr.resolveTermsGuarded broken env enter params constraint)
    return names.map (⟨·, constraint⟩) ++ (← resolveAllGuarded decls)

end

/-! ## Declared names -/

section

variable (broken : ResolveError) (env : Env)

/-- Sets the type parameters of the defined type at `id`, whose entry is changed. -/
def TypeSpec.resolveParamsGuarded (enter : EnterType) (id : Nat) (spec : TypeSpec) :
    Resolve Unit :=
  unless spec.typeParams.isEmpty do
    let params ← TypeParamDecl.resolveAllGuarded broken env enter
      (TypeParamDecl.allNames spec.typeParams) spec.typeParams
    guardPlace broken id
    modify fun p => { p with table := p.table.setTypeParams id params }

/-- Resolves the declaration of the defined type at `id`. Its entry is changed, and those of the
types to which the right-hand side refers are looked up. -/
def TypeSpec.resolveDefinedGuarded (enter : EnterType) (id : Nat) (spec : TypeSpec) :
    Resolve Unit := do
  spec.resolveParamsGuarded broken env enter id
  let type ← spec.type.resolveGuarded broken env enter (TypeParamDecl.allNames spec.typeParams)
  guardTypes broken [type]
  guardPlace broken id
  modify fun p => p.finish id type

/-- What a declared name, used at a place, means. The run is broken where more than `depth`
declarations nest. -/
def Env.enterTypeGuarded : (depth : Nat) → (resolving : List String) → EnterType
  | 0, _, _ => throw broken
  | depth + 1, resolving, name =>
    match env.scope.lookup name.text with
    | some (.type spec) => do
      if spec.isAlias then
        match (← get).aliases.lookup name.text with
        | some type => return type
        | none =>
          if resolving.contains name.text then
            env.fail name.position (.invalidRecursiveType name.text)
          else
            let type ← spec.type.resolveGuarded broken env
              (enterTypeGuarded depth (name.text :: resolving)) []
            modify fun p => { p with aliases := p.aliases ++ [(name.text, type)] }
            return type
      else
        match (← get).enteredType? name.text with
        | some entered => return .named entered.id []
        | none =>
          let id := (← get).table.size
          modify fun p => p.enter spec.name env.packageName
          spec.resolveDefinedGuarded broken env (enterTypeGuarded depth []) id
          return .named id []
    | _ => env.fail name.position (.notAType name.text)

end

/-! ## Types defined as other types -/

section

variable (broken : ResolveError)

/-- One round over the types that wait for their targets. -/
def Table.settleRoundGuarded (t : Table) :
    List (Nat × Nat) → Except ResolveError (Table × List (Nat × Nat))
  | [] => .ok (t, [])
  | (id, target) :: waiting =>
    if target < t.size then
      match t.underlying? target with
      | some type =>
        if id < t.size then (t.setUnderlying id type).settleRoundGuarded waiting
        else .error broken
      | none => do
        let (t, remaining) ← t.settleRoundGuarded waiting
        return (t, (id, target) :: remaining)
    else .error broken

/-- Rounds until no type waits or a round settles none; then the first that waits is told. The run
is broken after too many rounds. -/
def Table.settleGuarded :
    (rounds : Nat) → Table → List (Nat × Nat) → Except ResolveError (Except Nat Table)
  | _, t, [] => .ok (.ok t)
  | 0, _, _ :: _ => .error broken
  | rounds + 1, t, waiting => do
    let (t, remaining) ← t.settleRoundGuarded broken waiting
    if remaining.length = waiting.length then
      match remaining.head? with
      | some (id, _) => .ok (.error id)
      | none => .error broken
    else settleGuarded rounds t remaining

/-! ## Containment by value -/

namespace ByValue

/-- Looks into a declared type, or is broken. -/
abbrev VisitGuarded := Nat → List Ty → List Nat → Except ResolveError (Bool × List Nat)

mutual

/-- Whether a value of a type contains a value of the declared type at `target`. -/
def inTypeGuarded (target : Nat) (visit : VisitGuarded) :
    Ty → List Nat → Except ResolveError (Bool × List Nat)
  | .named id args, visited =>
    if id = target then .ok (true, visited)
    else if visited.contains id then .ok (false, visited)
    else visit id args (id :: visited)
  | .array _ elem, visited => inTypeGuarded target visit elem visited
  | .struct fields, visited => inFieldsGuarded target visit fields visited
  | _, visited => .ok (false, visited)

/-- The same for the fields of a struct, up to the first that contains the target. -/
def inFieldsGuarded (target : Nat) (visit : VisitGuarded) :
    List Field → List Nat → Except ResolveError (Bool × List Nat)
  | [], visited => .ok (false, visited)
  | ⟨_, type, _, _⟩ :: fields, visited => do
    match ← inTypeGuarded target visit type visited with
    | (true, visited) => .ok (true, visited)
    | (false, visited) => inFieldsGuarded target visit fields visited

end

/-- Looks into a declared type, whose entry is looked up. -/
def inNamedGuarded (t : Table) (target : Nat) : Nat → VisitGuarded
  | 0, _, _, _ => .error broken
  | depth + 1, id, args, visited =>
    if id < t.size then
      inTypeGuarded target (inNamedGuarded t target depth) (t.underlying (.named id args)) visited
    else .error broken

end ByValue

/-- Whether the declared type at `id` contains itself by value. -/
def Table.containsItselfGuarded (t : Table) (more id : Nat) : Except ResolveError Bool :=
  if id < t.size then do
    let (found, _) ← ByValue.inTypeGuarded id (ByValue.inNamedGuarded broken t id (t.size + more))
      (t.underlying (.named id [])) []
    return found
  else .error broken

/-- The first entered type that contains itself by value. -/
def Table.findRecursiveGuarded (t : Table) (more : Nat) :
    List EnteredType → Except ResolveError (Option EnteredType)
  | [] => .ok none
  | e :: entered => do
    if ← t.containsItselfGuarded broken more e.id then return some e
    else t.findRecursiveGuarded more entered

end

/-! ## The whole file -/

namespace Env

variable (broken : ResolveError) (more : Nat) (env : Env)

/-- What a declared name means where no declaration is in progress. -/
def enterGuarded : EnterType :=
  env.enterTypeGuarded broken (env.scope.nesting + more) []

/-- Resolves a type declaration. -/
def resolveTypeSpecGuarded (spec : TypeSpec) : Resolve Unit := do
  let type ←
    if spec.name.text = "_" then
      spec.type.resolveGuarded broken env (env.enterGuarded broken more) []
    else env.enterGuarded broken more spec.name
  modify fun p => p.define (.type ⟨spec.name.text, type, spec.isAlias, spec.name.position⟩)

/-- Ends because the declared type at `id` is recursive. Its name is looked up. -/
def failRecursiveGuarded (id : Nat) : Resolve Unit := do
  guardPlace broken id
  env.failRecursive id

/-- Gives every type that is defined as another type its underlying type. -/
def settlePendingGuarded : Resolve Unit := do
  let p ← get
  match Table.settleGuarded broken (p.pending.length + more) p.table p.pending with
  | .ok (.ok table) => set { p with table, pending := [] }
  | .ok (.error id) => env.failRecursiveGuarded broken id
  | .error e => throw e

/-- Ends if a declared type contains itself by value. -/
def checkContainmentGuarded : Resolve Unit := do
  let p ← get
  match p.table.findRecursiveGuarded broken more p.entered with
  | .ok (some entered) => env.failRecursiveGuarded broken entered.id
  | .ok none => return ()
  | .error e => throw e

/-- Resolves the type that a declaration of variables or constants gives. -/
def resolveValueGuarded (spec : ValueSpec) : Resolve Unit := do
  if let some type := spec.type then
    let _ ← type.resolveGuarded broken env (env.enterGuarded broken more) []

/-- Resolves a function declaration. -/
def resolveFuncGuarded (decl : FuncDecl) : Resolve Unit := do
  let names := TypeParamDecl.allNames decl.typeParams
  let params ← TypeParamDecl.resolveAllGuarded broken env (env.enterGuarded broken more) names
    decl.typeParams
  let sig ← decl.signature.resolveGuarded broken env (env.enterGuarded broken more) names
  modify fun p => p.define
    (.func ⟨decl.name.text, { sig with typeParams := params }, decl.name.position, .package⟩)

/-- Resolves a method declaration and tells the base of its receiver. -/
def resolveMethodGuarded (decl : MethodDecl) : Resolve String := do
  match decl.receiver with
  | none => env.fail decl.receiverList.position (.notAType decl.receiverList.text)
  | some receiver =>
    env.checkReceiverBase receiver.base
    let type ← receiver.type.resolveGuarded broken env (env.enterGuarded broken more)
      receiver.typeParams
    let sig ← decl.signature.resolveGuarded broken env (env.enterGuarded broken more)
      receiver.typeParams
    let sig := { sig with receiver := some ⟨receiver.name, type⟩ }
    modify fun p => p.define (.func ⟨decl.name.text, sig, decl.name.position, .package⟩)
    return receiver.base.text

/-- Resolves method declarations. The methods so far are `seen`. -/
def resolveMethodsGuarded (seen : List (String × String)) : List MethodDecl → Resolve Unit
  | [] => return ()
  | decl :: decls => do
    let base ← env.resolveMethodGuarded broken more decl
    if decl.name.text = "_" then resolveMethodsGuarded seen decls
    else if seen.contains (base, decl.name.text) then
      env.fail decl.name.position (.duplicateMethod base decl.name.text)
    else resolveMethodsGuarded ((base, decl.name.text) :: seen) decls

/-- Resolves the declarations of a file that are not types. -/
def resolveOthersGuarded (file : SourceFile) : Resolve Unit := do
  file.valueSpecs.forM (env.resolveValueGuarded broken more)
  modify fun p =>
    { p with definitions := p.definitions ++ file.valueSpecs.flatMap ValueSpec.definitions }
  file.funcDecls.forM (env.resolveFuncGuarded broken more)
  env.resolveMethodsGuarded broken more [] file.methodDecls

/-- Resolves all declarations of a file. -/
def resolveAllGuarded (file : SourceFile) : Resolve Unit := do
  file.typeSpecs.forM (env.resolveTypeSpecGuarded broken more)
  env.settlePendingGuarded broken more
  env.checkContainmentGuarded broken more
  env.resolveOthersGuarded broken more file

end Env

/-- What is known about a file, or the first error in its declarations, or `broken` where a place is
missing or a bound is reached. -/
def SourceFile.resolveGuarded (broken : ResolveError) (more : Nat) (file : SourceFile)
    (config : Config) : Except ResolveError ResolvedFile := do
  let scope ← FileScope.ofDeclarations file.path file.declarations
  let env : Env := ⟨file.path, file.packageName, config, scope⟩
  let (_, progress) ← (env.resolveAllGuarded broken more file).run {}
  return ⟨file.path, file.packageName, progress.definitions, progress.table⟩

end GoSignatures
