import GoSignatures.Resolution.Declaration

/-!
# Resolving with a memory

What a type expression means depends on the type parameters in force and on the other names for
types that are being resolved. Elsewhere these are handed down. Here a file is resolved once more
with a memory that holds them beside all that was found: each function saves what it is going to
change, and puts it back by hand. The memory outlasts an error. Another name for a type that was
resolved on the way is remembered anew, and what was remembered before is then out of sight. The
memory also takes down which places of the table have received an underlying type.

* `Memory`, `Remember` — the memory and steps with it
* `TypeExpr.resolveIn`, `TypeParamDecl.resolveAllIn` — type expressions and type parameters
* `Env.enterTypeIn` — declared names
* `Env.resolveAllIn` — all declarations of a file
* `SourceFile.resolveIn` — what is known about a file
-/

namespace GoSignatures

/-! ## Memory -/

/-- All that is remembered while a file is resolved: what was found, the other names for types with
the latest first, and the context in which a type expression is resolved. -/
structure Memory extends Progress where
  /-- The type parameters in force. -/
  params : List String := []
  /-- The other names for types that are being resolved. -/
  resolving : List String := []
  /-- The places that have received an underlying type, one after another. -/
  assigned : List Nat := []

/-- A step that changes the memory, also where it ends with an error. -/
abbrev Remember := EStateM ResolveError Memory

namespace Remember

variable {α β : Type}

/-- Runs a step and hands its outcome over, so that more is done before an error is passed on. -/
def capture (x : Remember α) : Remember (Except ResolveError α) := fun m =>
  match x m with
  | .ok a m => .ok (.ok a) m
  | .error e m => .ok (.error e) m

/-- Passes an outcome on. -/
def pass : Except ResolveError α → Remember α
  | .ok a => return a
  | .error e => throw e

/-- Changes what was found. -/
def update (change : Progress → Progress) : Remember Unit :=
  modify fun m => { m with toProgress := change m.toProgress }

/-- Sets the underlying type of the entry at `id`. -/
def assign (id : Nat) (type : Ty) : Remember Unit :=
  modify fun m => { m with
    table := m.table.setUnderlying id type
    assigned := m.assigned ++ [id] }

/-- Makes the type at `id` wait for the underlying type of `target`. -/
def wait (id target : Nat) : Remember Unit :=
  update fun p => { p with pending := p.pending ++ [(id, target)] }

/-! ## Running steps -/

/-- The memory at the end of a step. -/
def memory : EStateM.Result ResolveError Memory α → Memory
  | .ok _ m => m
  | .error _ m => m

/-- How a step ends. -/
def outcome : EStateM.Result ResolveError Memory α → Except ResolveError α
  | .ok a _ => .ok a
  | .error e _ => .error e

theorem get_bind (f : Memory → Remember β) (m : Memory) : (get >>= f) m = f m m := rfl

theorem modify_bind (g : Memory → Memory) (f : Unit → Remember β) (m : Memory) :
    (modify g >>= f) m = f () (g m) := rfl

theorem update_bind (g : Progress → Progress) (f : Unit → Remember β) (m : Memory) :
    (update g >>= f) m = f () { m with toProgress := g m.toProgress } := rfl

theorem capture_bind (x : Remember α) (f : Except ResolveError α → Remember β) (m : Memory) :
    (capture x >>= f) m = f (outcome (x m)) (memory (x m)) := by
  show EStateM.bind (capture x) f m = _
  unfold EStateM.bind capture
  cases x m <;> rfl

theorem bind_of_ok {x : Remember α} {m m' : Memory} {a : α} (h : x m = .ok a m')
    (f : α → Remember β) : (x >>= f) m = f a m' := by
  show EStateM.bind x f m = _
  rw [EStateM.bind, h]

theorem memory_pass (result : Except ResolveError α) (m : Memory) :
    memory (pass result m) = m := by
  cases result <;> rfl

end Remember

/-- Ends with an error at a place of the file. -/
def Env.failIn {α : Type} (env : Env) (position : Position) (cause : ResolveCause) : Remember α :=
  throw (env.errorAt position cause)

/-- Tells what a declared name of a type, used at a place, means. -/
abbrev EnterTypeIn := Piece → Remember Ty

open Remember

/-! ## Names -/

section

variable (env : Env) (enter : EnterTypeIn)

/-- What a name means that the file does not declare. -/
def Ty.ofUndeclaredNameIn (name : Piece) : Remember Ty :=
  match Universe.type? name.text with
  | some type => return type
  | none =>
    if Universe.isValue name.text || (env.scope.imports.lookup name.text).isSome then
      env.failIn name.position (.notAType name.text)
    else
      match env.scope.imports.dotImport? with
      | some path => return env.importedType path name.text
      | none => env.failIn name.position (.undefinedType name.text)

/-- What an unqualified name means. -/
def Ty.ofNameIn (name : Piece) : Remember Ty := do
  if (← get).params.contains name.text then return .param name.text
  else
    match env.scope.lookup name.text with
    | some (.type _) => enter name
    | some _ => env.failIn name.position (.notAType name.text)
    | none => Ty.ofUndeclaredNameIn env name

/-- What a name without type arguments means. -/
def Ty.ofBareNameIn (name : Piece) : Remember Ty := do
  let type ← Ty.ofNameIn env enter name
  match type with
  | .named id args =>
    let expected := ((← get).table.typeParams id).length
    if args.isEmpty && expected > 0 then
      env.failIn name.position (.typeArgumentCount name.text expected 0)
    else return type
  | _ => return type

/-- What a name with type arguments means. -/
def Ty.ofGenericNameIn (name : Piece) (args : List Ty) : Remember Ty := do
  let type ← Ty.ofNameIn env enter name
  match type with
  | .named id [] =>
    let expected := ((← get).table.typeParams id).length
    if expected = args.length then return .named id args
    else env.failIn name.position (.typeArgumentCount name.text expected args.length)
  | _ =>
    if env.scope.isAlias name.text then return type
    else env.failIn name.position (.typeArgumentCount name.text 0 args.length)

/-- What a qualified name means. -/
def Ty.ofQualifiedNameIn (package name : Piece) (args : List Ty) : Remember Ty := do
  match env.scope.imports.lookup package.text with
  | some entry =>
    return (env.importedType entry.path name.text).withArguments (← get).table args
  | none => env.failIn package.position (.undefinedPackage package.text)

/-- What a name with its type arguments means. -/
def TypeName.resolveIn (args : List Ty) : TypeName → Remember Ty
  | plain name =>
    if args.isEmpty then Ty.ofBareNameIn env enter name
    else Ty.ofGenericNameIn env enter name args
  | qualified package name => Ty.ofQualifiedNameIn env package name args

/-! ## Type expressions -/

mutual

/-- What a type expression means. -/
def TypeExpr.resolveIn : TypeExpr → Remember Ty
  | .named name args => do name.resolveIn env enter (← TypeArg.resolveAllIn args)
  | .pointer elem => return .pointer (← elem.resolveIn)
  | .slice elem => return .slice (← elem.resolveIn)
  | .array length elem => return .array (length.arrayLen env.scope) (← elem.resolveIn)
  | .map key value => return .map (← key.resolveIn) (← value.resolveIn)
  | .chan dir elem => return .chan dir (← elem.resolveIn)
  | .func sig => return .func (← sig.resolveIn)
  | .struct fields => return .struct (← FieldDecl.resolveAllIn fields)
  | .interface elems => do
    let found ← InterfaceElem.resolveAllIn elems
    return .interface (.ofElems (found.filterMap Sum.getLeft?) (found.filterMap Sum.getRight?))
  | .group inner => inner.resolveIn
  | .tilde inner => return .union [⟨true, ← inner.resolveIn⟩]

/-- What the terms of a union mean. -/
def TypeExpr.resolveTermsIn : List TypeExpr → Remember (List Term)
  | [] => return []
  | .tilde inner :: terms => return ⟨true, ← inner.resolveIn⟩ :: (← TypeExpr.resolveTermsIn terms)
  | term :: terms => return ⟨false, ← term.resolveIn⟩ :: (← TypeExpr.resolveTermsIn terms)

/-- What type arguments mean. -/
def TypeArg.resolveAllIn : List TypeArg → Remember (List Ty)
  | [] => return []
  | ⟨_, terms⟩ :: args =>
    return .ofTerms (← TypeExpr.resolveTermsIn terms) :: (← TypeArg.resolveAllIn args)

/-- What parameters and results mean. -/
def SignatureExpr.resolveIn : SignatureExpr → Remember Signature
  | ⟨paramDecls, results⟩ => do
    let vars ← ParamDecl.resolveAllIn paramDecls
    return ⟨none, [], vars, ← results.resolveIn, paramDecls.any ParamDecl.variadic⟩

/-- What results mean. -/
def ResultExpr.resolveIn : ResultExpr → Remember (List Var)
  | .list results => ParamDecl.resolveAllIn results
  | .single type => return [⟨"", ← type.resolveIn⟩]

/-- What the declarations of a parameter list mean. -/
def ParamDecl.resolveAllIn : List ParamDecl → Remember (List Var)
  | [] => return []
  | ⟨names, type, variadic⟩ :: decls => do
    let type ← type.resolveIn
    return Var.ofNames names (if variadic then .slice type else type) ++
      (← ParamDecl.resolveAllIn decls)

/-- What the declarations of fields mean. -/
def FieldDecl.resolveAllIn : List FieldDecl → Remember (List Field)
  | [] => return []
  | .named names type tag :: decls => do
    let type ← type.resolveIn
    return Field.ofNames names type (tag.map Text.StringLiteral.unquote) ++
      (← FieldDecl.resolveAllIn decls)
  | .embedded pointer name args tag :: decls => do
    let type ← name.resolveIn env enter (← TypeArg.resolveAllIn args)
    return ⟨name.unqualified, if pointer then .pointer type else type, true,
      tag.map Text.StringLiteral.unquote⟩ :: (← FieldDecl.resolveAllIn decls)

/-- What the elements of an interface mean. -/
def InterfaceElem.resolveAllIn : List InterfaceElem → Remember (List ResolvedElem)
  | [] => return []
  | .method name sig :: elems => do
    let sig ← sig.resolveIn
    update fun p => p.define (.func ⟨name.text, sig, name.position, .interface⟩)
    return .inl ⟨name.text, sig⟩ :: (← InterfaceElem.resolveAllIn elems)
  | .union terms :: elems =>
    return .inr (.ofTerms (← TypeExpr.resolveTermsIn terms)) :: (← InterfaceElem.resolveAllIn elems)

end

/-- What the constraints in declarations of type parameters mean. -/
def TypeParamDecl.resolveConstraintsIn : List TypeParamDecl → Remember (List TypeParam)
  | [] => return []
  | ⟨names, constraint⟩ :: decls => do
    let constraint := Ty.ofTerms (← TypeExpr.resolveTermsIn env enter constraint)
    return names.map (⟨·, constraint⟩) ++ (← resolveConstraintsIn decls)

/-- What declarations of type parameters mean. Their names are in force from now on. -/
def TypeParamDecl.resolveAllIn (decls : List TypeParamDecl) : Remember (List TypeParam) := do
  modify fun m => { m with params := m.params ++ allNames decls }
  TypeParamDecl.resolveConstraintsIn env enter decls

end

/-! ## Declared names -/

section

variable (env : Env)

/-- Gives the defined type at `id` its underlying type, or makes it wait for one. -/
def Remember.finish (id : Nat) (type : Ty) : Remember Unit := do
  match type with
  | .named target _ =>
    match (← get).table.underlying? target with
    | none => wait id target
    | some _ => assign id ((← get).table.underlying type)
  | _ => assign id ((← get).table.underlying type)

/-- Sets the type parameters of the defined type at `id`, if it has any. -/
def TypeSpec.resolveParamsIn (enter : EnterTypeIn) (id : Nat) (spec : TypeSpec) :
    Remember Unit :=
  unless spec.typeParams.isEmpty do
    let params ← TypeParamDecl.resolveAllIn env enter spec.typeParams
    update fun p => { p with table := p.table.setTypeParams id params }

/-- Resolves the declaration of the defined type at `id`. -/
def TypeSpec.resolveDefinedIn (enter : EnterTypeIn) (id : Nat) (spec : TypeSpec) :
    Remember Unit := do
  spec.resolveParamsIn env enter id
  finish id (← spec.type.resolveIn env enter)

/-- Resolves the declaration of another name for a type, where no type parameters are in force. -/
def TypeSpec.resolveAliasIn (enter : EnterTypeIn) (spec : TypeSpec) (name : Piece) :
    Remember Ty := do
  match (← get).aliases.lookup name.text with
  | some type => return type
  | none =>
    if (← get).resolving.contains name.text then
      env.failIn name.position (.invalidRecursiveType name.text)
    else
      modify fun m => { m with resolving := name.text :: m.resolving }
      let params := (← get).params
      modify fun m => { m with params := [] }
      let outcome ← capture (spec.type.resolveIn env enter)
      modify fun m => { m with params := params }
      modify fun m => { m with resolving := m.resolving.erase name.text }
      let type ← pass outcome
      update fun p => { p with aliases := (name.text, type) :: p.aliases }
      return type

/-- Enters a defined type and resolves its declaration, where neither type parameters are in force
nor other names for types are being resolved. -/
def TypeSpec.enterDefinedIn (enter : EnterTypeIn) (spec : TypeSpec) : Remember Ty := do
  let id := (← get).table.size
  update fun p => p.enter spec.name env.packageName
  let params := (← get).params
  let resolving := (← get).resolving
  modify fun m => { m with params := [], resolving := [] }
  let outcome ← capture (spec.resolveDefinedIn env enter id)
  modify fun m => { m with params := params }
  modify fun m => { m with resolving := resolving }
  pass outcome
  return .named id []

/-- What a declared name, used at a place, means; at most `depth` declarations nest. -/
def Env.enterTypeIn : (depth : Nat) → EnterTypeIn
  | 0, name => env.failIn name.position (.invalidRecursiveType name.text)
  | depth + 1, name =>
    match env.scope.lookup name.text with
    | some (.type spec) => do
      if spec.isAlias then spec.resolveAliasIn env (enterTypeIn depth) name
      else
        match (← get).enteredType? name.text with
        | some entered => return .named entered.id []
        | none => spec.enterDefinedIn env (enterTypeIn depth)
    | _ => env.failIn name.position (.notAType name.text)

/-- What a declared name means, with as much nesting as a file can need. -/
def Env.enterIn : EnterTypeIn :=
  env.enterTypeIn env.scope.nesting

end

/-! ## The declarations of a file -/

/-- Runs a step with other type parameters in force, and puts those that were in force back however
it ends. -/
def Remember.withParams {α : Type} (names : List String) (x : Remember α) : Remember α := do
  let params := (← get).params
  modify fun m => { m with params := names }
  let outcome ← capture x
  modify fun m => { m with params := params }
  pass outcome

namespace Env

variable (env : Env)

/-- Resolves a type declaration. -/
def resolveTypeSpecIn (spec : TypeSpec) : Remember Unit := do
  let type ←
    if spec.name.text = "_" then withParams [] (spec.type.resolveIn env env.enterIn)
    else env.enterIn spec.name
  update fun p => p.define (.type ⟨spec.name.text, type, spec.isAlias, spec.name.position⟩)

/-- Ends because the declared type at `id` is recursive. -/
def failRecursiveIn (id : Nat) : Remember Unit := do
  let m ← get
  match m.entered.find? fun e => e.id == id with
  | some entered => env.failIn entered.name.position (.invalidRecursiveType (m.table.name id))
  | none => env.failIn Position.start (.invalidRecursiveType (m.table.name id))

/-- One round over types that wait. Those that cannot be settled wait again. -/
def settleRoundIn : List (Nat × Nat) → Remember Unit
  | [] => return ()
  | (id, target) :: waiting => do
    match (← get).table.underlying? target with
    | some type => assign id type
    | none => wait id target
    settleRoundIn waiting

/-- Rounds until no type waits or a round settles none; at most `rounds` of them. -/
def settleIn : (rounds : Nat) → Remember Unit
  | 0 => return ()
  | rounds + 1 => do
    let waiting := (← get).pending
    if waiting.isEmpty then return ()
    else
      update fun p => { p with pending := [] }
      settleRoundIn waiting
      match (← get).pending with
      | (id, target) :: remaining =>
        if ((id, target) :: remaining).length = waiting.length then env.failRecursiveIn id
        else settleIn rounds
      | [] => return ()

/-- Gives every type that is defined as another type its underlying type. Each round settles a type,
so there are no more rounds than types that wait. -/
def settlePendingIn : Remember Unit := do
  env.settleIn (← get).pending.length

/-- Ends if a declared type contains itself by value. -/
def checkContainmentIn : Remember Unit := do
  let m ← get
  match m.entered.find? fun e => m.table.containsItself e.id with
  | some entered => env.failRecursiveIn entered.id
  | none => return ()

/-- Resolves the type that a declaration of variables or constants gives. -/
def resolveValueIn (spec : ValueSpec) : Remember Unit := do
  if let some type := spec.type then
    let _ ← type.resolveIn env env.enterIn

/-- Resolves a function declaration. -/
def resolveFuncIn (decl : FuncDecl) : Remember Unit := do
  let sig ← withParams [] do
    let params ← TypeParamDecl.resolveAllIn env env.enterIn decl.typeParams
    let sig ← decl.signature.resolveIn env env.enterIn
    return { sig with typeParams := params }
  update fun p => p.define (.func ⟨decl.name.text, sig, decl.name.position, .package⟩)

/-- Ends unless the base of a receiver is a type that the file declares. -/
def checkReceiverBaseIn (base : Piece) : Remember Unit :=
  match env.scope.lookup base.text with
  | some (.type _) => return ()
  | some _ => env.failIn base.position (.notAType base.text)
  | none => env.failIn base.position (.undefinedType base.text)

/-- Resolves a method declaration and tells the base of its receiver. -/
def resolveMethodIn (decl : MethodDecl) : Remember String := do
  match decl.receiver with
  | none => env.failIn decl.receiverList.position (.notAType decl.receiverList.text)
  | some receiver =>
    let sig ← withParams receiver.typeParams do
      env.checkReceiverBaseIn receiver.base
      let type ← receiver.type.resolveIn env env.enterIn
      let sig ← decl.signature.resolveIn env env.enterIn
      return { sig with receiver := some ⟨receiver.name, type⟩ }
    update fun p => p.define (.func ⟨decl.name.text, sig, decl.name.position, .package⟩)
    return receiver.base.text

/-- Resolves method declarations. The methods so far are `seen`. -/
def resolveMethodsIn (seen : List (String × String)) : List MethodDecl → Remember Unit
  | [] => return ()
  | decl :: decls => do
    let base ← env.resolveMethodIn decl
    if decl.name.text = "_" then resolveMethodsIn seen decls
    else if seen.contains (base, decl.name.text) then
      env.failIn decl.name.position (.duplicateMethod base decl.name.text)
    else resolveMethodsIn ((base, decl.name.text) :: seen) decls

/-- Resolves the declarations of a file that are not types. -/
def resolveOthersIn (file : SourceFile) : Remember Unit := do
  file.valueSpecs.forM env.resolveValueIn
  update fun p =>
    { p with definitions := p.definitions ++ file.valueSpecs.flatMap ValueSpec.definitions }
  file.funcDecls.forM env.resolveFuncIn
  env.resolveMethodsIn [] file.methodDecls

/-- Resolves all declarations of a file. -/
def resolveAllIn (file : SourceFile) : Remember Unit := do
  file.typeSpecs.forM env.resolveTypeSpecIn
  env.settlePendingIn
  env.checkContainmentIn
  env.resolveOthersIn file

end Env

/-- What is known about a file, or the first error in its declarations. -/
def SourceFile.resolveIn (file : SourceFile) (config : Config) :
    Except ResolveError ResolvedFile := do
  let scope ← FileScope.ofDeclarations file.path file.declarations
  let env : Env := ⟨file.path, file.packageName, config, scope⟩
  match env.resolveAllIn file {} with
  | .ok _ m => return ⟨file.path, file.packageName, m.definitions, m.table⟩
  | .error e _ => throw e

end GoSignatures
