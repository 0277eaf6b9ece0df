import GoSignatures.Resolution.Basic
import GoSignatures.Text.IntLiteral
import GoSignatures.Ty.Printer

/-!
# Resolving type expressions

A type expression is resolved by recursion on its structure. A name of a type that the file
declares leads out of the expression; what becomes of it is handed in as `enter`.

* `Ty.ofName` — what a name means
* `TypeExpr.resolve` — what a type expression means
* `SignatureExpr.resolve` — what parameters and results mean
* `TypeParamDecl.resolve` — what type parameters mean
-/

namespace GoSignatures

/-- Tells what a declared name of a type, used at a place, means. -/
abbrev EnterType := Piece → Resolve Ty

/-! ## Array lengths -/

/-- The length that an expression denotes: that of an integer literal or of a constant which is
given by one. -/
def Expr.arrayLen (scope : FileScope) : Expr → ArrayLen
  | .int text => ((Text.IntLiteral.value? text).map ArrayLen.known).getD (.expr text)
  | .name text =>
    match scope.lookup text with
    | some (.const (some (.int value))) =>
      ((Text.IntLiteral.value? value).map ArrayLen.known).getD (.expr text)
    | _ => .expr text
  | .group inner => inner.arrayLen scope
  | .other text => .expr text

/-! ## Names -/

/-- What an unqualified name means. Type parameters come before the names of the file, and these
before the predeclared ones; any other name can only come from a dot import. -/
def Ty.ofName (env : Env) (enter : EnterType) (params : List String) (name : Piece) : Resolve Ty :=
  if params.contains name.text then return .param name.text
  else
    match env.scope.lookup name.text with
    | some (.type _) => enter name
    | some _ => env.fail name.position (.notAType name.text)
    | none =>
      match Universe.type? name.text with
      | some type => return type
      | none =>
        if Universe.isValue name.text || (env.scope.imports.lookup name.text).isSome then
          env.fail name.position (.notAType name.text)
        else
          match env.scope.imports.dotImport? with
          | some path => return env.importedType path name.text
          | none => env.fail name.position (.undefinedType name.text)

/-- What a name without type arguments means: a generic type cannot stand alone. -/
def Ty.ofBareName (env : Env) (enter : EnterType) (params : List String) (name : Piece) :
    Resolve Ty := do
  let type ← Ty.ofName env enter params name
  match type with
  | .named id args =>
    let expected := ((← get).table.typeParams id).length
    if args.isEmpty && expected > 0 then
      env.fail name.position (.typeArgumentCount name.text expected 0)
    else return type
  | _ => return type

/-- Whether a name is declared as another name for a type. -/
def FileScope.isAlias (scope : FileScope) (name : String) : Bool :=
  match scope.lookup name with
  | some (.type spec) => spec.isAlias
  | _ => false

/-- What a name with type arguments means. Another name for a type has its arguments already. -/
def Ty.ofGenericName (env : Env) (enter : EnterType) (params : List String) (name : Piece)
    (args : List Ty) : Resolve Ty := do
  let type ← Ty.ofName env enter params name
  match type with
  | .named id [] =>
    let expected := ((← get).table.typeParams id).length
    if expected = args.length then return .named id args
    else env.fail name.position (.typeArgumentCount name.text expected args.length)
  | _ =>
    if env.scope.isAlias name.text then return type
    else env.fail name.position (.typeArgumentCount name.text 0 args.length)

/-- An imported type with type arguments: they become part of its name. -/
def Ty.withArguments (t : Table) (args : List Ty) : Ty → Ty
  | .imported path name underlying =>
    if args.isEmpty then .imported path name underlying
    else
      let rendered := String.intercalate ", " (args.map (Ty.render t))
      .imported path (name ++ "[" ++ rendered ++ "]") underlying
  | other => other

/-- What a qualified name means. -/
def Ty.ofQualifiedName (env : Env) (package name : Piece) (args : List Ty) : Resolve Ty := do
  match env.scope.imports.lookup package.text with
  | some entry =>
    return (env.importedType entry.path name.text).withArguments (← get).table args
  | none => env.fail package.position (.undefinedPackage package.text)

/-- What a name with its type arguments means. -/
def TypeName.resolve (env : Env) (enter : EnterType) (params : List String) (args : List Ty) :
    TypeName → Resolve Ty
  | plain name =>
    if args.isEmpty then Ty.ofBareName env enter params name
    else Ty.ofGenericName env enter params name args
  | qualified package name => Ty.ofQualifiedName env package name args

/-! ## Type expressions -/

/-- The type that a union of terms stands for: a single type without a tilde stands for itself. -/
def Ty.ofTerms : List Term → Ty
  | [⟨false, type⟩] => type
  | terms => .union terms

/-- The interface element that a union of terms stands for. -/
def Embedded.ofTerms : List Term → Embedded
  | [⟨false, term⟩] => .type term
  | terms => .union terms

/-- An interface of the given elements. Its methods stand in the order of their names. -/
def Interface.ofElems (methods : List Method) (embeddeds : List Embedded) : Interface where
  methods := methods.mergeSort fun m n => decide (m.name ≤ n.name)
  embeddeds := embeddeds
  comparable := false

/-- The method or the embedded element that an element of an interface turns out to be. -/
abbrev ResolvedElem := Method ⊕ Embedded

/-- Fields that share a type and a tag. -/
def Field.ofNames (names : List String) (type : Ty) (tag : Option String) : List Field :=
  names.map fun name => ⟨name, type, false, tag⟩

/-- Variables that share a type. -/
def Var.ofNames (names : List String) (type : Ty) : List Var :=
  if names.isEmpty then [⟨"", type⟩] else names.map fun name => ⟨name, type⟩

section

variable (env : Env) (enter : EnterType) (params : List String)

mutual

/-- What a type expression means under the type parameters `params`. -/
def TypeExpr.resolve : TypeExpr → Resolve Ty
  | .named name args => do name.resolve env enter params (← TypeArg.resolveAll args)
  | .pointer elem => return .pointer (← elem.resolve)
  | .slice elem => return .slice (← elem.resolve)
  | .array length elem => return .array (length.arrayLen env.scope) (← elem.resolve)
  | .map key value => return .map (← key.resolve) (← value.resolve)
  | .chan dir elem => return .chan dir (← elem.resolve)
  | .func sig => return .func (← sig.resolve)
  | .struct fields => return .struct (← FieldDecl.resolveAll fields)
  | .interface elems => do
    let found ← InterfaceElem.resolveAll elems
    return .interface (.ofElems (found.filterMap Sum.getLeft?) (found.filterMap Sum.getRight?))
  | .group inner => inner.resolve
  | .tilde inner => return .union [⟨true, ← inner.resolve⟩]

/-- What the terms of a union mean. -/
def TypeExpr.resolveTerms : List TypeExpr → Resolve (List Term)
  | [] => return []
  | .tilde inner :: terms => return ⟨true, ← inner.resolve⟩ :: (← TypeExpr.resolveTerms terms)
  | term :: terms => return ⟨false, ← term.resolve⟩ :: (← TypeExpr.resolveTerms terms)

/-- What type arguments mean. -/
def TypeArg.resolveAll : List TypeArg → Resolve (List Ty)
  | [] => return []
  | ⟨_, terms⟩ :: args =>
    return .ofTerms (← TypeExpr.resolveTerms terms) :: (← TypeArg.resolveAll args)

/-- What parameters and results mean. -/
def SignatureExpr.resolve : SignatureExpr → Resolve Signature
  | ⟨paramDecls, results⟩ => do
    let vars ← ParamDecl.resolveAll paramDecls
    return ⟨none, [], vars, ← results.resolve, paramDecls.any ParamDecl.variadic⟩

/-- What results mean. -/
def ResultExpr.resolve : ResultExpr → Resolve (List Var)
  | .list results => ParamDecl.resolveAll results
  | .single type => return [⟨"", ← type.resolve⟩]

/-- What the declarations of a parameter list mean: one variable for each name. -/
def ParamDecl.resolveAll : List ParamDecl → Resolve (List Var)
  | [] => return []
  | ⟨names, type, variadic⟩ :: decls => do
    let type ← type.resolve
    return Var.ofNames names (if variadic then .slice type else type) ++
      (← ParamDecl.resolveAll decls)

/-- What the declarations of fields mean. An embedded field is called like its type. -/
def FieldDecl.resolveAll : List FieldDecl → Resolve (List Field)
  | [] => return []
  | .named names type tag :: decls => do
    let type ← type.resolve
    return Field.ofNames names type (tag.map Text.StringLiteral.unquote) ++
      (← FieldDecl.resolveAll decls)
  | .embedded pointer name args tag :: decls => do
    let type ← name.resolve env enter params (← TypeArg.resolveAll args)
    return ⟨name.unqualified, if pointer then .pointer type else type, true,
      tag.map Text.StringLiteral.unquote⟩ :: (← FieldDecl.resolveAll decls)

/-- What the elements of an interface mean. Each method is recorded as a definition. -/
def InterfaceElem.resolveAll : List InterfaceElem → Resolve (List ResolvedElem)
  | [] => return []
  | .method name sig :: elems => do
    let sig ← sig.resolve
    modify fun p => p.define (.func ⟨name.text, sig, name.position, .interface⟩)
    return .inl ⟨name.text, sig⟩ :: (← InterfaceElem.resolveAll elems)
  | .union terms :: elems =>
    return .inr (.ofTerms (← TypeExpr.resolveTerms terms)) :: (← InterfaceElem.resolveAll elems)

end

end

/-! ## Type parameters -/

/-- The names that declarations of type parameters introduce. -/
def TypeParamDecl.allNames (decls : List TypeParamDecl) : List String :=
  decls.flatMap TypeParamDecl.names

/-- What declarations of type parameters mean; the names in force are `params`. -/
def TypeParamDecl.resolveAll (env : Env) (enter : EnterType) (params : List String) :
    List TypeParamDecl → Resolve (List TypeParam)
  | [] => return []
  | ⟨names, constraint⟩ :: decls => do
    let constraint := Ty.ofTerms (← TypeExpr.resolveTerms env enter params constraint)
    return names.map (⟨·, constraint⟩) ++ (← resolveAll env enter params decls)

end GoSignatures
