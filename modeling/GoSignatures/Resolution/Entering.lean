import GoSignatures.Resolution.TypeExpr

/-!
# Entering declared types

A name of a declared type is resolved on its first use. A defined type is entered into the table
before its right-hand side is resolved, so that it may refer to itself; another name for a type
has to be resolved through, and may not lead back to itself.

## Termination

Entering a defined type adds it to the table for good, and entering another name for a type adds
it to the names in progress, which are forgotten only when a defined type is entered. So the
nesting is bounded by the product of the two counts, and `FileScope.nesting` is handed down as the
depth.

* `Progress.finish` — what becomes of the right-hand side of a defined type
* `Env.enterType` — what a declared name means
-/

namespace GoSignatures

/-- The progress when the right-hand side of the defined type at `id` is known. A right-hand side
that is itself a defined type lends its underlying type, now or later. -/
def Progress.finish (p : Progress) (id : Nat) (type : Ty) : Progress :=
  match type with
  | .named target _ =>
    match p.table.underlying? target with
    | none => { p with pending := p.pending ++ [(id, target)] }
    | some _ => { p with table := p.table.setUnderlying id (p.table.underlying type) }
  | _ => { p with table := p.table.setUnderlying id (p.table.underlying type) }

/-- Resolves the declaration of the defined type that was entered at `id`. -/
def TypeSpec.resolveDefined (env : Env) (enter : EnterType) (id : Nat) (spec : TypeSpec) :
    Resolve Unit := do
  let names := TypeParamDecl.allNames spec.typeParams
  unless spec.typeParams.isEmpty do
    let params ← TypeParamDecl.resolveAll env enter names spec.typeParams
    modify fun p => { p with table := p.table.setTypeParams id params }
  let type ← spec.type.resolve env enter names
  modify fun p => p.finish id type

/-- What a declared name, used at a place, means. The other names for types that are in progress
are `resolving`; at most `depth` declarations nest. -/
def Env.enterType (env : Env) : (depth : Nat) → (resolving : List String) → EnterType
  | 0, _, name => env.fail name.position (.invalidRecursiveType name.text)
  | depth + 1, resolving, name =>
    match env.scope.lookup name.text with
    | some (.type spec) => do
      if spec.isAlias then
        match (← get).aliases.lookup name.text with
        | some type => return type
        | none =>
          if resolving.contains name.text then
            env.fail name.position (.invalidRecursiveType name.text)
          else
            let type ← spec.type.resolve env (env.enterType depth (name.text :: resolving)) []
            modify fun p => { p with aliases := p.aliases ++ [(name.text, type)] }
            return type
      else
        match (← get).enteredType? name.text with
        | some entered => return .named entered.id []
        | none =>
          let id := (← get).table.size
          modify fun p => p.enter spec.name env.packageName
          spec.resolveDefined env (env.enterType depth []) id
          return .named id []
    | _ => env.fail name.position (.notAType name.text)

/-- How many names of a scope are defined types, or other names for types. -/
def FileScope.countTypes (scope : FileScope) (aliases : Bool) : Nat :=
  scope.entries.countP fun entry =>
    match entry.2 with
    | .type spec => spec.isAlias == aliases
    | _ => false

/-- How deep declared types can nest while they are entered. -/
def FileScope.nesting (scope : FileScope) : Nat :=
  (scope.countTypes false + 1) * (scope.countTypes true + 1)

/-- What a declared name means where no declaration is in progress. -/
def Env.enter (env : Env) : EnterType :=
  env.enterType env.scope.nesting []

end GoSignatures
