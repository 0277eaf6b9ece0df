import GoSignatures.Ty.Table

/-!
# The method set of an interface

All methods that an interface has, its own first and then those of the interfaces it embeds, each
name once. There is no such set when an element is a union or no interface, or when the
predeclared `comparable` takes part.

## Termination

A declared type is entered at most once: its place is noted when it is entered. So at most
`Table.size` of them nest, and that number is handed down as the depth; inside one type the
recursion follows the interface literals.

* `Methods.addInterface` — the methods of one interface literal
* `Methods.addNamed` — the methods of a declared type, one level deeper
* `Table.methodSet?` — the method set of an interface
-/

namespace GoSignatures

/-- The methods found so far, and the places of the declared types already entered. -/
structure Methods where
  found : List Method
  entered : List Nat

namespace Methods

/-- Nothing found, nothing entered. -/
def empty : Methods := ⟨[], []⟩

/-- The methods found, and those of `methods` whose names are new, in order. -/
def add (s : Methods) (methods : List Method) : Methods :=
  { s with
    found := methods.foldl
      (fun found m => if found.any (·.name == m.name) then found else found ++ [m]) s.found }

/-- Adds what an entered declared type contributes; absent if it is no interface or has no
method set. -/
abbrev Enter := Nat → List Ty → Methods → Option Methods

mutual

/-- Adds the methods of an interface and of all it embeds. -/
def addInterface (enter : Enter) : Interface → Methods → Option Methods
  | ⟨methods, embeddeds, comparable⟩, s =>
    if comparable then none else addEmbeddeds enter embeddeds (s.add methods)

/-- Adds the methods of embedded elements, in order. -/
def addEmbeddeds (enter : Enter) : List Embedded → Methods → Option Methods
  | [], s => some s
  | .type type :: es, s => (addType enter type s).bind (addEmbeddeds enter es)
  | .union _ :: _, _ => none

/-- Adds the methods of an embedded type. An imported type counts as what it is known to be. -/
def addType (enter : Enter) : Ty → Methods → Option Methods
  | .named id args, s => enter id args s
  | .interface iface, s => addInterface enter iface s
  | .imported _ _ underlying, s => addKnown enter underlying s
  | _, _ => none

/-- Adds the methods of a type that is known, if it is. -/
def addKnown (enter : Enter) : Option Ty → Methods → Option Methods
  | some type, s => addType enter type s
  | none, _ => none

end

/-- Adds the methods of the declared type at `id` under `args`, unless it was entered before. -/
def addNamed (t : Table) : Nat → Enter
  | 0, id, _, s => if s.entered.contains id then some s else none
  | depth + 1, id, args, s =>
    if s.entered.contains id then some s
    else
      match t.underlying (.named id args) with
      | .interface iface => addInterface (addNamed t depth) iface { s with entered := id :: s.entered }
      | _ => none

end Methods

/-- The method set of an interface, each name once in order of discovery. -/
def Table.methodSet? (t : Table) (iface : Interface) : Option (List Method) :=
  (Methods.addInterface (Methods.addNamed t t.size) iface .empty).map Methods.found

end GoSignatures
