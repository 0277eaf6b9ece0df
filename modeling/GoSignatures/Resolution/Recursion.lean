import GoSignatures.Ty.Table

/-!
# Recursive declarations

Two kinds of recursion make a declared type impossible: types that are defined as each other in a
circle, and a type whose values would contain values of the same type, through arrays and struct
fields.

* `Table.settle` — types defined as another type receive its underlying type
* `Table.containsByValue` — whether a type contains a declared type by value
-/

namespace GoSignatures

/-! ## Types defined as another type -/

/-- One round over the types that wait for the underlying type of their target, in order: those
whose target has one receive it, the others remain. -/
def Table.settleRound (t : Table) : List (Nat × Nat) → Table × List (Nat × Nat)
  | [] => (t, [])
  | (id, target) :: waiting =>
    match t.underlying? target with
    | some type => (t.setUnderlying id type).settleRound waiting
    | none =>
      let (t, remaining) := t.settleRound waiting
      (t, (id, target) :: remaining)

/-- The table in which all waiting types have received the underlying type of their target, or a
type that waits in vain. -/
def Table.settle (t : Table) (waiting : List (Nat × Nat)) : Except Nat Table :=
  match t.settleRound waiting with
  | (t, []) => .ok t
  | (t, (id, target) :: remaining) =>
    if remaining.length + 1 < waiting.length then t.settle ((id, target) :: remaining)
    else .error id
termination_by waiting.length

/-! ## Containment by value -/

namespace ByValue

/-- Looks into a declared type under its arguments, given the places already visited: whether the
target is found there, and the places visited then. -/
abbrev Visit := Nat → List Ty → List Nat → Bool × List Nat

mutual

/-- Whether a value of a type contains a value of the declared type at `target`. -/
def inType (target : Nat) (visit : Visit) : Ty → List Nat → Bool × List Nat
  | .named id args, visited =>
    if id = target then (true, visited)
    else if visited.contains id then (false, visited)
    else visit id args (id :: visited)
  | .array _ elem, visited => inType target visit elem visited
  | .struct fields, visited => inFields target visit fields visited
  | _, visited => (false, visited)

/-- The same for the fields of a struct, up to the first that contains the target. -/
def inFields (target : Nat) (visit : Visit) : List Field → List Nat → Bool × List Nat
  | [], visited => (false, visited)
  | ⟨_, type, _, _⟩ :: fields, visited =>
    match inType target visit type visited with
    | (true, visited) => (true, visited)
    | (false, visited) => inFields target visit fields visited

end

/-- Looks into a declared type. Each is visited once, so they nest at most as deep as the table is
long. -/
def inNamed (t : Table) (target : Nat) : Nat → Visit
  | 0, _, _, visited => (false, visited)
  | depth + 1, id, args, visited =>
    inType target (inNamed t target depth) (t.underlying (.named id args)) visited

end ByValue

/-- Whether the declared type at `id` contains itself by value. -/
def Table.containsItself (t : Table) (id : Nat) : Bool :=
  (ByValue.inType id (ByValue.inNamed t id t.size) (t.underlying (.named id [])) []).1

end GoSignatures
