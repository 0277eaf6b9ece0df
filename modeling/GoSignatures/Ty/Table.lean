import GoSignatures.Ty.Substitution

/-!
# The table of declared types

Every declared type has an entry, and a type refers to it by the entry's place. The first two
places hold the predeclared `error` and `comparable`. An entry is made when a declaration is
reached; its type parameters and its underlying type are filled in when they are known.

* `Table.initial` — the table with the predeclared entries
* `Table.declare`, `Table.setTypeParams`, `Table.setUnderlying` — the changes
* `Table.underlying` — a type with its declared and imported layers stripped
-/

namespace GoSignatures

/-- An entry of the table. -/
structure NamedType where
  name : String
  /-- The qualifier with which the type is shown; empty for a predeclared type. -/
  package : String
  typeParams : List TypeParam := []
  /-- Absent while the declaration is being resolved. -/
  underlying : Option Ty := none

/-- The declared types of a file, by place. -/
structure Table where
  entries : List NamedType

/-- The place of the predeclared `error`. -/
def errorId : Nat := 0

/-- The place of the predeclared `comparable`. -/
def comparableId : Nat := 1

/-- The predeclared type `error`. -/
def Ty.error : Ty := .named errorId []

/-- The predeclared constraint `comparable`. -/
def Ty.comparable : Ty := .named comparableId []

/-- The method `Error() string`. -/
def Method.error : Method :=
  ⟨"Error", ⟨none, [], [], [⟨"", .basic .string⟩], false⟩⟩

namespace Table

/-- The table that holds the predeclared entries only. -/
def initial : Table :=
  ⟨[{ name := "error", package := "", underlying := some (.interface ⟨[.error], [], false⟩) },
    { name := "comparable", package := "", underlying := some (.interface ⟨[], [], true⟩) }]⟩

/-- The number of entries. -/
def size (t : Table) : Nat := t.entries.length

/-- The entry at a place. -/
def get? (t : Table) (id : Nat) : Option NamedType := t.entries[id]?

/-- The name of the entry at a place. -/
def name (t : Table) (id : Nat) : String :=
  match t.get? id with
  | some entry => entry.name
  | none => ""

/-- The type parameters of the entry at a place. -/
def typeParams (t : Table) (id : Nat) : List TypeParam :=
  match t.get? id with
  | some entry => entry.typeParams
  | none => []

/-- The underlying type stored at a place, if there is one yet. -/
def underlying? (t : Table) (id : Nat) : Option Ty :=
  (t.get? id).bind NamedType.underlying

/-- The table with a new, unfinished entry; its place is the old `size`. -/
def declare (t : Table) (name package : String) : Table :=
  ⟨t.entries ++ [{ name := name, package := package }]⟩

/-- The table with the type parameters of the entry at `id` set. -/
def setTypeParams (t : Table) (id : Nat) (params : List TypeParam) : Table :=
  ⟨t.entries.modify id fun entry => { entry with typeParams := params }⟩

/-- The table with the underlying type of the entry at `id` set. -/
def setUnderlying (t : Table) (id : Nat) (type : Ty) : Table :=
  ⟨t.entries.modify id fun entry => { entry with underlying := some type }⟩

/-- The underlying type of the declared type at `id` under the arguments `args`. -/
def instance? (t : Table) (id : Nat) (args : List Ty) : Option Ty :=
  (t.underlying? id).map fun type =>
    if args.isEmpty then type else type.instantiate (t.typeParams id) args

/-- The type with its declared layer and its known imported layers stripped. A type about whose
underlying type nothing is known, and a type parameter, stand for themselves. -/
def underlying (t : Table) : Ty → Ty
  | .named id args => (t.instance? id args).getD .invalid
  | .imported _ _ (some type) => t.underlying type
  | type => type

/-! ## Sizes and entries after a change -/

@[simp] theorem size_declare (t : Table) (name package : String) :
    (t.declare name package).size = t.size + 1 := by
  simp [declare, size]

@[simp] theorem size_setTypeParams (t : Table) (id : Nat) (params : List TypeParam) :
    (t.setTypeParams id params).size = t.size := by
  simp [setTypeParams, size]

@[simp] theorem size_setUnderlying (t : Table) (id : Nat) (type : Ty) :
    (t.setUnderlying id type).size = t.size := by
  simp [setUnderlying, size]

theorem get?_declare_of_lt {t : Table} {id : Nat} (h : id < t.size) (name package : String) :
    (t.declare name package).get? id = t.get? id := by
  simp only [declare, get?, size] at *
  exact List.getElem?_append_left h

@[simp] theorem get?_declare_size (t : Table) (name package : String) :
    (t.declare name package).get? t.size = some { name := name, package := package } := by
  simp [declare, get?, size]

theorem get?_setTypeParams (t : Table) (id j : Nat) (params : List TypeParam) :
    (t.setTypeParams id params).get? j =
      (t.get? j).map fun entry => if id = j then { entry with typeParams := params } else entry := by
  simp only [setTypeParams, get?, List.getElem?_modify]
  rfl

theorem get?_setUnderlying (t : Table) (id j : Nat) (type : Ty) :
    (t.setUnderlying id type).get? j =
      (t.get? j).map fun entry => if id = j then { entry with underlying := some type } else entry := by
  simp only [setUnderlying, get?, List.getElem?_modify]
  rfl

end Table

instance : Inhabited Table := ⟨.initial⟩

end GoSignatures
