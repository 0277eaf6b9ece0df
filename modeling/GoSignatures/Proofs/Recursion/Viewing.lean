import GoSignatures.Proofs.Recursion.ByValue
import GoSignatures.Proofs.Ty.Viewing

/-!
# Recursion in tables that look alike

A map that forgets parts of types, but keeps type parameters and what a value of a type holds, may
be applied to a table before it is asked for an instance or searched for types that contain
themselves.

* `Ty.Forgets` — what such a map keeps
* `Table.instance?_view` — instances
* `Table.containsItself_view` — the same types contain themselves
-/

namespace GoSignatures

/-- The instance with its arguments looked at. -/
def Ty.Instance.view (v : Ty → Ty) (part : Ty.Instance) : Ty.Instance :=
  (part.1, part.2.map v)

/-- A map that forgets parts of types, but neither their type parameters nor what their values
hold. -/
structure Ty.Forgets (v : Ty → Ty) : Prop where
  invalid : v .invalid = .invalid
  named : ∀ id args, v (.named id args) = .named id (args.map v)
  subst : ∀ bind type, v (type.subst bind) = (v type).subst fun name => (bind name).map v
  components : ∀ type, (v type).components = type.components.map (Ty.Instance.view v)

theorem TypeParam.argument?_view (v : Ty → Ty) (ps : List TypeParam) (ts : List Ty)
    (name : String) :
    argument? (ps.map (TypeParam.view v)) (ts.map v) name = (argument? ps ts name).map v := by
  induction ps generalizing ts with
  | nil => rfl
  | cons p ps ih =>
    cases ts with
    | nil => rfl
    | cons t ts =>
      simp only [List.map_cons, TypeParam.view, argument?, ih]
      split <;> rfl

namespace Ty.Forgets

variable {v : Ty → Ty} (hv : Ty.Forgets v)
include hv

theorem instantiate (ps : List TypeParam) (ts : List Ty) (type : Ty) :
    v (type.instantiate ps ts) =
      (v type).instantiate (ps.map (TypeParam.view v)) (ts.map v) := by
  rw [Ty.instantiate, hv.subst, Ty.instantiate]
  congr 1
  funext name
  exact (TypeParam.argument?_view v ps ts name).symm

/-- Both tables know the instance or neither does. -/
theorem instance?_view (t : Table) (id : Nat) (args : List Ty) :
    (t.view v).instance? id (args.map v) = (t.instance? id args).map v := by
  simp only [Table.instance?, Table.underlying?_view, Option.map_map, List.isEmpty_map,
    Table.typeParams_view]
  congr 1
  funext type
  simp only [Function.comp]
  split
  · rfl
  · exact (hv.instantiate _ args type).symm

theorem underlying_named (t : Table) (id : Nat) (args : List Ty) :
    v (t.underlying (.named id args)) = (t.view v).underlying (v (.named id args)) := by
  rw [hv.named, Table.underlying, Table.underlying, hv.instance?_view]
  cases t.instance? id args with
  | none => exact hv.invalid
  | some type => rfl

theorem inner_view (t : Table) (part : Ty.Instance) :
    (t.view v).inner (part.view v) = (t.inner part).map (Ty.Instance.view v) := by
  have hunderlying := hv.underlying_named t part.1 part.2
  rw [hv.named] at hunderlying
  rw [Table.inner, Table.inner, Ty.Instance.view, ← hunderlying, hv.components]

omit hv in
/-- The search visits the same places in both tables, in the same order. -/
theorem inParts_view {target : Nat} {visit visit' : ByValue.Visit}
    (hvisit : ∀ place args visited, visit' place (args.map v) visited = visit place args visited)
    (parts : List Ty.Instance) (visited : List Nat) :
    ByValue.inParts target visit' (parts.map (Ty.Instance.view v)) visited =
      ByValue.inParts target visit parts visited := by
  induction parts generalizing visited with
  | nil => rfl
  | cons part parts ih =>
    obtain ⟨place, args⟩ := part
    rw [List.map_cons, Ty.Instance.view, ByValue.inParts, ByValue.inParts, hvisit]
    simp only [ih]

theorem inNamed_view (t : Table) (target depth place : Nat) (args : List Ty)
    (visited : List Nat) :
    ByValue.inNamed (t.view v) target depth place (args.map v) visited =
      ByValue.inNamed t target depth place args visited := by
  induction depth generalizing place args visited with
  | zero => rfl
  | succ depth ih =>
    have hinner := hv.inner_view t (place, args)
    rw [ByValue.inNamed_succ (t.view v) target depth (place, args.map v),
      ByValue.inNamed_succ t target depth (place, args)]
    exact hinner ▸ inParts_view ih _ visited

/-- A declared type contains itself in what is seen of a table if it does in the table. -/
theorem containsItself_view (t : Table) (id : Nat) :
    (t.view v).containsItself id = t.containsItself id := by
  have hinner : (t.view v).inner (id, []) = (t.inner (id, [])).map (Ty.Instance.view v) :=
    hv.inner_view t (id, [])
  rw [Table.containsItself_eq, Table.containsItself_eq, hinner, Table.size_view,
    inParts_view (hv.inNamed_view t id t.size)]

end Ty.Forgets

end GoSignatures
