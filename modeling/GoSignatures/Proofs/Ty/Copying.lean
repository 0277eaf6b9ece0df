import Mathlib.Data.List.Nodup
import Mathlib.Data.List.Perm.Subperm
import GoSignatures.Proofs.Resolution.Growth
import GoSignatures.Proofs.Ty.Renaming

/-!
# Copies of tables

A table is copied into another one when each of its entries stands there as well, at a place that
`f` tells, and refers to places that `f` tells. The other table may have more entries. Whatever is
computed from a type and the table is then computed from the renumbered type and the copy, too.

* `Table.Copied` — a table is copied into another one
* `Table.Copied.underlying` — underlying types are renumbered
* `Table.Copied.declare`, `Table.Copied.setUnderlying` — changes on both sides
* `Table.Copied.setUnderlying_other` — a change of the copy only
-/

namespace GoSignatures

/-! ## Single parts -/

/-- The variable with its places renumbered. -/
def Var.rename (f : Nat → Nat) (v : Var) : Var :=
  ⟨v.name, v.type.rename f⟩

/-- The type parameter with its places renumbered. -/
def TypeParam.rename (f : Nat → Nat) (p : TypeParam) : TypeParam :=
  ⟨p.name, p.constraint.rename f⟩

/-- The field with its places renumbered. -/
def Field.rename (f : Nat → Nat) (field : Field) : Field :=
  { field with type := field.type.rename f }

/-- The method with its places renumbered. -/
def Method.rename (f : Nat → Nat) (m : Method) : Method :=
  ⟨m.name, m.signature.rename f⟩

/-- The embedded element with its places renumbered. -/
def Embedded.rename (f : Nat → Nat) : Embedded → Embedded
  | .type t => .type (t.rename f)
  | .union ts => .union (Term.renames f ts)

/-- The function with its places renumbered. -/
def FuncDef.rename (f : Nat → Nat) (d : FuncDef) : FuncDef :=
  { d with signature := d.signature.rename f }

/-- The entry with its places renumbered. -/
def NamedType.rename (f : Nat → Nat) (entry : NamedType) : NamedType :=
  { entry with
    typeParams := TypeParam.renames f entry.typeParams
    underlying := Ty.renameOpt f entry.underlying }

section

variable (f : Nat → Nat)

/-- The functions on lists apply those on single parts to each part. -/
theorem Ty.renames_eq_map (ts : List Ty) : Ty.renames f ts = ts.map (Ty.rename f) := by
  induction ts with
  | nil => rfl
  | cons t ts ih => rw [Ty.renames, ih, List.map_cons]

theorem Ty.renameOpt_eq_map (o : Option Ty) : Ty.renameOpt f o = o.map (Ty.rename f) := by
  cases o <;> rfl

theorem Var.renames_eq_map (vs : List Var) : Var.renames f vs = vs.map (Var.rename f) := by
  induction vs with
  | nil => rfl
  | cons v vs ih =>
    cases v
    rw [Var.renames, ih, List.map_cons, Var.rename]

theorem TypeParam.renames_eq_map (ps : List TypeParam) :
    TypeParam.renames f ps = ps.map (TypeParam.rename f) := by
  induction ps with
  | nil => rfl
  | cons p ps ih =>
    cases p
    rw [TypeParam.renames, ih, List.map_cons, TypeParam.rename]

theorem Field.renames_eq_map (fs : List Field) : Field.renames f fs = fs.map (Field.rename f) := by
  induction fs with
  | nil => rfl
  | cons field fs ih =>
    cases field
    rw [Field.renames, ih, List.map_cons, Field.rename]

theorem Method.renames_eq_map (ms : List Method) :
    Method.renames f ms = ms.map (Method.rename f) := by
  induction ms with
  | nil => rfl
  | cons m ms ih =>
    cases m
    rw [Method.renames, ih, List.map_cons, Method.rename]

theorem Embedded.renames_eq_map (es : List Embedded) :
    Embedded.renames f es = es.map (Embedded.rename f) := by
  induction es with
  | nil => rfl
  | cons e es ih =>
    cases e <;> rw [Embedded.renames, ih, List.map_cons, Embedded.rename]

end

/-! ## Replacing type parameters -/

/-- What the type parameters stand for, with places renumbered. -/
def Binding.rename (f : Nat → Nat) (bind : Binding) : Binding :=
  fun name => (bind name).map (Ty.rename f)

section

variable (f : Nat → Nat) (bind : Binding)

mutual

/-- Type parameters may be replaced before places are renumbered or afterwards. -/
theorem Ty.rename_subst : ∀ t : Ty, (t.subst bind).rename f = (t.rename f).subst (bind.rename f)
  | .basic _ | .imported .. | .invalid => rfl
  | .named id args => by rw [Ty.subst, Ty.rename, Ty.rename, Ty.subst, Ty.renames_substs args]
  | .param name => by
    rw [Ty.subst, Ty.rename, Ty.subst, Binding.rename]
    cases bind name <;> rfl
  | .pointer elem => by rw [Ty.subst, Ty.rename, Ty.rename, Ty.subst, Ty.rename_subst elem]
  | .slice elem => by rw [Ty.subst, Ty.rename, Ty.rename, Ty.subst, Ty.rename_subst elem]
  | .array _ elem => by rw [Ty.subst, Ty.rename, Ty.rename, Ty.subst, Ty.rename_subst elem]
  | .map key value => by
    rw [Ty.subst, Ty.rename, Ty.rename, Ty.subst, Ty.rename_subst key, Ty.rename_subst value]
  | .chan _ elem => by rw [Ty.subst, Ty.rename, Ty.rename, Ty.subst, Ty.rename_subst elem]
  | .func sig => by rw [Ty.subst, Ty.rename, Ty.rename, Ty.subst, Signature.rename_subst sig]
  | .struct fields => by
    rw [Ty.subst, Ty.rename, Ty.rename, Ty.subst, Field.renames_substs fields]
  | .interface iface => by
    rw [Ty.subst, Ty.rename, Ty.rename, Ty.subst, Interface.rename_subst iface]
termination_by structural t => t

theorem Ty.renames_substs : ∀ ts : List Ty,
    Ty.renames f (Ty.substs bind ts) = Ty.substs (bind.rename f) (Ty.renames f ts)
  | [] => rfl
  | t :: ts => by
    rw [Ty.substs, Ty.renames, Ty.renames, Ty.substs, Ty.rename_subst t, Ty.renames_substs ts]
termination_by structural ts => ts

theorem Var.renames_substs : ∀ vs : List Var,
    Var.renames f (Var.substs bind vs) = Var.substs (bind.rename f) (Var.renames f vs)
  | [] => rfl
  | ⟨_, type⟩ :: vs => by
    simp only [Var.substs, Var.subst, Var.renames, Ty.rename_subst type, Var.renames_substs vs]
termination_by structural vs => vs

theorem Var.renameOpt_substOpt : ∀ v : Option Var,
    Var.renameOpt f (Var.substOpt bind v) = Var.substOpt (bind.rename f) (Var.renameOpt f v)
  | none => rfl
  | some ⟨_, type⟩ => by
    simp only [Var.substOpt, Var.subst, Var.renameOpt, Ty.rename_subst type]
termination_by structural v => v

theorem Signature.rename_subst : ∀ sig : Signature,
    (sig.subst bind).rename f = (sig.rename f).subst (bind.rename f)
  | ⟨receiver, _, params, results, _⟩ => by
    simp only [Signature.subst, Signature.rename, Var.renameOpt_substOpt receiver,
      Var.renames_substs params, Var.renames_substs results]
termination_by structural sig => sig

theorem Field.renames_substs : ∀ fs : List Field,
    Field.renames f (Field.substs bind fs) = Field.substs (bind.rename f) (Field.renames f fs)
  | [] => rfl
  | ⟨_, type, _, _⟩ :: fs => by
    simp only [Field.substs, Field.renames, Ty.rename_subst type, Field.renames_substs fs]
termination_by structural fs => fs

theorem Method.renames_substs : ∀ ms : List Method,
    Method.renames f (Method.substs bind ms) = Method.substs (bind.rename f) (Method.renames f ms)
  | [] => rfl
  | ⟨_, sig⟩ :: ms => by
    simp only [Method.substs, Method.renames, Signature.rename_subst sig, Method.renames_substs ms]
termination_by structural ms => ms

theorem Term.renames_substs : ∀ ts : List Term,
    Term.renames f (Term.substs bind ts) = Term.substs (bind.rename f) (Term.renames f ts)
  | [] => rfl
  | ⟨_, type⟩ :: ts => by
    simp only [Term.substs, Term.renames, Ty.rename_subst type, Term.renames_substs ts]
termination_by structural ts => ts

theorem Embedded.renames_substs : ∀ es : List Embedded,
    Embedded.renames f (Embedded.substs bind es) =
      Embedded.substs (bind.rename f) (Embedded.renames f es)
  | [] => rfl
  | .type t :: es => by
    simp only [Embedded.substs, Embedded.renames, Ty.rename_subst t, Embedded.renames_substs es]
  | .union ts :: es => by
    simp only [Embedded.substs, Embedded.renames, Term.renames_substs ts,
      Embedded.renames_substs es]
termination_by structural es => es

theorem Interface.rename_subst : ∀ i : Interface,
    (i.subst bind).rename f = (i.rename f).subst (bind.rename f)
  | ⟨methods, embeddeds, _⟩ => by
    simp only [Interface.subst, Interface.rename, Method.renames_substs methods,
      Embedded.renames_substs embeddeds]
termination_by structural i => i

end

end

/-- A type parameter keeps its argument, renumbered. -/
theorem TypeParam.argument?_renames (f : Nat → Nat) (ps : List TypeParam) (ts : List Ty)
    (name : String) :
    TypeParam.argument? (TypeParam.renames f ps) (Ty.renames f ts) name =
      (TypeParam.argument? ps ts name).map (Ty.rename f) := by
  induction ps generalizing ts with
  | nil => rfl
  | cons p ps ih =>
    cases p
    cases ts with
    | nil => rfl
    | cons t ts =>
      simp only [TypeParam.renames, Ty.renames, TypeParam.argument?, ih]
      split <;> rfl

/-- An instance may be renumbered, or made of what is renumbered. -/
theorem Ty.rename_instantiate (f : Nat → Nat) (ps : List TypeParam) (ts : List Ty) (type : Ty) :
    (type.instantiate ps ts).rename f =
      (type.rename f).instantiate (TypeParam.renames f ps) (Ty.renames f ts) := by
  rw [Ty.instantiate, Ty.rename_subst, Ty.instantiate]
  congr 1
  funext name
  exact (TypeParam.argument?_renames f ps ts name).symm

/-! ## Instances -/

namespace Table

variable {f : Nat → Nat} {t t' : Table}

/-- An instance is copied if its declared type is. -/
theorem instance?_rename {id place : Nat}
    (hparams : t'.typeParams place = TypeParam.renames f (t.typeParams id))
    (hunderlying : t'.underlying? place = (t.underlying? id).map (Ty.rename f)) (args : List Ty) :
    t'.instance? place (Ty.renames f args) = (t.instance? id args).map (Ty.rename f) := by
  simp only [Table.instance?, hunderlying, Option.map_map, Ty.isEmpty_renames, hparams]
  congr 1
  funext type
  simp only [Function.comp]
  split
  · rfl
  · exact (Ty.rename_instantiate f _ args type).symm

/-- The underlying type of a type is copied if those are on which it depends. -/
theorem underlying_rename {A : Ty.Allowed} {type : Ty} (hproper : type.Proper A)
    (hinstance : ∀ id args, type = .named id args ∨ id = errorId →
      t'.instance? (f id) (Ty.renames f args) = (t.instance? id args).map (Ty.rename f)) :
    t'.underlying (type.rename f) = (t.underlying type).rename f := by
  have hnamed : ∀ id args, type = .named id args ∨ id = errorId →
      t'.underlying ((Ty.named id args).rename f) = (t.underlying (.named id args)).rename f := by
    intro id args hlooked
    rw [Ty.rename, underlying, underlying, hinstance id args hlooked]
    cases t.instance? id args <;> rfl
  cases type with
  | named id args => exact hnamed id args (.inl rfl)
  | imported path name known =>
    cases known with
    | none => rfl
    | some type =>
      rcases hproper type rfl with ⟨kind, rfl⟩ | rfl
      · rfl
      · exact hnamed errorId [] (.inr rfl)
  | _ => rfl

end Table

/-! ## Copies -/

/-- Each entry of `t` stands in `t'`, too, at the place that `f` tells. Underlying types in `t'`
refer to such places only. -/
structure Table.Copied (t : Table) (f : Nat → Nat) (t' : Table) : Prop where
  injective : ∀ i j, f i = f j → i = j
  error : f errorId = errorId
  comparable : f comparableId = comparableId
  get? : ∀ id, t'.get? (f id) = (t.get? id).map (NamedType.rename f)
  refers : ∀ id type, t'.underlying? id = some type → ∃ original : Ty, type = original.rename f

namespace Table.Copied

variable {f : Nat → Nat} {t t' : Table} (h : t.Copied f t')
include h

theorem eq_iff {i j : Nat} : f i = f j ↔ i = j :=
  ⟨h.injective i j, fun hij => hij ▸ rfl⟩

theorem nameChars (id : Nat) : t'.nameChars (f id) = t.nameChars id := by
  simp only [Table.nameChars, h.get? id]
  cases t.get? id <;> rfl

/-- A type shows alike in both tables. -/
theorem render (type : Ty) : (type.rename f).render t' = type.render t := by
  rw [Ty.render, Ty.render, Ty.chars_rename h.nameChars]

theorem typeParams (id : Nat) :
    t'.typeParams (f id) = TypeParam.renames f (t.typeParams id) := by
  simp only [Table.typeParams, h.get? id]
  cases t.get? id <;> rfl

theorem length_typeParams (id : Nat) :
    (t'.typeParams (f id)).length = (t.typeParams id).length := by
  rw [h.typeParams, TypeParam.renames_eq_map, List.length_map]

theorem underlying? (id : Nat) :
    t'.underlying? (f id) = (t.underlying? id).map (Ty.rename f) := by
  simp only [Table.underlying?, h.get? id]
  cases t.get? id with
  | none => rfl
  | some entry => exact Ty.renameOpt_eq_map f entry.underlying

/-- Both tables know the instance or neither does. -/
theorem instance? (id : Nat) (args : List Ty) :
    t'.instance? (f id) (Ty.renames f args) = (t.instance? id args).map (Ty.rename f) :=
  Table.instance?_rename (h.typeParams id) (h.underlying? id) args

/-- The underlying type of a renumbered type is the underlying type, renumbered. -/
theorem underlying : ∀ type : Ty, t'.underlying (type.rename f) = (t.underlying type).rename f
  | .named id args => by
    rw [Ty.rename, Table.underlying, Table.underlying, h.instance? id args]
    cases t.instance? id args <;> rfl
  | .imported _ _ none => rfl
  | .imported _ _ (some type) => underlying type
  | .basic _ | .param _ | .pointer _ | .slice _ | .array .. | .map .. | .chan .. | .func _
  | .struct _ | .interface _ | .invalid => rfl
termination_by structural type => type

/-- An entry and its copy are there, or neither is. -/
theorem lt_size_iff (id : Nat) : f id < t'.size ↔ id < t.size := by
  have hsome : ∀ (t : Table) (id : Nat), id < t.size ↔ (t.get? id).isSome = true := fun t id => by
    simp [Table.get?, Table.size]
  rw [hsome, hsome, h.get? id, Option.isSome_map]

/-- A table has at least the size of one that is copied into it. -/
theorem size_le : t.size ≤ t'.size := by
  have hnodup : ((List.range t.size).map f).Nodup :=
    List.Nodup.map (fun i j => h.injective i j) List.nodup_range
  have hsubset : (List.range t.size).map f ⊆ List.range t'.size := by
    intro place hplace
    obtain ⟨id, hid, rfl⟩ := List.mem_map.mp hplace
    exact List.mem_range.mpr ((h.lt_size_iff id).mpr (List.mem_range.mp hid))
  simpa using (List.subperm_of_subset hnodup hsubset).length_le

/-! ## Changes on both sides -/

omit h in
theorem get?_declare (t : Table) (name package : String) (id : Nat) :
    (t.declare name package).get? id =
      if id = t.size then some { name, package } else t.get? id := by
  split
  · next hid => rw [hid, get?_declare_size]
  · next hid =>
    rcases Nat.lt_or_gt_of_ne hid with hlt | hgt
    · exact get?_declare_of_lt hlt name package
    · rw [get?_eq_none_of_size_le (Nat.le_of_lt hgt), get?_eq_none_of_size_le]
      rw [size_declare]
      exact hgt

omit h in
theorem underlying?_declare (t : Table) (name package : String) (id : Nat) :
    (t.declare name package).underlying? id = t.underlying? id := by
  rw [Table.underlying?, Table.underlying?, get?_declare]
  split
  · next hid =>
    rw [hid, get?_eq_none_of_size_le (Nat.le_refl _)]
    rfl
  · rfl

/-- A type is declared in both tables, each at its end. -/
theorem declare (hsize : f t.size = t'.size) (name package : String) :
    (t.declare name package).Copied f (t'.declare name package) where
  injective := h.injective
  error := h.error
  comparable := h.comparable
  get? id := by
    simp only [get?_declare, ← hsize, h.eq_iff, h.get? id]
    split <;> rfl
  refers id type htype := h.refers id type (underlying?_declare t' name package id ▸ htype)

theorem setTypeParams (id : Nat) (params : List TypeParam) :
    (t.setTypeParams id params).Copied f
      (t'.setTypeParams (f id) (TypeParam.renames f params)) where
  injective := h.injective
  error := h.error
  comparable := h.comparable
  get? j := by
    rw [get?_setTypeParams, get?_setTypeParams, h.get? j, Option.map_map, Option.map_map]
    congr 1
    funext entry
    simp only [Function.comp, h.eq_iff]
    split <;> rfl
  refers j type htype := h.refers j type (by simpa using htype)

omit h in
/-- An underlying type of a changed table is the one that was set, or one that was there. -/
theorem of_underlying?_setUnderlying {id j : Nat} {type known : Ty}
    (hknown : (t.setUnderlying id type).underlying? j = some known) :
    known = type ∨ t.underlying? j = some known := by
  rw [Table.underlying?, get?_setUnderlying] at hknown
  obtain ⟨entry, hentry, hknown⟩ := Option.bind_eq_some_iff.mp hknown
  obtain ⟨old, hold, rfl⟩ := Option.map_eq_some_iff.mp hentry
  split at hknown
  · exact .inl (Option.some.inj hknown).symm
  · exact .inr (Option.bind_eq_some_iff.mpr ⟨old, hold, hknown⟩)

/-- An underlying type is set in both tables, at places that `f` relates. -/
theorem setUnderlying (id : Nat) (type : Ty) :
    (t.setUnderlying id type).Copied f (t'.setUnderlying (f id) (type.rename f)) where
  injective := h.injective
  error := h.error
  comparable := h.comparable
  get? j := by
    rw [get?_setUnderlying, get?_setUnderlying, h.get? j, Option.map_map, Option.map_map]
    congr 1
    funext entry
    simp only [Function.comp, h.eq_iff]
    split <;> rfl
  refers j known hknown := by
    rcases of_underlying?_setUnderlying hknown with rfl | hknown
    · exact ⟨type, rfl⟩
    · exact h.refers j known hknown

/-! ## Changes of the copy only -/

/-- A place that is none of a copy may get an underlying type with places that `f` tells. -/
theorem setUnderlying_other {id : Nat} (hid : ∀ i, f i ≠ id) (type : Ty) :
    t.Copied f (t'.setUnderlying id (type.rename f)) where
  injective := h.injective
  error := h.error
  comparable := h.comparable
  get? j := by
    rw [get?_setUnderlying, h.get? j]
    cases t.get? j with
    | none => rfl
    | some entry => simp [(hid j).symm]
  refers j known hknown := by
    rcases of_underlying?_setUnderlying hknown with rfl | hknown
    · exact ⟨type, rfl⟩
    · exact h.refers j known hknown

end Table.Copied

end GoSignatures
