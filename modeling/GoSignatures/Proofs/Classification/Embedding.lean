import GoSignatures.Classification.MethodSet
import GoSignatures.Proofs.Lists

/-!
# Embedding and the method set

An interface reaches the interfaces that it embeds and those that they embed. Its methods are those
of all interfaces that it reaches, and it has a method set when nothing that it reaches speaks
against one. The computation goes through a declared type once only, for the arguments under which
it is embedded first: under other arguments the interface embeds the same declared types and
declares methods of the same names, unless a type parameter itself is embedded.

* `Table.Reaches` — an interface reaches another one by embedding
* `Table.HasMethodSet` — nothing that an interface reaches speaks against a method set
* `Table.MethodSetOf` — methods that make up the method set of an interface
* `Table.EmbedsNoParam` — no entry of the table embeds a type parameter
* `Interface.Covered` — an interface is accounted for by a state of the computation
* `Table.covered_instance` — a declared type is covered under all arguments if it is under some
-/

namespace GoSignatures

/-! ## What an interface reaches -/

/-- The interface `i` reaches `k` by embedding: through declared types under their arguments,
through imported types that are known, and through interface literals. -/
inductive Table.Reaches (t : Table) : Interface → Interface → Prop
  | refl (i : Interface) : Reaches t i i
  | embedded {i j k : Interface} {type : Ty} (hmem : .type type ∈ i.embeddeds)
      (hj : t.underlying type = .interface j) (hk : Reaches t j k) : Reaches t i k

/-- An interface reaches `k` through an element that it embeds. -/
def Table.Leads (t : Table) (type : Ty) (k : Interface) : Prop :=
  ∃ j, t.underlying type = .interface j ∧ t.Reaches j k

/-- An interface is not the predeclared `comparable` and embeds interfaces only: neither a union
nor a type that is no interface. -/
structure Table.EmbedsInterfaces (t : Table) (k : Interface) : Prop where
  not_comparable : k.comparable = false
  interfaces : ∀ e ∈ k.embeddeds, ∃ type j, e = .type type ∧ t.underlying type = .interface j

/-- Nothing that an interface reaches speaks against a method set. -/
def Table.HasMethodSet (t : Table) (i : Interface) : Prop :=
  ∀ k, t.Reaches i k → t.EmbedsInterfaces k

/-- `ms` is a method set of `i`: methods that are declared by interfaces that `i` reaches, one of
each name. -/
structure Table.MethodSetOf (t : Table) (i : Interface) (ms : List Method) : Prop where
  declared : ∀ m ∈ ms, ∃ k, t.Reaches i k ∧ m ∈ k.methods
  distinct : (ms.map Method.name).Nodup
  complete : ∀ k, t.Reaches i k → ∀ m ∈ k.methods, m.name ∈ ms.map Method.name

variable {t : Table}

/-- What holds of an interface and passes on to what is embedded holds of all that it reaches. -/
theorem Table.Reaches.invariant {P : Interface → Prop}
    (hstep : ∀ i type j, P i → .type type ∈ i.embeddeds → t.underlying type = .interface j → P j)
    {i k : Interface} (h : t.Reaches i k) (hi : P i) : P k := by
  induction h with
  | refl => exact hi
  | embedded hmem hj _ ih => exact ih (hstep _ _ _ hi hmem hj)

theorem Table.HasMethodSet.embedded {i j : Interface} {type : Ty} (h : t.HasMethodSet i)
    (hmem : .type type ∈ i.embeddeds) (hj : t.underlying type = .interface j) :
    t.HasMethodSet j :=
  fun k hk => h k (.embedded hmem hj hk)

/-! ## Embedding without type parameters -/

mutual

/-- The type is no type parameter and, if it is an interface, embeds none. -/
def Ty.EmbedsNoParam : Ty → Prop
  | .param _ => False
  | .interface iface => iface.EmbedsNoParam
  | _ => True

/-- No element is a type parameter or an interface that embeds one. -/
def Embedded.NoneEmbedsParam : List Embedded → Prop
  | [] => True
  | .type type :: es => type.EmbedsNoParam ∧ Embedded.NoneEmbedsParam es
  | .union _ :: es => Embedded.NoneEmbedsParam es

/-- The interface embeds no type parameter, neither itself nor in an interface literal. -/
def Interface.EmbedsNoParam : Interface → Prop
  | ⟨_, embeddeds, _⟩ => Embedded.NoneEmbedsParam embeddeds

end

/-- The underlying type of no entry is a type parameter or an interface that embeds one. -/
def Table.EmbedsNoParam (t : Table) : Prop :=
  ∀ id type, t.underlying? id = some type → type.EmbedsNoParam

/-! ## What the computation accounts for

An interface is covered when its methods and, through literals, those of the interfaces that it
embeds are found by name, and the declared types among these are entered. -/

mutual

/-- The interface is covered by the methods found and the declared types entered. -/
def Interface.Covered (s : Methods) : Interface → Prop
  | ⟨methods, embeddeds, comparable⟩ =>
    comparable = false ∧ methods.map Method.name ⊆ s.found.map Method.name ∧
      Embedded.AllCovered s embeddeds

/-- All elements are interfaces that are covered. -/
def Embedded.AllCovered (s : Methods) : List Embedded → Prop
  | [] => True
  | .type type :: es => type.Covered s ∧ Embedded.AllCovered s es
  | .union _ :: _ => False

/-- The type is an interface that is covered, or a declared type that is entered. -/
def Ty.Covered (s : Methods) : Ty → Prop
  | .named id _ => id ∈ s.entered
  | .interface iface => iface.Covered s
  | .imported _ _ underlying => Ty.KnownCovered s underlying
  | _ => False

/-- The same for what is known about an imported type. -/
def Ty.KnownCovered (s : Methods) : Option Ty → Prop
  | none => False
  | some type => type.Covered s

end

section

variable {s s' : Methods} (hfound : s.found.map Method.name ⊆ s'.found.map Method.name)
  (hentered : s.entered ⊆ s'.entered)
include hfound hentered

-- each lemma of the block has the assumptions for the others, which the linter does not see
set_option linter.unusedSectionVars false in
mutual

theorem Interface.Covered.mono : ∀ {i : Interface}, i.Covered s → i.Covered s'
  | ⟨_, _, _⟩, ⟨hcomparable, hmethods, hembeddeds⟩ =>
    ⟨hcomparable, List.Subset.trans hmethods hfound, Embedded.AllCovered.mono hembeddeds⟩
termination_by structural i => i

theorem Embedded.AllCovered.mono :
    ∀ {es : List Embedded}, Embedded.AllCovered s es → Embedded.AllCovered s' es
  | [], _ => trivial
  | .type _ :: _, ⟨h, hs⟩ => ⟨Ty.Covered.mono h, Embedded.AllCovered.mono hs⟩
  | .union _ :: _, h => h.elim
termination_by structural es => es

theorem Ty.Covered.mono : ∀ {type : Ty}, type.Covered s → type.Covered s'
  | .named _ _, h => hentered h
  | .interface iface, h => Interface.Covered.mono (i := iface) h
  | .imported _ _ underlying, h => @Ty.KnownCovered.mono underlying h
termination_by structural type => type

theorem Ty.KnownCovered.mono :
    ∀ {underlying : Option Ty}, Ty.KnownCovered s underlying → Ty.KnownCovered s' underlying
  | none, h => h.elim
  | some type, h => @Ty.Covered.mono type h
termination_by structural underlying => underlying

end

end

theorem Method.map_name_substs (bind : Binding) (ms : List Method) :
    (Method.substs bind ms).map Method.name = ms.map Method.name := by
  induction ms with
  | nil => rfl
  | cons m ms ih =>
    cases m
    simp [Method.substs, ih]

section

variable {s : Methods} {bind : Binding}

mutual

/-- Replacing type parameters does not matter to what is covered where none is embedded. -/
theorem Ty.covered_subst :
    ∀ {type : Ty}, type.EmbedsNoParam → ((type.subst bind).Covered s ↔ type.Covered s)
  | .interface iface, h => Interface.covered_subst (i := iface) h
  | .param _, h => h.elim
  | .basic _, _ | .named _ _, _ | .imported _ _ _, _ | .pointer _, _ | .slice _, _ | .array _ _, _
  | .map _ _, _ | .chan _ _, _ | .func _, _ | .struct _, _ | .invalid, _ => Iff.rfl
termination_by structural type => type

theorem Embedded.allCovered_substs :
    ∀ {es : List Embedded}, Embedded.NoneEmbedsParam es →
      (Embedded.AllCovered s (Embedded.substs bind es) ↔ Embedded.AllCovered s es)
  | [], _ => Iff.rfl
  | .type _ :: _, ⟨h, hs⟩ => and_congr (Ty.covered_subst h) (Embedded.allCovered_substs hs)
  | .union _ :: _, _ => Iff.rfl
termination_by structural es => es

theorem Interface.covered_subst :
    ∀ {i : Interface}, i.EmbedsNoParam → ((i.subst bind).Covered s ↔ i.Covered s)
  | ⟨methods, embeddeds, _⟩, h => by
    simp only [Interface.subst, Interface.Covered, Method.map_name_substs]
    exact and_congr_right fun _ => and_congr_right fun _ => Embedded.allCovered_substs h
termination_by structural i => i

end

end

/-- A declared type is covered under all arguments if it is under some. -/
theorem Table.covered_instance (hno : t.EmbedsNoParam) {s : Methods} {id : Nat}
    {args args' : List Ty}
    {j : Interface} (hj : t.underlying (.named id args) = .interface j) (h : j.Covered s) :
    ∃ j', t.underlying (.named id args') = .interface j' ∧ j'.Covered s := by
  -- under arguments a stored interface stays one, with what is embedded unchanged
  have hshape : ∀ type : Ty, type.EmbedsNoParam → ∀ bind,
      (∃ j, type.subst bind = .interface j) → ∃ i, type = .interface i := by
    intro type hparam bind hinterface
    cases type with
    | interface i => exact ⟨i, rfl⟩
    | param => exact hparam.elim
    | _ => simp [Ty.subst] at hinterface
  cases hstored : t.underlying? id with
  | none => simp [Table.underlying, Table.instance?, hstored] at hj
  | some type =>
    have hparam := hno id type hstored
    have hunder : ∀ args, t.underlying (.named id args) =
        if args.isEmpty then type else type.instantiate (t.typeParams id) args := by
      intro args
      simp [Table.underlying, Table.instance?, hstored]
    have hcovered : ∃ i, type = .interface i ∧ i.Covered s := by
      rw [hunder] at hj
      split at hj
      · exact ⟨j, hj, h⟩
      · obtain ⟨i, rfl⟩ := hshape type hparam _ ⟨j, hj⟩
        simp only [Ty.instantiate, Ty.subst, Ty.interface.injEq] at hj
        exact ⟨i, rfl, (Interface.covered_subst hparam).mp (hj ▸ h)⟩
    obtain ⟨i, rfl, hi⟩ := hcovered
    rw [hunder]
    split
    · exact ⟨i, rfl, hi⟩
    · exact ⟨_, rfl, (Interface.covered_subst hparam).mpr hi⟩

end GoSignatures
