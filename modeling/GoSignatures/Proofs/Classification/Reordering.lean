import GoSignatures.Proofs.Classification.Embedding

/-!
# The order of embedded elements

Two tables that differ in the order of embedded elements only agree on what an interface reaches:
whatever one of two interfaces reaches, the other one reaches too, up to that order.

* `Interface.Reordered` — the same interface up to the order of embedded elements
* `Table.Reordered` — the same table up to that order
* `Table.Reordered.reaches` — what is reached under one order is reached under the other
-/

namespace GoSignatures

/-- The same interface up to the order of embedded elements, its own and those of the interface
literals that it embeds. -/
inductive Interface.Reordered : Interface → Interface → Prop
  | own {methods : List Method} {es es' : List Embedded} {comparable : Bool} (h : es.Perm es') :
    Reordered ⟨methods, es, comparable⟩ ⟨methods, es', comparable⟩
  | literal {methods : List Method} {es es' : List Embedded} {comparable : Bool} {i j : Interface}
    (h : Reordered i j) : Reordered ⟨methods, es ++ .type (.interface i) :: es', comparable⟩
      ⟨methods, es ++ .type (.interface j) :: es', comparable⟩
  | trans {i j k : Interface} (h : Reordered i j) (h' : Reordered j k) : Reordered i k

/-- The same type, or interfaces that are the same up to the order of embedded elements. -/
inductive Ty.Reordered : Ty → Ty → Prop
  | refl (type : Ty) : Reordered type type
  | interface {i j : Interface} (h : i.Reordered j) : Reordered (.interface i) (.interface j)

/-- The same table up to the order of embedded elements in underlying types. -/
structure Table.Reordered (t t' : Table) : Prop where
  typeParams : ∀ id, t.typeParams id = t'.typeParams id
  underlying : ∀ id, Option.Rel Ty.Reordered (t.underlying? id) (t'.underlying? id)

/-! ## The elements of reordered interfaces -/

theorem Interface.Reordered.refl (i : Interface) : i.Reordered i := by
  obtain ⟨_, embeddeds, _⟩ := i
  exact .own (.refl embeddeds)

/-- An order may be changed back. -/
theorem Interface.Reordered.symm {i j : Interface} (h : i.Reordered j) : j.Reordered i := by
  induction h with
  | own h => exact .own h.symm
  | literal _ ih => exact .literal ih
  | trans _ _ ih ih' => exact .trans ih' ih

theorem Ty.Reordered.symm {type type' : Ty} (h : type.Reordered type') : type'.Reordered type := by
  cases h with
  | refl => exact .refl _
  | interface h => exact .interface h.symm

theorem Ty.Reordered.trans {type type' type'' : Ty} (h : type.Reordered type')
    (h' : type'.Reordered type'') : type.Reordered type'' := by
  cases h with
  | refl => exact h'
  | interface h =>
    cases h' with
    | refl => exact .interface h
    | interface h' => exact .interface (h.trans h')

theorem Table.Reordered.symm {t t' : Table} (h : t.Reordered t') : t'.Reordered t where
  typeParams id := (h.typeParams id).symm
  underlying id := by
    have hunderlying := h.underlying id
    generalize t.underlying? id = stored at hunderlying ⊢
    generalize t'.underlying? id = stored' at hunderlying ⊢
    cases hunderlying with
    | none => exact .none
    | some h => exact .some h.symm

theorem Interface.Reordered.methods {i j : Interface} (h : i.Reordered j) :
    i.methods = j.methods := by
  induction h with
  | own | literal => rfl
  | trans _ _ ih ih' => exact ih.trans ih'

theorem Interface.Reordered.comparable {i j : Interface} (h : i.Reordered j) :
    i.comparable = j.comparable := by
  induction h with
  | own | literal => rfl
  | trans _ _ ih ih' => exact ih.trans ih'

/-- The same element, or types that are the same up to the order of embedded elements. -/
inductive Embedded.Reordered : Embedded → Embedded → Prop
  | refl (e : Embedded) : Reordered e e
  | type {type type' : Ty} (h : type.Reordered type') : Reordered (.type type) (.type type')

theorem Embedded.Reordered.trans {e e' e'' : Embedded} (h : e.Reordered e')
    (h' : e'.Reordered e'') : e.Reordered e'' := by
  cases h with
  | refl => exact h'
  | type h =>
    cases h' with
    | refl => exact .type h
    | type h' => exact .type (h.trans h')

/-- Whatever one of the interfaces embeds, the other one embeds too. -/
theorem Interface.Reordered.embedded {i j : Interface} (h : i.Reordered j) :
    ∀ e ∈ i.embeddeds, ∃ e' ∈ j.embeddeds, e.Reordered e' := by
  induction h with
  | own h => exact fun e he => ⟨e, h.mem_iff.mp he, .refl e⟩
  | @literal _ _ _ _ _ j h _ =>
    intro e he
    rcases List.mem_append.mp he with he | he
    · exact ⟨e, List.mem_append_left _ he, .refl e⟩
    · rcases List.mem_cons.mp he with rfl | he
      · exact ⟨.type (.interface j), by simp, .type (.interface h)⟩
      · exact ⟨e, List.mem_append_right _ (List.mem_cons_of_mem _ he), .refl e⟩
  | trans _ _ ih ih' =>
    intro e he
    obtain ⟨e', he', h⟩ := ih e he
    obtain ⟨e'', he'', h'⟩ := ih' e' he'
    exact ⟨e'', he'', h.trans h'⟩

theorem Interface.Reordered.embeddedType {i j : Interface} (h : i.Reordered j) {type : Ty}
    (hmem : .type type ∈ i.embeddeds) :
    ∃ type', .type type' ∈ j.embeddeds ∧ type.Reordered type' := by
  obtain ⟨e', he', hreordered⟩ := h.embedded _ hmem
  cases hreordered with
  | refl => exact ⟨type, he', .refl type⟩
  | type h => exact ⟨_, he', h⟩

/-! ## Replacing type parameters -/

theorem Embedded.substs_append (bind : Binding) (es es' : List Embedded) :
    Embedded.substs bind (es ++ es') = Embedded.substs bind es ++ Embedded.substs bind es' := by
  induction es with
  | nil => rfl
  | cons e es ih => cases e <;> simp [Embedded.substs, ih]

theorem Embedded.perm_substs (bind : Binding) {es es' : List Embedded} (h : es.Perm es') :
    (Embedded.substs bind es).Perm (Embedded.substs bind es') := by
  induction h with
  | nil => exact .nil
  | cons e _ ih => cases e <;> exact ih.cons _
  | swap e e' es => cases e <;> cases e' <;> exact List.Perm.swap _ _ _
  | trans _ _ ih ih' => exact ih.trans ih'

theorem Interface.Reordered.subst (bind : Binding) {i j : Interface} (h : i.Reordered j) :
    (i.subst bind).Reordered (j.subst bind) := by
  induction h with
  | own h => exact .own (Embedded.perm_substs bind h)
  | literal _ ih =>
    simp only [Interface.subst, Embedded.substs_append, Embedded.substs, Ty.subst]
    exact .literal ih
  | trans _ _ ih ih' => exact ih.trans ih'

/-- Replacing type parameters keeps the elements apart, whatever their order is. -/
theorem Ty.Reordered.subst (bind : Binding) {type type' : Ty} (h : type.Reordered type') :
    (type.subst bind).Reordered (type'.subst bind) := by
  cases h with
  | refl => exact .refl _
  | interface h => exact .interface (h.subst bind)

/-! ## What is reached -/

variable {t t' : Table}

/-- Both tables know the instance or neither does. -/
theorem Table.Reordered.instance? (h : t.Reordered t') (id : Nat) (args : List Ty) :
    Option.Rel Ty.Reordered (t.instance? id args) (t'.instance? id args) := by
  have hunderlying := h.underlying id
  simp only [Table.instance?, h.typeParams id]
  generalize t.underlying? id = stored at hunderlying ⊢
  generalize t'.underlying? id = stored' at hunderlying ⊢
  cases hunderlying with
  | none => exact .none
  | some hstored =>
    refine .some ?_
    split
    · exact hstored
    · exact hstored.subst _

theorem Table.Reordered.underlying_self (h : t.Reordered t') :
    ∀ type : Ty, (t.underlying type).Reordered (t'.underlying type)
  | .named id args => by
    have hinstance := h.instance? id args
    simp only [Table.underlying]
    generalize t.instance? id args = found at hinstance ⊢
    generalize t'.instance? id args = found' at hinstance ⊢
    cases hinstance with
    | none => exact .refl _
    | some h => exact h
  | .imported _ _ (some type) => h.underlying_self type
  | .imported _ _ none | .basic _ | .param _ | .pointer _ | .slice _ | .array _ _ | .map _ _
  | .chan _ _ | .func _ | .struct _ | .interface _ | .invalid => .refl _

/-- Reordered types have reordered underlying types. -/
theorem Table.Reordered.underlying_of_reordered (h : t.Reordered t') {type type' : Ty}
    (htype : type.Reordered type') : (t.underlying type).Reordered (t'.underlying type') := by
  cases htype with
  | refl => exact h.underlying_self type
  | interface h => exact .interface h

/-- Where one table leads to an interface, the other one leads to the same up to the order. -/
theorem Table.Reordered.interface (h : t.Reordered t') {type type' : Ty} {i : Interface}
    (htype : type.Reordered type') (hi : t.underlying type = .interface i) :
    ∃ i', t'.underlying type' = .interface i' ∧ i.Reordered i' := by
  have hunder := h.underlying_of_reordered htype
  rw [hi] at hunder
  generalize t'.underlying type' = under at hunder ⊢
  cases hunder with
  | refl => exact ⟨i, rfl, .refl i⟩
  | interface h => exact ⟨_, rfl, h⟩

/-- What an interface reaches under one order it reaches under the other. -/
theorem Table.Reordered.reaches (h : t.Reordered t') {i i' k : Interface} (hi : i.Reordered i')
    (hk : t.Reaches i k) : ∃ k', t'.Reaches i' k' ∧ k.Reordered k' := by
  induction hk generalizing i' with
  | refl => exact ⟨i', .refl i', hi⟩
  | embedded hmem hj _ ih =>
    obtain ⟨type', hmem', htype⟩ := hi.embeddedType hmem
    obtain ⟨j', hj', hreordered⟩ := h.interface htype hj
    obtain ⟨k', hk', hreordered'⟩ := ih hreordered
    exact ⟨k', .embedded hmem' hj' hk', hreordered'⟩

theorem Table.Reordered.embedsInterfaces (h : t.Reordered t') {k k' : Interface}
    (hk : k.Reordered k') (hembeds : t.EmbedsInterfaces k) : t'.EmbedsInterfaces k' where
  not_comparable := hk.comparable ▸ hembeds.not_comparable
  interfaces e' he' := by
    obtain ⟨e, he, hreordered⟩ := hk.symm.embedded e' he'
    obtain ⟨type, j, rfl, hj⟩ := hembeds.interfaces e he
    cases hreordered with
    | refl =>
      obtain ⟨j', hj', -⟩ := h.interface (.refl type) hj
      exact ⟨type, j', rfl, hj'⟩
    | type htype =>
      obtain ⟨j', hj', -⟩ := h.interface htype.symm hj
      exact ⟨_, j', rfl, hj'⟩

/-- Whether an interface has a method set does not depend on the order. -/
theorem Table.Reordered.hasMethodSet (h : t.Reordered t') {i i' : Interface} (hi : i.Reordered i')
    (hset : t.HasMethodSet i) : t'.HasMethodSet i' := by
  intro k' hk'
  obtain ⟨k, hk, hreordered⟩ := h.symm.reaches hi.symm hk'
  exact h.embedsInterfaces hreordered.symm (hset k hk)

/-! ## Type parameters stay out -/

/-- The element is no type parameter and no interface that embeds one. -/
def Embedded.EmbedsNoParam : Embedded → Prop
  | .type elem => elem.EmbedsNoParam
  | .union _ => True

theorem Embedded.noneEmbedsParam_iff {es : List Embedded} :
    Embedded.NoneEmbedsParam es ↔ ∀ e ∈ es, e.EmbedsNoParam := by
  induction es with
  | nil => simp [Embedded.NoneEmbedsParam]
  | cons e es ih => cases e <;> simp [Embedded.NoneEmbedsParam, Embedded.EmbedsNoParam, ih]

/-- Nor does it depend on the order whether a type parameter is embedded. -/
theorem Interface.Reordered.embedsNoParam {i j : Interface} (h : i.Reordered j)
    (hi : i.EmbedsNoParam) : j.EmbedsNoParam := by
  induction h with
  | own h =>
    exact Embedded.noneEmbedsParam_iff.mpr fun e he =>
      Embedded.noneEmbedsParam_iff.mp hi e (h.mem_iff.mpr he)
  | literal _ ih =>
    simp only [Interface.EmbedsNoParam, Embedded.noneEmbedsParam_iff, List.forall_mem_append,
      List.forall_mem_cons] at hi ⊢
    exact ⟨hi.1, ih hi.2.1, hi.2.2⟩
  | trans _ _ ih ih' => exact ih' (ih hi)

theorem Table.Reordered.embedsNoParam (h : t.Reordered t') (hno : t.EmbedsNoParam) :
    t'.EmbedsNoParam := by
  intro id type htype
  have hunderlying := h.underlying id
  rw [htype] at hunderlying
  generalize hstored : t.underlying? id = stored at hunderlying
  cases hunderlying with
  | some hreordered =>
    have hparam := hno id _ hstored
    cases hreordered with
    | refl => exact hparam
    | interface h => exact h.embedsNoParam hparam

end GoSignatures
