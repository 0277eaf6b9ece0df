import GoSignatures.Proofs.Resolution.Growth
import GoSignatures.Proofs.Resolution.Remembering
import GoSignatures.Proofs.Ty.Copying

/-!
# What is put back

Resolving a type expression may enter any number of declared types on the way, and it may end with
an error anywhere in between. However it ends, the type parameters in force and the other names that
are being resolved are the ones from before, and no entry of the table is changed that was there
before; so a place receives its underlying type from the declaration for which it was made, or when
the types that wait are settled, and only once.

* `Memory.Grows` — what was remembered stays
* `Memory.Once` — no place receives an underlying type twice
* `Memory.Restores` — what was remembered stays, and the context is the same
* `TypeExpr.resolveIn_putsBack`, `Env.enterTypeIn_putsBack` — steps that do so, however they end
* `Env.resolveAllIn_once` — over a whole file no place receives an underlying type twice
-/

namespace GoSignatures

open Remember

/-! ## What stays -/

namespace Memory

/-- The places that have received an underlying type or wait for one. -/
def due (m : Memory) : List Nat :=
  m.assigned ++ m.pending.map Prod.fst

/-- The predeclared types apart, every place with an underlying type has received it. -/
def Received (m : Memory) : Prop :=
  ∀ id type, m.table.underlying? id = some type → id < Table.initial.size ∨ id ∈ m.assigned

/-- No place has received an underlying type twice, and none that waits for one has received one.
The predeclared types are not among them. -/
structure Once (m : Memory) : Prop where
  nodup : m.due.Nodup
  size : Table.initial.size ≤ m.table.size
  place : ∀ id ∈ m.due, Table.initial.size ≤ id ∧ id < m.table.size
  received : m.Received

/-- What is remembered in `m` is remembered in `m'`, with each entry of the table as it was. -/
structure Grows (m m' : Memory) : Prop where
  entries : m.table.entries <+: m'.table.entries
  entered : m.entered <+: m'.entered
  aliases : ∀ name type, m.aliases.lookup name = some type → m'.aliases.lookup name = some type
  resolving : m'.resolving = m.resolving
  fresh : ∀ id < m.table.size, id ∈ m'.due → id ∈ m.due
  once : m.Once → m'.Once

/-- What is remembered in `m` is remembered in `m'`, and the context is the same. -/
structure Restores (m m' : Memory) : Prop extends Grows m m' where
  params : m'.params = m.params

variable {m m₁ m' : Memory} {id : Nat}

theorem Grows.refl (m : Memory) : m.Grows m :=
  ⟨List.prefix_rfl, List.prefix_rfl, fun _ _ h => h, rfl, fun _ _ h => h, fun h => h⟩

theorem Grows.size (h : m.Grows m') : m.table.size ≤ m'.table.size :=
  h.entries.length_le

theorem Grows.trans (h : m.Grows m₁) (h' : m₁.Grows m') : m.Grows m' where
  entries := h.entries.trans h'.entries
  entered := h.entered.trans h'.entered
  aliases name type hname := h'.aliases name type (h.aliases name type hname)
  resolving := h'.resolving.trans h.resolving
  fresh id hid hdue := h.fresh id hid (h'.fresh id (Nat.lt_of_lt_of_le hid h.size) hdue)
  once honce := h'.once (h.once honce)

theorem Restores.refl (m : Memory) : m.Restores m :=
  ⟨.refl m, rfl⟩

theorem Restores.trans (h : m.Restores m₁) (h' : m₁.Restores m') : m.Restores m' :=
  ⟨h.toGrows.trans h'.toGrows, h'.params.trans h.params⟩

theorem Once.of_perm (h : m.Once) (hdue : m'.due.Perm m.due)
    (hsize : m'.table.size = m.table.size) (hreceived : m'.Received) : m'.Once where
  nodup := hdue.nodup_iff.mpr h.nodup
  size := hsize ▸ h.size
  place id hid := hsize ▸ h.place id (hdue.mem_iff.mp hid)
  received := hreceived

theorem Once.of_eq (h : m.Once) (htable : m'.table = m.table) (hassigned : m'.assigned = m.assigned)
    (hdue : m'.due = m.due) : m'.Once := by
  refine h.of_perm (.of_eq hdue) (congrArg Table.size htable) fun id type hid => ?_
  rw [htable] at hid
  exact hassigned ▸ h.received id type hid

/-- A place to which an underlying type is assigned has received it. -/
theorem Received.assign (h : m.Received) (hid : id < m.table.size) (type : Ty) :
    (memory (Remember.assign id type m)).Received := by
  intro id' type' hknown
  have hknown : (m.table.setUnderlying id type).underlying? id' = some type' := hknown
  rw [Table.underlying?_setUnderlying _ _ hid] at hknown
  split at hknown
  · next hsame => exact Or.inr (List.mem_append_right _ (List.mem_singleton.mpr hsame))
  · exact (h id' type' hknown).imp_right (List.mem_append_left _)

/-- Where nothing was forgotten in another context, nothing was when the context is put back. -/
theorem Grows.back {params resolving : List String}
    (h : ({ m with params := params, resolving := resolving } : Memory).Grows m') :
    m.Restores { m' with params := m.params, resolving := m.resolving } where
  entries := h.entries
  entered := h.entered
  aliases := h.aliases
  resolving := rfl
  fresh := h.fresh
  once honce := (h.once (honce.of_eq rfl rfl rfl)).of_eq rfl rfl rfl
  params := rfl

/-- Another name for a type may be remembered anew once it was resolved. -/
theorem Restores.addAlias (h : m.Restores m') {name : String}
    (hnew : m.aliases.lookup name = none) (type : Ty) :
    m.Restores { m' with aliases := (name, type) :: m'.aliases } where
  entries := h.entries
  entered := h.entered
  aliases name' type' hname' := by
    have hne : name' ≠ name := by
      rintro rfl
      rw [hnew] at hname'
      cases hname'
    rw [List.lookup_cons, beq_false_of_ne hne]
    exact h.aliases name' type' hname'
  resolving := h.resolving
  fresh := h.fresh
  once honce := (h.once honce).of_eq rfl rfl rfl
  params := h.params

/-- The places that are due are as many and the same when a place is added at either end. -/
theorem Once.add (h : m.Once) (hnew : id ∉ m.due) (hid : Table.initial.size ≤ id)
    (hsize : id < m.table.size) (hdue : m'.due.Perm (id :: m.due))
    (htable : m'.table.size = m.table.size) (hreceived : m'.Received) : m'.Once where
  nodup := hdue.nodup_iff.mpr (List.nodup_cons.mpr ⟨hnew, h.nodup⟩)
  size := htable ▸ h.size
  place id' hid' := by
    rw [htable]
    rcases List.mem_cons.mp (hdue.mem_iff.mp hid') with rfl | hid'
    · exact ⟨hid, hsize⟩
    · exact h.place id' hid'
  received := hreceived

end Memory

/-! ## Steps that keep -/

namespace Remember

variable {α β γ : Type}

/-- From each memory a step leads to one that is in the relation `R` to it, however it ends. -/
def Leads (R : Memory → Memory → Prop) (x : Remember α) : Prop :=
  ∀ m, R m (memory (x m))

/-- However it ends, a step forgets nothing and puts the context back. -/
abbrev PutsBack (x : Remember α) : Prop :=
  Leads Memory.Restores x

/-- What holds at the end of a first step, where it may be the last one, and at the end of the
second one from there, holds at the end of both. -/
theorem memory_bind {Q : Memory → Prop} {x : Remember α} {f : α → Remember β} {m : Memory}
    (hx : Q (memory (x m))) (hf : ∀ a, Q (memory (f a (memory (x m))))) :
    Q (memory ((x >>= f) m)) := by
  show Q (memory (EStateM.bind x f m))
  rw [EStateM.bind]
  cases hrun : x m with
  | ok a m₁ =>
    rw [hrun] at hf
    exact hf a
  | error e m₁ =>
    rw [hrun] at hx
    exact hx

namespace PutsBack

theorem pure (a : α) : PutsBack (Pure.pure a) := fun m => .refl m

theorem fail {env : Env} {position : Position} {cause : ResolveCause} :
    PutsBack (env.failIn position cause : Remember α) := fun m => .refl m

theorem bind {x : Remember α} {f : α → Remember β} (hx : PutsBack x) (hf : ∀ a, PutsBack (f a)) :
    PutsBack (x >>= f) :=
  fun m => memory_bind (hx m) fun a => (hx m).trans (hf a _)

theorem read {f : Memory → Remember β} (hf : ∀ m, PutsBack (f m)) : PutsBack (get >>= f) :=
  bind (fun m => .refl m) hf

theorem map (f : α → β) {x : Remember α} (hx : PutsBack x) : PutsBack (do return f (← x)) :=
  bind hx fun a => pure (f a)

theorem map₂ (f : α → β → γ) {x : Remember α} {y : Remember β} (hx : PutsBack x) (hy : PutsBack y) :
    PutsBack (do return f (← x) (← y)) :=
  bind hx fun a => map (f a) hy

theorem defineAll (ds : List Definition) :
    PutsBack (update fun p => { p with definitions := p.definitions ++ ds }) :=
  fun _ => ⟨⟨List.prefix_rfl, List.prefix_rfl, fun _ _ h => h, rfl, fun _ _ h => h,
    fun h => h.of_eq rfl rfl rfl⟩, rfl⟩

theorem define (d : Definition) : PutsBack (update fun p => p.define d) :=
  defineAll [d]

theorem withParams (names : List String) {x : Remember α} (hx : Leads Memory.Grows x) :
    PutsBack (Remember.withParams names x) := by
  intro m
  unfold Remember.withParams
  rw [get_bind, modify_bind, capture_bind, modify_bind, memory_pass]
  have hgrows := hx { m with params := names }
  generalize x { m with params := names } = result at hgrows ⊢
  have hsame : (memory result).resolving = m.resolving := hgrows.resolving
  rw [hsame]
  exact hgrows.back

theorem forM {f : α → Remember Unit} (hf : ∀ a, PutsBack (f a)) : ∀ l : List α, PutsBack (l.forM f)
  | [] => pure ()
  | a :: l => bind (hf a) fun _ => forM hf l

end PutsBack

end Remember

/-! ## Type expressions -/

section

variable (env : Env) {enter : EnterTypeIn} (henter : ∀ name, PutsBack (enter name))
include henter

omit henter in
theorem Ty.ofUndeclaredNameIn_putsBack (name : Piece) :
    PutsBack (Ty.ofUndeclaredNameIn env name) := by
  unfold Ty.ofUndeclaredNameIn
  split
  · exact .pure _
  · split
    · exact .fail
    · split
      · exact .pure _
      · exact .fail

theorem Ty.ofNameIn_putsBack (name : Piece) : PutsBack (Ty.ofNameIn env enter name) := by
  refine .read fun m => ?_
  split
  · exact .pure _
  · split
    · exact henter name
    · exact .fail
    · exact Ty.ofUndeclaredNameIn_putsBack env name

theorem Ty.ofBareNameIn_putsBack (name : Piece) : PutsBack (Ty.ofBareNameIn env enter name) := by
  refine .bind (Ty.ofNameIn_putsBack env henter name) fun type => ?_
  split
  · refine .read fun m => ?_
    dsimp only
    split
    · exact .fail
    · exact .pure _
  · exact .pure _

theorem Ty.ofGenericNameIn_putsBack (name : Piece) (args : List Ty) :
    PutsBack (Ty.ofGenericNameIn env enter name args) := by
  refine .bind (Ty.ofNameIn_putsBack env henter name) fun type => ?_
  split
  · refine .read fun m => ?_
    dsimp only
    split
    · exact .pure _
    · exact .fail
  · split
    · exact .pure _
    · exact .fail

theorem TypeName.resolveIn_putsBack (args : List Ty) (name : TypeName) :
    PutsBack (name.resolveIn env enter args) := by
  cases name with
  | plain name =>
    rw [TypeName.resolveIn]
    split
    · exact Ty.ofBareNameIn_putsBack env henter name
    · exact Ty.ofGenericNameIn_putsBack env henter name args
  | qualified package name =>
    rw [TypeName.resolveIn, Ty.ofQualifiedNameIn]
    split
    · exact .read fun _ => .pure _
    · exact .fail

-- each lemma of the block has the assumptions for the others, which the linter does not see
set_option linter.unusedSectionVars false in
mutual

/-- However resolving a type expression ends, nothing is forgotten and the context is put back. -/
theorem TypeExpr.resolveIn_putsBack : ∀ e : TypeExpr, PutsBack (e.resolveIn env enter)
  | .named name args =>
    (TypeArg.resolveAllIn_putsBack args).bind fun args => name.resolveIn_putsBack env henter args
  | .pointer elem => (TypeExpr.resolveIn_putsBack elem).map Ty.pointer
  | .slice elem => (TypeExpr.resolveIn_putsBack elem).map Ty.slice
  | .array length elem =>
    (TypeExpr.resolveIn_putsBack elem).map (Ty.array (length.arrayLen env.scope))
  | .map key value =>
    (TypeExpr.resolveIn_putsBack key).map₂ Ty.map (TypeExpr.resolveIn_putsBack value)
  | .chan dir elem => (TypeExpr.resolveIn_putsBack elem).map (Ty.chan dir)
  | .func sig => (SignatureExpr.resolveIn_putsBack sig).map Ty.func
  | .struct fields => (FieldDecl.resolveAllIn_putsBack fields).map Ty.struct
  | .interface elems =>
    (InterfaceElem.resolveAllIn_putsBack elems).map fun found : List ResolvedElem =>
      Ty.interface (.ofElems (found.filterMap Sum.getLeft?) (found.filterMap Sum.getRight?))
  | .group inner => TypeExpr.resolveIn_putsBack inner
  | .tilde inner => (TypeExpr.resolveIn_putsBack inner).map fun type => Ty.union [⟨true, type⟩]
termination_by structural e => e

theorem TypeExpr.resolveTermsIn_putsBack :
    ∀ terms : List TypeExpr, PutsBack (TypeExpr.resolveTermsIn env enter terms)
  | [] => .pure _
  | term :: terms => by
    have hterm := TypeExpr.resolveIn_putsBack term
    have hterms := TypeExpr.resolveTermsIn_putsBack terms
    cases term
    case tilde inner =>
      exact (TypeExpr.resolveIn_putsBack inner).map₂
        (fun type terms => (⟨true, type⟩ : Term) :: terms) hterms
    all_goals exact hterm.map₂ (fun type terms => (⟨false, type⟩ : Term) :: terms) hterms
termination_by structural terms => terms

theorem TypeArg.resolveAllIn_putsBack :
    ∀ args : List TypeArg, PutsBack (TypeArg.resolveAllIn env enter args)
  | [] => .pure _
  | ⟨_, terms⟩ :: args =>
    (TypeExpr.resolveTermsIn_putsBack terms).map₂ (fun terms types => Ty.ofTerms terms :: types)
      (TypeArg.resolveAllIn_putsBack args)
termination_by structural args => args

theorem SignatureExpr.resolveIn_putsBack : ∀ sig : SignatureExpr, PutsBack (sig.resolveIn env enter)
  | ⟨decls, results⟩ =>
    (ParamDecl.resolveAllIn_putsBack decls).map₂
      (fun vars results =>
        (⟨none, [], vars, results, decls.any ParamDecl.variadic⟩ : Signature))
      (ResultExpr.resolveIn_putsBack results)
termination_by structural sig => sig

theorem ResultExpr.resolveIn_putsBack :
    ∀ results : ResultExpr, PutsBack (results.resolveIn env enter)
  | .list decls => ParamDecl.resolveAllIn_putsBack decls
  | .single type => (TypeExpr.resolveIn_putsBack type).map fun type => [(⟨"", type⟩ : Var)]
termination_by structural results => results

theorem ParamDecl.resolveAllIn_putsBack :
    ∀ decls : List ParamDecl, PutsBack (ParamDecl.resolveAllIn env enter decls)
  | [] => .pure _
  | ⟨names, type, variadic⟩ :: decls =>
    (TypeExpr.resolveIn_putsBack type).map₂
      (fun type vars => Var.ofNames names (if variadic then .slice type else type) ++ vars)
      (ParamDecl.resolveAllIn_putsBack decls)
termination_by structural decls => decls

theorem FieldDecl.resolveAllIn_putsBack :
    ∀ decls : List FieldDecl, PutsBack (FieldDecl.resolveAllIn env enter decls)
  | [] => .pure _
  | .named names type tag :: decls =>
    (TypeExpr.resolveIn_putsBack type).map₂
      (fun type fields => Field.ofNames names type (tag.map Text.StringLiteral.unquote) ++ fields)
      (FieldDecl.resolveAllIn_putsBack decls)
  | .embedded pointer name args tag :: decls => by
    have hname : PutsBack (do name.resolveIn env enter (← TypeArg.resolveAllIn env enter args)) :=
      (TypeArg.resolveAllIn_putsBack args).bind fun types =>
        name.resolveIn_putsBack env henter types
    have hembedded := hname.map₂
      (fun type fields => (⟨name.unqualified, if pointer then .pointer type else type, true,
        tag.map Text.StringLiteral.unquote⟩ : Field) :: fields)
      (FieldDecl.resolveAllIn_putsBack decls)
    simpa only [FieldDecl.resolveAllIn, bind_assoc] using hembedded
termination_by structural decls => decls

theorem InterfaceElem.resolveAllIn_putsBack :
    ∀ elems : List InterfaceElem, PutsBack (InterfaceElem.resolveAllIn env enter elems)
  | [] => .pure _
  | .method name sig :: elems =>
    (SignatureExpr.resolveIn_putsBack sig).bind fun signature =>
      (PutsBack.define (.func ⟨name.text, signature, name.position, .interface⟩)).bind fun _ =>
        (InterfaceElem.resolveAllIn_putsBack elems).map
          fun found => (.inl ⟨name.text, signature⟩ :: found : List ResolvedElem)
  | .union terms :: elems =>
    (TypeExpr.resolveTermsIn_putsBack terms).map₂
      (fun terms found => (.inr (.ofTerms terms) :: found : List ResolvedElem))
      (InterfaceElem.resolveAllIn_putsBack elems)
termination_by structural elems => elems

end

theorem TypeParamDecl.resolveConstraintsIn_putsBack :
    ∀ decls : List TypeParamDecl, PutsBack (TypeParamDecl.resolveConstraintsIn env enter decls)
  | [] => .pure _
  | ⟨names, constraint⟩ :: decls =>
    (TypeExpr.resolveTermsIn_putsBack env henter constraint).map₂
      (fun terms found => names.map (fun name => (⟨name, Ty.ofTerms terms⟩ : TypeParam)) ++ found)
      (TypeParamDecl.resolveConstraintsIn_putsBack decls)

/-- Declarations of type parameters bring their names in force, and change nothing else. -/
theorem TypeParamDecl.resolveAllIn_grows (decls : List TypeParamDecl) :
    Leads Memory.Grows (TypeParamDecl.resolveAllIn env enter decls) := by
  intro m
  have hkept := TypeParamDecl.resolveConstraintsIn_putsBack env henter decls
    { m with params := m.params ++ TypeParamDecl.allNames decls }
  exact ⟨hkept.entries, hkept.entered, hkept.aliases, hkept.resolving, hkept.fresh,
    fun honce => hkept.once (honce.of_eq rfl rfl rfl)⟩

end

/-! ## Defined types -/

namespace Memory

/-- Since `m₀` the entry at `id` was made, and it has received no underlying type yet. -/
structure Entering (m₀ : Memory) (id : Nat) (m : Memory) : Prop where
  grows : m₀.Grows m
  new : m₀.table.size ≤ id
  place : id < m.table.size
  unsettled : m₀.Once → id ∉ m.due

variable {m₀ m m' : Memory} {id : Nat}

theorem Entering.step (h : m₀.Entering id m) (hstep : m.Grows m') : m₀.Entering id m' where
  grows := h.grows.trans hstep
  new := h.new
  place := Nat.lt_of_lt_of_le h.place hstep.size
  unsettled honce hid := h.unsettled honce (hstep.fresh id h.place hid)

/-- An entry that is made where nothing is in force is new. -/
theorem entering_enter (m : Memory) (name : Piece) (package : String) :
    Entering { m with params := [], resolving := [] } m.table.size
      { m with toProgress := m.toProgress.enter name package, params := [], resolving := [] } where
  grows := {
    entries := List.prefix_append _ _
    entered := List.prefix_append _ _
    aliases := fun _ _ h => h
    resolving := rfl
    fresh := fun _ _ h => h
    once := fun h => by
      have hsize : (m.toProgress.enter name package).table.size = m.table.size + 1 :=
        Table.size_declare ..
      refine ⟨h.nodup, hsize ▸ Nat.le_succ_of_le h.size, fun id hid => ?_, fun id type hid => ?_⟩
      · obtain ⟨hle, hlt⟩ := h.place id hid
        exact ⟨hle, hsize ▸ Nat.lt_succ_of_lt hlt⟩
      · exact h.received id type ((Table.Copied.underlying?_declare ..).symm.trans hid) }
  new := Nat.le_refl _
  place := by
    show m.table.size < (m.table.declare name.text package).size
    rw [Table.size_declare]
    exact Nat.lt_succ_self _
  unsettled h hid := Nat.lt_irrefl _ (h.place _ hid).2

/-- The entries from before are not reached by a change at a later place. -/
theorem prefix_modify {l l' : List NamedType} (h : l <+: l') (hid : l.length ≤ id)
    (f : NamedType → NamedType) : l <+: l'.modify id f := by
  rw [List.prefix_iff_getElem?] at h ⊢
  intro i hi
  have hne : id ≠ i := Nat.ne_of_gt (Nat.lt_of_lt_of_le hi hid)
  simp [h i hi, hne]

theorem Entering.setTypeParams (h : m₀.Entering id m) (params : List TypeParam) :
    m₀.Entering id { m with table := m.table.setTypeParams id params } where
  grows := {
    h.grows with
    entries := prefix_modify h.grows.entries h.new _
    once := fun honce =>
      have honce := h.grows.once honce
      honce.of_perm (.of_eq rfl) (Table.size_setTypeParams ..) fun id type hid =>
        honce.received id type ((Table.underlying?_setTypeParams ..).symm.trans hid) }
  new := h.new
  place := (Table.size_setTypeParams m.table id params).symm ▸ h.place
  unsettled := h.unsettled

/-- What becomes due at the place that was made. -/
theorem Entering.due (h : m₀.Entering id m) (hdue : m'.due.Perm (id :: m.due))
    (hsize : m'.table.size = m.table.size) (hreceived : m.Received → m'.Received) :
    (∀ id' < m₀.table.size, id' ∈ m'.due → id' ∈ m₀.due) ∧ (m₀.Once → m'.Once) := by
  refine ⟨fun id' hid' hmem => ?_, fun honce => ?_⟩
  · rcases List.mem_cons.mp (hdue.mem_iff.mp hmem) with rfl | hmem
    · exact absurd h.new (Nat.not_le_of_lt hid')
    · exact h.grows.fresh id' hid' hmem
  · have honce' := h.grows.once honce
    exact honce'.add (h.unsettled honce) (Nat.le_trans honce.size h.new) h.place hdue hsize
      (hreceived honce'.received)

/-- An underlying type is assigned to the place that was made. -/
theorem Entering.assign (h : m₀.Entering id m) (type : Ty) :
    m₀.Grows (memory (Remember.assign id type m)) := by
  have hdue : (memory (Remember.assign id type m)).due.Perm (id :: m.due) := by
    show ((m.assigned ++ [id]) ++ m.pending.map Prod.fst).Perm (id :: m.due)
    rw [List.append_assoc]
    exact List.perm_middle
  obtain ⟨hfresh, honce⟩ := h.due hdue (Table.size_setUnderlying ..) fun hreceived =>
    hreceived.assign h.place type
  exact {
    h.grows with
    entries := prefix_modify h.grows.entries h.new _
    fresh := hfresh
    once := honce }

/-- The place that was made waits for an underlying type. -/
theorem Entering.wait (h : m₀.Entering id m) (target : Nat) :
    m₀.Grows (memory (Remember.wait id target m)) := by
  have hdue : (memory (Remember.wait id target m)).due.Perm (id :: m.due) := by
    show (m.assigned ++ (m.pending ++ [(id, target)]).map Prod.fst).Perm (id :: m.due)
    rw [List.map_append, ← List.append_assoc]
    exact List.perm_append_singleton id m.due
  obtain ⟨hfresh, honce⟩ := h.due hdue rfl fun hreceived => hreceived
  exact { h.grows with fresh := hfresh, once := honce }

theorem Entering.finish (h : m₀.Entering id m) (type : Ty) :
    m₀.Grows (memory (Remember.finish id type m)) := by
  unfold Remember.finish
  split
  · next target args =>
    rw [get_bind]
    cases m.table.underlying? target with
    | none => exact h.wait target
    | some _ => exact h.assign _
  · exact h.assign _

end Memory

section

variable (env : Env) {enter : EnterTypeIn} (henter : ∀ name, PutsBack (enter name))
include henter

theorem TypeSpec.resolveParamsIn_entering {m₀ m : Memory} {id : Nat} (h : m₀.Entering id m)
    (spec : TypeSpec) : m₀.Entering id (memory (spec.resolveParamsIn env enter id m)) := by
  unfold TypeSpec.resolveParamsIn
  split
  · exact h
  · have hresolved := h.step (TypeParamDecl.resolveAllIn_grows env henter spec.typeParams m)
    exact memory_bind hresolved fun params => hresolved.setTypeParams params

/-- Resolving the declaration of a defined type changes no entry that was there before its own. -/
theorem TypeSpec.resolveDefinedIn_grows {m₀ m : Memory} {id : Nat} (h : m₀.Entering id m)
    (spec : TypeSpec) : m₀.Grows (memory (spec.resolveDefinedIn env enter id m)) := by
  have hparams := spec.resolveParamsIn_entering env henter h
  have htype := hparams.step (TypeExpr.resolveIn_putsBack env henter spec.type _).toGrows
  exact memory_bind hparams.grows fun _ => memory_bind htype.grows fun type => htype.finish type

/-! ## Declared names -/

/-- Another name for a type is resolved with its own type parameters in force, which are none. -/
theorem TypeSpec.resolveAliasIn_putsBack (spec : TypeSpec) (name : Piece) :
    PutsBack (spec.resolveAliasIn env enter name) := by
  intro m
  unfold TypeSpec.resolveAliasIn
  rw [get_bind]
  cases hlookup : m.aliases.lookup name.text with
  | some type => exact .refl m
  | none =>
    dsimp only
    rw [get_bind]
    split
    · exact .refl m
    · next hnew =>
      rw [modify_bind, get_bind, modify_bind, capture_bind, modify_bind, modify_bind]
      -- whatever happens in between, the name is the first again of those being resolved
      have hkept := TypeExpr.resolveIn_putsBack env henter spec.type
        { m with params := [], resolving := name.text :: m.resolving }
      generalize spec.type.resolveIn env enter _ = result at hkept ⊢
      have hback := hkept.toGrows.back
      have hsame : (memory result).resolving.erase name.text = m.resolving := by
        rw [hkept.resolving, List.erase_cons_head]
      rw [hsame]
      refine memory_bind ((memory_pass _ _).symm ▸ hback) fun type => ?_
      rw [memory_pass, update_bind]
      exact hback.addAlias hlookup type

/-- A defined type is entered with its own type parameters in force, and then those from before. -/
theorem TypeSpec.enterDefinedIn_putsBack (spec : TypeSpec) :
    PutsBack (spec.enterDefinedIn env enter) := by
  intro m
  unfold TypeSpec.enterDefinedIn
  rw [get_bind, update_bind, get_bind, get_bind, modify_bind, capture_bind, modify_bind,
    modify_bind]
  have hgrows := spec.resolveDefinedIn_grows env henter (m.entering_enter spec.name env.packageName)
  refine memory_bind ((memory_pass _ _).symm ▸ hgrows.back) fun _ => ?_
  rw [memory_pass]
  exact hgrows.back

end

/-- However entering a declared name ends, nothing is forgotten and the context is put back. -/
theorem Env.enterTypeIn_putsBack (env : Env) (depth : Nat) (name : Piece) :
    PutsBack (env.enterTypeIn depth name) := by
  induction depth generalizing name with
  | zero => exact .fail
  | succ depth ih =>
    rw [Env.enterTypeIn]
    split
    · next spec _ =>
      split
      · exact spec.resolveAliasIn_putsBack env ih name
      · refine .read fun m => ?_
        split
        · exact .pure _
        · exact spec.enterDefinedIn_putsBack env ih
    · exact .fail

/-! ## The declarations of a file -/

namespace Env

variable (env : Env)

theorem enterIn_putsBack (name : Piece) : PutsBack (env.enterIn name) :=
  env.enterTypeIn_putsBack env.scope.nesting name

theorem typeExprIn_putsBack (e : TypeExpr) : PutsBack (e.resolveIn env env.enterIn) :=
  e.resolveIn_putsBack env env.enterIn_putsBack

theorem resolveTypeSpecIn_putsBack (spec : TypeSpec) : PutsBack (env.resolveTypeSpecIn spec) := by
  unfold resolveTypeSpecIn
  split
  · exact .bind (PutsBack.withParams [] fun m => (env.typeExprIn_putsBack spec.type m).toGrows)
      fun type => .define _
  · exact .bind (env.enterIn_putsBack spec.name) fun type => .define _

theorem resolveValueIn_putsBack (spec : ValueSpec) : PutsBack (env.resolveValueIn spec) := by
  unfold resolveValueIn
  split
  · exact .bind (env.typeExprIn_putsBack _) fun _ => .pure ()
  · exact .pure ()

theorem resolveFuncIn_putsBack (decl : FuncDecl) : PutsBack (env.resolveFuncIn decl) := by
  refine .bind (PutsBack.withParams [] fun m => ?_) fun sig => .define _
  have hparams := TypeParamDecl.resolveAllIn_grows env env.enterIn_putsBack decl.typeParams m
  refine memory_bind hparams fun params => hparams.trans ?_
  exact (PutsBack.map (fun sig : Signature => { sig with typeParams := params })
    (decl.signature.resolveIn_putsBack env env.enterIn_putsBack) _).toGrows

theorem checkReceiverBaseIn_putsBack (base : Piece) : PutsBack (env.checkReceiverBaseIn base) := by
  unfold checkReceiverBaseIn
  split
  · exact .pure ()
  · exact .fail
  · exact .fail

theorem resolveMethodIn_putsBack (decl : MethodDecl) : PutsBack (env.resolveMethodIn decl) := by
  unfold resolveMethodIn
  split
  · exact .fail
  · next receiver _ =>
    refine .bind (PutsBack.withParams receiver.typeParams fun m => ?_)
      fun sig => .bind (.define _) fun _ => .pure _
    have hsig : PutsBack (do
        env.checkReceiverBaseIn receiver.base
        let type ← receiver.type.resolveIn env env.enterIn
        let sig ← decl.signature.resolveIn env env.enterIn
        return ({ sig with receiver := some ⟨receiver.name, type⟩ } : Signature)) :=
      .bind (env.checkReceiverBaseIn_putsBack receiver.base) fun _ =>
        .bind (env.typeExprIn_putsBack receiver.type) fun type =>
          .map _ (decl.signature.resolveIn_putsBack env env.enterIn_putsBack)
    exact (hsig m).toGrows

theorem resolveMethodsIn_putsBack (seen : List (String × String)) (decls : List MethodDecl) :
    PutsBack (env.resolveMethodsIn seen decls) := by
  induction decls generalizing seen with
  | nil => exact .pure ()
  | cons decl decls ih =>
    refine .bind (env.resolveMethodIn_putsBack decl) fun base => ?_
    split
    · exact ih seen
    · split
      · exact .fail
      · exact ih _

theorem resolveOthersIn_putsBack (file : SourceFile) : PutsBack (env.resolveOthersIn file) :=
  .bind (.forM env.resolveValueIn_putsBack file.valueSpecs) fun _ =>
    .bind (.defineAll (file.valueSpecs.flatMap ValueSpec.definitions)) fun _ =>
      .bind (.forM env.resolveFuncIn_putsBack file.funcDecls) fun _ =>
        env.resolveMethodsIn_putsBack [] file.methodDecls

/-- In a round a type that waited receives its underlying type or waits again. -/
theorem settleRoundIn_once (waiting : List (Nat × Nat)) (m : Memory)
    (h : ({ m with pending := m.pending ++ waiting } : Memory).Once) :
    (memory (settleRoundIn waiting m)).Once := by
  induction waiting generalizing m with
  | nil => exact h.of_eq rfl rfl (by rw [Memory.due, Memory.due, List.append_nil]; rfl)
  | cons w waiting ih =>
    obtain ⟨id, target⟩ := w
    rw [settleRoundIn, get_bind]
    cases m.table.underlying? target with
    | some type =>
      have hmem : id ∈
          ({ m with pending := m.pending ++ (id, target) :: waiting } : Memory).due := by
        simp [Memory.due]
      have hid : id < m.table.size := (h.place id hmem).2
      have hreceived : m.Received := h.received
      refine ih { m with
        table := m.table.setUnderlying id type, assigned := m.assigned ++ [id] }
        (h.of_perm ?_ (Table.size_setUnderlying ..) (hreceived.assign hid type))
      simp only [Memory.due, List.map_append, List.map_cons, List.append_assoc,
        List.singleton_append]
      exact (List.perm_middle.symm).append_left m.assigned
    | none =>
      refine ih { m with pending := m.pending ++ [(id, target)] } (h.of_eq rfl rfl ?_)
      simp only [Memory.due, List.append_assoc, List.singleton_append]

theorem memory_failRecursiveIn (id : Nat) (m : Memory) :
    memory (env.failRecursiveIn id m) = m := by
  rw [failRecursiveIn, get_bind]
  cases m.entered.find? fun e => e.id == id <;> rfl

theorem settleIn_once (rounds : Nat) (m : Memory) (h : m.Once) :
    (memory (env.settleIn rounds m)).Once := by
  induction rounds generalizing m with
  | zero => exact h
  | succ rounds ih =>
    rw [settleIn, get_bind]
    split
    · exact h
    · rw [update_bind]
      have hround : (memory (settleRoundIn m.pending { m with pending := [] })).Once :=
        settleRoundIn_once m.pending _ h
      refine memory_bind hround fun _ => ?_
      rw [get_bind]
      generalize memory (settleRoundIn m.pending _) = m₁ at hround ⊢
      cases m₁.pending with
      | nil => exact hround
      | cons w remaining =>
        dsimp only
        split
        · rwa [memory_failRecursiveIn]
        · exact ih m₁ hround

theorem settlePendingIn_once (m : Memory) (h : m.Once) :
    (memory (env.settlePendingIn m)).Once :=
  env.settleIn_once m.pending.length m h

theorem memory_checkContainmentIn (m : Memory) : memory (env.checkContainmentIn m) = m := by
  rw [checkContainmentIn, get_bind]
  cases m.entered.find? fun e => m.table.containsItself e.id with
  | some entered => exact env.memory_failRecursiveIn entered.id m
  | none => rfl

/-- Over a whole file no place receives an underlying type twice, however resolving it ends. -/
theorem resolveAllIn_once (file : SourceFile) : (memory (env.resolveAllIn file {})).Once := by
  have hinitial : Memory.Once {} :=
    ⟨List.nodup_nil, Nat.le_refl _, List.forall_mem_nil _,
      fun _ _ hid => Or.inl (Table.lt_size_of_underlying? hid)⟩
  have htypes := (PutsBack.forM env.resolveTypeSpecIn_putsBack file.typeSpecs {}).once hinitial
  refine memory_bind htypes fun _ => ?_
  have hsettled := env.settlePendingIn_once _ htypes
  refine memory_bind hsettled fun _ => ?_
  refine memory_bind ((env.memory_checkContainmentIn _).symm ▸ hsettled) fun _ => ?_
  rw [memory_checkContainmentIn]
  exact (env.resolveOthersIn_putsBack file _).once hsettled

end Env

end GoSignatures
