import GoSignatures.Classification.Representable
import GoSignatures.Proofs.Classification.Flattening
import GoSignatures.Proofs.Classification.Reordering

/-!
# The error contract

An interface satisfies the error contract when it has a method set and every method that it or an
interface reached from it declares is `Error() string`, with at least one of them. The computation
asks instead for a method set of one method. The two agree where methods of one name have one
signature; otherwise it would matter which of them is found first.

* `Signature.unnamed` — a signature without the names of parameters and results
* `Table.DeclaresUniformly` — methods of one name have one signature up to these names
* `Table.ErrorContract` — the error contract, without an order of methods or elements
* `Table.hasErrorContract_spec` — what is computed is that, and forgets the order of elements
-/

namespace GoSignatures

/-! ## Signatures up to names -/

mutual

/-- The type without the names of parameters and results. -/
def Ty.unnamed : Ty → Ty
  | .basic kind => .basic kind
  | .named id args => .named id (Ty.allUnnamed args)
  | .imported path name underlying => .imported path name underlying
  | .param name => .param name
  | .pointer elem => .pointer elem.unnamed
  | .slice elem => .slice elem.unnamed
  | .array len elem => .array len elem.unnamed
  | .map key value => .map key.unnamed value.unnamed
  | .chan dir elem => .chan dir elem.unnamed
  | .func sig => .func sig.unnamed
  | .struct fields => .struct (Field.allUnnamed fields)
  | .interface iface => .interface iface.unnamed
  | .invalid => .invalid

/-- The same for each type of a list. -/
def Ty.allUnnamed : List Ty → List Ty
  | [] => []
  | t :: ts => t.unnamed :: Ty.allUnnamed ts

/-- The variables without their names. -/
def Var.allUnnamed : List Var → List Var
  | [] => []
  | ⟨_, type⟩ :: vs => ⟨"", type.unnamed⟩ :: Var.allUnnamed vs

/-- The variable without its name, if there is one. -/
def Var.optUnnamed : Option Var → Option Var
  | none => none
  | some ⟨_, type⟩ => some ⟨"", type.unnamed⟩

/-- The type parameters, with constraints without such names. -/
def TypeParam.allUnnamed : List TypeParam → List TypeParam
  | [] => []
  | ⟨name, constraint⟩ :: ps => ⟨name, constraint.unnamed⟩ :: TypeParam.allUnnamed ps

/-- The signature without the names of parameters and results. -/
def Signature.unnamed : Signature → Signature
  | ⟨receiver, typeParams, params, results, variadic⟩ =>
    ⟨Var.optUnnamed receiver, TypeParam.allUnnamed typeParams, Var.allUnnamed params,
      Var.allUnnamed results, variadic⟩

/-- The fields, with types without such names. -/
def Field.allUnnamed : List Field → List Field
  | [] => []
  | ⟨name, type, embedded, tag⟩ :: fs => ⟨name, type.unnamed, embedded, tag⟩ :: Field.allUnnamed fs

/-- The methods, with signatures without such names. -/
def Method.allUnnamed : List Method → List Method
  | [] => []
  | ⟨name, sig⟩ :: ms => ⟨name, sig.unnamed⟩ :: Method.allUnnamed ms

/-- The terms, with types without such names. -/
def Term.allUnnamed : List Term → List Term
  | [] => []
  | ⟨tilde, type⟩ :: ts => ⟨tilde, type.unnamed⟩ :: Term.allUnnamed ts

/-- The elements without such names. -/
def Embedded.allUnnamed : List Embedded → List Embedded
  | [] => []
  | .type t :: es => .type t.unnamed :: Embedded.allUnnamed es
  | .union ts :: es => .union (Term.allUnnamed ts) :: Embedded.allUnnamed es

/-- The interface without such names. -/
def Interface.unnamed : Interface → Interface
  | ⟨methods, embeddeds, comparable⟩ =>
    ⟨Method.allUnnamed methods, Embedded.allUnnamed embeddeds, comparable⟩

end

/-- Methods of one name have one signature, up to the names of parameters and results, in all
interfaces that `i` reaches. -/
def Table.DeclaresUniformly (t : Table) (i : Interface) : Prop :=
  ∀ k k', t.Reaches i k → t.Reaches i k' → ∀ m ∈ k.methods, ∀ m' ∈ k'.methods,
    m.name = m'.name → m.signature.unnamed = m'.signature.unnamed

/-! ## The contract -/

/-- The method is `Error() string`, up to the name of its result. -/
structure Method.DeclaresError (m : Method) : Prop where
  name : m.name = "Error"
  params : m.signature.params = []
  not_variadic : m.signature.variadic = false
  results : ∃ v, m.signature.results = [v] ∧ v.type = .basic .string

/-- The error contract: the interface has a method set, and every method that it or an interface
reached from it declares is `Error() string`, with at least one of them. -/
structure Table.ErrorContract (t : Table) (i : Interface) : Prop where
  hasMethodSet : t.HasMethodSet i
  declares : ∃ k m, t.Reaches i k ∧ m ∈ k.methods
  error : ∀ k, t.Reaches i k → ∀ m ∈ k.methods, m.DeclaresError

theorem Kind.eq_string_of_identical {kind : Kind} (h : kind.identical .string = true) :
    kind = .string := by
  revert h
  cases kind <;> decide

theorem Method.isError_iff {m : Method} : m.isError = true ↔ m.DeclaresError := by
  simp only [Method.isError, Bool.and_eq_true, beq_iff_eq, List.isEmpty_iff, Bool.not_eq_true']
  constructor
  · rintro ⟨⟨⟨hname, hparams⟩, hvariadic⟩, hresults⟩
    refine ⟨hname, hparams, hvariadic, ?_⟩
    split at hresults
    · next resultName kind hsingle =>
      exact ⟨_, hsingle, by rw [Kind.eq_string_of_identical hresults]⟩
    · cases hresults
  · rintro ⟨hname, hparams, hvariadic, ⟨resultName, type⟩, hresults, rfl⟩
    refine ⟨⟨⟨hname, hparams⟩, hvariadic⟩, ?_⟩
    rw [hresults]
    exact (by decide : Kind.identical .string .string = true)

theorem Var.allUnnamed_eq_map (vs : List Var) :
    Var.allUnnamed vs = vs.map fun v => ⟨"", v.type.unnamed⟩ := by
  induction vs with
  | nil => rfl
  | cons v vs ih =>
    cases v
    rw [Var.allUnnamed, ih, List.map_cons]

theorem Ty.eq_basic_of_unnamed {type : Ty} {kind : Kind} (h : type.unnamed = .basic kind) :
    type = .basic kind := by
  cases type <;> simp_all [Ty.unnamed]

/-- Being `Error() string` is a matter of the name and of the signature up to names. -/
theorem Method.DeclaresError.of_unnamed {m m' : Method} (h : m.DeclaresError)
    (hname : m.name = m'.name) (hsig : m.signature.unnamed = m'.signature.unnamed) :
    m'.DeclaresError := by
  obtain ⟨herror, hparams, hvariadic, v, hresults, hv⟩ := h
  have hunnamed : ∀ sig : Signature, sig.unnamed.params = Var.allUnnamed sig.params ∧
      sig.unnamed.results = Var.allUnnamed sig.results ∧ sig.unnamed.variadic = sig.variadic := by
    intro sig
    cases sig
    exact ⟨rfl, rfl, rfl⟩
  obtain ⟨hparams₁, hresults₁, hvariadic₁⟩ := hunnamed m.signature
  obtain ⟨hparams₂, hresults₂, hvariadic₂⟩ := hunnamed m'.signature
  refine ⟨hname ▸ herror, ?_, ?_, ?_⟩
  · rw [← hsig, hparams₁, hparams, Var.allUnnamed_eq_map, Var.allUnnamed_eq_map, eq_comm,
      List.map_nil, List.map_eq_nil_iff] at hparams₂
    exact hparams₂
  · rw [← hvariadic₂, ← hsig, hvariadic₁, hvariadic]
  · rw [← hsig, hresults₁, hresults, Var.allUnnamed_eq_map, Var.allUnnamed_eq_map, eq_comm,
      List.map_singleton, List.map_eq_singleton_iff] at hresults₂
    obtain ⟨v', hv', heq⟩ := hresults₂
    refine ⟨v', hv', Ty.eq_basic_of_unnamed ?_⟩
    rw [Var.mk.injEq] at heq
    rw [heq.2, hv, Ty.unnamed]

variable {t : Table}

/-- What is computed is the error contract, where methods of one name have one signature. -/
theorem Table.hasErrorContract_iff (hno : t.EmbedsNoParam) {type : Ty}
    (huniform : ∀ i, t.underlying type = .interface i → t.DeclaresUniformly i) :
    t.hasErrorContract type = true ↔
      ∃ i, t.underlying type = .interface i ∧ t.ErrorContract i := by
  constructor
  · intro h
    unfold Table.hasErrorContract at h
    split at h
    · next i hi =>
      refine ⟨i, hi, ?_⟩
      split at h
      · next m hset =>
        obtain ⟨hmethods, hdeclared, -, hcomplete⟩ := Table.methodSetOf_of_methodSet? hno hset
        obtain ⟨k, hk, hm⟩ := hdeclared m List.mem_cons_self
        refine ⟨hmethods, ⟨k, m, hk, hm⟩, fun k' hk' m' hm' => ?_⟩
        have hname : m.name = m'.name := by simpa [eq_comm] using hcomplete k' hk' m' hm'
        exact (Method.isError_iff.mp h).of_unnamed hname
          (huniform i hi k k' hk hk' m hm m' hm' hname)
      · cases h
    · cases h
  · rintro ⟨i, hi, hset, ⟨k, m, hk, hm⟩, herror⟩
    obtain ⟨ms, hms⟩ := Table.exists_methodSet? hset
    obtain ⟨-, hdeclared, hdistinct, hcomplete⟩ := Table.methodSetOf_of_methodSet? hno hms
    have hmethod : ∀ m' ∈ ms, m'.DeclaresError := fun m' hm' => by
      obtain ⟨k', hk', hm'⟩ := hdeclared m' hm'
      exact herror k' hk' m' hm'
    -- all methods found have one name, so there is one of them
    have hone : ∃ m', ms = [m'] := by
      match ms, hmethod, hdistinct, hcomplete k hk m hm with
      | [m'], _, _, _ => exact ⟨m', rfl⟩
      | m₁ :: m₂ :: rest, hmethod, hdistinct, _ =>
        have h₁ := (hmethod m₁ List.mem_cons_self).name
        have h₂ := (hmethod m₂ (List.mem_cons_of_mem _ List.mem_cons_self)).name
        simp [h₁, h₂] at hdistinct
    obtain ⟨m', rfl⟩ := hone
    simp only [Table.hasErrorContract, hi, hms]
    exact Method.isError_iff.mpr (hmethod m' List.mem_cons_self)

/-! ## The order of embedded elements -/

theorem Table.Reordered.errorContract {t' : Table} (h : t.Reordered t') {i i' : Interface}
    (hi : i.Reordered i') (hcontract : t.ErrorContract i) : t'.ErrorContract i' := by
  obtain ⟨hset, ⟨k, m, hk, hm⟩, herror⟩ := hcontract
  refine ⟨h.hasMethodSet hi hset, ?_, fun k' hk' m' hm' => ?_⟩
  · obtain ⟨k', hk', hreordered⟩ := h.reaches hi hk
    exact ⟨k', m, hk', hreordered.methods ▸ hm⟩
  · obtain ⟨k'', hk'', hreordered⟩ := h.symm.reaches hi.symm hk'
    exact herror k'' hk'' m' (hreordered.methods ▸ hm')

theorem Table.Reordered.declaresUniformly {t' : Table} (h : t.Reordered t') {i i' : Interface}
    (hi : i.Reordered i') (huniform : t.DeclaresUniformly i) : t'.DeclaresUniformly i' := by
  intro k₁ k₂ hk₁ hk₂ m₁ hm₁ m₂ hm₂
  obtain ⟨j₁, hj₁, hreordered₁⟩ := h.symm.reaches hi.symm hk₁
  obtain ⟨j₂, hj₂, hreordered₂⟩ := h.symm.reaches hi.symm hk₂
  exact huniform j₁ j₂ hj₁ hj₂ m₁ (hreordered₁.methods ▸ hm₁) m₂ (hreordered₂.methods ▸ hm₂)

/-- Where no type parameter is embedded and methods of one name have one signature, the error
contract is detected exactly, and whatever the order of embedded elements. -/
theorem Table.hasErrorContract_spec (hno : t.EmbedsNoParam) {type : Ty}
    (huniform : ∀ i, t.underlying type = .interface i → t.DeclaresUniformly i) :
    (t.hasErrorContract type = true ↔
      ∃ i, t.underlying type = .interface i ∧ t.ErrorContract i) ∧
    ∀ t' type', t.Reordered t' → type.Reordered type' →
      t'.hasErrorContract type' = t.hasErrorContract type := by
  refine ⟨hasErrorContract_iff hno huniform, fun t' type' ht htype => ?_⟩
  have huniform' : ∀ i', t'.underlying type' = .interface i' → t'.DeclaresUniformly i' := by
    intro i' hi'
    obtain ⟨i, hi, hreordered⟩ := ht.symm.interface htype.symm hi'
    exact ht.declaresUniformly hreordered.symm (huniform i hi)
  rw [Bool.eq_iff_iff, hasErrorContract_iff hno huniform,
    hasErrorContract_iff (ht.embedsNoParam hno) huniform']
  constructor
  · rintro ⟨i', hi', hcontract⟩
    obtain ⟨i, hi, hreordered⟩ := ht.symm.interface htype.symm hi'
    exact ⟨i, hi, ht.symm.errorContract hreordered hcontract⟩
  · rintro ⟨i, hi, hcontract⟩
    obtain ⟨i', hi', hreordered⟩ := ht.interface htype hi
    exact ⟨i', hi', ht.errorContract hreordered hcontract⟩

/-- Two generic interfaces that embed each other, one of them also `error`; the other one declares
`Error() (text string)` itself. -/
def Table.mutualErrors : Table :=
  ⟨Table.initial.entries ++
    [{ name := "Failure", package := "p", typeParams := [⟨"T", .any⟩],
       underlying := some (.interface ⟨[], [.type .error, .type (.named 3 [.param "T"])], false⟩) },
     { name := "Problem", package := "p", typeParams := [⟨"T", .any⟩],
       underlying := some (.interface ⟨[⟨"Error", ⟨none, [], [], [⟨"text", .basic .string⟩], false⟩⟩],
         [.type (.named 2 [.slice (.param "T")])], false⟩) }]⟩

theorem Table.hasErrorContract_spec_ofMutualErrors :
    Table.mutualErrors.EmbedsNoParam ∧
    (∀ i, Table.mutualErrors.underlying (.named 2 [.basic .int]) = .interface i →
      Table.mutualErrors.DeclaresUniformly i) ∧
    Table.mutualErrors.hasErrorContract (.named 2 [.basic .int]) = true ∧
    (Table.mutualErrors.hasErrorContract (.named 2 [.basic .int]) = true ↔
      ∃ i, Table.mutualErrors.underlying (.named 2 [.basic .int]) = .interface i ∧
        Table.mutualErrors.ErrorContract i) := by
  have hno : Table.mutualErrors.EmbedsNoParam := by
    intro id type htype
    match id with
    | 0 | 1 | 2 | 3 =>
      cases htype
      simp [Ty.EmbedsNoParam, Interface.EmbedsNoParam, Embedded.NoneEmbedsParam, Ty.error]
    | id + 4 => cases htype
  have hembeds : ∀ (type : Ty) (i : Interface),
      (type = .error ∨ ∃ a, type = .named 2 [a] ∨ type = .named 3 [a]) →
      Table.mutualErrors.underlying type = .interface i →
        (∀ m ∈ i.methods, m.signature.unnamed = Method.error.signature.unnamed) ∧
          ∀ e, .type e ∈ i.embeddeds → e = .error ∨ ∃ a, e = .named 2 [a] ∨ e = .named 3 [a] := by
    rintro type i (rfl | ⟨a, rfl | rfl⟩) hi
    · cases hi
      simp
    · cases hi
      refine ⟨List.forall_mem_nil _, fun e he => ?_⟩
      change Embedded.type e ∈ [Embedded.type .error, .type (.named 3 [a])] at he
      simp only [List.mem_cons, Embedded.type.injEq, List.not_mem_nil, or_false] at he
      rcases he with rfl | rfl
      · exact Or.inl rfl
      · exact Or.inr ⟨_, Or.inr rfl⟩
    · cases hi
      refine ⟨List.forall_mem_singleton.mpr rfl, fun e he => ?_⟩
      change Embedded.type e ∈ [Embedded.type (.named 2 [.slice a])] at he
      simp only [List.mem_cons, Embedded.type.injEq, List.not_mem_nil, or_false] at he
      exact Or.inr ⟨_, Or.inl he⟩
  -- under whatever arguments, only these two interfaces and `error` are reached
  have hreached : ∀ i, Table.mutualErrors.underlying (.named 2 [.basic .int]) = .interface i →
      ∀ k, Table.mutualErrors.Reaches i k →
        ∀ m ∈ k.methods, m.signature.unnamed = Method.error.signature.unnamed := by
    intro i hi k hk
    exact (hk.invariant (fun i e j hi he hj => hembeds e j (hi.2 e he) hj)
      (hembeds _ i (Or.inr ⟨_, Or.inl rfl⟩) hi)).1
  have huniform : ∀ i, Table.mutualErrors.underlying (.named 2 [.basic .int]) = .interface i →
      Table.mutualErrors.DeclaresUniformly i := by
    intro i hi k k' hk hk' m hm m' hm' _
    rw [hreached i hi k hk m hm, hreached i hi k' hk' m' hm']
  exact ⟨hno, huniform, by decide +kernel, (Table.hasErrorContract_spec hno huniform).1⟩

end GoSignatures
