import GoSignatures.Proofs.Resolution.Referring
import GoSignatures.Proofs.Ty.Occurring

/-!
# Complete tables

While a file is resolved there are entries without an underlying type, and the placeholder for such
a type may be found in their place. In a file that is accepted nothing of this is left: every entry
has an underlying type, and every type that occurs refers to entries only.

* `ResolvedFile.Complete` — what holds of a file that is accepted
* `Env.Settled.proper_occurring` — types that occur in a table of settled types
* `SourceFile.proper_occurring`, `SourceFile.typeParams_eq_nil` — types that occur in a file that is
  accepted
* `SourceFile.complete_of_resolve` — a file that is accepted is complete
-/

namespace GoSignatures

/-- Nothing in the table or in the definitions of a file is unfinished. -/
structure ResolvedFile.Complete (file : ResolvedFile) : Prop where
  underlying : ∀ entry ∈ file.table.entries, ∃ type, entry.underlying = some type
  places : ∀ id args, .named id args ∈ file.occurring → id < file.table.size
  valid : .invalid ∉ file.occurring
  validUnderlying : ∀ type ∈ file.occurring, .invalid ∉ (file.table.underlying type).occurring

/-! ## Types that refer to entries -/

theorem Definition.Proper.occurring {t : Table} (herror : errorId < t.size) {d : Definition}
    (h : d.Proper t.places) : ∀ s ∈ d.occurring, s.Proper t.places := by
  cases d with
  | func f => exact FuncDef.Proper.occurring herror h
  | type d =>
    cases hgiven : d.isGiven with
    | true => exact Ty.Proper.occurring herror (h.given hgiven)
    | false =>
      obtain ⟨id, count, htype, hid⟩ := h.own hgiven
      have hproper : d.type.Proper t.places := htype ▸ ⟨hid, trivial⟩
      exact Ty.Proper.occurring herror hproper
  | _ => exact List.forall_mem_nil _

namespace Env.Settled

variable {env : Env} {p q : Progress}

theorem error_lt_size (h : env.Settled p q) : errorId < q.table.size :=
  Nat.lt_of_lt_of_le (by decide) h.known.size

/-- Every type that occurs in the table refers to entries only. -/
theorem proper_occurring (h : env.Settled p q) {entry : NamedType}
    (hentry : entry ∈ q.table.entries) :
    ∀ s ∈ entry.occurring, s.Proper q.table.places := by
  obtain ⟨id, hget⟩ := List.mem_iff_getElem?.mp hentry
  have hget : q.table.get? id = some entry := hget
  refine List.forall_mem_append.mpr ⟨?_, ?_⟩
  · refine TypeParam.occurring_of_proper h.error_lt_size fun param hparam => ?_
    refine Ty.Proper.places (h.proper_typeParams id param ?_)
    rw [Table.typeParams, hget]
    exact hparam
  · cases hunderlying : entry.underlying with
    | none => exact List.forall_mem_nil _
    | some type =>
      have hstored : q.table.underlying? id = some type := by
        rw [Table.underlying?, hget, Option.bind_some, hunderlying]
      exact Ty.Proper.occurring h.error_lt_size (h.proper_underlying? hstored).places

/-- A type that refers to entries only has an underlying type that does. -/
theorem proper_underlying (h : env.Settled p q) {type : Ty} (htype : type.Proper q.table.places) :
    (q.table.underlying type).Proper q.table.places := by
  refine Table.proper_underlying (fun _ => trivial) htype fun id args hid => ?_
  have hsize : id < q.table.size := by
    rcases hid with rfl | rfl
    · exact htype.1
    · exact h.error_lt_size
  obtain ⟨known, hknown⟩ := h.consistent.underlying?_isSome h.settles hsize
  exact ⟨known, hknown, (h.proper_underlying? hknown).places⟩

end Env.Settled

/-! ## Accepted files -/

theorem Ty.Proper.ne_invalid {A : Ty.Allowed} {type : Ty} (h : type.Proper A) :
    type ≠ .invalid := by
  rintro rfl
  exact h

/-- Every type that occurs in a file that is accepted refers to entries only. -/
theorem SourceFile.proper_occurring {file : SourceFile} {config : Config} {result : ResolvedFile}
    (h : file.resolve config = .ok result) :
    ∀ type ∈ result.occurring, type.Proper result.table.places := by
  obtain ⟨env, q, -, -, hsettle, -, -, -, -, htable, -⟩ := resolve_ok h
  obtain ⟨p, -, hsettled⟩ := settled_of_settleTypes hsettle
  have hdefinitions := proper_definitions h hsettle
  refine List.forall_mem_append.mpr ⟨?_, ?_⟩
  · rw [htable]
    intro type htype
    obtain ⟨entry, hentry, htype⟩ := List.mem_flatMap.mp htype
    exact hsettled.proper_occurring hentry type htype
  · intro type htype
    obtain ⟨d, hd, htype⟩ := List.mem_flatMap.mp htype
    rw [htable] at hdefinitions ⊢
    have hplaces : d.Proper q.table.places :=
      Definition.Proper.mono (A := env.counts q.table) (fun _ _ hid => hid.1) (fun _ _ => trivial)
        (hdefinitions d hd)
    exact hplaces.occurring hsettled.error_lt_size type htype

/-- No function type of a file that is accepted has type parameters of its own, and no method of its
interfaces has any. -/
theorem SourceFile.typeParams_eq_nil {file : SourceFile} {config : Config} {result : ResolvedFile}
    (h : file.resolve config = .ok result) :
    (∀ sig, .func sig ∈ result.occurring → sig.typeParams = []) ∧
      ∀ iface, .interface iface ∈ result.occurring → ∀ m ∈ iface.methods,
        m.signature.typeParams = [] := by
  have hsignature : ∀ sig : Signature, sig.Proper result.table.places → sig.typeParams = [] :=
    fun ⟨_, _, _, _, _⟩ hsig => hsig.2.1
  refine ⟨fun sig hmem => hsignature sig (proper_occurring h _ hmem), ?_⟩
  rintro ⟨methods, embeddeds, comparable⟩ hmem m hm
  have hproper := proper_occurring h _ hmem
  exact hsignature _ (Method.allProper_iff.mp hproper.1 m hm)

/-- A file that is accepted is complete. -/
theorem SourceFile.complete_of_resolve {file : SourceFile} {config : Config} {result : ResolvedFile}
    (h : file.resolve config = .ok result) : result.Complete := by
  obtain ⟨env, q, -, -, hsettle, -, -, -, -, htable, -⟩ := resolve_ok h
  obtain ⟨p, -, hsettled⟩ := settled_of_settleTypes hsettle
  have hproper := proper_occurring h
  rw [htable] at hproper
  refine ⟨?_, ?_, fun hmem => (hproper _ hmem).ne_invalid rfl, ?_⟩
  · rw [htable]
    intro entry hentry
    obtain ⟨id, hsize, hget⟩ := List.mem_iff_getElem.mp hentry
    obtain ⟨type, htype⟩ := hsettled.consistent.underlying?_isSome hsettled.settles hsize
    refine ⟨type, ?_⟩
    rw [Table.underlying?, Table.get?, List.getElem?_eq_getElem hsize, hget] at htype
    exact htype
  · intro id args hmem
    rw [htable]
    exact (hproper _ hmem).1
  · intro type htype hmem
    rw [htable] at hmem
    have hunder := hsettled.proper_underlying (hproper type htype)
    exact (Ty.Proper.occurring hsettled.error_lt_size hunder _ hmem).ne_invalid rfl

/-- A generic type and a type that waits for its underlying type are complete in the end. -/
theorem SourceFile.complete_of_resolve_ofWaitingInstance :
    ∃ result, ofWaitingInstance.resolve {} = .ok result ∧ result.Complete := by
  have haccepted : (ofWaitingInstance.resolve {}).toOption.isSome = true := by decide +kernel
  obtain ⟨result, hresult⟩ := Option.isSome_iff_exists.mp haccepted
  rw [Except.toOption_eq_some_iff] at hresult
  exact ⟨result, hresult, complete_of_resolve hresult⟩

end GoSignatures
