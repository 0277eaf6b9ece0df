import GoSignatures.Proofs.Ty.Proper

/-!
# References to declared types

A type that uses a declared type refers to its place in the table, with type arguments. The
references of a file are those in the entries of its table and in its definitions.

* `Ty.references` — the references that occur in a type
* `ResolvedFile.references` — the references that occur in a file
* `Ty.Proper.references` — where only what is allowed occurs, every reference is allowed
-/

namespace GoSignatures

/-- A reference to a declared type: its place, and the number of type arguments. -/
abbrev TypeRef := Nat × Nat

mutual

/-- The references to declared types that occur in a type. -/
def Ty.references : Ty → List TypeRef
  | .basic _ => []
  | .named id args => (id, args.length) :: Ty.allReferences args
  | .imported _ _ underlying => Ty.optReferences underlying
  | .param _ => []
  | .pointer elem => elem.references
  | .slice elem => elem.references
  | .array _ elem => elem.references
  | .map key value => key.references ++ value.references
  | .chan _ elem => elem.references
  | .func sig => sig.references
  | .struct fields => Field.allReferences fields
  | .interface iface => iface.references
  | .invalid => []

/-- The references in a type, if there is one. -/
def Ty.optReferences : Option Ty → List TypeRef
  | none => []
  | some t => t.references

/-- The references in types. -/
def Ty.allReferences : List Ty → List TypeRef
  | [] => []
  | t :: ts => t.references ++ Ty.allReferences ts

/-- The references in variables. -/
def Var.allReferences : List Var → List TypeRef
  | [] => []
  | ⟨_, type⟩ :: vs => type.references ++ Var.allReferences vs

/-- The references in a variable, if there is one. -/
def Var.optReferences : Option Var → List TypeRef
  | none => []
  | some ⟨_, type⟩ => type.references

/-- The references in the constraints of type parameters. -/
def TypeParam.allReferences : List TypeParam → List TypeRef
  | [] => []
  | ⟨_, constraint⟩ :: ps => constraint.references ++ TypeParam.allReferences ps

/-- The references in a signature. -/
def Signature.references : Signature → List TypeRef
  | ⟨receiver, typeParams, params, results, _⟩ =>
    Var.optReferences receiver ++ TypeParam.allReferences typeParams ++
      Var.allReferences params ++ Var.allReferences results

/-- The references in fields. -/
def Field.allReferences : List Field → List TypeRef
  | [] => []
  | ⟨_, type, _, _⟩ :: fs => type.references ++ Field.allReferences fs

/-- The references in methods. -/
def Method.allReferences : List Method → List TypeRef
  | [] => []
  | ⟨_, sig⟩ :: ms => sig.references ++ Method.allReferences ms

/-- The references in terms. -/
def Term.allReferences : List Term → List TypeRef
  | [] => []
  | ⟨_, type⟩ :: ts => type.references ++ Term.allReferences ts

/-- The references in embedded elements. -/
def Embedded.allReferences : List Embedded → List TypeRef
  | [] => []
  | .type t :: es => t.references ++ Embedded.allReferences es
  | .union ts :: es => Term.allReferences ts ++ Embedded.allReferences es

/-- The references in an interface. -/
def Interface.references : Interface → List TypeRef
  | ⟨methods, embeddeds, _⟩ => Method.allReferences methods ++ Embedded.allReferences embeddeds

end

/-- The references in the type parameters and the underlying type of an entry. -/
def NamedType.references (entry : NamedType) : List TypeRef :=
  TypeParam.allReferences entry.typeParams ++ Ty.optReferences entry.underlying

/-- The references in a definition. The type that the definition of a defined type holds is no
reference to it. -/
def Definition.references : Definition → List TypeRef
  | .func f => f.signature.references
  | .type d => if d.isGiven then d.type.references else []
  | .var _ | .const _ => []

/-- The references in the table and in the definitions of a file. -/
def ResolvedFile.references (file : ResolvedFile) : List TypeRef :=
  file.table.entries.flatMap NamedType.references ++
    file.definitions.flatMap Definition.references

/-! ## References that are allowed -/

variable {A : Ty.Allowed}

section

variable (herror : A.named errorId 0)
include herror

-- each lemma of the block has the assumptions for the others, which the linter does not see
set_option linter.unusedSectionVars false in
mutual

/-- Where only what is allowed occurs in a type, every reference is allowed. -/
theorem Ty.Proper.references :
    ∀ {t : Ty}, t.Proper A → ∀ r ∈ t.references, A.named r.1 r.2
  | .basic _, _ | .param _, _ => List.forall_mem_nil _
  | .named _ _, h => List.forall_mem_cons.mpr ⟨h.1, Ty.AllProper.references h.2⟩
  | .imported _ _ none, _ => List.forall_mem_nil _
  | .imported _ _ (some type), h => by
    rcases h type rfl with ⟨kind, rfl⟩ | rfl
    · exact List.forall_mem_nil _
    · exact List.forall_mem_singleton.mpr herror
  | .pointer elem, h => Ty.Proper.references (t := elem) h
  | .slice elem, h => Ty.Proper.references (t := elem) h
  | .array _ elem, h => Ty.Proper.references (t := elem) h
  | .map _ _, h =>
    List.forall_mem_append.mpr ⟨Ty.Proper.references h.1, Ty.Proper.references h.2⟩
  | .chan _ elem, h => Ty.Proper.references (t := elem) h
  | .func sig, h => Signature.Proper.references (show sig.Proper A from h)
  | .struct fields, h => Field.AllProper.references (show Field.AllProper A fields from h)
  | .interface iface, h => Interface.Proper.references (show iface.Proper A from h)
termination_by structural t => t

theorem Ty.AllProper.references :
    ∀ {ts : List Ty}, Ty.AllProper A ts → ∀ r ∈ Ty.allReferences ts, A.named r.1 r.2
  | [], _ => List.forall_mem_nil _
  | _ :: _, h => List.forall_mem_append.mpr ⟨Ty.Proper.references h.1, Ty.AllProper.references h.2⟩
termination_by structural ts => ts

theorem Var.AllProper.references :
    ∀ {vs : List Var}, Var.AllProper A vs → ∀ r ∈ Var.allReferences vs, A.named r.1 r.2
  | [], _ => List.forall_mem_nil _
  | ⟨_, _⟩ :: _, h =>
    List.forall_mem_append.mpr ⟨Ty.Proper.references h.1, Var.AllProper.references h.2⟩
termination_by structural vs => vs

theorem Signature.Proper.references :
    ∀ {sig : Signature}, sig.Proper A → ∀ r ∈ sig.references, A.named r.1 r.2
  | ⟨_, _, _, _, _⟩, ⟨hreceiver, htypeParams, hparams, hresults⟩ => by
    subst hreceiver htypeParams
    exact List.forall_mem_append.mpr
      ⟨Var.AllProper.references hparams, Var.AllProper.references hresults⟩
termination_by structural sig => sig

theorem Field.AllProper.references :
    ∀ {fs : List Field}, Field.AllProper A fs → ∀ r ∈ Field.allReferences fs, A.named r.1 r.2
  | [], _ => List.forall_mem_nil _
  | ⟨_, _, _, _⟩ :: _, h =>
    List.forall_mem_append.mpr ⟨Ty.Proper.references h.1, Field.AllProper.references h.2⟩
termination_by structural fs => fs

theorem Method.AllProper.references :
    ∀ {ms : List Method}, Method.AllProper A ms → ∀ r ∈ Method.allReferences ms, A.named r.1 r.2
  | [], _ => List.forall_mem_nil _
  | ⟨_, _⟩ :: _, h =>
    List.forall_mem_append.mpr ⟨Signature.Proper.references h.1, Method.AllProper.references h.2⟩
termination_by structural ms => ms

theorem Term.AllProper.references :
    ∀ {ts : List Term}, Term.AllProper A ts → ∀ r ∈ Term.allReferences ts, A.named r.1 r.2
  | [], _ => List.forall_mem_nil _
  | ⟨_, _⟩ :: _, h =>
    List.forall_mem_append.mpr ⟨Ty.Proper.references h.1, Term.AllProper.references h.2⟩
termination_by structural ts => ts

theorem Embedded.AllProper.references :
    ∀ {es : List Embedded}, Embedded.AllProper A es →
      ∀ r ∈ Embedded.allReferences es, A.named r.1 r.2
  | [], _ => List.forall_mem_nil _
  | .type _ :: _, h =>
    List.forall_mem_append.mpr ⟨Ty.Proper.references h.1, Embedded.AllProper.references h.2⟩
  | .union _ :: _, h =>
    List.forall_mem_append.mpr ⟨Term.AllProper.references h.1, Embedded.AllProper.references h.2⟩
termination_by structural es => es

theorem Interface.Proper.references :
    ∀ {i : Interface}, i.Proper A → ∀ r ∈ i.references, A.named r.1 r.2
  | ⟨_, _, _⟩, h =>
    List.forall_mem_append.mpr ⟨Method.AllProper.references h.1, Embedded.AllProper.references h.2⟩
termination_by structural i => i

end

/-- The same for the constraints of type parameters. -/
theorem TypeParam.references_of_proper {ps : List TypeParam}
    (h : ∀ p ∈ ps, p.constraint.Proper A) :
    ∀ r ∈ TypeParam.allReferences ps, A.named r.1 r.2 := by
  induction ps with
  | nil => exact List.forall_mem_nil _
  | cons p ps ih =>
    obtain ⟨hp, hps⟩ := List.forall_mem_cons.mp h
    cases p
    exact List.forall_mem_append.mpr ⟨hp.references herror, ih hps⟩

/-- Where only what is allowed occurs in a definition, every reference is allowed. -/
theorem Definition.Proper.references {d : Definition} (h : d.Proper A) :
    ∀ r ∈ d.references, A.named r.1 r.2 := by
  cases d with
  | func f =>
    obtain ⟨_, ⟨receiver, typeParams, params, results, variadic⟩, _, _⟩ := f
    obtain ⟨hreceiver, htypeParams, hparams, hresults⟩ := h
    simp only [Definition.references, Signature.references, List.forall_mem_append]
    refine ⟨⟨⟨?_, TypeParam.references_of_proper herror htypeParams⟩,
      hparams.references herror⟩, hresults.references herror⟩
    cases receiver with
    | none => exact List.forall_mem_nil _
    | some v =>
      have hv := Ty.Proper.references herror (hreceiver v rfl)
      cases v
      exact hv
  | type d =>
    rw [Definition.references]
    split
    · next hgiven => exact Ty.Proper.references herror (h.given hgiven)
    · exact List.forall_mem_nil _
  | _ => exact List.forall_mem_nil _

end

end GoSignatures
