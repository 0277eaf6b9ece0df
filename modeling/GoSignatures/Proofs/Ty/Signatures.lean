import GoSignatures.Definition
import GoSignatures.Ty.Substitution

/-!
# Signatures that occur in a type

A type contains signatures as function types and as the signatures of the methods of an interface,
and these contain others in their parameters and results.

* `Ty.signatures` — the signatures that occur in a type
* `ResolvedFile.signatures` — those that occur in the table and in the definitions of a file
* `Ty.Signed` — what holds of every signature that occurs in a type
* `Ty.Signed.subst` — it holds in an instance, if it stays when type parameters are replaced
-/

namespace GoSignatures

mutual

/-- The signatures that occur in a type. -/
def Ty.signatures : Ty → List Signature
  | .basic _ => []
  | .named _ args => Ty.allSignatures args
  | .imported _ _ underlying => Ty.optSignatures underlying
  | .param _ => []
  | .pointer elem => elem.signatures
  | .slice elem => elem.signatures
  | .array _ elem => elem.signatures
  | .map key value => key.signatures ++ value.signatures
  | .chan _ elem => elem.signatures
  | .func sig => sig.signatures
  | .struct fields => Field.allSignatures fields
  | .interface iface => iface.signatures
  | .invalid => []

/-- The signatures in a type, if there is one. -/
def Ty.optSignatures : Option Ty → List Signature
  | none => []
  | some t => t.signatures

/-- The signatures in types. -/
def Ty.allSignatures : List Ty → List Signature
  | [] => []
  | t :: ts => t.signatures ++ Ty.allSignatures ts

/-- The signatures in variables. -/
def Var.allSignatures : List Var → List Signature
  | [] => []
  | ⟨_, type⟩ :: vs => type.signatures ++ Var.allSignatures vs

/-- The signatures in a variable, if there is one. -/
def Var.optSignatures : Option Var → List Signature
  | none => []
  | some ⟨_, type⟩ => type.signatures

/-- The signatures in the constraints of type parameters. -/
def TypeParam.allSignatures : List TypeParam → List Signature
  | [] => []
  | ⟨_, constraint⟩ :: ps => constraint.signatures ++ TypeParam.allSignatures ps

/-- A signature, and those that occur in it. -/
def Signature.signatures : Signature → List Signature
  | ⟨receiver, typeParams, params, results, variadic⟩ =>
    ⟨receiver, typeParams, params, results, variadic⟩ ::
      (Var.optSignatures receiver ++ TypeParam.allSignatures typeParams ++
        Var.allSignatures params ++ Var.allSignatures results)

/-- The signatures in fields. -/
def Field.allSignatures : List Field → List Signature
  | [] => []
  | ⟨_, type, _, _⟩ :: fs => type.signatures ++ Field.allSignatures fs

/-- The signatures of methods. -/
def Method.allSignatures : List Method → List Signature
  | [] => []
  | ⟨_, sig⟩ :: ms => sig.signatures ++ Method.allSignatures ms

/-- The signatures in terms. -/
def Term.allSignatures : List Term → List Signature
  | [] => []
  | ⟨_, type⟩ :: ts => type.signatures ++ Term.allSignatures ts

/-- The signatures in embedded elements. -/
def Embedded.allSignatures : List Embedded → List Signature
  | [] => []
  | .type t :: es => t.signatures ++ Embedded.allSignatures es
  | .union ts :: es => Term.allSignatures ts ++ Embedded.allSignatures es

/-- The signatures in an interface. -/
def Interface.signatures : Interface → List Signature
  | ⟨methods, embeddeds, _⟩ => Method.allSignatures methods ++ Embedded.allSignatures embeddeds

end

/-- The signatures in the type parameters and the underlying type of an entry. -/
def NamedType.signatures (entry : NamedType) : List Signature :=
  TypeParam.allSignatures entry.typeParams ++ Ty.optSignatures entry.underlying

/-- The signatures in a definition. -/
def Definition.signatures : Definition → List Signature
  | .func f => f.signature.signatures
  | .type d => d.type.signatures
  | .var _ | .const _ => []

/-- The signatures that occur in the table and in the definitions of a file. -/
def ResolvedFile.signatures (file : ResolvedFile) : List Signature :=
  file.table.entries.flatMap NamedType.signatures ++
    file.definitions.flatMap Definition.signatures

/-! ## What holds of every signature -/

/-- Every signature that occurs in a type satisfies `S`. -/
def Ty.Signed (S : Signature → Prop) (type : Ty) : Prop :=
  ∀ sig ∈ type.signatures, S sig

/-- The same for the variables of a list. -/
def Var.AllSigned (S : Signature → Prop) (vars : List Var) : Prop :=
  ∀ v ∈ vars, v.type.Signed S

variable {S : Signature → Prop}

/-- What holds of every signature in a list of parts holds of every signature in each part. -/
theorem Ty.signed_allSignatures_iff {ts : List Ty} :
    (∀ sig ∈ Ty.allSignatures ts, S sig) ↔ ∀ t ∈ ts, t.Signed S := by
  induction ts with
  | nil => simp [Ty.allSignatures]
  | cons t ts ih =>
    rw [Ty.allSignatures, List.forall_mem_append, ih, List.forall_mem_cons]
    rfl

theorem Var.signed_allSignatures_iff {vs : List Var} :
    (∀ sig ∈ Var.allSignatures vs, S sig) ↔ Var.AllSigned S vs := by
  induction vs with
  | nil => simp [Var.allSignatures, Var.AllSigned]
  | cons v vs ih =>
    obtain ⟨name, type⟩ := v
    rw [Var.allSignatures, List.forall_mem_append, ih, Var.AllSigned, Var.AllSigned,
      List.forall_mem_cons]
    rfl

theorem TypeParam.signed_allSignatures_iff {ps : List TypeParam} :
    (∀ sig ∈ TypeParam.allSignatures ps, S sig) ↔ ∀ p ∈ ps, p.constraint.Signed S := by
  induction ps with
  | nil => simp [TypeParam.allSignatures]
  | cons p ps ih =>
    obtain ⟨name, constraint⟩ := p
    rw [TypeParam.allSignatures, List.forall_mem_append, ih, List.forall_mem_cons]
    rfl

theorem Field.signed_allSignatures_iff {fs : List Field} :
    (∀ sig ∈ Field.allSignatures fs, S sig) ↔ ∀ f ∈ fs, f.type.Signed S := by
  induction fs with
  | nil => simp [Field.allSignatures]
  | cons f fs ih =>
    obtain ⟨name, type, embedded, tag⟩ := f
    rw [Field.allSignatures, List.forall_mem_append, ih, List.forall_mem_cons]
    rfl

theorem Method.signed_allSignatures_iff {ms : List Method} :
    (∀ sig ∈ Method.allSignatures ms, S sig) ↔
      ∀ m ∈ ms, ∀ sig ∈ m.signature.signatures, S sig := by
  induction ms with
  | nil => simp [Method.allSignatures]
  | cons m ms ih =>
    obtain ⟨name, sig⟩ := m
    rw [Method.allSignatures, List.forall_mem_append, ih, List.forall_mem_cons]

/-- Every signature in an embedded element satisfies `S`. -/
def Embedded.Signed (S : Signature → Prop) : Embedded → Prop
  | .type t => t.Signed S
  | .union terms => ∀ sig ∈ Term.allSignatures terms, S sig

theorem Embedded.signed_allSignatures_iff {es : List Embedded} :
    (∀ sig ∈ Embedded.allSignatures es, S sig) ↔ ∀ e ∈ es, e.Signed S := by
  induction es with
  | nil => simp [Embedded.allSignatures]
  | cons e es ih =>
    cases e <;> rw [Embedded.allSignatures, List.forall_mem_append, ih, List.forall_mem_cons] <;>
      rfl

theorem Interface.signed_iff {i : Interface} :
    (∀ sig ∈ i.signatures, S sig) ↔
      (∀ m ∈ i.methods, ∀ sig ∈ m.signature.signatures, S sig) ∧
        ∀ e ∈ i.embeddeds, e.Signed S := by
  obtain ⟨methods, embeddeds, comparable⟩ := i
  rw [Interface.signatures, List.forall_mem_append, Method.signed_allSignatures_iff,
    Embedded.signed_allSignatures_iff]

/-- The signatures in a signature are itself and those in its receiver, its type parameters, its
parameters and its results. -/
theorem Signature.signed_iff {sig : Signature} :
    (∀ s ∈ sig.signatures, S s) ↔
      S sig ∧ (∀ v, sig.receiver = some v → v.type.Signed S) ∧
        (∀ p ∈ sig.typeParams, p.constraint.Signed S) ∧
        Var.AllSigned S sig.params ∧ Var.AllSigned S sig.results := by
  obtain ⟨receiver, typeParams, params, results, variadic⟩ := sig
  have hreceiver : (∀ s ∈ Var.optSignatures receiver, S s) ↔
      ∀ v, receiver = some v → v.type.Signed S := by
    cases receiver with
    | none => simp [Var.optSignatures]
    | some v =>
      obtain ⟨name, type⟩ := v
      simp [Var.optSignatures, Ty.Signed]
  rw [Signature.signatures, List.forall_mem_cons, List.forall_mem_append, List.forall_mem_append,
    List.forall_mem_append, hreceiver, TypeParam.signed_allSignatures_iff,
    Var.signed_allSignatures_iff, Var.signed_allSignatures_iff, and_assoc, and_assoc]

theorem Signature.mem_signatures_self (sig : Signature) : sig ∈ sig.signatures := by
  cases sig
  exact List.mem_cons_self

/-! ## Instances -/

section

variable {bind : Binding} (hsubst : ∀ sig, S sig → S (sig.subst bind))
  (hbind : ∀ name type, bind name = some type → type.Signed S)
include hsubst hbind

-- each lemma of the block has the assumptions for the others, which the linter does not see
set_option linter.unusedSectionVars false in
mutual

/-- What holds of the signatures in a type and in its type arguments, and stays when type
parameters are replaced, holds of the signatures in the instance. -/
theorem Ty.Signed.subst : ∀ {t : Ty}, t.Signed S → (t.subst bind).Signed S
  | .basic _, h | .imported .., h | .invalid, h => h
  | .named _ _, h => Ty.signed_substs h
  | .param name, h => by
    rw [Ty.subst]
    cases hname : bind name with
    | none => exact h
    | some type => exact hbind name type hname
  | .pointer elem, h => Ty.Signed.subst (t := elem) h
  | .slice elem, h => Ty.Signed.subst (t := elem) h
  | .array _ elem, h => Ty.Signed.subst (t := elem) h
  | .map key value, h => by
    obtain ⟨hkey, hvalue⟩ := List.forall_mem_append.mp h
    exact List.forall_mem_append.mpr ⟨Ty.Signed.subst hkey, Ty.Signed.subst hvalue⟩
  | .chan _ elem, h => Ty.Signed.subst (t := elem) h
  | .func sig, h => Signature.signed_subst (show ∀ s ∈ sig.signatures, S s from h)
  | .struct fields, h => Field.signed_substs (show ∀ s ∈ Field.allSignatures fields, S s from h)
  | .interface iface, h => Interface.signed_subst (show ∀ s ∈ iface.signatures, S s from h)
termination_by structural t => t

theorem Ty.signed_substs : ∀ {ts : List Ty}, (∀ s ∈ Ty.allSignatures ts, S s) →
    ∀ s ∈ Ty.allSignatures (Ty.substs bind ts), S s
  | [], h => h
  | _ :: _, h => by
    obtain ⟨ht, hts⟩ := List.forall_mem_append.mp h
    exact List.forall_mem_append.mpr ⟨Ty.Signed.subst ht, Ty.signed_substs hts⟩
termination_by structural ts => ts

theorem Var.signed_substs : ∀ {vs : List Var}, (∀ s ∈ Var.allSignatures vs, S s) →
    ∀ s ∈ Var.allSignatures (Var.substs bind vs), S s
  | [], h => h
  | ⟨_, _⟩ :: _, h => by
    obtain ⟨htype, hvs⟩ := List.forall_mem_append.mp h
    exact List.forall_mem_append.mpr ⟨Ty.Signed.subst htype, Var.signed_substs hvs⟩
termination_by structural vs => vs

theorem Var.signed_substOpt : ∀ {v : Option Var}, (∀ s ∈ Var.optSignatures v, S s) →
    ∀ s ∈ Var.optSignatures (Var.substOpt bind v), S s
  | none, h => h
  | some ⟨_, type⟩, h => Ty.Signed.subst (t := type) h
termination_by structural v => v

theorem Signature.signed_subst : ∀ {sig : Signature}, (∀ s ∈ sig.signatures, S s) →
    ∀ s ∈ (sig.subst bind).signatures, S s
  | ⟨_, _, _, _, _⟩, h => by
    obtain ⟨hself, hparts⟩ := List.forall_mem_cons.mp h
    obtain ⟨hinner, hresults⟩ := List.forall_mem_append.mp hparts
    obtain ⟨houter, hparams⟩ := List.forall_mem_append.mp hinner
    obtain ⟨hreceiver, htypeParams⟩ := List.forall_mem_append.mp houter
    exact List.forall_mem_cons.mpr ⟨hsubst _ hself, List.forall_mem_append.mpr
      ⟨List.forall_mem_append.mpr ⟨List.forall_mem_append.mpr
        ⟨Var.signed_substOpt hreceiver, htypeParams⟩, Var.signed_substs hparams⟩,
        Var.signed_substs hresults⟩⟩
termination_by structural sig => sig

theorem Field.signed_substs : ∀ {fs : List Field}, (∀ s ∈ Field.allSignatures fs, S s) →
    ∀ s ∈ Field.allSignatures (Field.substs bind fs), S s
  | [], h => h
  | ⟨_, _, _, _⟩ :: _, h => by
    obtain ⟨htype, hfs⟩ := List.forall_mem_append.mp h
    exact List.forall_mem_append.mpr ⟨Ty.Signed.subst htype, Field.signed_substs hfs⟩
termination_by structural fs => fs

theorem Method.signed_substs : ∀ {ms : List Method}, (∀ s ∈ Method.allSignatures ms, S s) →
    ∀ s ∈ Method.allSignatures (Method.substs bind ms), S s
  | [], h => h
  | ⟨_, _⟩ :: _, h => by
    obtain ⟨hsig, hms⟩ := List.forall_mem_append.mp h
    exact List.forall_mem_append.mpr ⟨Signature.signed_subst hsig, Method.signed_substs hms⟩
termination_by structural ms => ms

theorem Term.signed_substs : ∀ {ts : List Term}, (∀ s ∈ Term.allSignatures ts, S s) →
    ∀ s ∈ Term.allSignatures (Term.substs bind ts), S s
  | [], h => h
  | ⟨_, _⟩ :: _, h => by
    obtain ⟨htype, hts⟩ := List.forall_mem_append.mp h
    exact List.forall_mem_append.mpr ⟨Ty.Signed.subst htype, Term.signed_substs hts⟩
termination_by structural ts => ts

theorem Embedded.signed_substs : ∀ {es : List Embedded}, (∀ s ∈ Embedded.allSignatures es, S s) →
    ∀ s ∈ Embedded.allSignatures (Embedded.substs bind es), S s
  | [], h => h
  | .type _ :: _, h => by
    obtain ⟨ht, hes⟩ := List.forall_mem_append.mp h
    exact List.forall_mem_append.mpr ⟨Ty.Signed.subst ht, Embedded.signed_substs hes⟩
  | .union _ :: _, h => by
    obtain ⟨hts, hes⟩ := List.forall_mem_append.mp h
    exact List.forall_mem_append.mpr ⟨Term.signed_substs hts, Embedded.signed_substs hes⟩
termination_by structural es => es

theorem Interface.signed_subst : ∀ {i : Interface}, (∀ s ∈ i.signatures, S s) →
    ∀ s ∈ (i.subst bind).signatures, S s
  | ⟨_, _, _⟩, h => by
    obtain ⟨hmethods, hembeddeds⟩ := List.forall_mem_append.mp h
    exact List.forall_mem_append.mpr
      ⟨Method.signed_substs hmethods, Embedded.signed_substs hembeddeds⟩
termination_by structural i => i

end

end

end GoSignatures
