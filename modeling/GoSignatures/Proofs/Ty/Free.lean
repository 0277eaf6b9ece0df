import GoSignatures.Ty.Substitution

/-!
# Free type parameters

The type parameters that are free in a type are those that replacement reaches. It reaches neither
what is known about an imported type nor the constraints of a signature's own type parameters, and
it does not tell a signature's own type parameters from others. The signatures in the types of a
resolved file have none (`SourceFile.typeParams_eq_nil`).

* `Ty.free` — the names of the type parameters that are free in a type
* `Ty.subst_subst_of_free` — two replacements are one, if they are for the free type parameters
* `Ty.subst_eq_self_of_free` — where no free type parameter is bound, nothing is replaced
-/

namespace GoSignatures

mutual

/-- The names of the type parameters that are free in a type. -/
def Ty.free : Ty → List String
  | .basic _ => []
  | .named _ args => Ty.allFree args
  | .imported .. => []
  | .param name => [name]
  | .pointer elem => elem.free
  | .slice elem => elem.free
  | .array _ elem => elem.free
  | .map key value => key.free ++ value.free
  | .chan _ elem => elem.free
  | .func sig => sig.free
  | .struct fields => Field.allFree fields
  | .interface iface => iface.free
  | .invalid => []

/-- The free type parameters of types. -/
def Ty.allFree : List Ty → List String
  | [] => []
  | t :: ts => t.free ++ Ty.allFree ts

/-- The free type parameters of variables. -/
def Var.allFree : List Var → List String
  | [] => []
  | ⟨_, type⟩ :: vs => type.free ++ Var.allFree vs

/-- The free type parameters of a variable, if there is one. -/
def Var.optFree : Option Var → List String
  | none => []
  | some ⟨_, type⟩ => type.free

/-- The free type parameters of a signature. -/
def Signature.free : Signature → List String
  | ⟨receiver, _, params, results, _⟩ =>
    Var.optFree receiver ++ Var.allFree params ++ Var.allFree results

/-- The free type parameters of fields. -/
def Field.allFree : List Field → List String
  | [] => []
  | ⟨_, type, _, _⟩ :: fs => type.free ++ Field.allFree fs

/-- The free type parameters of methods. -/
def Method.allFree : List Method → List String
  | [] => []
  | ⟨_, sig⟩ :: ms => sig.free ++ Method.allFree ms

/-- The free type parameters of terms. -/
def Term.allFree : List Term → List String
  | [] => []
  | ⟨_, type⟩ :: ts => type.free ++ Term.allFree ts

/-- The free type parameters of embedded elements. -/
def Embedded.allFree : List Embedded → List String
  | [] => []
  | .type t :: es => t.free ++ Embedded.allFree es
  | .union ts :: es => Term.allFree ts ++ Embedded.allFree es

/-- The free type parameters of an interface. -/
def Interface.free : Interface → List String
  | ⟨methods, embeddeds, _⟩ => Method.allFree methods ++ Embedded.allFree embeddeds

end

/-! ## Replacing twice -/

/-- Replacing the names under one binding and what they stand for under the next is replacing them
under the last. -/
def Binding.Composes (first second both : Binding) (names : List String) : Prop :=
  ∀ name ∈ names, ((first name).getD (.param name)).subst second = (both name).getD (.param name)

/-- What is asked of the names of a compound is asked of those of its parts. -/
theorem Binding.Composes.append {first second both : Binding} {left right : List String} :
    first.Composes second both (left ++ right) ↔
      first.Composes second both left ∧ first.Composes second both right :=
  List.forall_mem_append

section

variable {first second both : Binding}

mutual

/-- Two replacements are one, if they are for the type parameters that are free. -/
theorem Ty.subst_subst_of_free : ∀ t : Ty, first.Composes second both t.free →
    (t.subst first).subst second = t.subst both
  | .basic _, _ | .imported .., _ | .invalid, _ => rfl
  | .named _ args, h => by rw [Ty.subst, Ty.subst, Ty.subst, Ty.substs_substs_of_free args h]
  | .param name, h => h name List.mem_cons_self
  | .pointer elem, h => by rw [Ty.subst, Ty.subst, Ty.subst, Ty.subst_subst_of_free elem h]
  | .slice elem, h => by rw [Ty.subst, Ty.subst, Ty.subst, Ty.subst_subst_of_free elem h]
  | .array _ elem, h => by rw [Ty.subst, Ty.subst, Ty.subst, Ty.subst_subst_of_free elem h]
  | .map key value, h => by
    obtain ⟨hkey, hvalue⟩ := Binding.Composes.append.mp h
    rw [Ty.subst, Ty.subst, Ty.subst, Ty.subst_subst_of_free key hkey,
      Ty.subst_subst_of_free value hvalue]
  | .chan _ elem, h => by rw [Ty.subst, Ty.subst, Ty.subst, Ty.subst_subst_of_free elem h]
  | .func sig, h => by rw [Ty.subst, Ty.subst, Ty.subst, Signature.subst_subst_of_free sig h]
  | .struct fields, h => by
    rw [Ty.subst, Ty.subst, Ty.subst, Field.substs_substs_of_free fields h]
  | .interface iface, h => by
    rw [Ty.subst, Ty.subst, Ty.subst, Interface.subst_subst_of_free iface h]
termination_by structural t => t

theorem Ty.substs_substs_of_free : ∀ ts : List Ty, first.Composes second both (Ty.allFree ts) →
    Ty.substs second (Ty.substs first ts) = Ty.substs both ts
  | [], _ => rfl
  | t :: ts, h => by
    obtain ⟨ht, hts⟩ := Binding.Composes.append.mp h
    rw [Ty.substs, Ty.substs, Ty.substs, Ty.subst_subst_of_free t ht,
      Ty.substs_substs_of_free ts hts]
termination_by structural ts => ts

theorem Var.substs_substs_of_free : ∀ vs : List Var,
    first.Composes second both (Var.allFree vs) →
    Var.substs second (Var.substs first vs) = Var.substs both vs
  | [], _ => rfl
  | ⟨_, type⟩ :: vs, h => by
    obtain ⟨htype, hvs⟩ := Binding.Composes.append.mp h
    rw [Var.substs, Var.substs, Var.substs, Var.subst, Var.subst, Var.subst,
      Ty.subst_subst_of_free type htype, Var.substs_substs_of_free vs hvs]
termination_by structural vs => vs

theorem Var.substOpt_substOpt_of_free : ∀ v : Option Var,
    first.Composes second both (Var.optFree v) →
    Var.substOpt second (Var.substOpt first v) = Var.substOpt both v
  | none, _ => rfl
  | some ⟨_, type⟩, h => by
    rw [Var.substOpt, Var.substOpt, Var.substOpt, Var.subst, Var.subst, Var.subst,
      Ty.subst_subst_of_free type h]
termination_by structural v => v

theorem Signature.subst_subst_of_free : ∀ sig : Signature,
    first.Composes second both sig.free → (sig.subst first).subst second = sig.subst both
  | ⟨receiver, _, params, results, _⟩, h => by
    obtain ⟨hvars, hresults⟩ := Binding.Composes.append.mp h
    obtain ⟨hreceiver, hparams⟩ := Binding.Composes.append.mp hvars
    rw [Signature.subst, Signature.subst, Signature.subst,
      Var.substOpt_substOpt_of_free receiver hreceiver, Var.substs_substs_of_free params hparams,
      Var.substs_substs_of_free results hresults]
termination_by structural sig => sig

theorem Field.substs_substs_of_free : ∀ fs : List Field,
    first.Composes second both (Field.allFree fs) →
    Field.substs second (Field.substs first fs) = Field.substs both fs
  | [], _ => rfl
  | ⟨_, type, _, _⟩ :: fs, h => by
    obtain ⟨htype, hfs⟩ := Binding.Composes.append.mp h
    rw [Field.substs, Field.substs, Field.substs, Ty.subst_subst_of_free type htype,
      Field.substs_substs_of_free fs hfs]
termination_by structural fs => fs

theorem Method.substs_substs_of_free : ∀ ms : List Method,
    first.Composes second both (Method.allFree ms) →
    Method.substs second (Method.substs first ms) = Method.substs both ms
  | [], _ => rfl
  | ⟨_, sig⟩ :: ms, h => by
    obtain ⟨hsig, hms⟩ := Binding.Composes.append.mp h
    rw [Method.substs, Method.substs, Method.substs, Signature.subst_subst_of_free sig hsig,
      Method.substs_substs_of_free ms hms]
termination_by structural ms => ms

theorem Term.substs_substs_of_free : ∀ ts : List Term,
    first.Composes second both (Term.allFree ts) →
    Term.substs second (Term.substs first ts) = Term.substs both ts
  | [], _ => rfl
  | ⟨_, type⟩ :: ts, h => by
    obtain ⟨htype, hts⟩ := Binding.Composes.append.mp h
    rw [Term.substs, Term.substs, Term.substs, Ty.subst_subst_of_free type htype,
      Term.substs_substs_of_free ts hts]
termination_by structural ts => ts

theorem Embedded.substs_substs_of_free : ∀ es : List Embedded,
    first.Composes second both (Embedded.allFree es) →
    Embedded.substs second (Embedded.substs first es) = Embedded.substs both es
  | [], _ => rfl
  | .type t :: es, h => by
    obtain ⟨ht, hes⟩ := Binding.Composes.append.mp h
    rw [Embedded.substs, Embedded.substs, Embedded.substs, Ty.subst_subst_of_free t ht,
      Embedded.substs_substs_of_free es hes]
  | .union ts :: es, h => by
    obtain ⟨hts, hes⟩ := Binding.Composes.append.mp h
    rw [Embedded.substs, Embedded.substs, Embedded.substs, Term.substs_substs_of_free ts hts,
      Embedded.substs_substs_of_free es hes]
termination_by structural es => es

theorem Interface.subst_subst_of_free : ∀ i : Interface,
    first.Composes second both i.free → (i.subst first).subst second = i.subst both
  | ⟨methods, embeddeds, _⟩, h => by
    obtain ⟨hmethods, hembeddeds⟩ := Binding.Composes.append.mp h
    rw [Interface.subst, Interface.subst, Interface.subst,
      Method.substs_substs_of_free methods hmethods,
      Embedded.substs_substs_of_free embeddeds hembeddeds]
termination_by structural i => i

end

end

/-! ## Replacing nothing -/

mutual

/-- Where nothing is bound, nothing is replaced. -/
theorem Ty.subst_none : ∀ t : Ty, t.subst (fun _ => none) = t
  | .basic _ | .imported .. | .param _ | .invalid => rfl
  | .named _ args => by rw [Ty.subst, Ty.substs_none args]
  | .pointer elem => by rw [Ty.subst, Ty.subst_none elem]
  | .slice elem => by rw [Ty.subst, Ty.subst_none elem]
  | .array _ elem => by rw [Ty.subst, Ty.subst_none elem]
  | .map key value => by rw [Ty.subst, Ty.subst_none key, Ty.subst_none value]
  | .chan _ elem => by rw [Ty.subst, Ty.subst_none elem]
  | .func sig => by rw [Ty.subst, Signature.subst_none sig]
  | .struct fields => by rw [Ty.subst, Field.substs_none fields]
  | .interface iface => by rw [Ty.subst, Interface.subst_none iface]
termination_by structural t => t

theorem Ty.substs_none : ∀ ts : List Ty, Ty.substs (fun _ => none) ts = ts
  | [] => rfl
  | t :: ts => by rw [Ty.substs, Ty.subst_none t, Ty.substs_none ts]
termination_by structural ts => ts

theorem Var.substs_none : ∀ vs : List Var, Var.substs (fun _ => none) vs = vs
  | [] => rfl
  | ⟨_, type⟩ :: vs => by rw [Var.substs, Var.subst, Ty.subst_none type, Var.substs_none vs]
termination_by structural vs => vs

theorem Var.substOpt_none : ∀ v : Option Var, Var.substOpt (fun _ => none) v = v
  | none => rfl
  | some ⟨_, type⟩ => by rw [Var.substOpt, Var.subst, Ty.subst_none type]
termination_by structural v => v

theorem Signature.subst_none : ∀ sig : Signature, sig.subst (fun _ => none) = sig
  | ⟨receiver, _, params, results, _⟩ => by
    rw [Signature.subst, Var.substOpt_none receiver, Var.substs_none params,
      Var.substs_none results]
termination_by structural sig => sig

theorem Field.substs_none : ∀ fs : List Field, Field.substs (fun _ => none) fs = fs
  | [] => rfl
  | ⟨_, type, _, _⟩ :: fs => by rw [Field.substs, Ty.subst_none type, Field.substs_none fs]
termination_by structural fs => fs

theorem Method.substs_none : ∀ ms : List Method, Method.substs (fun _ => none) ms = ms
  | [] => rfl
  | ⟨_, sig⟩ :: ms => by rw [Method.substs, Signature.subst_none sig, Method.substs_none ms]
termination_by structural ms => ms

theorem Term.substs_none : ∀ ts : List Term, Term.substs (fun _ => none) ts = ts
  | [] => rfl
  | ⟨_, type⟩ :: ts => by rw [Term.substs, Ty.subst_none type, Term.substs_none ts]
termination_by structural ts => ts

theorem Embedded.substs_none : ∀ es : List Embedded, Embedded.substs (fun _ => none) es = es
  | [] => rfl
  | .type t :: es => by rw [Embedded.substs, Ty.subst_none t, Embedded.substs_none es]
  | .union ts :: es => by rw [Embedded.substs, Term.substs_none ts, Embedded.substs_none es]
termination_by structural es => es

theorem Interface.subst_none : ∀ i : Interface, i.subst (fun _ => none) = i
  | ⟨methods, embeddeds, _⟩ => by
    rw [Interface.subst, Method.substs_none methods, Embedded.substs_none embeddeds]
termination_by structural i => i

end

/-- Where no free type parameter is replaced by another type, nothing is replaced. -/
theorem Ty.subst_eq_self_of_free {bind : Binding} {t : Ty}
    (h : ∀ name ∈ t.free, (bind name).getD (.param name) = .param name) : t.subst bind = t := by
  have hnone : (t.subst (fun _ => none)).subst bind = t.subst fun _ => none :=
    Ty.subst_subst_of_free t h
  rwa [Ty.subst_none] at hnone

end GoSignatures
