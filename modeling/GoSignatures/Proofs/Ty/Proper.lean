import GoSignatures.Definition
import GoSignatures.Proofs.Ty.Free

/-!
# What occurs in a type

A type expression yields types of a limited kind: declared types under the right number of
arguments, type parameters in force, imported types about which at most a basic type or `error` is
known. Signatures within a type are those of methods and function types: they have neither a
receiver nor type parameters.

* `Ty.Proper` — only what is allowed occurs in a type
* `Ty.proper_subst` — and replacing parameters keeps it so
* `Ty.Proper.free` — only allowed type parameters are free in such a type
* `Ty.subst_eq_self` — where no allowed parameter is bound, nothing is replaced
* `Definition.Proper` — only what is allowed occurs in a definition
-/

namespace GoSignatures

/-- Which declared types may occur in a type, with how many arguments, and which parameters. -/
structure Ty.Allowed where
  named : Nat → Nat → Prop
  param : String → Prop

/-- What may be known about an imported type. -/
def Ty.Known (underlying : Option Ty) : Prop :=
  ∀ type, underlying = some type → (∃ kind, type = .basic kind) ∨ type = .error

mutual

/-- Only what is allowed occurs in a type. -/
def Ty.Proper (A : Ty.Allowed) : Ty → Prop
  | .basic _ => True
  | .named id args => A.named id args.length ∧ Ty.AllProper A args
  | .imported _ _ underlying => Ty.Known underlying
  | .param name => A.param name
  | .pointer elem => elem.Proper A
  | .slice elem => elem.Proper A
  | .array _ elem => elem.Proper A
  | .map key value => key.Proper A ∧ value.Proper A
  | .chan _ elem => elem.Proper A
  | .func sig => sig.Proper A
  | .struct fields => Field.AllProper A fields
  | .interface iface => iface.Proper A
  | .invalid => False

/-- The same for each type of a list. -/
def Ty.AllProper (A : Ty.Allowed) : List Ty → Prop
  | [] => True
  | t :: ts => t.Proper A ∧ Ty.AllProper A ts

/-- The same for each variable of a list. -/
def Var.AllProper (A : Ty.Allowed) : List Var → Prop
  | [] => True
  | ⟨_, type⟩ :: vs => type.Proper A ∧ Var.AllProper A vs

/-- The same for a signature within a type. -/
def Signature.Proper (A : Ty.Allowed) : Signature → Prop
  | ⟨receiver, typeParams, params, results, _⟩ =>
    receiver = none ∧ typeParams = [] ∧ Var.AllProper A params ∧ Var.AllProper A results

/-- The same for each field of a list. -/
def Field.AllProper (A : Ty.Allowed) : List Field → Prop
  | [] => True
  | ⟨_, type, _, _⟩ :: fs => type.Proper A ∧ Field.AllProper A fs

/-- The same for each method of a list. -/
def Method.AllProper (A : Ty.Allowed) : List Method → Prop
  | [] => True
  | ⟨_, sig⟩ :: ms => sig.Proper A ∧ Method.AllProper A ms

/-- The same for each term of a list. -/
def Term.AllProper (A : Ty.Allowed) : List Term → Prop
  | [] => True
  | ⟨_, type⟩ :: ts => type.Proper A ∧ Term.AllProper A ts

/-- The same for each embedded element of a list. -/
def Embedded.AllProper (A : Ty.Allowed) : List Embedded → Prop
  | [] => True
  | .type t :: es => t.Proper A ∧ Embedded.AllProper A es
  | .union ts :: es => Term.AllProper A ts ∧ Embedded.AllProper A es

/-- The same for an interface. -/
def Interface.Proper (A : Ty.Allowed) : Interface → Prop
  | ⟨methods, embeddeds, _⟩ => Method.AllProper A methods ∧ Embedded.AllProper A embeddeds

end

/-! ## Lists -/

variable {A B : Ty.Allowed}

/-- Only what is allowed occurs in a list if it is so in each element. -/
theorem Ty.allProper_iff {ts : List Ty} : Ty.AllProper A ts ↔ ∀ t ∈ ts, t.Proper A := by
  induction ts with
  | nil => simp [Ty.AllProper]
  | cons t ts ih => simp [Ty.AllProper, ih]

theorem Var.allProper_iff {vs : List Var} : Var.AllProper A vs ↔ ∀ v ∈ vs, v.type.Proper A := by
  induction vs with
  | nil => simp [Var.AllProper]
  | cons v vs ih =>
    cases v
    simp [Var.AllProper, ih]

theorem Field.allProper_iff {fs : List Field} :
    Field.AllProper A fs ↔ ∀ f ∈ fs, f.type.Proper A := by
  induction fs with
  | nil => simp [Field.AllProper]
  | cons f fs ih =>
    cases f
    simp [Field.AllProper, ih]

theorem Method.allProper_iff {ms : List Method} :
    Method.AllProper A ms ↔ ∀ m ∈ ms, m.signature.Proper A := by
  induction ms with
  | nil => simp [Method.AllProper]
  | cons m ms ih =>
    cases m
    simp [Method.AllProper, ih]

/-- Only what is allowed occurs in an embedded element. -/
def Embedded.Proper (A : Ty.Allowed) : Embedded → Prop
  | .type t => t.Proper A
  | .union ts => Term.AllProper A ts

theorem Embedded.allProper_iff {es : List Embedded} :
    Embedded.AllProper A es ↔ ∀ e ∈ es, e.Proper A := by
  induction es with
  | nil => simp [Embedded.AllProper]
  | cons e es ih => cases e <;> simp [Embedded.AllProper, Embedded.Proper, ih]

/-! ## Replacing parameters -/

/-- Replacing parameters keeps the number of arguments. -/
theorem Ty.length_substs (bind : Binding) (ts : List Ty) :
    (Ty.substs bind ts).length = ts.length := by
  rw [Ty.substs_eq_map, List.length_map]

section

variable {bind : Binding} (hnamed : ∀ id count, A.named id count → B.named id count)
  (hparam : ∀ name, A.param name → ((bind name).getD (.param name)).Proper B)
include hnamed hparam

-- each lemma of the block has the assumptions for the others, which the linter does not see
set_option linter.unusedSectionVars false in
mutual

/-- Where parameters are replaced by what is allowed, the type stays so. -/
theorem Ty.proper_subst : ∀ t : Ty, t.Proper A → (t.subst bind).Proper B
  | .basic _, _ => trivial
  | .named id args, ⟨hid, hargs⟩ =>
    ⟨(Ty.length_substs bind args).symm ▸ hnamed id _ hid, Ty.allProper_substs args hargs⟩
  | .imported .., h => h
  | .param name, h => hparam name h
  | .pointer elem, h => Ty.proper_subst elem h
  | .slice elem, h => Ty.proper_subst elem h
  | .array _ elem, h => Ty.proper_subst elem h
  | .map key value, ⟨hkey, hvalue⟩ => ⟨Ty.proper_subst key hkey, Ty.proper_subst value hvalue⟩
  | .chan _ elem, h => Ty.proper_subst elem h
  | .func sig, h => Signature.proper_subst sig h
  | .struct fields, h => Field.allProper_substs fields h
  | .interface iface, h => Interface.proper_subst iface h
termination_by structural t => t

theorem Ty.allProper_substs :
    ∀ ts : List Ty, Ty.AllProper A ts → Ty.AllProper B (Ty.substs bind ts)
  | [], _ => trivial
  | t :: ts, ⟨h, hs⟩ => ⟨Ty.proper_subst t h, Ty.allProper_substs ts hs⟩
termination_by structural ts => ts

theorem Var.allProper_substs :
    ∀ vs : List Var, Var.AllProper A vs → Var.AllProper B (Var.substs bind vs)
  | [], _ => trivial
  | ⟨_, type⟩ :: vs, ⟨h, hs⟩ => ⟨Ty.proper_subst type h, Var.allProper_substs vs hs⟩
termination_by structural vs => vs

theorem Signature.proper_subst : ∀ sig : Signature, sig.Proper A → (sig.subst bind).Proper B
  | ⟨receiver, typeParams, params, results, _⟩, ⟨hreceiver, htypeParams, hparams, hresults⟩ => by
    subst hreceiver htypeParams
    exact ⟨rfl, rfl, Var.allProper_substs params hparams, Var.allProper_substs results hresults⟩
termination_by structural sig => sig

theorem Field.allProper_substs :
    ∀ fs : List Field, Field.AllProper A fs → Field.AllProper B (Field.substs bind fs)
  | [], _ => trivial
  | ⟨_, type, _, _⟩ :: fs, ⟨h, hs⟩ => ⟨Ty.proper_subst type h, Field.allProper_substs fs hs⟩
termination_by structural fs => fs

theorem Method.allProper_substs :
    ∀ ms : List Method, Method.AllProper A ms → Method.AllProper B (Method.substs bind ms)
  | [], _ => trivial
  | ⟨_, sig⟩ :: ms, ⟨h, hs⟩ => ⟨Signature.proper_subst sig h, Method.allProper_substs ms hs⟩
termination_by structural ms => ms

theorem Term.allProper_substs :
    ∀ ts : List Term, Term.AllProper A ts → Term.AllProper B (Term.substs bind ts)
  | [], _ => trivial
  | ⟨_, type⟩ :: ts, ⟨h, hs⟩ => ⟨Ty.proper_subst type h, Term.allProper_substs ts hs⟩
termination_by structural ts => ts

theorem Embedded.allProper_substs :
    ∀ es : List Embedded, Embedded.AllProper A es → Embedded.AllProper B (Embedded.substs bind es)
  | [], _ => trivial
  | .type t :: es, ⟨h, hs⟩ => ⟨Ty.proper_subst t h, Embedded.allProper_substs es hs⟩
  | .union ts :: es, ⟨h, hs⟩ => ⟨Term.allProper_substs ts h, Embedded.allProper_substs es hs⟩
termination_by structural es => es

theorem Interface.proper_subst : ∀ i : Interface, i.Proper A → (i.subst bind).Proper B
  | ⟨methods, embeddeds, _⟩, ⟨hmethods, hembeddeds⟩ =>
    ⟨Method.allProper_substs methods hmethods, Embedded.allProper_substs embeddeds hembeddeds⟩
termination_by structural i => i

end

end

mutual

/-- Where only what is allowed occurs in a type, only allowed type parameters are free. -/
theorem Ty.Proper.free : ∀ {t : Ty}, t.Proper A → ∀ name ∈ t.free, A.param name
  | .basic _, _ | .imported .., _ => List.forall_mem_nil _
  | .named _ _, h => Ty.AllProper.free h.2
  | .param _, h => List.forall_mem_singleton.mpr h
  | .pointer elem, h => Ty.Proper.free (t := elem) h
  | .slice elem, h => Ty.Proper.free (t := elem) h
  | .array _ elem, h => Ty.Proper.free (t := elem) h
  | .map _ _, h => List.forall_mem_append.mpr ⟨Ty.Proper.free h.1, Ty.Proper.free h.2⟩
  | .chan _ elem, h => Ty.Proper.free (t := elem) h
  | .func sig, h => Signature.Proper.free (show sig.Proper A from h)
  | .struct fields, h => Field.AllProper.free (show Field.AllProper A fields from h)
  | .interface iface, h => Interface.Proper.free (show iface.Proper A from h)
termination_by structural t => t

theorem Ty.AllProper.free :
    ∀ {ts : List Ty}, Ty.AllProper A ts → ∀ name ∈ Ty.allFree ts, A.param name
  | [], _ => List.forall_mem_nil _
  | _ :: _, h => List.forall_mem_append.mpr ⟨Ty.Proper.free h.1, Ty.AllProper.free h.2⟩
termination_by structural ts => ts

theorem Var.AllProper.free :
    ∀ {vs : List Var}, Var.AllProper A vs → ∀ name ∈ Var.allFree vs, A.param name
  | [], _ => List.forall_mem_nil _
  | ⟨_, _⟩ :: _, h => List.forall_mem_append.mpr ⟨Ty.Proper.free h.1, Var.AllProper.free h.2⟩
termination_by structural vs => vs

theorem Signature.Proper.free :
    ∀ {sig : Signature}, sig.Proper A → ∀ name ∈ sig.free, A.param name
  | ⟨_, _, _, _, _⟩, ⟨hreceiver, _, hparams, hresults⟩ => by
    subst hreceiver
    exact List.forall_mem_append.mpr ⟨Var.AllProper.free hparams, Var.AllProper.free hresults⟩
termination_by structural sig => sig

theorem Field.AllProper.free :
    ∀ {fs : List Field}, Field.AllProper A fs → ∀ name ∈ Field.allFree fs, A.param name
  | [], _ => List.forall_mem_nil _
  | ⟨_, _, _, _⟩ :: _, h =>
    List.forall_mem_append.mpr ⟨Ty.Proper.free h.1, Field.AllProper.free h.2⟩
termination_by structural fs => fs

theorem Method.AllProper.free :
    ∀ {ms : List Method}, Method.AllProper A ms → ∀ name ∈ Method.allFree ms, A.param name
  | [], _ => List.forall_mem_nil _
  | ⟨_, _⟩ :: _, h =>
    List.forall_mem_append.mpr ⟨Signature.Proper.free h.1, Method.AllProper.free h.2⟩
termination_by structural ms => ms

theorem Term.AllProper.free :
    ∀ {ts : List Term}, Term.AllProper A ts → ∀ name ∈ Term.allFree ts, A.param name
  | [], _ => List.forall_mem_nil _
  | ⟨_, _⟩ :: _, h => List.forall_mem_append.mpr ⟨Ty.Proper.free h.1, Term.AllProper.free h.2⟩
termination_by structural ts => ts

theorem Embedded.AllProper.free :
    ∀ {es : List Embedded}, Embedded.AllProper A es → ∀ name ∈ Embedded.allFree es, A.param name
  | [], _ => List.forall_mem_nil _
  | .type _ :: _, h =>
    List.forall_mem_append.mpr ⟨Ty.Proper.free h.1, Embedded.AllProper.free h.2⟩
  | .union _ :: _, h =>
    List.forall_mem_append.mpr ⟨Term.AllProper.free h.1, Embedded.AllProper.free h.2⟩
termination_by structural es => es

theorem Interface.Proper.free : ∀ {i : Interface}, i.Proper A → ∀ name ∈ i.free, A.param name
  | ⟨_, _, _⟩, h =>
    List.forall_mem_append.mpr ⟨Method.AllProper.free h.1, Embedded.AllProper.free h.2⟩
termination_by structural i => i

end

/-- Where no allowed parameter is replaced by another type, nothing is replaced. -/
theorem Ty.subst_eq_self {bind : Binding}
    (hbind : ∀ name, A.param name → (bind name).getD (.param name) = .param name) {t : Ty}
    (h : t.Proper A) : t.subst bind = t :=
  Ty.subst_eq_self_of_free fun name hname => hbind name (h.free name hname)

/-- What is allowed stays so where more is allowed. -/
theorem Ty.Proper.mono (hnamed : ∀ id count, A.named id count → B.named id count)
    (hparam : ∀ name, A.param name → B.param name) {t : Ty} (h : t.Proper A) : t.Proper B := by
  let bind : Binding := fun _ => none
  have hself : t.subst bind = t := Ty.subst_none t
  have hproper : (t.subst bind).Proper B :=
    Ty.proper_subst hnamed (show ∀ name, A.param name → ((bind name).getD (.param name)).Proper B
      from hparam) t h
  rwa [hself] at hproper

theorem Var.AllProper.mono (hnamed : ∀ id count, A.named id count → B.named id count)
    (hparam : ∀ name, A.param name → B.param name) {vs : List Var} (h : Var.AllProper A vs) :
    Var.AllProper B vs :=
  Var.allProper_iff.mpr fun v hv => (Var.allProper_iff.mp h v hv).mono hnamed hparam

/-! ## Definitions -/

/-- Only what is allowed occurs in the definition of a function. Unlike a signature within a type,
that of a function may have a receiver and type parameters. -/
structure FuncDef.Proper (A : Ty.Allowed) (f : FuncDef) : Prop where
  receiver : ∀ v, f.signature.receiver = some v → v.type.Proper A
  typeParams : ∀ param ∈ f.signature.typeParams, param.constraint.Proper A
  params : Var.AllProper A f.signature.params
  results : Var.AllProper A f.signature.results

/-- Whether the type of a definition is given by its right-hand side: the definition of a defined
type holds that type itself. -/
def TypeDef.isGiven (d : TypeDef) : Bool :=
  d.isAlias || d.name == "_"

/-- Only what is allowed occurs in the definition of a type. That of a defined type holds the type
itself without type arguments, however many it takes. -/
structure TypeDef.Proper (A : Ty.Allowed) (d : TypeDef) : Prop where
  given : d.isGiven = true → d.type.Proper A
  own : d.isGiven = false → ∃ id count, d.type = .named id [] ∧ A.named id count

/-- Only what is allowed occurs in a definition. -/
def Definition.Proper (A : Ty.Allowed) : Definition → Prop
  | .func f => f.Proper A
  | .type d => d.Proper A
  | .var _ | .const _ => True

/-- A proper signature has neither receiver nor type parameters, so nothing is asked of them. -/
theorem Signature.Proper.funcDef {f : FuncDef} (h : f.signature.Proper A) : f.Proper A := by
  obtain ⟨name, ⟨receiver, typeParams, params, results, variadic⟩, position, scope⟩ := f
  obtain ⟨hreceiver, htypeParams, hparams, hresults⟩ := h
  subst hreceiver htypeParams
  exact ⟨by simp, by simp, hparams, hresults⟩

/-- What is allowed may be widened. -/
theorem Definition.Proper.mono (hnamed : ∀ id count, A.named id count → B.named id count)
    (hparam : ∀ name, A.param name → B.param name) {d : Definition} (h : d.Proper A) :
    d.Proper B := by
  cases d with
  | func f =>
    exact ⟨fun v hv => (h.receiver v hv).mono hnamed hparam,
      fun param hmem => (h.typeParams param hmem).mono hnamed hparam,
      h.params.mono hnamed hparam, h.results.mono hnamed hparam⟩
  | type d =>
    refine ⟨fun hgiven => (h.given hgiven).mono hnamed hparam, fun hown => ?_⟩
    obtain ⟨id, count, htype, hid⟩ := h.own hown
    exact ⟨id, count, htype, hnamed id count hid⟩
  | _ => trivial

end GoSignatures
