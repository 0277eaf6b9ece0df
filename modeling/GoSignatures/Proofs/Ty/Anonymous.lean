import GoSignatures.Proofs.Ty.Parts

/-!
# Types without the names of embedded fields

An embedded field is shown by its type alone, so its name does not matter for the text.

* `Ty.anonymize` — a type without the names of its embedded fields
-/

namespace GoSignatures

mutual

/-- The type without the names of embedded fields. -/
def Ty.anonymize : Ty → Ty
  | .basic k => .basic k
  | .named id args => .named id (Ty.anonymizes args)
  | .imported path name underlying => .imported path name (Ty.anonymizeOpt underlying)
  | .param name => .param name
  | .pointer elem => .pointer elem.anonymize
  | .slice elem => .slice elem.anonymize
  | .array len elem => .array len elem.anonymize
  | .map key value => .map key.anonymize value.anonymize
  | .chan dir elem => .chan dir elem.anonymize
  | .func sig => .func sig.anonymize
  | .struct fields => .struct (Field.anonymizes fields)
  | .interface iface => .interface iface.anonymize
  | .invalid => .invalid

/-- The same in each type of a list. -/
def Ty.anonymizes : List Ty → List Ty
  | [] => []
  | t :: ts => t.anonymize :: Ty.anonymizes ts

/-- The same in an optional type. -/
def Ty.anonymizeOpt : Option Ty → Option Ty
  | none => none
  | some t => some t.anonymize

/-- The same in each variable of a list. -/
def Var.anonymizes : List Var → List Var
  | [] => []
  | ⟨name, type⟩ :: vs => ⟨name, type.anonymize⟩ :: Var.anonymizes vs

/-- The same in the receiver of a signature. -/
def Var.anonymizeOpt : Option Var → Option Var
  | none => none
  | some ⟨name, type⟩ => some ⟨name, type.anonymize⟩

/-- The same in each type parameter of a list. -/
def TypeParam.anonymizes : List TypeParam → List TypeParam
  | [] => []
  | ⟨name, constraint⟩ :: ps => ⟨name, constraint.anonymize⟩ :: TypeParam.anonymizes ps

/-- The same in a signature. -/
def Signature.anonymize : Signature → Signature
  | ⟨receiver, typeParams, params, results, variadic⟩ =>
    ⟨Var.anonymizeOpt receiver, TypeParam.anonymizes typeParams, Var.anonymizes params,
      Var.anonymizes results, variadic⟩

/-- The same in each field of a list. The embedded ones lose their names. -/
def Field.anonymizes : List Field → List Field
  | [] => []
  | ⟨name, type, embedded, tag⟩ :: fs =>
    ⟨if embedded then "" else name, type.anonymize, embedded, tag⟩ :: Field.anonymizes fs

/-- The same in each method of a list. -/
def Method.anonymizes : List Method → List Method
  | [] => []
  | ⟨name, sig⟩ :: ms => ⟨name, sig.anonymize⟩ :: Method.anonymizes ms

/-- The same in each term of a list. -/
def Term.anonymizes : List Term → List Term
  | [] => []
  | ⟨tilde, type⟩ :: ts => ⟨tilde, type.anonymize⟩ :: Term.anonymizes ts

/-- The same in each embedded element of a list. -/
def Embedded.anonymizes : List Embedded → List Embedded
  | [] => []
  | .type t :: es => .type t.anonymize :: Embedded.anonymizes es
  | .union ts :: es => .union (Term.anonymizes ts) :: Embedded.anonymizes es

/-- The same in an interface. -/
def Interface.anonymize : Interface → Interface
  | ⟨methods, embeddeds, comparable⟩ =>
    ⟨Method.anonymizes methods, Embedded.anonymizes embeddeds, comparable⟩

end

/-! ## Single parts -/

/-- The variable with an anonymized type. -/
def Var.anonymize (v : Var) : Var :=
  ⟨v.name, v.type.anonymize⟩

/-- The name of a field as far as it is shown. -/
def Field.label (field : Field) : String :=
  if field.embedded then "" else field.name

/-- The field with an anonymized type, and without its name if it is embedded. -/
def Field.anonymize (field : Field) : Field :=
  { field with name := field.label, type := field.type.anonymize }

/-- The method with an anonymized signature. -/
def Method.anonymize (m : Method) : Method :=
  ⟨m.name, m.signature.anonymize⟩

/-- The term with an anonymized type. -/
def Term.anonymize (term : Term) : Term :=
  ⟨term.tilde, term.type.anonymize⟩

/-- The embedded element with anonymized types. -/
def Embedded.anonymize : Embedded → Embedded
  | .type t => .type t.anonymize
  | .union ts => .union (ts.map Term.anonymize)

/-- The functions on lists apply those on single parts to each part. -/
theorem Ty.anonymizes_eq_map (ts : List Ty) : Ty.anonymizes ts = ts.map Ty.anonymize := by
  induction ts with
  | nil => rfl
  | cons t ts ih => rw [Ty.anonymizes, ih, List.map_cons]

theorem Var.anonymizes_eq_map (vs : List Var) : Var.anonymizes vs = vs.map Var.anonymize := by
  induction vs with
  | nil => rfl
  | cons v vs ih =>
    cases v
    rw [Var.anonymizes, ih, List.map_cons, Var.anonymize]

theorem Field.anonymizes_eq_map (fs : List Field) :
    Field.anonymizes fs = fs.map Field.anonymize := by
  induction fs with
  | nil => rfl
  | cons field fs ih =>
    cases field
    rw [Field.anonymizes, ih, List.map_cons, Field.anonymize, Field.label]

theorem Method.anonymizes_eq_map (ms : List Method) :
    Method.anonymizes ms = ms.map Method.anonymize := by
  induction ms with
  | nil => rfl
  | cons m ms ih =>
    cases m
    rw [Method.anonymizes, ih, List.map_cons, Method.anonymize]

theorem Term.anonymizes_eq_map (ts : List Term) :
    Term.anonymizes ts = ts.map Term.anonymize := by
  induction ts with
  | nil => rfl
  | cons term ts ih =>
    cases term
    rw [Term.anonymizes, ih, List.map_cons, Term.anonymize]

theorem Embedded.anonymizes_eq_map (es : List Embedded) :
    Embedded.anonymizes es = es.map Embedded.anonymize := by
  induction es with
  | nil => rfl
  | cons e es ih =>
    cases e with
    | type => rw [Embedded.anonymizes, ih, List.map_cons, Embedded.anonymize]
    | union =>
      rw [Embedded.anonymizes, ih, List.map_cons, Embedded.anonymize, Term.anonymizes_eq_map]

/-! ## Texts -/

theorem Ty.isRecvChan_anonymize (type : Ty) : type.anonymize.isRecvChan = type.isRecvChan := by
  cases type with
  | chan dir elem => cases dir <;> rfl
  | _ => rfl

/-- A field that is not embedded shows its name, an embedded one only its type. -/
theorem Field.chars_eq (t : Table) {field : Field}
    (hname : field.embedded = false → field.name ≠ "") :
    field.chars t = labelChars field.label ++ (field.type.chars t ++ tagChars field.tag) := by
  obtain ⟨name, type, embedded, tag⟩ := field
  cases embedded with
  | true => rfl
  | false =>
    have hname : ¬ name.isEmpty = true := by simpa using hname rfl
    simp [Field.chars, Field.label, labelChars, hname]

theorem Ty.dottedChars_congr {t : Table} {type : Ty}
    (h : type.anonymize.chars t = type.chars t) (dots : Bool) :
    type.anonymize.dottedChars t dots = type.dottedChars t dots := by
  cases dots with
  | false => rw [Ty.dottedChars_false, Ty.dottedChars_false, h]
  | true =>
    cases type with
    | slice elem =>
      rw [Ty.anonymize, Ty.chars, Ty.chars] at h
      rw [Ty.anonymize, Ty.dottedChars, Ty.dottedChars, (List.cons.inj (List.cons.inj h).2).2]
    | _ => exact h

mutual

/-- A type is shown without the names of its embedded fields. -/
theorem Ty.chars_anonymize (t : Table) : ∀ type : Ty, type.anonymize.chars t = type.chars t
  | .basic _ => rfl
  | .named id args => by
    have hempty : (Ty.anonymizes args).isEmpty = args.isEmpty := by cases args <;> rfl
    rw [Ty.anonymize, Ty.chars, Ty.chars, Ty.parts_anonymizes t args, hempty]
  | .imported .. => by rw [Ty.anonymize, Ty.chars, Ty.chars]
  | .param _ => rfl
  | .pointer elem => by rw [Ty.anonymize, Ty.chars, Ty.chars, Ty.chars_anonymize t elem]
  | .slice elem => by rw [Ty.anonymize, Ty.chars, Ty.chars, Ty.chars_anonymize t elem]
  | .array _ elem => by rw [Ty.anonymize, Ty.chars, Ty.chars, Ty.chars_anonymize t elem]
  | .map key value => by
    rw [Ty.anonymize, Ty.chars, Ty.chars, Ty.chars_anonymize t key, Ty.chars_anonymize t value]
  | .chan dir elem => by
    cases dir <;>
      rw [Ty.anonymize, Ty.chars, Ty.chars, Ty.chars_anonymize t elem]
    rw [Ty.isRecvChan_anonymize]
  | .func sig => by rw [Ty.anonymize, Ty.chars, Ty.chars, Signature.chars_anonymize t sig]
  | .struct fields => by
    rw [Ty.anonymize, Ty.chars, Ty.chars, Field.parts_anonymizes t fields]
  | .interface iface => by
    rw [Ty.anonymize, Ty.chars, Ty.chars, Interface.chars_anonymize t iface]
  | .invalid => rfl
termination_by structural type => type

theorem Ty.parts_anonymizes (t : Table) :
    ∀ types : List Ty, Ty.parts t (Ty.anonymizes types) = Ty.parts t types
  | [] => rfl
  | type :: types => by
    rw [Ty.anonymizes, Ty.parts, Ty.parts, Ty.chars_anonymize t type, Ty.parts_anonymizes t types]
termination_by structural types => types

theorem Var.parts_anonymizes (t : Table) (variadic : Bool) :
    ∀ vars : List Var, Var.parts t variadic (Var.anonymizes vars) = Var.parts t variadic vars
  | [] => rfl
  | ⟨name, type⟩ :: vars => by
    have htype := Ty.chars_anonymize t type
    have hvars := Var.parts_anonymizes t variadic vars
    cases vars with
    | nil =>
      rw [Var.anonymizes, Var.anonymizes, Var.parts_singleton, Var.parts_singleton, Var.chars,
        Var.chars, Ty.dottedChars_congr htype]
    | cons v vars =>
      cases v
      rw [Var.anonymizes] at hvars ⊢
      rw [Var.anonymizes, Var.parts_cons_cons, Var.parts_cons_cons, htype, hvars]
termination_by structural vars => vars

theorem Signature.chars_anonymize (t : Table) :
    ∀ sig : Signature, sig.anonymize.chars t = sig.chars t
  | ⟨_, _, params, results, variadic⟩ => by
    rw [Signature.anonymize, Signature.chars, Signature.chars,
      Var.parts_anonymizes t variadic params, Var.resultChars_anonymizes t results]
termination_by structural sig => sig

theorem Var.resultChars_anonymizes (t : Table) :
    ∀ vars : List Var, Var.resultChars t (Var.anonymizes vars) = Var.resultChars t vars
  | [] => rfl
  | [⟨name, type⟩] => by
    rw [Var.anonymizes, Var.anonymizes, Var.resultChars, Var.resultChars,
      Ty.chars_anonymize t type]
  | ⟨_, type⟩ :: ⟨name, type'⟩ :: vars => by
    have hvars := Var.parts_anonymizes t false (⟨name, type'⟩ :: vars)
    simp only [Var.anonymizes] at hvars
    simp only [Var.anonymizes, Var.resultChars, Var.parts_cons_cons, Ty.chars_anonymize t type,
      hvars]
termination_by structural vars => vars

theorem Field.parts_anonymizes (t : Table) :
    ∀ fields : List Field, Field.parts t (Field.anonymizes fields) = Field.parts t fields
  | [] => rfl
  | ⟨_, type, embedded, _⟩ :: fields => by
    have hfields := Field.parts_anonymizes t fields
    cases embedded <;>
      rw [Field.anonymizes, Field.parts, Field.parts, Ty.chars_anonymize t type, hfields] <;> rfl
termination_by structural fields => fields

theorem Method.parts_anonymizes (t : Table) :
    ∀ methods : List Method, Method.parts t (Method.anonymizes methods) = Method.parts t methods
  | [] => rfl
  | ⟨_, sig⟩ :: methods => by
    rw [Method.anonymizes, Method.parts, Method.parts, Signature.chars_anonymize t sig,
      Method.parts_anonymizes t methods]
termination_by structural methods => methods

theorem Term.parts_anonymizes (t : Table) :
    ∀ terms : List Term, Term.parts t (Term.anonymizes terms) = Term.parts t terms
  | [] => rfl
  | ⟨_, type⟩ :: terms => by
    rw [Term.anonymizes, Term.parts, Term.parts, Ty.chars_anonymize t type,
      Term.parts_anonymizes t terms]
termination_by structural terms => terms

theorem Embedded.parts_anonymizes (t : Table) :
    ∀ embeddeds : List Embedded,
      Embedded.parts t (Embedded.anonymizes embeddeds) = Embedded.parts t embeddeds
  | [] => rfl
  | .type type :: embeddeds => by
    rw [Embedded.anonymizes, Embedded.parts, Embedded.parts, Ty.chars_anonymize t type,
      Embedded.parts_anonymizes t embeddeds]
  | .union terms :: embeddeds => by
    rw [Embedded.anonymizes, Embedded.parts, Embedded.parts, Term.parts_anonymizes t terms,
      Embedded.parts_anonymizes t embeddeds]
termination_by structural embeddeds => embeddeds

theorem Interface.chars_anonymize (t : Table) :
    ∀ iface : Interface, iface.anonymize.chars t = iface.chars t
  | ⟨methods, embeddeds, _⟩ => by
    rw [Interface.anonymize, Interface.chars, Interface.chars,
      Method.parts_anonymizes t methods, Embedded.parts_anonymizes t embeddeds]
termination_by structural iface => iface

end

end GoSignatures
