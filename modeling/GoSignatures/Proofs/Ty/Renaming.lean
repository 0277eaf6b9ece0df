import GoSignatures.Proofs.Ty.Proper
import GoSignatures.Ty.Printer

/-!
# Places given other numbers

The place of a declared type in the table depends on the order in which types are reached. What a
type is does not: a type and the same type over another table, its places renumbered, show alike.

* `Ty.rename` — a type with its places renumbered
* `Ty.chars_rename` — it shows alike if the names at the places agree
* `Ty.chars_congr` — so a type keeps its text as long as the names at its places stay
-/

namespace GoSignatures

mutual

/-- The type with the places of declared types renumbered. -/
def Ty.rename (f : Nat → Nat) : Ty → Ty
  | .basic k => .basic k
  | .named id args => .named (f id) (Ty.renames f args)
  | .imported path name underlying => .imported path name (Ty.renameOpt f underlying)
  | .param name => .param name
  | .pointer elem => .pointer (elem.rename f)
  | .slice elem => .slice (elem.rename f)
  | .array len elem => .array len (elem.rename f)
  | .map key value => .map (key.rename f) (value.rename f)
  | .chan dir elem => .chan dir (elem.rename f)
  | .func sig => .func (sig.rename f)
  | .struct fields => .struct (Field.renames f fields)
  | .interface iface => .interface (iface.rename f)
  | .invalid => .invalid

/-- The same in each type of a list. -/
def Ty.renames (f : Nat → Nat) : List Ty → List Ty
  | [] => []
  | t :: ts => t.rename f :: Ty.renames f ts

/-- The same in an optional type. -/
def Ty.renameOpt (f : Nat → Nat) : Option Ty → Option Ty
  | none => none
  | some t => some (t.rename f)

/-- The same in each variable of a list. -/
def Var.renames (f : Nat → Nat) : List Var → List Var
  | [] => []
  | ⟨name, type⟩ :: vs => ⟨name, type.rename f⟩ :: Var.renames f vs

/-- The same in the receiver of a signature. -/
def Var.renameOpt (f : Nat → Nat) : Option Var → Option Var
  | none => none
  | some ⟨name, type⟩ => some ⟨name, type.rename f⟩

/-- The same in each type parameter of a list. -/
def TypeParam.renames (f : Nat → Nat) : List TypeParam → List TypeParam
  | [] => []
  | ⟨name, constraint⟩ :: ps => ⟨name, constraint.rename f⟩ :: TypeParam.renames f ps

/-- The same in a signature. -/
def Signature.rename (f : Nat → Nat) : Signature → Signature
  | ⟨receiver, typeParams, params, results, variadic⟩ =>
    ⟨Var.renameOpt f receiver, TypeParam.renames f typeParams, Var.renames f params,
      Var.renames f results, variadic⟩

/-- The same in each field of a list. -/
def Field.renames (f : Nat → Nat) : List Field → List Field
  | [] => []
  | ⟨name, type, embedded, tag⟩ :: fs =>
    ⟨name, type.rename f, embedded, tag⟩ :: Field.renames f fs

/-- The same in each method of a list. -/
def Method.renames (f : Nat → Nat) : List Method → List Method
  | [] => []
  | ⟨name, sig⟩ :: ms => ⟨name, sig.rename f⟩ :: Method.renames f ms

/-- The same in each term of a list. -/
def Term.renames (f : Nat → Nat) : List Term → List Term
  | [] => []
  | ⟨tilde, type⟩ :: ts => ⟨tilde, type.rename f⟩ :: Term.renames f ts

/-- The same in each embedded element of a list. -/
def Embedded.renames (f : Nat → Nat) : List Embedded → List Embedded
  | [] => []
  | .type t :: es => .type (t.rename f) :: Embedded.renames f es
  | .union ts :: es => .union (Term.renames f ts) :: Embedded.renames f es

/-- The same in an interface. -/
def Interface.rename (f : Nat → Nat) : Interface → Interface
  | ⟨methods, embeddeds, comparable⟩ =>
    ⟨Method.renames f methods, Embedded.renames f embeddeds, comparable⟩

end

/-! ## Numbers that stay -/

section

variable {A : Ty.Allowed} {f : Nat → Nat} (hnamed : ∀ id count, A.named id count → f id = id)
  (herror : f errorId = errorId)
include hnamed herror

-- each lemma of the block has the assumptions for the others, which the linter does not see
set_option linter.unusedSectionVars false in
mutual

/-- Where the places that may occur keep their numbers, a type stays as it is. -/
theorem Ty.rename_eq_self : ∀ t : Ty, t.Proper A → t.rename f = t
  | .basic _, _ => rfl
  | .named id args, ⟨hid, hargs⟩ => by
    rw [Ty.rename, Ty.renames_eq_self args hargs, hnamed id _ hid]
  | .imported _ _ none, _ => rfl
  | .imported _ _ (some type), h => by
    rcases h type rfl with ⟨kind, rfl⟩ | rfl
    · rfl
    · simp only [Ty.error, Ty.rename, Ty.renameOpt, Ty.renames, herror]
  | .param _, _ => rfl
  | .pointer elem, h => by rw [Ty.rename, Ty.rename_eq_self elem h]
  | .slice elem, h => by rw [Ty.rename, Ty.rename_eq_self elem h]
  | .array _ elem, h => by rw [Ty.rename, Ty.rename_eq_self elem h]
  | .map key value, h => by rw [Ty.rename, Ty.rename_eq_self key h.1, Ty.rename_eq_self value h.2]
  | .chan _ elem, h => by rw [Ty.rename, Ty.rename_eq_self elem h]
  | .func sig, h => by rw [Ty.rename, Signature.rename_eq_self sig h]
  | .struct fields, h => by rw [Ty.rename, Field.renames_eq_self fields h]
  | .interface iface, h => by rw [Ty.rename, Interface.rename_eq_self iface h]
termination_by structural t => t

theorem Ty.renames_eq_self : ∀ ts : List Ty, Ty.AllProper A ts → Ty.renames f ts = ts
  | [], _ => rfl
  | t :: ts, h => by rw [Ty.renames, Ty.rename_eq_self t h.1, Ty.renames_eq_self ts h.2]
termination_by structural ts => ts

theorem Var.renames_eq_self : ∀ vs : List Var, Var.AllProper A vs → Var.renames f vs = vs
  | [], _ => rfl
  | ⟨_, type⟩ :: vs, h => by
    rw [Var.renames, Ty.rename_eq_self type h.1, Var.renames_eq_self vs h.2]
termination_by structural vs => vs

theorem Signature.rename_eq_self : ∀ sig : Signature, sig.Proper A → sig.rename f = sig
  | ⟨receiver, typeParams, params, results, _⟩, ⟨hreceiver, htypeParams, hparams, hresults⟩ => by
    subst hreceiver htypeParams
    rw [Signature.rename, Var.renames_eq_self params hparams, Var.renames_eq_self results hresults,
      Var.renameOpt, TypeParam.renames]
termination_by structural sig => sig

theorem Field.renames_eq_self : ∀ fs : List Field, Field.AllProper A fs → Field.renames f fs = fs
  | [], _ => rfl
  | ⟨_, type, _, _⟩ :: fs, h => by
    rw [Field.renames, Ty.rename_eq_self type h.1, Field.renames_eq_self fs h.2]
termination_by structural fs => fs

theorem Method.renames_eq_self :
    ∀ ms : List Method, Method.AllProper A ms → Method.renames f ms = ms
  | [], _ => rfl
  | ⟨_, sig⟩ :: ms, h => by
    rw [Method.renames, Signature.rename_eq_self sig h.1, Method.renames_eq_self ms h.2]
termination_by structural ms => ms

theorem Term.renames_eq_self : ∀ ts : List Term, Term.AllProper A ts → Term.renames f ts = ts
  | [], _ => rfl
  | ⟨_, type⟩ :: ts, h => by
    rw [Term.renames, Ty.rename_eq_self type h.1, Term.renames_eq_self ts h.2]
termination_by structural ts => ts

theorem Embedded.renames_eq_self :
    ∀ es : List Embedded, Embedded.AllProper A es → Embedded.renames f es = es
  | [], _ => rfl
  | .type t :: es, h => by
    rw [Embedded.renames, Ty.rename_eq_self t h.1, Embedded.renames_eq_self es h.2]
  | .union ts :: es, h => by
    rw [Embedded.renames, Term.renames_eq_self ts h.1, Embedded.renames_eq_self es h.2]
termination_by structural es => es

theorem Interface.rename_eq_self : ∀ i : Interface, i.Proper A → i.rename f = i
  | ⟨methods, embeddeds, _⟩, h => by
    rw [Interface.rename, Method.renames_eq_self methods h.1,
      Embedded.renames_eq_self embeddeds h.2]
termination_by structural i => i

end

end

/-! ## Text -/

/-- Renumbering keeps the form of a type, so parentheses stand where they did. -/
theorem Ty.isRecvChan_rename (f : Nat → Nat) (t : Ty) : (t.rename f).isRecvChan = t.isRecvChan := by
  cases t with
  | chan dir elem => cases dir <;> rfl
  | _ => rfl

theorem Ty.isEmpty_renames (f : Nat → Nat) (ts : List Ty) :
    (Ty.renames f ts).isEmpty = ts.isEmpty := by
  cases ts <;> rfl

theorem Var.parts_cons_cons (t : Table) (variadic : Bool) (name : String) (type : Ty) (v : Var)
    (vs : List Var) :
    Var.parts t variadic (⟨name, type⟩ :: v :: vs) =
      (labelChars name ++ type.chars t) :: Var.parts t variadic (v :: vs) := by
  rw [Var.parts]
  simp

section

variable {f : Nat → Nat} {t t' : Table} (hnames : ∀ id, t'.nameChars (f id) = t.nameChars id)
include hnames

-- each lemma of the block has the assumptions for the others, which the linter does not see
set_option linter.unusedSectionVars false in
mutual

/-- A renumbered type shows as the type itself if the names at its places agree. -/
theorem Ty.chars_rename : ∀ type : Ty, (type.rename f).chars t' = type.chars t
  | .basic _ => by rw [Ty.rename, Ty.chars, Ty.chars]
  | .named id args => by
    rw [Ty.rename, Ty.chars, Ty.chars, hnames id, Ty.parts_renames args, Ty.isEmpty_renames]
  | .imported .. => by rw [Ty.rename, Ty.chars, Ty.chars]
  | .param _ => by rw [Ty.rename, Ty.chars, Ty.chars]
  | .pointer elem => by rw [Ty.rename, Ty.chars, Ty.chars, Ty.chars_rename elem]
  | .slice elem => by rw [Ty.rename, Ty.chars, Ty.chars, Ty.chars_rename elem]
  | .array _ elem => by rw [Ty.rename, Ty.chars, Ty.chars, Ty.chars_rename elem]
  | .map key value => by
    rw [Ty.rename, Ty.chars, Ty.chars, Ty.chars_rename key, Ty.chars_rename value]
  | .chan .both elem => by
    rw [Ty.rename, Ty.chars, Ty.chars, Ty.isRecvChan_rename, Ty.chars_rename elem]
  | .chan .send elem => by rw [Ty.rename, Ty.chars, Ty.chars, Ty.chars_rename elem]
  | .chan .recv elem => by rw [Ty.rename, Ty.chars, Ty.chars, Ty.chars_rename elem]
  | .func sig => by rw [Ty.rename, Ty.chars, Ty.chars, Signature.chars_rename sig]
  | .struct fields => by rw [Ty.rename, Ty.chars, Ty.chars, Field.parts_renames fields]
  | .interface iface => by rw [Ty.rename, Ty.chars, Ty.chars, Interface.chars_rename iface]
  | .invalid => by rw [Ty.rename, Ty.chars, Ty.chars]
termination_by structural type => type

theorem Ty.parts_renames :
    ∀ types : List Ty, Ty.parts t' (Ty.renames f types) = Ty.parts t types
  | [] => by rw [Ty.renames, Ty.parts, Ty.parts]
  | type :: types => by
    rw [Ty.renames, Ty.parts, Ty.parts, Ty.chars_rename type, Ty.parts_renames types]
termination_by structural types => types

theorem Var.parts_renames (variadic : Bool) :
    ∀ vars : List Var,
      Var.parts t' variadic (Var.renames f vars) = Var.parts t variadic vars
  | [] => by rw [Var.renames, Var.parts, Var.parts]
  | ⟨name, type⟩ :: vars => by
    have htype := Ty.chars_rename type
    have hvars := Var.parts_renames variadic vars
    cases vars with
    | cons v vs =>
      cases v
      simp only [Var.renames] at hvars ⊢
      rw [Var.parts_cons_cons, Var.parts_cons_cons, htype, hvars]
    | nil =>
      cases type with
      | slice elem =>
        simp only [Ty.rename, Ty.chars, List.cons.injEq, true_and] at htype
        simp only [Var.renames, Ty.rename, Var.parts, htype]
      | _ =>
        simp only [Ty.rename] at htype
        simp only [Var.renames, Ty.rename, Var.parts, htype]
termination_by structural vars => vars

theorem Signature.chars_rename :
    ∀ sig : Signature, (sig.rename f).chars t' = sig.chars t
  | ⟨_, _, params, results, variadic⟩ => by
    rw [Signature.rename, Signature.chars, Signature.chars,
      Var.parts_renames variadic params, Var.resultChars_renames results]
termination_by structural sig => sig

theorem Var.resultChars_renames :
    ∀ vars : List Var,
      Var.resultChars t' (Var.renames f vars) = Var.resultChars t vars
  | [] => by rw [Var.renames, Var.resultChars, Var.resultChars]
  | [⟨name, type⟩] => by
    simp only [Var.renames, Var.resultChars, Ty.chars_rename type]
  | ⟨_, type⟩ :: ⟨name, type'⟩ :: vars => by
    have hvars := Var.parts_renames false (⟨name, type'⟩ :: vars)
    simp only [Var.renames] at hvars
    simp only [Var.renames, Var.resultChars, Var.parts_cons_cons, Ty.chars_rename type, hvars]
termination_by structural vars => vars

theorem Field.parts_renames :
    ∀ fields : List Field,
      Field.parts t' (Field.renames f fields) = Field.parts t fields
  | [] => by rw [Field.renames, Field.parts, Field.parts]
  | ⟨_, type, _, _⟩ :: fields => by
    rw [Field.renames, Field.parts, Field.parts, Ty.chars_rename type,
      Field.parts_renames fields]
termination_by structural fields => fields

theorem Method.parts_renames :
    ∀ methods : List Method,
      Method.parts t' (Method.renames f methods) = Method.parts t methods
  | [] => by rw [Method.renames, Method.parts, Method.parts]
  | ⟨_, sig⟩ :: methods => by
    rw [Method.renames, Method.parts, Method.parts, Signature.chars_rename sig,
      Method.parts_renames methods]
termination_by structural methods => methods

theorem Term.parts_renames :
    ∀ terms : List Term,
      Term.parts t' (Term.renames f terms) = Term.parts t terms
  | [] => by rw [Term.renames, Term.parts, Term.parts]
  | ⟨_, type⟩ :: terms => by
    rw [Term.renames, Term.parts, Term.parts, Ty.chars_rename type,
      Term.parts_renames terms]
termination_by structural terms => terms

theorem Embedded.parts_renames :
    ∀ embeddeds : List Embedded,
      Embedded.parts t' (Embedded.renames f embeddeds) = Embedded.parts t embeddeds
  | [] => by rw [Embedded.renames, Embedded.parts, Embedded.parts]
  | .type type :: embeddeds => by
    rw [Embedded.renames, Embedded.parts, Embedded.parts, Ty.chars_rename type,
      Embedded.parts_renames embeddeds]
  | .union terms :: embeddeds => by
    rw [Embedded.renames, Embedded.parts, Embedded.parts, Term.parts_renames terms,
      Embedded.parts_renames embeddeds]
termination_by structural embeddeds => embeddeds

theorem Interface.chars_rename :
    ∀ iface : Interface, (iface.rename f).chars t' = iface.chars t
  | ⟨methods, embeddeds, _⟩ => by
    rw [Interface.rename, Interface.chars, Interface.chars, Method.parts_renames methods,
      Embedded.parts_renames embeddeds]
termination_by structural iface => iface

end

end

/-- No name shows for a place behind the end of the table. -/
theorem Table.nameChars_of_size_le {t : Table} {id : Nat} (h : t.size ≤ id) :
    t.nameChars id = [] := by
  have hnone : t.get? id = none := List.getElem?_eq_none h
  rw [nameChars, hnone]

/-- A type keeps its text as long as the names at its places stay. -/
theorem Ty.chars_congr {A : Ty.Allowed} {t t' : Table}
    (hplaces : ∀ id count, A.named id count → id < t.size)
    (hnames : ∀ id < t.size, t'.nameChars id = t.nameChars id) (herror : errorId < t.size)
    {type : Ty} (h : type.Proper A) : type.chars t' = type.chars t := by
  -- places that do not occur are taken out of both tables
  let f : Nat → Nat := fun id => if id < t.size then id else id + t'.size
  have hkeeps : ∀ id < t.size, f id = id := fun id hid => if_pos hid
  have hsame : type.rename f = type :=
    Ty.rename_eq_self (fun id count hid => hkeeps id (hplaces id count hid)) (hkeeps _ herror)
      type h
  have hchars : (type.rename f).chars t' = type.chars t := by
    refine Ty.chars_rename (fun id => ?_) type
    by_cases hid : id < t.size
    · rw [hkeeps id hid, hnames id hid]
    · rw [show f id = id + t'.size from if_neg hid,
        Table.nameChars_of_size_le (Nat.le_add_left _ _),
        Table.nameChars_of_size_le (Nat.le_of_not_lt hid)]
  rwa [hsame] at hchars

end GoSignatures
