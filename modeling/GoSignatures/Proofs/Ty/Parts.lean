import GoSignatures.Proofs.Ty.Renaming

/-!
# The parts of a text

The parts that are joined to the text of a type are the texts of its arguments, variables, fields,
methods and elements, each on its own. Only a variable shows differently at the end of a variadic
list.

* `Var.chars`, `Field.chars`, `Method.chars`, `Term.chars`, `Embedded.chars` — single parts
* `Var.marked` — variables, the last one with a mark
* `Var.parts_eq_map` and its like — the parts are the texts of the single ones
-/

namespace GoSignatures

/-! ## Single parts -/

/-- The characters of the type of a variable. If dots are asked for and it is a slice, they stand
before the type of the elements. -/
def Ty.dottedChars (t : Table) (dots : Bool) (type : Ty) : List Char :=
  match dots, type with
  | true, .slice elem => "...".toList ++ elem.chars t
  | _, type => type.chars t

/-- The characters of a variable. -/
def Var.chars (t : Table) (dots : Bool) (v : Var) : List Char :=
  labelChars v.name ++ v.type.dottedChars t dots

/-- The characters of a field. -/
def Field.chars (t : Table) (field : Field) : List Char :=
  (if field.embedded then [] else field.name.toList ++ [' ']) ++ field.type.chars t ++
    tagChars field.tag

/-- The characters of a method. -/
def Method.chars (t : Table) (m : Method) : List Char :=
  m.name.toList ++ m.signature.chars t

/-- The characters of a term. -/
def Term.chars (t : Table) (term : Term) : List Char :=
  (if term.tilde then ['~'] else []) ++ term.type.chars t

/-- The terms of an embedded element; a type is a single one. -/
def Embedded.terms : Embedded → List Term
  | .type u => [⟨false, u⟩]
  | .union terms => terms

/-- The characters of an embedded element. -/
def Embedded.chars (t : Table) (e : Embedded) : List Char :=
  joined " | " (e.terms.map (Term.chars t))

/-- Variables and whether they are marked: only the last one, if at all. -/
def Var.marked (mark : Bool) : List Var → List (Bool × Var)
  | [] => []
  | [v] => [(mark, v)]
  | v :: w :: vars => (false, v) :: Var.marked mark (w :: vars)

theorem Var.map_snd_marked (mark : Bool) (vars : List Var) :
    (Var.marked mark vars).map Prod.snd = vars := by
  induction vars with
  | nil => rfl
  | cons v vars ih =>
    cases vars with
    | nil => rfl
    | cons w vars => rw [Var.marked, List.map_cons, ih]

/-- Marking changes no variable. -/
theorem Var.mem_of_mem_marked {mark : Bool} {vars : List Var} {m : Bool × Var}
    (h : m ∈ Var.marked mark vars) : m.2 ∈ vars := by
  rw [← Var.map_snd_marked mark vars]
  exact List.mem_map_of_mem h

theorem Var.getLast?_marked (mark : Bool) (vars : List Var) :
    (Var.marked mark vars).getLast? = vars.getLast?.map (Prod.mk mark) := by
  induction vars with
  | nil => rfl
  | cons v vars ih =>
    cases vars with
    | nil => rfl
    | cons w vars =>
      rw [List.getLast?_cons_cons, ← ih]
      cases vars <;> rfl

/-- Only the last variable is marked. -/
theorem Var.getLast?_of_mem_marked {mark : Bool} {vars : List Var} {v : Var}
    (h : (true, v) ∈ Var.marked mark vars) : mark = true ∧ vars.getLast? = some v := by
  induction vars with
  | nil => cases h
  | cons w vars ih =>
    cases vars with
    | nil =>
      cases List.mem_singleton.mp h
      exact ⟨rfl, rfl⟩
    | cons u vars =>
      rcases List.mem_cons.mp h with heq | hmem
      · cases heq
      · rw [List.getLast?_cons_cons]
        exact ih hmem

theorem Ty.dottedChars_false (t : Table) (type : Ty) : type.dottedChars t false = type.chars t := by
  rw [Ty.dottedChars]
  exact nofun

/-! ## Parts of lists -/

theorem Ty.parts_eq_map (t : Table) (types : List Ty) :
    Ty.parts t types = types.map (Ty.chars t) := by
  induction types with
  | nil => rw [Ty.parts, List.map_nil]
  | cons type types ih => rw [Ty.parts, ih, List.map_cons]

theorem Var.parts_singleton (t : Table) (variadic : Bool) (v : Var) :
    Var.parts t variadic [v] = [v.chars t variadic] := by
  obtain ⟨name, type⟩ := v
  cases type with
  | slice elem => cases variadic <;> simp [Var.parts, Var.chars, Ty.dottedChars, Ty.chars]
  | _ => simp [Var.parts, Var.chars, Ty.dottedChars]

theorem Var.parts_cons_eq (t : Table) (variadic : Bool) (v w : Var) (vars : List Var) :
    Var.parts t variadic (v :: w :: vars) =
      v.chars t false :: Var.parts t variadic (w :: vars) := by
  obtain ⟨name, type⟩ := v
  rw [Var.parts_cons_cons, Var.chars, Ty.dottedChars_false]

/-- Only the last variable of a variadic list shows with dots. -/
theorem Var.parts_eq_map (t : Table) (variadic : Bool) (vars : List Var) :
    Var.parts t variadic vars = (Var.marked variadic vars).map fun m => m.2.chars t m.1 := by
  induction vars with
  | nil => rw [Var.parts, Var.marked, List.map_nil]
  | cons v vars ih =>
    cases vars with
    | nil => exact Var.parts_singleton t variadic v
    | cons w vars =>
      rw [Var.parts_cons_eq, ih, Var.marked, List.map_cons]

theorem Field.parts_eq_map (t : Table) (fields : List Field) :
    Field.parts t fields = fields.map (Field.chars t) := by
  induction fields with
  | nil => rw [Field.parts, List.map_nil]
  | cons field fields ih =>
    cases field
    rw [Field.parts, ih, List.map_cons, Field.chars]

theorem Method.parts_eq_map (t : Table) (methods : List Method) :
    Method.parts t methods = methods.map (Method.chars t) := by
  induction methods with
  | nil => rw [Method.parts, List.map_nil]
  | cons m methods ih =>
    cases m
    rw [Method.parts, ih, List.map_cons, Method.chars]

theorem Term.parts_eq_map (t : Table) (terms : List Term) :
    Term.parts t terms = terms.map (Term.chars t) := by
  induction terms with
  | nil => rw [Term.parts, List.map_nil]
  | cons term terms ih =>
    cases term
    rw [Term.parts, ih, List.map_cons, Term.chars]

theorem Embedded.parts_eq_map (t : Table) (embeddeds : List Embedded) :
    Embedded.parts t embeddeds = embeddeds.map (Embedded.chars t) := by
  induction embeddeds with
  | nil => rw [Embedded.parts, List.map_nil]
  | cons e embeddeds ih =>
    cases e with
    | type type =>
      rw [Embedded.parts, ih, List.map_cons, Embedded.chars, Embedded.terms, List.map_singleton,
        joined, List.intercalate_singleton, Term.chars]
      rfl
    | union terms =>
      rw [Embedded.parts, ih, List.map_cons, Embedded.chars, Embedded.terms, Term.parts_eq_map]

theorem Var.resultChars_bare (t : Table) (type : Ty) :
    Var.resultChars t [⟨"", type⟩] = ' ' :: type.chars t := by
  rw [Var.resultChars]
  rfl

/-- A result list is shown in parentheses, unless it is empty or a single type without a name. -/
theorem Var.resultChars_cases (t : Table) (results : List Var) :
    results = [] ∨ (∃ type, results = [⟨"", type⟩]) ∨
      Var.resultChars t results =
        ' ' :: '(' :: (joined ", " (Var.parts t false results) ++ [')']) := by
  match results with
  | [] => exact .inl rfl
  | [⟨name, type⟩] =>
    by_cases hname : name.isEmpty = true
    · obtain rfl : name = "" := by simpa using hname
      exact .inr (.inl ⟨type, rfl⟩)
    · rw [Var.resultChars, if_neg hname, Var.parts_singleton, joined, List.intercalate_singleton]
      exact .inr (.inr rfl)
  | v :: w :: vars =>
    refine .inr (.inr ?_)
    rw [Var.resultChars] <;> simp

end GoSignatures
