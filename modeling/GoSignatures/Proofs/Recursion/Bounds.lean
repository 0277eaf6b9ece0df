import GoSignatures.Proofs.Recursion.ByValue
import GoSignatures.Proofs.Resolution.Guarded
import GoSignatures.Proofs.Resolution.Settling

/-!
# Bounds of the recursions over a table

Two recursions run over the table when all types are entered. Settling goes on for as long as a
round settles a type, so it takes at most as many rounds as types wait. The search for a type that
contains itself visits each place at most once. Under guard both find what they find without: the
places that they look up exist, and the bounds are not reached.

* `Table.settleGuarded_eq` — settling
* `ByValue.inNamedGuarded_eq` — looking into a declared type, with any two bounds that suffice
* `Table.findRecursiveGuarded_eq` — the search among all entered types
-/

namespace GoSignatures

variable {broken : ResolveError} {t : Table}

namespace Table

/-! ## Settling -/

/-- Each type that waits has a place, and its target has one. -/
def InPlace (t : Table) (waiting : List (Nat × Nat)) : Prop :=
  ∀ w ∈ waiting, w.1 < t.size ∧ w.2 < t.size

theorem settleRoundGuarded_eq {waiting : List (Nat × Nat)} (h : t.InPlace waiting) :
    t.settleRoundGuarded broken waiting = .ok (t.settleRound waiting) := by
  induction waiting generalizing t with
  | nil => rfl
  | cons w waiting ih =>
    obtain ⟨id, target⟩ := w
    obtain ⟨⟨hid, htarget⟩, hwaiting⟩ := List.forall_mem_cons.mp h
    rw [settleRoundGuarded, settleRound, if_pos htarget]
    cases t.underlying? target with
    | some type =>
      dsimp only
      rw [if_pos hid]
      exact ih fun w hw => by simpa using hwaiting w hw
    | none =>
      dsimp only
      rw [ih hwaiting]
      rfl

/-- As many rounds as types wait are enough to settle them. -/
theorem settleGuarded_eq {waiting : List (Nat × Nat)} {rounds : Nat} (hwaits : t.Waits waiting)
    (hplaces : t.InPlace waiting) (hrounds : waiting.length ≤ rounds) :
    settleGuarded broken rounds t waiting = .ok (t.settle waiting) := by
  induction rounds generalizing t waiting with
  | zero =>
    obtain rfl := List.eq_nil_of_length_eq_zero (Nat.le_zero.mp hrounds)
    rw [settle]
    rfl
  | succ rounds ih =>
    cases waiting with
    | nil =>
      rw [settle]
      rfl
    | cons w waiting =>
      obtain ⟨t', remaining, hround⟩ :
          ∃ t' remaining, t.settleRound (w :: waiting) = (t', remaining) := ⟨_, _, rfl⟩
      have hsettles := settleRound_settles hwaits hround
      have hle := hsettles.sublist.length_le
      have hplaces' : t'.InPlace remaining := fun v hv =>
        hsettles.size ▸ hplaces v (hsettles.sublist.subset hv)
      rw [settle, hround]
      simp only [settleGuarded, settleRoundGuarded_eq hplaces, hround, Except.ok_bind]
      by_cases hsame : remaining.length = (w :: waiting).length
      · rw [if_pos hsame]
        cases remaining with
        | nil => simp at hsame
        | cons v remaining =>
          have hlt : ¬ remaining.length + 1 < (w :: waiting).length := by
            simpa using Nat.le_of_eq hsame.symm
          simp only [hlt, if_false]
          rfl
      · rw [if_neg hsame]
        have hlt : remaining.length < (w :: waiting).length := Nat.lt_of_le_of_ne hle hsame
        rw [ih (hwaits.of_settles hsettles) hplaces' (by omega)]
        cases remaining with
        | nil =>
          rw [settle]
          rfl
        | cons v remaining => simp only [List.length_cons.symm ▸ hlt, if_true]

end Table

/-! ## The search for a type that contains itself -/

namespace ByValue

variable {target : Nat}

/-- The number of places that have not been visited. -/
def unvisited (t : Table) (visited : List Nat) : Nat :=
  t.unmet (visited.map fun id => (id, []))

theorem unvisited_le_of_subset {visited visited' : List Nat} (h : visited ⊆ visited') :
    unvisited t visited' ≤ unvisited t visited :=
  Table.unmet_le_of_subset (List.map_subset _ h)

theorem unvisited_cons_lt {id : Nat} {visited : List Nat} (hsize : id < t.size)
    (hnew : id ∉ visited) : unvisited t (id :: visited) < unvisited t visited :=
  Table.unmet_cons_lt hsize (by simpa using hnew)

/-- A search keeps the places that it has visited. -/
def Visits (visit : Visit) : Prop :=
  ∀ id args visited, visited ⊆ (visit id args visited).2

theorem Visits.inParts {visit : Visit} (h : Visits visit) (parts : List Ty.Instance)
    (visited : List Nat) : visited ⊆ (inParts target visit parts visited).2 := by
  induction parts generalizing visited with
  | nil => exact List.Subset.refl _
  | cons part parts ih =>
    obtain ⟨id, args⟩ := part
    rw [ByValue.inParts]
    split
    · exact List.Subset.refl _
    · split
      · exact ih visited
      · have hinside := h id args (id :: visited)
        have hlater : visited ⊆ (visit id args (id :: visited)).2 :=
          fun _ hmem => hinside (List.mem_cons_of_mem _ hmem)
        split
        · next heq => exact heq ▸ hlater
        · next heq =>
          rw [heq] at hlater
          exact List.Subset.trans hlater (ih _)

theorem Visits.inType {visit : Visit} (h : Visits visit) (type : Ty) (visited : List Nat) :
    visited ⊆ (inType target visit type visited).2 := by
  rw [inType_eq_inParts]
  exact h.inParts _ _

theorem visits_inNamed (t : Table) (target depth : Nat) : Visits (inNamed t target depth) := by
  induction depth with
  | zero => exact fun _ _ _ => List.Subset.refl _
  | succ depth ih => exact fun _ _ _ => ih.inType _ _

/-- Under guard, looking into a declared type finds what it finds without, while fewer than `n`
places have not been visited. -/
def VisitsAlike (t : Table) (n : Nat) (visit' : VisitGuarded) (visit : Visit) : Prop :=
  ∀ id args visited, (Ty.named id args).Proper t.places → unvisited t visited < n →
    visit' id args visited = .ok (visit id args visited)

section

variable {n : Nat} {visit : Visit} {visit' : VisitGuarded} (hvisits : Visits visit)
  (halike : VisitsAlike t n visit' visit)
include hvisits halike

-- each lemma of the block has the assumptions for the others, which the linter does not see
set_option linter.unusedSectionVars false in
mutual

theorem inTypeGuarded_eq : ∀ (type : Ty) (visited : List Nat), type.Proper t.places →
    unvisited t visited ≤ n →
      inTypeGuarded target visit' type visited = .ok (inType target visit type visited)
  | .named id args, visited, hproper, hn => by
    rw [inTypeGuarded, inType]
    split
    · rfl
    · split
      · rfl
      · next hnew =>
        have hlt : unvisited t (id :: visited) < unvisited t visited :=
          unvisited_cons_lt hproper.1 (by simpa using hnew)
        exact halike id args (id :: visited) hproper (Nat.lt_of_lt_of_le hlt hn)
  | .array _ elem, visited, hproper, hn => by
    rw [inTypeGuarded, inType, inTypeGuarded_eq elem visited hproper hn]
  | .struct fields, visited, hproper, hn => by
    rw [inTypeGuarded, inType, inFieldsGuarded_eq fields visited hproper hn]
  | .basic _, _, _, _ | .imported .., _, _, _ | .param _, _, _, _ | .pointer _, _, _, _
  | .slice _, _, _, _ | .map .., _, _, _ | .chan .., _, _, _ | .func _, _, _, _
  | .interface _, _, _, _ | .invalid, _, _, _ => by
    simp only [inTypeGuarded, inType]
termination_by structural type => type

theorem inFieldsGuarded_eq : ∀ (fields : List Field) (visited : List Nat),
    Field.AllProper t.places fields → unvisited t visited ≤ n →
      inFieldsGuarded target visit' fields visited = .ok (inFields target visit fields visited)
  | [], _, _, _ => rfl
  | ⟨_, type, _, _⟩ :: fields, visited, ⟨htype, hfields⟩, hn => by
    have hlater : visited ⊆ (inType target visit type visited).2 := hvisits.inType type visited
    rw [inFieldsGuarded, inFields, inTypeGuarded_eq type visited htype hn, Except.ok_bind]
    generalize inType target visit type visited = first at hlater
    obtain ⟨_ | _, visited'⟩ := first
    · exact inFieldsGuarded_eq fields visited' hfields
        (Nat.le_trans (unvisited_le_of_subset hlater) hn)
    · rfl
termination_by structural fields => fields

end

end

/-- As long as both bounds are above the number of places that have not been visited, they do not
matter. -/
theorem inNamedGuarded_eq
    (hunder : ∀ type : Ty, type.Proper t.places → (t.underlying type).Proper t.places)
    (target depth depth' : Nat) (h : depth ≤ depth') :
    VisitsAlike t depth (inNamedGuarded broken t target depth') (inNamed t target depth) := by
  induction depth generalizing depth' with
  | zero => exact fun _ _ _ _ hn => absurd hn (Nat.not_lt_zero _)
  | succ depth ih =>
    obtain ⟨depth', rfl⟩ : ∃ d, depth' = d + 1 := ⟨depth' - 1, by omega⟩
    intro id args visited hproper hn
    have hid : id < t.size := hproper.1
    rw [inNamedGuarded, inNamed, if_pos hid]
    exact inTypeGuarded_eq (visits_inNamed t target depth) (ih depth' (Nat.le_of_succ_le_succ h)) _
      visited (hunder _ hproper) (Nat.le_of_lt_succ hn)

end ByValue

namespace Table

variable (hunder : ∀ type : Ty, type.Proper t.places → (t.underlying type).Proper t.places)
include hunder

/-- As many nested visits as there are places are enough to search a type. -/
theorem containsItselfGuarded_eq (more : Nat) {id : Nat} (hid : id < t.size) :
    t.containsItselfGuarded broken more id = .ok (t.containsItself id) := by
  have hall : ByValue.unvisited t [] ≤ t.size := Nat.le_of_eq t.unmet_nil
  rw [containsItselfGuarded, if_pos hid, ByValue.inTypeGuarded_eq
    (ByValue.visits_inNamed t id t.size)
    (ByValue.inNamedGuarded_eq hunder id t.size _ (Nat.le_add_right _ _)) _ [] ?_ hall]
  · rfl
  · exact hunder _ ⟨hid, trivial⟩

theorem findRecursiveGuarded_eq (more : Nat) {entered : List EnteredType}
    (hplaces : ∀ e ∈ entered, e.id < t.size) :
    t.findRecursiveGuarded broken more entered =
      .ok (entered.find? fun e => t.containsItself e.id) := by
  induction entered with
  | nil => rfl
  | cons e entered ih =>
    obtain ⟨he, hplaces⟩ := List.forall_mem_cons.mp hplaces
    rw [findRecursiveGuarded, containsItselfGuarded_eq hunder more he, Except.ok_bind, ih hplaces,
      List.find?_cons]
    cases t.containsItself e.id <;> rfl

end Table

end GoSignatures
