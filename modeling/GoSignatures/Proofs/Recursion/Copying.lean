import GoSignatures.Proofs.Recursion.Bounds
import GoSignatures.Proofs.Ty.Copying

/-!
# The search in a copy

The search for a type that contains itself finds in a copy of a table what it finds in the original.
The copy may have more entries, so the search may go deeper there. This makes no difference, since a
search ends when all places have been visited.

* `ByValue.inNamed_eq_inNamed` — depths that suffice make no difference
* `Table.Copied.containsItself` — the copy of a type contains itself if the original does
* `Table.Copied.not_containsItself` — a type outside the copy does not
-/

namespace GoSignatures

/-! ## Depths that suffice -/

namespace ByValue

variable {t : Table} {target : Nat}

theorem inParts_congr {n : Nat} {visit visit' : Visit} (hvisits : Visits visit)
    (hsame : ∀ id args visited, (id < t.size → unvisited t visited < n) →
      visit id args visited = visit' id args visited) (parts : List Ty.Instance)
    {visited : List Nat} (hn : unvisited t visited ≤ n) :
    inParts target visit parts visited = inParts target visit' parts visited := by
  induction parts generalizing visited with
  | nil => rfl
  | cons part parts ih =>
    obtain ⟨id, args⟩ := part
    rw [inParts, inParts]
    split
    · rfl
    · split
      · exact ih hn
      · next hnew =>
        have hinside : id < t.size → unvisited t (id :: visited) < n := fun hid =>
          Nat.lt_of_lt_of_le (unvisited_cons_lt hid (by simpa using hnew)) hn
        have hlater : visited ⊆ (visit id args (id :: visited)).2 := fun _ hmem =>
          hvisits id args (id :: visited) (List.mem_cons_of_mem _ hmem)
        rw [← hsame id args (id :: visited) hinside]
        generalize visit id args (id :: visited) = first at hlater
        obtain ⟨_ | _, visited'⟩ := first
        · exact ih (Nat.le_trans (unvisited_le_of_subset hlater) hn)
        · rfl

/-- As long as both depths are above the number of places that have not been visited, they do not
matter. -/
theorem inNamed_eq_inNamed (t : Table) (target depth depth' : Nat) (h : depth ≤ depth') (id : Nat)
    (args : List Ty) (visited : List Nat) (hn : id < t.size → unvisited t visited < depth) :
    inNamed t target depth id args visited = inNamed t target depth' id args visited := by
  induction depth generalizing depth' id args visited with
  | zero =>
    -- a place outside the table has nothing inside
    have hnil : t.inner (id, args) = [] :=
      Table.inner_eq_nil (Nat.le_of_not_lt fun hid => Nat.not_lt_zero _ (hn hid))
    cases depth' with
    | zero => rfl
    | succ depth' =>
      rw [inNamed_succ t target depth' (id, args), hnil]
      rfl
  | succ depth ih =>
    obtain ⟨depth', rfl⟩ : ∃ d, depth' = d + 1 := ⟨depth' - 1, by omega⟩
    rw [inNamed_succ t target depth (id, args), inNamed_succ t target depth' (id, args)]
    by_cases hid : id < t.size
    · exact inParts_congr (visits_inNamed t target depth)
        (fun id args visited => ih depth' (Nat.le_of_succ_le_succ h) id args visited) _
        (Nat.le_of_lt_succ (hn hid))
    · rw [Table.inner_eq_nil (Nat.le_of_not_lt hid)]
      rfl

end ByValue

/-- A search that goes deeper finds no more. -/
theorem Table.containsItself_eq_of_le (t : Table) {depth : Nat} (h : t.size ≤ depth) (id : Nat) :
    t.containsItself id =
      (ByValue.inParts id (ByValue.inNamed t id depth) (t.inner (id, [])) []).1 := by
  have hall : ByValue.unvisited t [] ≤ t.size := Nat.le_of_eq t.unmet_nil
  rw [containsItself_eq, ByValue.inParts_congr (ByValue.visits_inNamed t id t.size)
    (ByValue.inNamed_eq_inNamed t id t.size depth h) _ hall]

/-! ## Components of a copy -/

/-- The instance with its places renumbered. -/
def Ty.Instance.rename (f : Nat → Nat) (part : Ty.Instance) : Ty.Instance :=
  (f part.1, Ty.renames f part.2)

mutual

theorem Ty.components_rename (f : Nat → Nat) :
    ∀ type : Ty, (type.rename f).components = type.components.map (Ty.Instance.rename f)
  | .named _ _ => rfl
  | .array _ elem => Ty.components_rename f elem
  | .struct fields => Field.components_renames f fields
  | .basic _ | .imported .. | .param _ | .pointer _ | .slice _ | .map .. | .chan .. | .func _
  | .interface _ | .invalid => rfl
termination_by structural type => type

theorem Field.components_renames (f : Nat → Nat) : ∀ fields : List Field,
    Field.components (Field.renames f fields) =
      (Field.components fields).map (Ty.Instance.rename f)
  | [] => rfl
  | ⟨_, type, _, _⟩ :: fields => by
    rw [Field.renames, Field.components, Field.components, List.map_append,
      Ty.components_rename f type, Field.components_renames f fields]
termination_by structural fields => fields

end

namespace Table.Copied

variable {f : Nat → Nat} {t t' : Table} (h : t.Copied f t')
include h

theorem inner (part : Ty.Instance) :
    t'.inner (part.rename f) = (t.inner part).map (Ty.Instance.rename f) := by
  have hunderlying := h.underlying (.named part.1 part.2)
  rw [Ty.rename] at hunderlying
  rw [Table.inner, Table.inner, Ty.Instance.rename, hunderlying, Ty.components_rename]

theorem inParts {target : Nat} {visit visit' : ByValue.Visit}
    (hvisit : ∀ place args visited, visit' (f place) (Ty.renames f args) (visited.map f) =
      (visit place args visited).map id (List.map f))
    (parts : List Ty.Instance) (visited : List Nat) :
    ByValue.inParts (f target) visit' (parts.map (Ty.Instance.rename f)) (visited.map f) =
      (ByValue.inParts target visit parts visited).map id (List.map f) := by
  induction parts generalizing visited with
  | nil => rfl
  | cons part parts ih =>
    obtain ⟨place, args⟩ := part
    have hcontains : (visited.map f).contains (f place) = visited.contains place := by
      rw [Bool.eq_iff_iff, List.contains_iff_mem, List.contains_iff_mem, List.mem_map]
      exact ⟨fun ⟨i, hi, heq⟩ => h.injective i place heq ▸ hi, fun hmem => ⟨place, hmem, rfl⟩⟩
    rw [List.map_cons, Ty.Instance.rename, ByValue.inParts, ByValue.inParts, hcontains]
    simp only [h.eq_iff]
    split
    · rfl
    · split
      · exact ih visited
      · rw [← List.map_cons, hvisit place args (place :: visited)]
        generalize visit place args (place :: visited) = first
        obtain ⟨_ | _, visited'⟩ := first
        · exact ih visited'
        · rfl

theorem inNamed (target depth place : Nat) (args : List Ty) (visited : List Nat) :
    ByValue.inNamed t' (f target) depth (f place) (Ty.renames f args) (visited.map f) =
      (ByValue.inNamed t target depth place args visited).map id (List.map f) := by
  induction depth generalizing place args visited with
  | zero => rfl
  | succ depth ih =>
    have hinner := h.inner (place, args)
    rw [ByValue.inNamed_succ t' (f target) depth (f place, Ty.renames f args),
      ByValue.inNamed_succ t target depth (place, args)]
    exact hinner ▸ h.inParts ih _ visited

/-- The copy of a type contains itself exactly if the original does. -/
theorem containsItself (id : Nat) :
    t'.containsItself (f id) = t.containsItself id := by
  have hinner : t'.inner (f id, []) = (t.inner (id, [])).map (Ty.Instance.rename f) :=
    h.inner (id, [])
  rw [t.containsItself_eq_of_le h.size_le, Table.containsItself_eq, hinner]
  have hparts := @inParts _ _ _ h id _ _ (h.inNamed id t'.size) (t.inner (id, [])) []
  rw [List.map_nil] at hparts
  rw [hparts, Prod.map_fst]
  rfl

/-- A type outside the copy does not contain itself. -/
theorem not_containsItself {place : Nat} (hplace : ∀ id, f id ≠ place) :
    t'.containsItself place = false := by
  rw [Bool.eq_false_iff]
  intro hcontains
  -- whatever is held stands in the copy
  have hcopied : ∀ {parts found}, t'.Holds parts found →
      (∀ part ∈ parts, ∃ original : Ty.Instance, part = original.rename f) →
        ∃ original : Ty.Instance, found = original.rename f := by
    intro parts found hholds
    induction hholds with
    | direct hmem => exact fun hparts => hparts _ hmem
    | inside hmem _ _ ih =>
      intro hparts
      obtain ⟨original, rfl⟩ := hparts _ hmem
      refine ih fun part hpart => ?_
      rw [h.inner] at hpart
      obtain ⟨inside, -, rfl⟩ := List.mem_map.mp hpart
      exact ⟨inside, rfl⟩
  obtain ⟨args, hholds⟩ := holdsItself_of_containsItself hcontains
  obtain ⟨original, heq⟩ := hcopied hholds fun part hpart => by
    unfold Table.inner at hpart
    cases hstored : t'.underlying? place with
    | none => simp [Table.underlying, Table.instance?, hstored, Ty.components] at hpart
    | some type =>
      obtain ⟨original, rfl⟩ := h.refers place type hstored
      rw [Table.underlying, Table.instance?, hstored, Option.map_some, Option.getD_some,
        if_pos List.isEmpty_nil, Ty.components_rename] at hpart
      obtain ⟨inside, -, rfl⟩ := List.mem_map.mp hpart
      exact ⟨inside, rfl⟩
  exact hplace original.1 (congrArg Prod.fst heq).symm

end Table.Copied

end GoSignatures
