import GoSignatures.Proofs.Recursion.Viewing
import GoSignatures.Proofs.Ty.Erasing

/-!
# Recursion in erased tables

Which types contain themselves does not depend on the lengths of arrays or on the names of imported
types: the same do in a table and in what is left of it. So what is left of types keeps enough of
them for resolving.

* `Table.containsItself_erase` — the same types contain themselves
* `Ty.view_erase` — what is left of types is a view of them
-/

namespace GoSignatures

/-! ## Containment -/

mutual

theorem Ty.components_erase :
    ∀ type : Ty, type.erase.components = type.components.map (Ty.Instance.view Ty.erase)
  | .named id args => by
    rw [Ty.erase, Ty.erases_eq_map]
    rfl
  | .array _ elem => Ty.components_erase elem
  | .struct fields => Field.components_erases fields
  | .basic _ | .imported .. | .param _ | .pointer _ | .slice _ | .map .. | .chan .. | .func _
  | .interface _ | .invalid => rfl
termination_by structural type => type

theorem Field.components_erases : ∀ fields : List Field,
    Field.components (Field.erases fields) =
      (Field.components fields).map (Ty.Instance.view Ty.erase)
  | [] => rfl
  | ⟨_, type, _, _⟩ :: fields => by
    rw [Field.erases, Field.components, Field.components, List.map_append,
      Ty.components_erase type, Field.components_erases fields]
termination_by structural fields => fields

end

theorem Ty.forgets_erase : Ty.Forgets Ty.erase where
  invalid := rfl
  named id args := by rw [Ty.erase, Ty.erases_eq_map]
  subst := Ty.erase_subst
  components := Ty.components_erase

/-- A declared type contains itself in what is left of a table if it does in the table. -/
theorem Table.containsItself_erase (t : Table) (id : Nat) :
    t.erase.containsItself id = t.containsItself id := by
  rw [Table.erase_eq_view]
  exact Ty.forgets_erase.containsItself_view t id

/-! ## Erasing as a view -/

/-- A type is a declared one if what is left of it is. -/
theorem Ty.eq_named_of_erase_eq {type : Ty} {id : Nat} {args : List Ty}
    (h : type.erase = .named id args) :
    ∃ args', type = .named id args' ∧ Ty.erases args' = args := by
  cases type <;> cases h
  exact ⟨_, rfl, rfl⟩

theorem Ty.view_erase : Ty.View Ty.erase where
  named h := by rw [Ty.erase, Ty.erase, Ty.erases_eq_map, Ty.erases_eq_map, h]
  of_named h := by
    rw [Ty.erase] at h
    obtain ⟨args', rfl, hargs⟩ := Ty.eq_named_of_erase_eq h
    rw [Ty.erases_eq_map, Ty.erases_eq_map] at hargs
    exact ⟨args', rfl, hargs⟩
  pointer h := by rw [Ty.erase, Ty.erase, h]
  slice h := by rw [Ty.erase, Ty.erase, h]
  array h := by rw [Ty.erase, Ty.erase, h]
  map h h' := by rw [Ty.erase, Ty.erase, h, h']
  chan h := by rw [Ty.erase, Ty.erase, h]
  func h := by rw [Ty.erase, Ty.erase, Signature.erase_eq_view, Signature.erase_eq_view, h]
  struct h := by
    rw [Ty.erase, Ty.erase, Field.erases_eq_map, Field.erases_eq_map]
    exact congrArg Ty.struct h
  interface h := by rw [Ty.erase, Ty.erase, Interface.erase_eq_view, Interface.erase_eq_view, h]
  withArguments := Ty.erase_withArguments
  underlying _ _ htables h := by
    rw [← Table.underlying_erase, ← Table.underlying_erase, Table.erase_eq_view, htables, h]
  containsItself htables id := by
    rw [← Table.containsItself_erase, Table.erase_eq_view, htables, ← Table.erase_eq_view,
      Table.containsItself_erase]

end GoSignatures
