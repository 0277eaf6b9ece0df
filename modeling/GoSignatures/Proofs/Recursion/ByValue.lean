import GoSignatures.Proofs.Lists
import GoSignatures.Resolution.Recursion

/-!
# Containment by value and the search for it

A value of a type holds values of declared types: those that stand in arrays and struct fields, and
those inside these, under their type arguments. The search for a type that holds itself opens each
declared type once only, for the arguments under which it meets it first.

* `Table.Holds` — what a value of a type holds, through any instances
* `Table.firstMet` — the instances that the search opens
* `Table.containsItself_iff` — the search finds a type exactly if it holds itself through instances
  that are met first
* `Table.containsItself_iff_holdsItself` — and exactly if it holds itself at all, where no type is
  held under different arguments
-/

namespace GoSignatures

/-! ## What a value holds -/

/-- A declared type, by its place in the table, under type arguments. -/
abbrev Ty.Instance := Nat × List Ty

mutual

/-- The instances whose values lie directly in a value of a type. -/
def Ty.components : Ty → List Ty.Instance
  | .named id args => [(id, args)]
  | .array _ elem => elem.components
  | .struct fields => Field.components fields
  | _ => []

/-- The same for the fields of a struct. -/
def Field.components : List Field → List Ty.Instance
  | [] => []
  | ⟨_, type, _, _⟩ :: fields => type.components ++ Field.components fields

end

namespace Table

/-- The instances whose values lie directly in a value of an instance. -/
def inner (t : Table) (part : Ty.Instance) : List Ty.Instance :=
  (t.underlying (.named part.1 part.2)).components

/-- A value with the given parts holds an instance, inside instances that satisfy `P`. -/
inductive HoldsThrough (t : Table) (P : Ty.Instance → Prop) :
    List Ty.Instance → Ty.Instance → Prop
  | direct {parts part} (h : part ∈ parts) : HoldsThrough t P parts part
  | inside {parts part found} (h : part ∈ parts) (hp : P part)
      (hfound : HoldsThrough t P (t.inner part) found) : HoldsThrough t P parts found

/-- A value with the given parts holds an instance. -/
abbrev Holds (t : Table) : List Ty.Instance → Ty.Instance → Prop :=
  t.HoldsThrough fun _ => True

/-- A value of the declared type at `id` holds a value of that type. -/
def HoldsItself (t : Table) (id : Nat) : Prop :=
  ∃ args, t.Holds (t.inner (id, [])) (id, args)

theorem HoldsThrough.mono {t : Table} {P Q : Ty.Instance → Prop} (hPQ : ∀ part, P part → Q part)
    {parts : List Ty.Instance} {found : Ty.Instance} (h : t.HoldsThrough P parts found) :
    t.HoldsThrough Q parts found := by
  induction h with
  | direct h => exact .direct h
  | inside h hp _ ih => exact .inside h (hPQ _ hp) ih

theorem Holds.trans {t : Table} {parts : List Ty.Instance} {part found : Ty.Instance}
    (h : t.Holds parts part) (hfound : t.Holds (t.inner part) found) : t.Holds parts found := by
  induction h with
  | direct h => exact .inside h trivial hfound
  | inside h _ _ ih => exact .inside h trivial (ih hfound)

/-! ## The instances that the search opens -/

/-- The instances met so far, and those that are met in the given parts. Each type other than the
target is opened, by `enter`, where it is met first. -/
def meetParts (target : Nat) (enter : Ty.Instance → List Ty.Instance → List Ty.Instance) :
    List Ty.Instance → List Ty.Instance → List Ty.Instance
  | [], met => met
  | part :: parts, met =>
    if part.1 = target ∨ part.1 ∈ met.map Prod.fst then meetParts target enter parts met
    else meetParts target enter parts (enter part (part :: met))

/-- The instances met so far, and those that are met inside an instance. -/
def meetInside (t : Table) (target : Nat) : Nat → Ty.Instance → List Ty.Instance → List Ty.Instance
  | 0, _, met => met
  | depth + 1, part, met => meetParts target (meetInside t target depth) (t.inner part) met

/-- The instances that the search for the declared type at `id` opens: of each type the first that
it meets. -/
def firstMet (t : Table) (id : Nat) : List Ty.Instance :=
  meetParts id (t.meetInside id t.size) (t.inner (id, [])) []

end Table

/-! ## The search as a walk through components -/

namespace ByValue

/-- The search through components, one after the other. -/
def inParts (target : Nat) (visit : Visit) :
    List Ty.Instance → List Nat → Bool × List Nat
  | [], visited => (false, visited)
  | (id, args) :: parts, visited =>
    if id = target then (true, visited)
    else if visited.contains id then inParts target visit parts visited
    else
      match visit id args (id :: visited) with
      | (true, visited) => (true, visited)
      | (false, visited) => inParts target visit parts visited

theorem inParts_append (target : Nat) (visit : Visit) (ps qs : List Ty.Instance)
    (visited : List Nat) :
    inParts target visit (ps ++ qs) visited =
      match inParts target visit ps visited with
      | (true, visited) => (true, visited)
      | (false, visited) => inParts target visit qs visited := by
  induction ps generalizing visited with
  | nil => rfl
  | cons p ps ih =>
    simp only [List.cons_append, inParts]
    split
    · rfl
    · split
      · exact ih visited
      · split
        · rfl
        · exact ih _

mutual

theorem inType_eq_inParts (target : Nat) (visit : Visit) :
    ∀ (type : Ty) (visited : List Nat),
      inType target visit type visited = inParts target visit type.components visited
  | .named id args, visited => by
    simp only [inType, Ty.components, inParts]
    split
    · rfl
    · split
      · rfl
      · generalize visit id args (id :: visited) = r
        obtain ⟨_ | _, _⟩ := r <;> rfl
  | .array _ elem, visited => by
    rw [inType, Ty.components, inType_eq_inParts target visit elem visited]
  | .struct fields, visited => by
    rw [inType, Ty.components, inFields_eq_inParts target visit fields visited]
  | .basic _, _ | .imported .., _ | .param _, _ | .pointer _, _ | .slice _, _ | .map .., _
  | .chan .., _ | .func _, _ | .interface _, _ | .invalid, _ => by
    simp only [inType, Ty.components, inParts]
termination_by structural type => type

theorem inFields_eq_inParts (target : Nat) (visit : Visit) :
    ∀ (fields : List Field) (visited : List Nat),
      inFields target visit fields visited =
        inParts target visit (Field.components fields) visited
  | [], visited => rfl
  | ⟨_, type, _, _⟩ :: fields, visited => by
    rw [inFields, Field.components, inParts_append, inType_eq_inParts target visit type visited]
    generalize inParts target visit type.components visited = first
    obtain ⟨_ | _, visited'⟩ := first
    · exact inFields_eq_inParts target visit fields visited'
    · rfl
termination_by structural fields => fields

end

theorem inNamed_succ (t : Table) (target depth : Nat) (part : Ty.Instance)
    (visited : List Nat) :
    inNamed t target (depth + 1) part.1 part.2 visited =
      inParts target (inNamed t target depth) (t.inner part) visited := by
  rw [inNamed, inType_eq_inParts]
  rfl

end ByValue

namespace Table

variable {t : Table} {target : Nat}

theorem containsItself_eq (t : Table) (id : Nat) :
    t.containsItself id =
      (ByValue.inParts id (ByValue.inNamed t id t.size) (t.inner (id, [])) []).1 := by
  rw [containsItself, ByValue.inType_eq_inParts]
  rfl

/-! ## What the search meets -/

theorem subset_meetParts {enter : Ty.Instance → List Ty.Instance → List Ty.Instance}
    (henter : ∀ part met, met ⊆ enter part met) (parts met : List Ty.Instance) :
    met ⊆ meetParts target enter parts met := by
  induction parts generalizing met with
  | nil => simp [meetParts]
  | cons part parts ih =>
    rw [meetParts]
    split
    · exact ih met
    · exact fun p hp => ih _ (henter part _ (List.mem_cons_of_mem _ hp))

theorem subset_meetInside (depth : Nat) (part : Ty.Instance) (met : List Ty.Instance) :
    met ⊆ t.meetInside target depth part met := by
  induction depth generalizing part met with
  | zero => simp [meetInside]
  | succ depth ih => exact subset_meetParts ih _ met

/-- A search that finds nothing visits the types of the instances that are met. -/
theorem visited_of_not_found {visit : ByValue.Visit}
    {enter : Ty.Instance → List Ty.Instance → List Ty.Instance}
    (hvisit : ∀ part met visited, visit part.1 part.2 (met.map Prod.fst) = (false, visited) →
      visited = (enter part met).map Prod.fst)
    {parts met : List Ty.Instance} {visited : List Nat}
    (h : ByValue.inParts target visit parts (met.map Prod.fst) = (false, visited)) :
    visited = (meetParts target enter parts met).map Prod.fst := by
  induction parts generalizing met with
  | nil => simpa [ByValue.inParts, meetParts, eq_comm] using h
  | cons part parts ih =>
    by_cases htarget : part.1 = target
    · simp [ByValue.inParts, htarget] at h
    by_cases hmet : part.1 ∈ met.map Prod.fst
    · simp only [ByValue.inParts, htarget, hmet, List.contains_iff_mem, meetParts, false_or,
        if_true, if_false] at h ⊢
      exact ih h
    · simp only [ByValue.inParts, htarget, hmet, List.contains_iff_mem, meetParts, false_or,
        if_false] at h ⊢
      split at h
      · cases h
      · next visited' hpart =>
        have hmet' := hvisit part (part :: met) visited' hpart
        rw [hmet'] at h
        exact ih h

theorem visited_of_inNamed_not_found (depth : Nat) (part : Ty.Instance) (met : List Ty.Instance)
    (visited : List Nat)
    (h : ByValue.inNamed t target depth part.1 part.2 (met.map Prod.fst) = (false, visited)) :
    visited = (t.meetInside target depth part met).map Prod.fst := by
  induction depth generalizing part met visited with
  | zero => simpa [ByValue.inNamed, meetInside, eq_comm] using h
  | succ depth ih =>
    rw [ByValue.inNamed_succ] at h
    exact visited_of_not_found ih h

/-- What a search finds is held through instances that are met. -/
theorem holdsThrough_of_found {visit : ByValue.Visit}
    {enter : Ty.Instance → List Ty.Instance → List Ty.Instance}
    (henter : ∀ part met, met ⊆ enter part met)
    (hvisit : ∀ part met visited, visit part.1 part.2 (met.map Prod.fst) = (false, visited) →
      visited = (enter part met).map Prod.fst)
    (hfound : ∀ part met visited, visit part.1 part.2 (met.map Prod.fst) = (true, visited) →
      ∃ args, t.HoldsThrough (· ∈ enter part met) (t.inner part) (target, args))
    {parts met : List Ty.Instance} {visited : List Nat}
    (h : ByValue.inParts target visit parts (met.map Prod.fst) = (true, visited)) :
    ∃ args, t.HoldsThrough (· ∈ meetParts target enter parts met) parts (target, args) := by
  induction parts generalizing met with
  | nil => simp [ByValue.inParts] at h
  | cons part parts ih =>
    have hlater : ∀ {P : Ty.Instance → Prop} {args : List Ty},
        t.HoldsThrough P parts (target, args) → t.HoldsThrough P (part :: parts) (target, args) := by
      intro P args hholds
      cases hholds with
      | direct h => exact .direct (List.mem_cons_of_mem _ h)
      | inside h hp hfound => exact .inside (List.mem_cons_of_mem _ h) hp hfound
    by_cases htarget : part.1 = target
    · exact ⟨part.2, .direct (by simp [← htarget])⟩
    by_cases hmet : part.1 ∈ met.map Prod.fst
    · simp only [ByValue.inParts, htarget, hmet, List.contains_iff_mem, meetParts, false_or,
        if_true, if_false] at h ⊢
      obtain ⟨args, hargs⟩ := ih h
      exact ⟨args, hlater hargs⟩
    · simp only [ByValue.inParts, htarget, hmet, List.contains_iff_mem, meetParts, false_or,
        if_false] at h ⊢
      have hsub : enter part (part :: met) ⊆ meetParts target enter parts _ :=
        subset_meetParts henter parts (enter part (part :: met))
      split at h
      · next visited' hpart =>
        obtain ⟨args, hargs⟩ := hfound part (part :: met) visited' hpart
        exact ⟨args, .inside List.mem_cons_self (hsub (henter part _ List.mem_cons_self))
          (hargs.mono fun _ hp => hsub hp)⟩
      · next visited' hpart =>
        rw [hvisit part (part :: met) visited' hpart] at h
        obtain ⟨args, hargs⟩ := ih h
        exact ⟨args, hlater hargs⟩

theorem holdsThrough_of_inNamed_found (depth : Nat) (part : Ty.Instance) (met : List Ty.Instance)
    (visited : List Nat)
    (h : ByValue.inNamed t target depth part.1 part.2 (met.map Prod.fst) = (true, visited)) :
    ∃ args, t.HoldsThrough (· ∈ t.meetInside target depth part met) (t.inner part)
      (target, args) := by
  induction depth generalizing part met visited with
  | zero => simp [ByValue.inNamed] at h
  | succ depth ih =>
    rw [ByValue.inNamed_succ] at h
    exact holdsThrough_of_found (subset_meetInside depth) (visited_of_inNamed_not_found depth) ih h

/-! ## A search that finds nothing has looked everywhere -/

/-- The number of declared types that have not been met. -/
def unmet (t : Table) (met : List Ty.Instance) : Nat :=
  (List.range t.size).countP fun id => !(met.map Prod.fst).contains id

/-- None of the parts is the target, and the type of each has been met. -/
def PassedOver (target : Nat) (met parts : List Ty.Instance) : Prop :=
  ∀ part ∈ parts, part.1 ≠ target ∧ part.1 ∈ met.map Prod.fst

theorem PassedOver.mono {met met' parts : List Ty.Instance} (hsub : met ⊆ met')
    (h : PassedOver target met parts) : PassedOver target met' parts :=
  fun part hpart => ⟨(h part hpart).1, List.map_subset _ hsub (h part hpart).2⟩

theorem unmet_le_of_subset {met met' : List Ty.Instance} (hsub : met ⊆ met') :
    t.unmet met' ≤ t.unmet met := by
  refine List.countP_mono_left fun id _ hid => ?_
  simp only [Bool.not_eq_true', List.contains_eq_mem, decide_eq_false_iff_not] at hid ⊢
  exact fun hmem => hid (List.map_subset _ hsub hmem)

theorem unmet_cons_lt {part : Ty.Instance} {met : List Ty.Instance} (hsize : part.1 < t.size)
    (hmet : part.1 ∉ met.map Prod.fst) : t.unmet (part :: met) < t.unmet met := by
  refine countP_lt_countP (fun id _ hid => ?_) (List.mem_range.mpr hsize) ?_ ?_
  · simp only [List.map_cons, List.contains_cons, Bool.not_or, Bool.and_eq_true] at hid
    exact hid.2
  · simp
  · simpa using hmet

theorem unmet_nil (t : Table) : t.unmet [] = t.size := by
  simp [unmet]

/-- A place outside the table has nothing inside. -/
theorem inner_eq_nil {part : Ty.Instance} (h : t.size ≤ part.1) : t.inner part = [] := by
  have hnone : t.get? part.1 = none := List.getElem?_eq_none h
  simp [inner, underlying, instance?, underlying?, hnone, Ty.components]

/-- Where the search is deep enough, everything that it met has been looked into. -/
theorem passedOver_of_not_found {visit : ByValue.Visit} {depth : Nat}
    {enter : Ty.Instance → List Ty.Instance → List Ty.Instance}
    (henter : ∀ part met, met ⊆ enter part met)
    (hvisit : ∀ part met visited, visit part.1 part.2 (met.map Prod.fst) = (false, visited) →
      visited = (enter part met).map Prod.fst)
    (hinside : ∀ part met visited, (part.1 < t.size → t.unmet met < depth) →
      visit part.1 part.2 (met.map Prod.fst) = (false, visited) →
      PassedOver target (enter part met) (t.inner part) ∧
        ∀ p ∈ enter part met, p ∈ met ∨ PassedOver target (enter part met) (t.inner p))
    {parts met : List Ty.Instance} {visited : List Nat} (hdepth : t.unmet met ≤ depth)
    (h : ByValue.inParts target visit parts (met.map Prod.fst) = (false, visited)) :
    PassedOver target (meetParts target enter parts met) parts ∧
      ∀ p ∈ meetParts target enter parts met,
        p ∈ met ∨ PassedOver target (meetParts target enter parts met) (t.inner p) := by
  induction parts generalizing met with
  | nil => exact ⟨by simp [PassedOver], fun p hp => Or.inl hp⟩
  | cons part parts ih =>
    by_cases htarget : part.1 = target
    · simp [ByValue.inParts, htarget] at h
    by_cases hmet : part.1 ∈ met.map Prod.fst
    · simp only [ByValue.inParts, htarget, hmet, List.contains_iff_mem, meetParts, false_or,
        if_true, if_false] at h ⊢
      obtain ⟨hparts, hall⟩ := ih hdepth h
      have hsub : met ⊆ meetParts target enter parts met := subset_meetParts henter parts met
      refine ⟨fun p hp => ?_, hall⟩
      rcases List.mem_cons.mp hp with rfl | hp
      · exact ⟨htarget, List.map_subset _ hsub hmet⟩
      · exact hparts p hp
    · simp only [ByValue.inParts, htarget, hmet, List.contains_iff_mem, meetParts, false_or,
        if_false] at h ⊢
      split at h
      · cases h
      · next visited' hpart =>
        have hopened : part :: met ⊆ enter part (part :: met) := henter part _
        have hsub : enter part (part :: met) ⊆ meetParts target enter parts _ :=
          subset_meetParts henter parts (enter part (part :: met))
        obtain ⟨hin, hrest⟩ := hinside part (part :: met) visited'
          (fun hsize => Nat.lt_of_lt_of_le (unmet_cons_lt hsize hmet) hdepth) hpart
        have hdepth' : t.unmet (enter part (part :: met)) ≤ depth :=
          Nat.le_trans (unmet_le_of_subset fun p hp => hopened (List.mem_cons_of_mem _ hp)) hdepth
        rw [hvisit part (part :: met) visited' hpart] at h
        obtain ⟨hparts, hall⟩ := ih hdepth' h
        refine ⟨fun p hp => ?_, fun p hp => ?_⟩
        · rcases List.mem_cons.mp hp with rfl | hp
          · exact ⟨htarget, List.map_subset _ hsub (List.map_subset _ hopened (by simp))⟩
          · exact hparts p hp
        · rcases hall p hp with hp | hp
          · rcases hrest p hp with hp | hp
            · rcases List.mem_cons.mp hp with rfl | hp
              · exact Or.inr (hin.mono hsub)
              · exact Or.inl hp
            · exact Or.inr (hp.mono hsub)
          · exact Or.inr hp

theorem passedOver_of_inNamed_not_found (depth : Nat) (part : Ty.Instance)
    (met : List Ty.Instance) (visited : List Nat) (hdepth : part.1 < t.size → t.unmet met < depth)
    (h : ByValue.inNamed t target depth part.1 part.2 (met.map Prod.fst) = (false, visited)) :
    PassedOver target (t.meetInside target depth part met) (t.inner part) ∧
      ∀ p ∈ t.meetInside target depth part met,
        p ∈ met ∨ PassedOver target (t.meetInside target depth part met) (t.inner p) := by
  induction depth generalizing part met visited with
  | zero =>
    have hsize : t.size ≤ part.1 := Nat.le_of_not_lt fun hlt => absurd (hdepth hlt) (by omega)
    rw [inner_eq_nil hsize]
    exact ⟨by simp [PassedOver], fun p hp => Or.inl hp⟩
  | succ depth ih =>
    by_cases hsize : part.1 < t.size
    · rw [ByValue.inNamed_succ] at h
      exact passedOver_of_not_found (subset_meetInside depth) (visited_of_inNamed_not_found depth)
        ih (by have := hdepth hsize; omega) h
    · have hnil := inner_eq_nil (Nat.le_of_not_lt hsize)
      rw [meetInside, hnil, meetParts]
      exact ⟨by simp [PassedOver], fun p hp => Or.inl hp⟩

/-! ## What the search decides -/

/-- Through instances that are all looked into, nothing that is passed over is held. -/
theorem not_holdsThrough_of_passedOver {met parts : List Ty.Instance}
    (hall : ∀ p ∈ met, PassedOver target met (t.inner p)) (hparts : PassedOver target met parts)
    {args : List Ty} : ¬ t.HoldsThrough (· ∈ met) parts (target, args) := by
  intro h
  generalize hfound : (target, args) = found at h
  induction h with
  | direct h =>
    subst hfound
    exact (hparts _ h).1 rfl
  | inside h hp _ ih => exact ih (hall _ hp) hfound

/-- A search that finds nothing has met all there is and passed it over. -/
theorem passedOver_of_not_containsItself {id : Nat} (h : t.containsItself id = false) :
    PassedOver id (t.firstMet id) (t.inner (id, [])) ∧
      ∀ p ∈ t.firstMet id, PassedOver id (t.firstMet id) (t.inner p) := by
  rw [containsItself_eq] at h
  have hrun : ByValue.inParts id (ByValue.inNamed t id t.size) (t.inner (id, []))
      (([] : List Ty.Instance).map Prod.fst) = (false, _) := Prod.ext h rfl
  obtain ⟨hparts, hall⟩ := passedOver_of_not_found (subset_meetInside t.size)
    (visited_of_inNamed_not_found t.size) (passedOver_of_inNamed_not_found t.size)
    (Nat.le_of_eq (unmet_nil t)) hrun
  exact ⟨hparts, fun p hp => (hall p hp).resolve_left (by simp)⟩

/-- The search finds a type exactly if a value of it holds another one inside instances that are
each the first of their type to be met. -/
theorem containsItself_iff (t : Table) (id : Nat) :
    t.containsItself id = true ↔
      ∃ args, t.HoldsThrough (· ∈ t.firstMet id) (t.inner (id, [])) (id, args) := by
  constructor
  · intro h
    rw [containsItself_eq] at h
    have hrun : ByValue.inParts id (ByValue.inNamed t id t.size) (t.inner (id, []))
        (([] : List Ty.Instance).map Prod.fst) = (true, _) := Prod.ext h rfl
    exact holdsThrough_of_found (subset_meetInside t.size)
      (visited_of_inNamed_not_found t.size) (holdsThrough_of_inNamed_found t.size) hrun
  · rintro ⟨args, hargs⟩
    by_contra h
    obtain ⟨hparts, hall⟩ := passedOver_of_not_containsItself (Bool.eq_false_iff.mpr h)
    exact not_holdsThrough_of_passedOver hall hparts hargs

/-- What the search finds holds itself. -/
theorem holdsItself_of_containsItself {id : Nat} (h : t.containsItself id = true) :
    t.HoldsItself id := by
  obtain ⟨args, hargs⟩ := (containsItself_iff t id).mp h
  exact ⟨args, hargs.mono fun _ _ => trivial⟩

/-! ## Types held under one list of arguments -/

/-- No other type is held by a value of the declared type at `id` under different arguments. -/
def HoldsUniformly (t : Table) (id : Nat) : Prop :=
  ∀ p q, t.Holds (t.inner (id, [])) p → t.Holds (t.inner (id, [])) q →
    p.1 = q.1 → p.1 ≠ id → p = q

/-- What is met is held. -/
theorem holds_of_mem_meetParts {enter : Ty.Instance → List Ty.Instance → List Ty.Instance}
    (henter : ∀ part met, ∀ p ∈ enter part met, p ∈ met ∨ t.Holds (t.inner part) p)
    {parts met : List Ty.Instance} :
    ∀ p ∈ meetParts target enter parts met, p ∈ met ∨ t.Holds parts p := by
  induction parts generalizing met with
  | nil => exact fun p hp => Or.inl hp
  | cons part parts ih =>
    have hlater : ∀ {p}, t.Holds parts p → t.Holds (part :: parts) p := by
      intro p hp
      cases hp with
      | direct h => exact .direct (List.mem_cons_of_mem _ h)
      | inside h hp hfound => exact .inside (List.mem_cons_of_mem _ h) hp hfound
    intro p hp
    rw [meetParts] at hp
    split at hp
    · exact (ih p hp).imp_right hlater
    · rcases ih p hp with hp | hp
      · rcases henter part _ p hp with hp | hp
        · rcases List.mem_cons.mp hp with rfl | hp
          · exact Or.inr (.direct List.mem_cons_self)
          · exact Or.inl hp
        · exact Or.inr (.inside List.mem_cons_self trivial hp)
      · exact Or.inr (hlater hp)

theorem holds_of_mem_meetInside (depth : Nat) (part : Ty.Instance) (met : List Ty.Instance) :
    ∀ p ∈ t.meetInside target depth part met, p ∈ met ∨ t.Holds (t.inner part) p := by
  induction depth generalizing part met with
  | zero => exact fun p hp => Or.inl hp
  | succ depth ih => exact holds_of_mem_meetParts ih

/-- Where no type is held under different arguments, the search finds exactly the types that hold
themselves. -/
theorem containsItself_iff_holdsItself {id : Nat} (huniform : t.HoldsUniformly id) :
    t.containsItself id = true ↔ t.HoldsItself id := by
  refine ⟨holdsItself_of_containsItself, fun ⟨args, hargs⟩ => ?_⟩
  by_contra h
  obtain ⟨hroot, hall⟩ := passedOver_of_not_containsItself (Bool.eq_false_iff.mpr h)
  have hmet : ∀ p ∈ t.firstMet id, p ∈ [] ∨ t.Holds (t.inner (id, [])) p :=
    holds_of_mem_meetParts (holds_of_mem_meetInside t.size)
  -- the parts of a held instance are held and passed over, because the instance is one that is met
  have key : ∀ parts found, t.Holds parts found → (∀ p ∈ parts, t.Holds (t.inner (id, [])) p) →
      PassedOver id (t.firstMet id) parts → found.1 ≠ id := by
    intro parts found hholds
    induction hholds with
    | direct h => exact fun _ hpassed => (hpassed _ h).1
    | @inside parts part found h _ _ ih =>
      intro hheld hpassed
      obtain ⟨hne, hmem⟩ := hpassed part h
      obtain ⟨first, hfirst, hid⟩ := List.mem_map.mp hmem
      have hsame : part = first :=
        huniform part first (hheld part h) ((hmet first hfirst).resolve_left (by simp)) hid.symm hne
      refine ih (fun p hp => (hheld part h).trans (.direct hp)) ?_
      exact hall part (hsame ▸ hfirst)
  exact key _ _ hargs (fun p hp => .direct hp) hroot rfl

end Table

end GoSignatures
