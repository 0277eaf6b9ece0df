import GoSignatures.Proofs.Resolution.Growth
import GoSignatures.Resolution.Recursion

/-!
# Types that are defined as other types

The types that wait for the underlying type of another receive it in rounds. A round in which none
receives anything is the last: if types are still waiting then, they wait for each other.

* `Table.Settles` — what becomes of the table when waiting types receive underlying types
* `Table.settle_ok` — if all are settled, each has the underlying type of its target
* `Table.settle_error` — otherwise some of them wait for types without an underlying type
-/

namespace GoSignatures.Table

variable {t t' t₁ : Table} {waiting remaining : List (Nat × Nat)}

/-- The table in which waiting types have received the underlying types of their targets, except
for the remaining ones. -/
structure Settles (t t' : Table) (waiting remaining : List (Nat × Nat)) : Prop where
  size : t'.size = t.size
  labels : ∀ id, t'.label? id = t.label? id
  typeParams : ∀ id, t'.typeParams id = t.typeParams id
  sublist : remaining.Sublist waiting
  known : ∀ id type, t.underlying? id = some type → t'.underlying? id = some type
  others : ∀ id, id ∉ waiting.map Prod.fst → t'.underlying? id = t.underlying? id
  unsettled : ∀ w ∈ remaining, t'.underlying? w.1 = none
  settled : ∀ w ∈ waiting, w ∉ remaining →
    ∃ type, t'.underlying? w.1 = some type ∧ t'.underlying? w.2 = some type
  /-- What all types with an underlying type have in common spreads from target to type. -/
  spread : ∀ P : Nat → Prop, (∀ id type, t.underlying? id = some type → P id) →
    (∀ w ∈ waiting, P w.2 → P w.1) → ∀ id type, t'.underlying? id = some type → P id

/-- Types can be settled: each waits once, has a place and has no underlying type. -/
structure Waits (t : Table) (waiting : List (Nat × Nat)) : Prop where
  nodup : (waiting.map Prod.fst).Nodup
  size : ∀ w ∈ waiting, w.1 < t.size
  unknown : ∀ w ∈ waiting, t.underlying? w.1 = none

theorem Waits.of_settles (h : t.Waits waiting) (hs : Settles t t' waiting remaining) :
    t'.Waits remaining where
  nodup := (hs.sublist.map Prod.fst).nodup h.nodup
  size w hw := hs.size ▸ h.size w (hs.sublist.subset hw)
  unknown := hs.unsettled

theorem Settles.trans {more : List (Nat × Nat)} (h : Settles t t₁ waiting more)
    (h' : Settles t₁ t' more remaining) : Settles t t' waiting remaining where
  size := h'.size.trans h.size
  labels id := (h'.labels id).trans (h.labels id)
  typeParams id := (h'.typeParams id).trans (h.typeParams id)
  sublist := h'.sublist.trans h.sublist
  known id type hid := h'.known id type (h.known id type hid)
  others id hid := by
    have hmore : id ∉ more.map Prod.fst := fun hmem => hid ((h.sublist.map Prod.fst).subset hmem)
    exact (h'.others id hmore).trans (h.others id hid)
  unsettled := h'.unsettled
  settled w hw hnot := by
    by_cases hmore : w ∈ more
    · exact h'.settled w hmore hnot
    · obtain ⟨type, hself, htarget⟩ := h.settled w hw hmore
      exact ⟨type, h'.known _ _ hself, h'.known _ _ htarget⟩
  spread P hknown hspread :=
    h'.spread P (h.spread P hknown hspread) fun w hw => hspread w (h.sublist.subset hw)

theorem Waits.tail {w : Nat × Nat} (h : t.Waits (w :: waiting)) : t.Waits waiting where
  nodup := (List.nodup_cons.mp h.nodup).2
  size v hv := h.size v (List.mem_cons_of_mem _ hv)
  unknown v hv := h.unknown v (List.mem_cons_of_mem _ hv)

theorem Waits.ne_of_mem_tail {w : Nat × Nat} (h : t.Waits (w :: waiting)) :
    ∀ v ∈ waiting, v.1 ≠ w.1 := by
  intro v hv heq
  refine (List.nodup_cons.mp h.nodup).1 ?_
  rw [← heq]
  exact List.mem_map_of_mem hv

theorem Waits.setUnderlying {w : Nat × Nat} (h : t.Waits (w :: waiting)) (type : Ty) :
    (t.setUnderlying w.1 type).Waits waiting where
  nodup := h.tail.nodup
  size v hv := by simpa using h.tail.size v hv
  unknown v hv := by
    rw [underlying?_setUnderlying _ _ (h.size w List.mem_cons_self), if_neg (h.ne_of_mem_tail v hv)]
    exact h.tail.unknown v hv

/-! ## One round -/

theorem settleRound_settles (hw : t.Waits waiting) (h : t.settleRound waiting = (t', remaining)) :
    Settles t t' waiting remaining := by
  induction waiting generalizing t remaining with
  | nil =>
    cases h
    exact ⟨rfl, fun _ => rfl, fun _ => rfl, .refl _, fun _ _ h => h, fun _ _ => rfl, by simp,
      by simp, fun _ hknown _ => hknown⟩
  | cons w waiting ih =>
    obtain ⟨id, target⟩ := w
    have hid : id ∉ waiting.map Prod.fst := (List.nodup_cons.mp hw.nodup).1
    have hsize : id < t.size := hw.size _ List.mem_cons_self
    have hnone : t.underlying? id = none := hw.unknown _ List.mem_cons_self
    rw [settleRound] at h
    cases htarget : t.underlying? target with
    | none =>
      rw [htarget] at h
      obtain ⟨t₂, rest, hrest⟩ : ∃ t₂ rest, t.settleRound waiting = (t₂, rest) := ⟨_, _, rfl⟩
      simp only [hrest, Prod.mk.injEq] at h
      obtain ⟨rfl, rfl⟩ := h
      have hs := ih hw.tail hrest
      refine ⟨hs.size, hs.labels, hs.typeParams, hs.sublist.cons_cons _, hs.known, ?_, ?_, ?_, ?_⟩
      · exact fun j hj => hs.others j fun hmem => hj (List.mem_cons_of_mem _ hmem)
      · refine List.forall_mem_cons.mpr ⟨?_, hs.unsettled⟩
        exact (hs.others id hid).trans hnone
      · intro w hmem hnot
        rw [List.mem_cons, not_or] at hnot
        exact hs.settled w ((List.mem_cons.mp hmem).resolve_left hnot.1) hnot.2
      · exact fun P hknown hspread =>
          hs.spread P hknown fun w hmem => hspread w (List.mem_cons_of_mem _ hmem)
    | some type =>
      rw [htarget] at h
      have hother : ∀ j, j ≠ id → (t.setUnderlying id type).underlying? j = t.underlying? j := by
        intro j hj
        rw [underlying?_setUnderlying _ _ hsize, if_neg hj]
      have hself : (t.setUnderlying id type).underlying? id = some type := by
        rw [underlying?_setUnderlying _ _ hsize, if_pos rfl]
      have hs := ih (hw.setUnderlying type) h
      refine ⟨by simpa using hs.size, by simpa using hs.labels, by simpa using hs.typeParams,
        hs.sublist.cons _, ?_, ?_, hs.unsettled, ?_, ?_⟩
      · intro j known hj
        refine hs.known j known ((hother j ?_).trans hj)
        rintro rfl
        rw [hnone] at hj
        cases hj
      · intro j hj
        simp only [List.map_cons, List.mem_cons, not_or] at hj
        exact (hs.others j hj.2).trans (hother j hj.1)
      · refine List.forall_mem_cons.mpr ⟨fun _ => ⟨type, hs.known _ _ hself, ?_⟩, hs.settled⟩
        refine hs.known _ _ ((hother target ?_).trans htarget)
        rintro rfl
        rw [hnone] at htarget
        cases htarget
      · intro P hknown hspread
        refine hs.spread P (fun j known hj => ?_)
          fun w hmem => hspread w (List.mem_cons_of_mem _ hmem)
        by_cases heq : j = id
        · rw [heq]
          exact hspread (id, target) List.mem_cons_self (hknown target type htarget)
        · exact hknown j known ((hother j heq).symm.trans hj)

/-- A round in which no type is settled changes nothing. -/
theorem settleRound_stuck (hw : t.Waits waiting) (h : t.settleRound waiting = (t', remaining))
    (hlength : waiting.length ≤ remaining.length) :
    t' = t ∧ remaining = waiting ∧ ∀ w ∈ waiting, t.underlying? w.2 = none := by
  induction waiting generalizing t remaining with
  | nil =>
    cases h
    exact ⟨rfl, rfl, by simp⟩
  | cons w waiting ih =>
    obtain ⟨id, target⟩ := w
    rw [settleRound] at h
    cases htarget : t.underlying? target with
    | none =>
      rw [htarget] at h
      obtain ⟨t₂, rest, hrest⟩ : ∃ t₂ rest, t.settleRound waiting = (t₂, rest) := ⟨_, _, rfl⟩
      simp only [hrest, Prod.mk.injEq] at h
      obtain ⟨rfl, rfl⟩ := h
      obtain ⟨rfl, rfl, hnone⟩ := ih hw.tail hrest (by simpa using hlength)
      exact ⟨rfl, rfl, List.forall_mem_cons.mpr ⟨htarget, hnone⟩⟩
    | some type =>
      -- the first type is settled, so fewer remain
      rw [htarget] at h
      have hle := (settleRound_settles (hw.setUnderlying type) h).sublist.length_le
      rw [List.length_cons] at hlength
      omega

/-! ## All rounds -/

/-- If all types are settled, each has the underlying type of its target. -/
theorem settle_ok (hw : t.Waits waiting) (h : t.settle waiting = .ok t') :
    Settles t t' waiting [] := by
  induction t, waiting using settle.induct with
  | case1 t waiting t₁ hround =>
    rw [settle, hround] at h
    cases h
    exact settleRound_settles hw hround
  | case2 t waiting t₁ id target remaining hround hlt ih =>
    have hs := settleRound_settles hw hround
    rw [settle, hround] at h
    simp only [hlt, if_true] at h
    exact hs.trans (ih (hw.of_settles hs) h)
  | case3 t waiting t₁ id target remaining hround hlt =>
    rw [settle, hround] at h
    simp only [hlt, if_false] at h
    cases h

/-- If not all types can be settled, some wait for types without an underlying type. -/
theorem settle_error {id : Nat} (hw : t.Waits waiting) (h : t.settle waiting = .error id) :
    ∃ t' remaining, Settles t t' waiting remaining ∧ id ∈ remaining.map Prod.fst ∧
      ∀ w ∈ remaining, t'.underlying? w.2 = none := by
  induction t, waiting using settle.induct with
  | case1 t waiting t₁ hround =>
    rw [settle, hround] at h
    cases h
  | case2 t waiting t₁ id target remaining hround hlt ih =>
    have hs := settleRound_settles hw hround
    rw [settle, hround] at h
    simp only [hlt, if_true] at h
    obtain ⟨t', rest, hs', hid, hstuck⟩ := ih (hw.of_settles hs) h
    exact ⟨t', rest, hs.trans hs', hid, hstuck⟩
  | case3 t waiting t₁ id target remaining hround hlt =>
    rw [settle, hround] at h
    simp only [hlt, if_false] at h
    cases h
    obtain ⟨rfl, hsame, hstuck⟩ := settleRound_stuck hw hround (by simpa using hlt)
    refine ⟨t₁, _, settleRound_settles hw hround, by simp, ?_⟩
    rw [hsame]
    exact hstuck

end GoSignatures.Table
