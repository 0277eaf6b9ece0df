import GoSignatures.Proofs.Resolution.Widening
import GoSignatures.Proofs.Resolution.Termination

/-!
# Which underlying types are received

Types that are defined as other types are settled in rounds, in an order that depends on when they
were entered. What comes out does not: a type receives the underlying type at the end of its chain
of definitions, and all types are settled if each chain has such an end.

* `Table.Receives` — the underlying type at the end of a chain
* `Table.settle_ok_iff` — types can be settled if each that waits receives one
* `Progress.Copied.settled` — when types are settled, copies stay copies
-/

namespace GoSignatures

namespace Table

variable {t t' : Table} {waiting remaining : List (Nat × Nat)}

/-- The type at a place has an underlying type, or waits for one that receives it. -/
inductive Receives (t : Table) (waiting : List (Nat × Nat)) : Nat → Ty → Prop
  | known {id : Nat} {type : Ty} (h : t.underlying? id = some type) : Receives t waiting id type
  | waits {id target : Nat} {type : Ty} (hmem : (id, target) ∈ waiting)
      (h : Receives t waiting target type) : Receives t waiting id type

/-- What a type receives becomes its underlying type when all types are settled. -/
theorem Receives.underlying? (hs : t.Settles t' waiting []) {id : Nat} {type : Ty}
    (h : t.Receives waiting id type) : t'.underlying? id = some type := by
  induction h with
  | known h => exact hs.known _ _ h
  | waits hmem _ ih =>
    obtain ⟨known, hself, htarget⟩ := hs.settled _ hmem List.not_mem_nil
    rw [hself, ← htarget, ih]

/-- When all types are settled, each has the underlying type that it receives. -/
theorem Settles.underlying?_eq_some_iff (hs : t.Settles t' waiting []) {id : Nat} {type : Ty} :
    t'.underlying? id = some type ↔ t.Receives waiting id type := by
  refine ⟨fun hid => ?_, fun h => h.underlying? hs⟩
  obtain ⟨known, hknown⟩ := hs.spread (fun id => ∃ type, t.Receives waiting id type)
    (fun id type hid => ⟨type, .known hid⟩)
    (fun w hw ⟨type, htarget⟩ => ⟨type, .waits hw htarget⟩) id type hid
  cases hid.symm.trans (hknown.underlying? hs)
  exact hknown

/-- Types can be settled exactly if each that waits receives an underlying type. -/
theorem settle_ok_iff (hw : t.Waits waiting) :
    (∃ t', t.settle waiting = .ok t') ↔ ∀ w ∈ waiting, ∃ type, t.Receives waiting w.1 type := by
  constructor
  · rintro ⟨t', hsettle⟩ w hmem
    have hs := settle_ok hw hsettle
    obtain ⟨type, hself, -⟩ := hs.settled w hmem List.not_mem_nil
    exact ⟨type, hs.underlying?_eq_some_iff.mp hself⟩
  · intro h
    cases hsettle : t.settle waiting with
    | ok t' => exact ⟨t', rfl⟩
    | error id =>
      obtain ⟨t', remaining, hs, hid, hstuck⟩ := settle_error hw hsettle
      -- what receives an underlying type has one, though not all types are settled
      have hsome : ∀ {id type}, t.Receives waiting id type → t'.underlying? id ≠ none := by
        intro id type hreceives
        induction hreceives with
        | known h => simp [hs.known _ _ h]
        | @waits id target _ hmem _ ih =>
          by_cases hremains : (id, target) ∈ remaining
          · exact absurd (hstuck _ hremains) ih
          · obtain ⟨known, hself, -⟩ := hs.settled _ hmem hremains
            simp [hself]
      obtain ⟨w, hremains, rfl⟩ := List.mem_map.mp hid
      obtain ⟨type, hreceives⟩ := h w (hs.sublist.subset hremains)
      exact absurd (hs.unsettled w hremains) (hsome hreceives)

end Table

/-! ## In copies -/

/-- An entry is copied if its parts are. -/
theorem Table.get?_eq_map_rename {t t' : Table} {f : Nat → Nat} {id place : Nat}
    (hlabel : t'.label? place = t.label? id)
    (hparams : t'.typeParams place = TypeParam.renames f (t.typeParams id))
    (hunderlying : t'.underlying? place = (t.underlying? id).map (Ty.rename f)) :
    t'.get? place = (t.get? id).map (NamedType.rename f) := by
  have hname : t'.get? place = (t.label? id).map fun label =>
      ⟨label.2, label.1, TypeParam.renames f (t.typeParams id),
        (t.underlying? id).map (Ty.rename f)⟩ := by
    rw [t'.get?_eq_map_label, hlabel, hparams, hunderlying]
  rw [hname, t.get?_eq_map_label, Option.map_map]
  refine congrArg (Option.map · _) (funext fun label => ?_)
  rw [Function.comp_apply, NamedType.rename, Ty.renameOpt_eq_map]

namespace Progress.Copied

variable {env : Env} {f : Nat → Nat} {extra : List String} {p p' : Progress}
  (h : p.Copied f extra p')
include h

/-- What a type receives its copy receives, too. -/
theorem receives {id : Nat} {type : Ty} (hreceives : p.table.Receives p.pending id type) :
    p'.table.Receives p'.pending (f id) (type.rename f) := by
  induction hreceives with
  | known hid => exact .known (by rw [h.table.underlying?, hid, Option.map_some])
  | waits hmem _ ih => exact .waits (h.waits _ hmem) ih

/-- What the copy of a type receives the type receives. -/
theorem of_receives {place : Nat} {type : Ty} (hreceives : p'.table.Receives p'.pending place type)
    {id : Nat} (hplace : place = f id) :
    ∃ original : Ty, type = original.rename f ∧ p.table.Receives p.pending id original := by
  induction hreceives generalizing id with
  | known hknown =>
    rw [hplace, h.table.underlying?] at hknown
    obtain ⟨original, hid, rfl⟩ := Option.map_eq_some_iff.mp hknown
    exact ⟨original, rfl, .known hid⟩
  | waits hmem _ ih =>
    subst hplace
    rcases h.waited _ hmem with ⟨⟨id', target⟩, hv, heq⟩ | ⟨hother, -⟩
    · obtain ⟨hid, rfl⟩ := Prod.mk.injEq .. ▸ heq
      obtain rfl := h.table.injective _ _ hid
      obtain ⟨original, htype, htarget⟩ := ih rfl
      exact ⟨original, htype, .waits hv htarget⟩
    · exact absurd rfl (hother id)

/-- The types of the copy can be settled if those of the original can, and the other way round. -/
theorem settle_ok_iff (hconsistent : env.Consistent [] [] p) (hwaits : p'.table.Waits p'.pending) :
    (∃ t', p'.table.settle p'.pending = .ok t') ↔ ∃ t, p.table.settle p.pending = .ok t := by
  rw [Table.settle_ok_iff hwaits]
  constructor
  · intro hall
    rw [Table.settle_ok_iff hconsistent.waits]
    intro v hv
    obtain ⟨type, hreceives⟩ := hall _ (h.waits v hv)
    obtain ⟨original, -, hreceives⟩ := h.of_receives hreceives rfl
    exact ⟨original, hreceives⟩
  · rintro ⟨t, hsettle⟩ w hw
    have hs := Table.settle_ok hconsistent.waits hsettle
    have hsome : ∀ id < p.table.size, ∃ type, p.table.Receives p.pending id type := by
      intro id hid
      obtain ⟨type, hid⟩ := hconsistent.underlying?_isSome hs (hs.size ▸ hid)
      exact ⟨type, hs.underlying?_eq_some_iff.mp hid⟩
    rcases h.waited w hw with ⟨v, hv, rfl⟩ | ⟨-, id, hid, htarget⟩
    · obtain ⟨type, hreceives⟩ := hsome v.1 (hconsistent.inPlace v hv).1
      exact ⟨_, h.receives hreceives⟩
    · obtain ⟨type, hreceives⟩ := hsome id hid
      exact ⟨_, .waits hw (htarget ▸ h.receives hreceives)⟩

/-- When types are settled, the one table is a copy of the other. -/
theorem settled {t t' : Table} (hs : p.table.Settles t p.pending [])
    (hs' : p'.table.Settles t' p'.pending []) :
    Copied { p with table := t, pending := [] } f extra { p' with table := t', pending := [] } where
  table := {
    injective := h.table.injective
    error := h.table.error
    comparable := h.table.comparable
    get? := fun id => by
      refine Table.get?_eq_map_rename ?_ ?_ ?_
      · rw [hs.labels, hs'.labels, Table.label?, h.table.get? id, Table.label?]
        cases p.table.get? id <;> rfl
      · rw [hs.typeParams, hs'.typeParams, h.table.typeParams]
      · refine Option.ext fun type => ?_
        rw [hs'.underlying?_eq_some_iff, Option.map_eq_some_iff]
        constructor
        · intro hreceives
          obtain ⟨original, rfl, hreceived⟩ := h.of_receives hreceives rfl
          exact ⟨original, hs.underlying?_eq_some_iff.mpr hreceived, rfl⟩
        · rintro ⟨original, hid, rfl⟩
          exact h.receives (hs.underlying?_eq_some_iff.mp hid)
    refers := fun place type hplace => by
      have hreceives := hs'.underlying?_eq_some_iff.mp hplace
      clear hplace
      induction hreceives with
      | known hknown => exact h.table.refers _ _ hknown
      | waits _ _ ih => exact ih }
  grows n := by rw [hs.size, hs'.size, h.grows]
  entered := h.entered
  outside := h.outside
  aliases := h.aliases
  waits _ hw := absurd hw List.not_mem_nil
  waited _ hw := absurd hw List.not_mem_nil
  functions := h.functions

end Progress.Copied

end GoSignatures
