import GoSignatures.Json.Basic
import GoSignatures.Proofs.Lists
import Mathlib.Data.List.Perm.Basic
import Mathlib.Data.List.Lattice

/-!
# How records are written

A record is written as an object, with its fields in any order, each under any of its names, and
with any other members among them; or as the array of its first fields in order. If no two fields
share a name, its fields are found just where it is written in one of these ways.

* `Json.Writes` — the values that write given fields
* `Json.record?_eq_some_iff` — exactly these give the fields
* `Json.Faulty` — what may be wrong with a value that should write a record
* `Json.faulty_iff` — nothing else can be
-/

namespace GoSignatures.Json

/-! ## Ways of writing -/

/-- Members hold the values of fields, each under one of the names of its field. A field without a
value has no member. -/
inductive Holds : List FieldNames → List (Option Json) → List (String × Json) → Prop where
  | nil : Holds [] [] []
  | missing {names : FieldNames} {fields : List FieldNames} {values : List (Option Json)}
      {members : List (String × Json)} (h : Holds fields values members) :
      Holds (names :: fields) (none :: values) members
  | present {names : FieldNames} {fields : List FieldNames} {name : String} {value : Json}
      {values : List (Option Json)} {members : List (String × Json)} (hname : name ∈ names)
      (h : Holds fields values members) :
      Holds (names :: fields) (some value :: values) ((name, value) :: members)

/-- The values that write a record of fields: objects whose members, in whatever order, hold the
values of the fields and otherwise have other names, and arrays of the first fields in order. -/
inductive Writes (fields : List FieldNames) : List (Option Json) → Json → Prop where
  | object {values : List (Option Json)} {members known others : List (String × Json)}
      (hknown : Holds fields values known)
      (hothers : ∀ m ∈ others, ∀ names ∈ fields, m.1 ∉ names)
      (hmembers : members.Perm (known ++ others)) : Writes fields values (.record members)
  | array {items : List Json} (h : items.length ≤ fields.length) :
      Writes fields (items.map some ++ List.replicate (fields.length - items.length) none)
        (.array items)

/-! ## Finding the fields -/

/-- The value of the only one of some members: none if there is no member, no answer if there is
more than one. -/
def sole {α : Type} : List (α × Json) → Option (Option Json)
  | [] => some none
  | [m] => some (some m.2)
  | _ => none

section Sole

variable {α : Type} {l l' : List (α × Json)}

theorem sole_of_perm (h : l.Perm l') : sole l = sole l' := by
  rcases l with _ | ⟨m, _ | ⟨m', l⟩⟩
  · rw [h.nil_eq]
  · rw [List.perm_singleton.mp h.symm]
  · rcases l' with _ | ⟨n, _ | ⟨n', l'⟩⟩
    · exact nomatch h.length_eq
    · exact nomatch h.length_eq
    · rfl

theorem sole_eq_missing_iff : sole l = some none ↔ l = [] := by
  rcases l with _ | ⟨m, _ | ⟨m', l⟩⟩ <;> simp [sole]

theorem sole_eq_some_iff {value : Json} : sole l = some (some value) ↔ ∃ a, l = [(a, value)] := by
  rcases l with _ | ⟨m, _ | ⟨m', l⟩⟩ <;> simp [sole, Prod.ext_iff]

theorem sole_eq_none_iff : sole l = none ↔ ∃ m m' tail, l = m :: m' :: tail := by
  rcases l with _ | ⟨m, _ | ⟨m', l⟩⟩ <;> simp [sole]

end Sole

theorem field?_eq_sole (members : List (Option String × Json)) (names : FieldNames) :
    field? members names = sole (members.filter fun m => m.1.any names.contains) := by
  rw [field?]
  generalize members.filter _ = l
  rcases l with _ | ⟨m, _ | ⟨m', l⟩⟩ <;> rfl

section Fields

variable {fields : List FieldNames} {values : List (Option Json)} {names : FieldNames}
  {members known others : List (String × Json)}

/-- The members under some names. -/
def under (names : FieldNames) (members : List (String × Json)) : List (String × Json) :=
  members.filter fun m => names.contains m.1

theorem mem_under {m : String × Json} : m ∈ under names members ↔ m ∈ members ∧ m.1 ∈ names := by
  rw [under, List.mem_filter, List.contains_iff_mem]

theorem under_eq_nil_iff : under names members = [] ↔ ∀ m ∈ members, m.1 ∉ names := by
  simp [under]

theorem field?_record (members : List (String × Json)) (names : FieldNames) :
    field? (members.map fun m => (some m.1, m.2)) names = sole (under names members) := by
  rw [field?_eq_sole, List.filter_map]
  show sole ((under names members).map _) = _
  rcases under names members with _ | ⟨m, _ | ⟨m', l⟩⟩ <;> rfl

theorem Holds.mem (h : Holds fields values known) {m : String × Json} (hm : m ∈ known) :
    ∃ names ∈ fields, m.1 ∈ names := by
  induction h with
  | nil => cases hm
  | missing _ ih =>
    obtain ⟨names, hnames, hname⟩ := ih hm
    exact ⟨names, .tail _ hnames, hname⟩
  | present hname _ ih =>
    rcases List.mem_cons.mp hm with rfl | hm
    · exact ⟨_, .head _, hname⟩
    · obtain ⟨names, hnames, hname⟩ := ih hm
      exact ⟨names, .tail _ hnames, hname⟩

theorem Holds.not_mem (h : Holds fields values known)
    (hnames : ∀ names' ∈ fields, List.Disjoint names names') : ∀ m ∈ known, m.1 ∉ names := by
  intro m hm hname
  obtain ⟨names', hnames', hname'⟩ := h.mem hm
  exact hnames names' hnames' hname hname'

/-- Each field is found where the members hold the fields and the others have other names. -/
theorem sole_of_holds (hdisjoint : fields.Pairwise List.Disjoint)
    (hknown : Holds fields values known) (hothers : ∀ m ∈ others, ∀ names ∈ fields, m.1 ∉ names)
    (hmembers : members.Perm (known ++ others)) :
    fields.map (fun names => sole (under names members)) = values.map some := by
  induction hknown generalizing others with
  | nil => rfl
  | @missing names fields values known hknown ih =>
    obtain ⟨hnames, hfields⟩ := List.pairwise_cons.mp hdisjoint
    have hunder : under names members = [] := by
      refine under_eq_nil_iff.mpr fun m hm => ?_
      rcases List.mem_append.mp (hmembers.mem_iff.mp hm) with hm | hm
      · exact hknown.not_mem hnames m hm
      · exact hothers m hm names List.mem_cons_self
    rw [List.map_cons, List.map_cons, hunder,
      ih hfields (fun m hm names hn => hothers m hm names (.tail _ hn)) hmembers]
    rfl
  | @present names fields name value values known hname hknown ih =>
    obtain ⟨hnames, hfields⟩ := List.pairwise_cons.mp hdisjoint
    have hrest : under names (known ++ others) = [] := by
      refine under_eq_nil_iff.mpr (List.forall_mem_append.mpr ⟨hknown.not_mem hnames, ?_⟩)
      exact fun m hm => hothers m hm names List.mem_cons_self
    have hunder : (under names members).Perm [(name, value)] := by
      have hfilter := hmembers.filter fun m => names.contains m.1
      rw [List.cons_append, List.filter_cons_of_pos (by simpa using hname), ← under, ← under,
        hrest] at hfilter
      exact hfilter
    -- for the other fields, this member has another name
    have hothers' : ∀ m ∈ (name, value) :: others, ∀ names ∈ fields, m.1 ∉ names := by
      refine List.forall_mem_cons.mpr ⟨fun names' hn => hnames names' hn hname, ?_⟩
      exact fun m hm names hn => hothers m hm names (.tail _ hn)
    rw [List.map_cons, List.map_cons, sole_of_perm hunder,
      ih hfields hothers' (hmembers.trans List.perm_middle.symm)]
    rfl

/-- Where each field is found, the members hold the fields and the others have other names. -/
theorem exists_holds (hdisjoint : fields.Pairwise List.Disjoint)
    (h : fields.map (fun names => sole (under names members)) = values.map some) :
    ∃ known others, Holds fields values known ∧
      (∀ m ∈ others, ∀ names ∈ fields, m.1 ∉ names) ∧ members.Perm (known ++ others) := by
  induction fields generalizing members values with
  | nil =>
    cases List.map_eq_nil_iff.mp h.symm
    exact ⟨[], members, .nil, (fun _ _ _ h => nomatch h), List.Perm.refl _⟩
  | cons names fields ih =>
    obtain ⟨hnames, hfields⟩ := List.pairwise_cons.mp hdisjoint
    obtain ⟨value, values, rfl, hvalue, hvalues⟩ := List.map_eq_cons_iff.mp h.symm
    -- the members under other names give the other fields
    have hrest : fields.map (fun names' => sole (under names'
        (members.filter fun m => !names.contains m.1))) = values.map some := by
      rw [hvalues]
      refine List.map_congr_left fun names' hn => ?_
      rw [under, List.filter_filter, under]
      refine congrArg sole (List.filter_congr fun m _ => ?_)
      rw [Bool.and_eq_left_iff_imp]
      have hm := fun h => @hnames names' hn m.1 h
      simpa using fun h h' => hm h' h
    obtain ⟨known, others, hknown, hothers, hperm⟩ := ih hfields hrest
    have hmembers : members.Perm (under names members ++ (known ++ others)) :=
      (List.filter_append_perm _ members).symm.trans (hperm.append_left _)
    have hothers' : ∀ m ∈ others, ∀ names' ∈ names :: fields, m.1 ∉ names' := by
      intro m hm
      refine List.forall_mem_cons.mpr ⟨?_, hothers m hm⟩
      have hmem := hperm.mem_iff.mpr (List.mem_append_right known hm)
      simpa using (List.mem_filter.mp hmem).2
    cases value with
    | none =>
      rw [sole_eq_missing_iff.mp hvalue.symm] at hmembers
      exact ⟨known, others, .missing hknown, hothers', hmembers⟩
    | some value =>
      obtain ⟨name, hunder⟩ := sole_eq_some_iff.mp hvalue.symm
      have hname : name ∈ names :=
        (mem_under (m := (name, value)).mp (hunder ▸ List.mem_cons_self)).2
      rw [hunder] at hmembers
      exact ⟨(name, value) :: known, others, .present hname hknown, hothers', hmembers⟩

theorem exists_texts {members : List (Option String × Json)}
    (h : ∀ m ∈ members, m.1.isSome = true) :
    ∃ texts : List (String × Json), members = texts.map fun m => (some m.1, m.2) := by
  induction members with
  | nil => exact ⟨[], rfl⟩
  | cons m members ih =>
    obtain ⟨hm, hmembers⟩ := List.forall_mem_cons.mp h
    obtain ⟨name, hname⟩ := Option.isSome_iff_exists.mp hm
    obtain ⟨texts, rfl⟩ := ih hmembers
    exact ⟨(name, m.2) :: texts, by rw [List.map_cons, ← hname]⟩

theorem record?_record (members : List (String × Json)) :
    (Json.record members).record? fields = fields.mapM fun names => sole (under names members) := by
  rw [record, record?, if_pos (by simp)]
  exact congrArg (fields.mapM ·) (funext (field?_record members))

/-- Exactly the values that write a record give its fields. -/
theorem record?_eq_some_iff (hdisjoint : fields.Pairwise List.Disjoint) {v : Json} :
    v.record? fields = some values ↔ Writes fields values v := by
  have hmap : ∀ members : List (String × Json), (Json.record members).record? fields = some values ↔
      fields.map (fun names => sole (under names members)) = values.map some := by
    intro members
    rw [record?_record, mapM_eq_some_iff, ← List.forall₂_eq_eq_eq, List.forall₂_map_left_iff,
      List.forall₂_map_right_iff]
  constructor
  · intro h
    cases v with
    | object members =>
      have htexts : members.all (fun m => m.1.isSome) = true := by
        rw [record?] at h
        exact Decidable.byContradiction fun hnot => nomatch (if_neg hnot).symm.trans h
      obtain ⟨texts, rfl⟩ := exists_texts (List.all_eq_true.mp htexts)
      obtain ⟨known, others, hknown, hothers, hmembers⟩ :=
        exists_holds hdisjoint ((hmap texts).mp h)
      exact .object hknown hothers hmembers
    | array items =>
      rw [record?] at h
      split at h
      · next hlength =>
        cases h
        exact .array hlength
      · cases h
    | _ => cases h
  · rintro (⟨hknown, hothers, hmembers⟩ | hlength)
    · exact (hmap _).mpr (sole_of_holds hdisjoint hknown hothers hmembers)
    · exact if_pos hlength

end Fields

/-! ## Faults -/

/-- A member stands under one of the names. -/
def Under (names : FieldNames) (m : Option String × Json) : Prop :=
  ∃ name ∈ names, m.1 = some name

/-- A field that a record should have: its names, whether it has to be there, and the values of a
wrong type. -/
structure Field where
  names : FieldNames
  isNeeded : Prop
  Unfit : Json → Prop

/-- The value of a field, if any, is as it should be. -/
def Field.Accepts (field : Field) : Option Json → Prop
  | none => ¬ field.isNeeded
  | some value => ¬ field.Unfit value

/-- What may be wrong with a value that should write a record. -/
inductive Faulty (fields : List Field) : Json → Prop where
  | shape {v : Json} (hobject : ∀ members, v ≠ .object members)
      (harray : ∀ items, v ≠ .array items) : Faulty fields v
  | missing {field : Field} {members : List (Option String × Json)} (hfield : field ∈ fields)
      (hneeded : field.isNeeded) (h : ∀ m ∈ members, ¬ Under field.names m) :
      Faulty fields (.object members)
  | repeated {field : Field} {members : List (Option String × Json)} {m m' : Option String × Json}
      (hfield : field ∈ fields) (hm : Under field.names m) (hm' : Under field.names m')
      (h : List.Sublist [m, m'] members) : Faulty fields (.object members)
  | unfit {field : Field} {members : List (Option String × Json)} {m : Option String × Json}
      (hfield : field ∈ fields) (hm : Under field.names m) (hmem : m ∈ members)
      (h : field.Unfit m.2) : Faulty fields (.object members)
  | unnamed {members : List (Option String × Json)} {value : Json}
      (hmem : (none, value) ∈ members) : Faulty fields (.object members)
  | missingItem {field : Field} {items : List Json} {i : Nat} (hfield : fields[i]? = some field)
      (hneeded : field.isNeeded) (h : items.length ≤ i) : Faulty fields (.array items)
  | unfitItem {field : Field} {items : List Json} {item : Json} {i : Nat}
      (hfield : fields[i]? = some field) (hitem : items[i]? = some item) (h : field.Unfit item) :
      Faulty fields (.array items)
  | surplus {items : List Json} (h : fields.length < items.length) : Faulty fields (.array items)

section Faults

variable {fields : List Field} {field : Field} {names : FieldNames} {values : List (Option Json)}
  {members : List (Option String × Json)} {items : List Json} {m m' : Option String × Json}

theorem any_contains_iff : m.1.any names.contains = true ↔ Under names m := by
  simp [Under, Option.any_eq_true, and_comm]

/-- No field is found under names that stand there twice. -/
theorem field?_eq_none_iff : field? members names = none ↔
    ∃ m m', Under names m ∧ Under names m' ∧ List.Sublist [m, m'] members := by
  rw [field?_eq_sole, sole_eq_none_iff]
  constructor
  · rintro ⟨m, m', tail, h⟩
    have hunder : ∀ n ∈ m :: m' :: tail, Under names n := by
      rw [← h]
      exact fun n hn => any_contains_iff.mp (List.mem_filter.mp hn).2
    have htwo : List.Sublist [m, m'] (m :: m' :: tail) :=
      .cons_cons m (.cons_cons m' (List.nil_sublist tail))
    refine ⟨m, m', hunder m (.head _), hunder m' (.tail _ (.head _)), htwo.trans ?_⟩
    rw [← h]
    exact List.filter_sublist
  · rintro ⟨m, m', hm, hm', h⟩
    have hlength := (h.filter fun m => m.1.any names.contains).length_le
    simp only [List.filter_cons, any_contains_iff, hm, hm', if_true, List.filter_nil] at hlength
    generalize members.filter _ = l at hlength ⊢
    rcases l with _ | ⟨n, _ | ⟨n', l⟩⟩
    · simp at hlength
    · simp at hlength
    · exact ⟨n, n', l, rfl⟩

theorem field?_eq_missing_iff :
    field? members names = some none ↔ ∀ m ∈ members, ¬ Under names m := by
  simp only [field?_eq_sole, sole_eq_missing_iff, List.filter_eq_nil_iff, any_contains_iff]

theorem field?_eq_some {value : Json} (h : field? members names = some (some value)) :
    ∃ m, (∀ n ∈ members, Under names n → n = m) ∧ m ∈ members ∧ Under names m ∧ m.2 = value := by
  rw [field?_eq_sole, sole_eq_some_iff] at h
  obtain ⟨name, h⟩ := h
  have hmem : ∀ n, n ∈ members ∧ Under names n ↔ n = (name, value) := by
    intro n
    rw [← List.mem_singleton, ← h, List.mem_filter, any_contains_iff]
  obtain ⟨hm, hunder⟩ := (hmem _).mpr rfl
  exact ⟨_, fun n hn hn' => (hmem n).mp ⟨hn, hn'⟩, hm, hunder, rfl⟩

/-- The fields of an object are accepted where all members have names and each field is. -/
theorem accepts_object_iff : (∃ values, (Json.object members).record? (fields.map Field.names) =
      some values ∧ List.Forall₂ Field.Accepts fields values) ↔
    (∀ m ∈ members, m.1.isSome = true) ∧ ∀ field ∈ fields, ∃ value,
      field? members field.names = some value ∧ field.Accepts value := by
  constructor
  · rintro ⟨values, hvalues, haccepts⟩
    rw [record?] at hvalues
    split at hvalues
    · next htexts =>
      refine ⟨List.all_eq_true.mp htexts, fun field hfield => ?_⟩
      rw [mapM_eq_some_iff, List.forall₂_map_left_iff] at hvalues
      obtain ⟨i, hi, rfl⟩ := List.getElem_of_mem hfield
      exact ⟨_, hvalues.get hi (hvalues.length_eq ▸ hi), haccepts.get hi (hvalues.length_eq ▸ hi)⟩
    · cases hvalues
  · rintro ⟨htexts, hfields⟩
    choose! value hvalue using hfields
    refine ⟨fields.map value, ?_, ?_⟩
    · rw [record?, if_pos (List.all_eq_true.mpr htexts), mapM_eq_some_iff,
        List.forall₂_map_left_iff, List.forall₂_map_right_iff, List.forall₂_same]
      exact fun field hfield => (hvalue field hfield).1
    · rw [List.forall₂_map_right_iff, List.forall₂_same]
      exact fun field hfield => (hvalue field hfield).2

theorem accepts_array_iff : (∃ values, (Json.array items).record? (fields.map Field.names) =
      some values ∧ List.Forall₂ Field.Accepts fields values) ↔
    items.length ≤ fields.length ∧
      ∀ (i : Nat) (field : Field), fields[i]? = some field → field.Accepts items[i]? := by
  have hrecord : (Json.array items).record? (fields.map Field.names) =
      if items.length ≤ fields.length then
        some (items.map some ++ List.replicate (fields.length - items.length) none)
      else none := by
    rw [record?, List.length_map]
  have hget : ∀ i < fields.length, items.length ≤ fields.length →
      (items.map some ++ List.replicate (fields.length - items.length) none)[i]? =
        some items[i]? := by
    intro i hi hlength
    by_cases hitem : i < items.length
    · simp [hitem, List.getElem?_append_left]
    · have hmissing : i - items.length < fields.length - items.length := by omega
      simp [List.getElem?_append_right, Nat.not_lt.mp hitem, hmissing]
  rw [hrecord]
  constructor
  · rintro ⟨values, hvalues, haccepts⟩
    split at hvalues
    · next hlength =>
      cases hvalues
      refine ⟨hlength, fun i field hfield => ?_⟩
      obtain ⟨hi, rfl⟩ := List.getElem?_eq_some_iff.mp hfield
      obtain ⟨hi', hvalue⟩ := List.getElem?_eq_some_iff.mp (hget i hi hlength)
      have hacc := haccepts.get hi hi'
      simp only [List.get_eq_getElem, hvalue] at hacc
      exact hacc
    · cases hvalues
  · rintro ⟨hlength, hfields⟩
    refine ⟨_, if_pos hlength, List.forall₂_iff_get.mpr ⟨by simp [hlength], fun i hi hi' => ?_⟩⟩
    obtain ⟨_, hvalue⟩ := List.getElem?_eq_some_iff.mp (hget i hi hlength)
    rw [List.get_eq_getElem, List.get_eq_getElem, hvalue]
    exact hfields i _ (List.getElem?_eq_getElem hi)

/-- With a fault, a value does not write a record. -/
theorem Faulty.refused {v : Json} (h : Faulty fields v) :
    ¬ ∃ values, v.record? (fields.map Field.names) = some values ∧
      List.Forall₂ Field.Accepts fields values := by
  intro haccepts
  cases h with
  | shape hobject harray =>
    obtain ⟨values, hvalues, -⟩ := haccepts
    cases v with
    | object members => exact hobject members rfl
    | array items => exact harray items rfl
    | _ => cases hvalues
  | missing hfield hneeded h =>
    obtain ⟨-, hfields⟩ := accepts_object_iff.mp haccepts
    obtain ⟨value, hvalue, hacc⟩ := hfields _ hfield
    rw [field?_eq_missing_iff.mpr h] at hvalue
    cases hvalue
    exact hacc hneeded
  | repeated hfield hm hm' h =>
    obtain ⟨-, hfields⟩ := accepts_object_iff.mp haccepts
    obtain ⟨value, hvalue, -⟩ := hfields _ hfield
    rw [field?_eq_none_iff.mpr ⟨_, _, hm, hm', h⟩] at hvalue
    cases hvalue
  | unfit hfield hm hmem h =>
    obtain ⟨-, hfields⟩ := accepts_object_iff.mp haccepts
    obtain ⟨value, hvalue, hacc⟩ := hfields _ hfield
    cases value with
    | none => exact field?_eq_missing_iff.mp hvalue _ hmem hm
    | some value =>
      obtain ⟨m, honly, -, -, rfl⟩ := field?_eq_some hvalue
      rw [← honly _ hmem hm] at hacc
      exact hacc h
  | unnamed hmem =>
    obtain ⟨htexts, -⟩ := accepts_object_iff.mp haccepts
    cases htexts _ hmem
  | missingItem hfield hneeded h =>
    obtain ⟨-, hfields⟩ := accepts_array_iff.mp haccepts
    have hacc := hfields _ _ hfield
    rw [List.getElem?_eq_none h] at hacc
    exact hacc hneeded
  | unfitItem hfield hitem h =>
    obtain ⟨-, hfields⟩ := accepts_array_iff.mp haccepts
    have hacc := hfields _ _ hfield
    rw [hitem] at hacc
    exact hacc h
  | surplus h =>
    obtain ⟨hlength, -⟩ := accepts_array_iff.mp haccepts
    omega

theorem faulty_object (h : ¬ ((∀ m ∈ members, m.1.isSome = true) ∧ ∀ field ∈ fields, ∃ value,
    field? members field.names = some value ∧ field.Accepts value)) :
    Faulty fields (.object members) := by
  by_cases htexts : ∀ m ∈ members, m.1.isSome = true
  · have hfields := not_and.mp h htexts
    push Not at hfields
    obtain ⟨field, hfield, hrefused⟩ := hfields
    cases hvalue : field? members field.names with
    | none =>
      obtain ⟨m, m', hm, hm', h⟩ := field?_eq_none_iff.mp hvalue
      exact .repeated hfield hm hm' h
    | some value =>
      have hunfit := hrefused value hvalue
      cases value with
      | none =>
        exact .missing hfield (Classical.not_not.mp hunfit) (field?_eq_missing_iff.mp hvalue)
      | some value =>
        obtain ⟨m, -, hmem, hm, rfl⟩ := field?_eq_some hvalue
        exact .unfit hfield hm hmem (Classical.not_not.mp hunfit)
  · push Not at htexts
    obtain ⟨⟨_ | name, value⟩, hm, hnone⟩ := htexts
    · exact .unnamed hm
    · exact absurd rfl hnone

theorem faulty_array (h : ¬ (items.length ≤ fields.length ∧
    ∀ (i : Nat) (field : Field), fields[i]? = some field → field.Accepts items[i]?)) :
    Faulty fields (.array items) := by
  by_cases hlength : items.length ≤ fields.length
  · have hfields := not_and.mp h hlength
    push Not at hfields
    obtain ⟨i, field, hfield, hrefused⟩ := hfields
    cases hitem : items[i]? with
    | none =>
      rw [hitem] at hrefused
      exact .missingItem hfield (Classical.not_not.mp hrefused)
        (List.getElem?_eq_none_iff.mp hitem)
    | some item =>
      rw [hitem] at hrefused
      exact .unfitItem hfield hitem (Classical.not_not.mp hrefused)
  · exact .surplus (Nat.lt_of_not_le hlength)

/-- Only a value with a fault does not write a record. -/
theorem faulty_iff {v : Json} : Faulty fields v ↔
    ¬ ∃ values, v.record? (fields.map Field.names) = some values ∧
      List.Forall₂ Field.Accepts fields values := by
  refine ⟨Faulty.refused, fun h => ?_⟩
  cases v with
  | object members => exact faulty_object (accepts_object_iff.not.mp h)
  | array items => exact faulty_array (accepts_array_iff.not.mp h)
  | _ => exact .shape (fun _ h => nomatch h) fun _ h => nomatch h

end Faults

end GoSignatures.Json
