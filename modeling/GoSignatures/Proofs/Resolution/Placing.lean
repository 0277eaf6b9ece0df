import GoSignatures.Proofs.Resolution.Nesting
import GoSignatures.Proofs.Resolution.Renumbering

/-!
# Places in another run

In another order the types of a file are entered at other places. What a name was found to mean in
one run it means in every run in which all types were entered, with the places renumbered by the
names of the types. So a use that was right there has the right number of arguments here as well.
It is the same with a type whose type parameters are not set yet, as long as its constraints do not
lead back to it through another declaration.

* `Progress.placeIn` — where a type stands in another run
* `Env.Consistent.typeOf?_placeIn` — what names mean in the other run
* `Env.Consistent.length_typeParams_of_counted` — uses have the right number of arguments
-/

namespace GoSignatures

variable {env : Env} {p q : Progress} {opened unset : List EnteredType}

/-! ## Places -/

/-- Where the type that was entered at a place of `p` was entered in `q`. Places without a type are
taken behind all places of `q`. -/
def Progress.placeIn (p q : Progress) (id : Nat) : Nat :=
  if id ≤ comparableId then id
  else
    match (p.entered.find? fun e => e.id == id).bind fun e => q.enteredType? e.name.text with
    | some e => e.id
    | none => q.table.size + id

theorem Progress.placeIn_predeclared {id : Nat} (hid : id ≤ comparableId) :
    p.placeIn q id = id :=
  if_pos hid

namespace Env.Consistent

theorem placeIn_entered (h : env.Consistent opened unset p) (hq : env.Consistent [] [] q)
    {e e' : EnteredType} (he : e ∈ p.entered) (he' : e' ∈ q.entered)
    (hname : e'.name.text = e.name.text) : p.placeIn q e.id = e'.id := by
  have hplaced : ¬ e.id ≤ comparableId := Nat.not_le_of_lt (h.bounds he).1
  have hfound : q.enteredType? e.name.text = some e' := hname ▸ hq.enteredType?_eq_some he'
  rw [Progress.placeIn, if_neg hplaced, h.find?_id_eq_some he, Option.bind_some, hfound]

/-- A defined type that is entered in one run is entered in every complete one. -/
theorem exists_entered_of_complete (h : env.Consistent opened unset p) (hcomplete : env.Complete q)
    {e : EnteredType} (he : e ∈ p.entered) : ∃ e' ∈ q.entered, e'.name.text = e.name.text := by
  obtain ⟨spec, hspec, -⟩ := h.declared e he
  obtain ⟨type, htype⟩ := hcomplete e.name.text (FileScope.isType_iff.mpr ⟨spec, hspec⟩)
  obtain ⟨e', he', hname, -⟩ := entered_of_typeOf? (h.isAlias_entered he) htype
  exact ⟨e', he', hname⟩

variable (h : env.Consistent opened unset p) (hq : env.Consistent [] [] q)
  (hcomplete : env.Complete q)
include h hq hcomplete

/-- A place is that of a predeclared type, that of a type that is entered in both runs, or holds no
type. -/
theorem placeIn_cases (id : Nat) :
    (id ≤ comparableId ∧ p.placeIn q id = id) ∨
      (∃ e ∈ p.entered, ∃ e' ∈ q.entered,
        e.id = id ∧ e'.name.text = e.name.text ∧ p.placeIn q id = e'.id) ∨
      (p.table.size ≤ id ∧ p.placeIn q id = q.table.size + id) := by
  by_cases hpredeclared : id ≤ comparableId
  · exact .inl ⟨hpredeclared, Progress.placeIn_predeclared hpredeclared⟩
  by_cases hsize : id < p.table.size
  · obtain ⟨e, he, rfl⟩ := h.exists_entered (Nat.lt_of_not_le hpredeclared) hsize
    obtain ⟨e', he', hname⟩ := h.exists_entered_of_complete hcomplete he
    exact .inr (.inl ⟨e, he, e', he', rfl, hname, h.placeIn_entered hq he he' hname⟩)
  · have hnone : (p.entered.find? fun e => e.id == id) = none := by
      refine List.find?_eq_none.mpr fun e he hid => hsize ?_
      rw [← beq_iff_eq.mp hid]
      exact (h.bounds he).2
    refine .inr (.inr ⟨Nat.le_of_not_lt hsize, ?_⟩)
    rw [Progress.placeIn, if_neg hpredeclared, hnone]
    rfl

theorem label?_placeIn (id : Nat) : q.table.label? (p.placeIn q id) = p.table.label? id := by
  rcases h.placeIn_cases hq hcomplete id with
    ⟨hid, hplace⟩ | ⟨e, he, e', he', rfl, hname, hplace⟩ | ⟨hid, hplace⟩
  · rw [hplace, Table.label?, Table.label?, hq.get?_predeclared hid, h.get?_predeclared hid]
  · rw [hplace, hq.labels e' he', h.labels e he, hname]
  · rw [hplace, Table.label?, Table.label?, Table.get?_eq_none_of_size_le hid,
      Table.get?_eq_none_of_size_le (Nat.le_add_right _ _)]

theorem placeIn_injective {id id' : Nat} (hsame : p.placeIn q id = p.placeIn q id') : id = id' := by
  -- the three kinds of places stay apart
  have hbounds : ∀ e ∈ q.entered, comparableId < e.id ∧ e.id < q.table.size := fun e he =>
    hq.bounds he
  rcases h.placeIn_cases hq hcomplete id with
    ⟨hid, hplace⟩ | ⟨e, he, e', he', rfl, hname, hplace⟩ | ⟨hid, hplace⟩ <;>
  rcases h.placeIn_cases hq hcomplete id' with
    ⟨hid', hplace'⟩ | ⟨d, hd, d', hd', rfl, hname', hplace'⟩ | ⟨hid', hplace'⟩ <;>
  rw [hplace, hplace'] at hsame
  · exact hsame
  · have := hbounds d' hd'
    omega
  · have := hq.size
    unfold comparableId at hid
    omega
  · have := hbounds e' he'
    omega
  · have heq := hq.eq_of_id_eq he' hd' hsame
    rw [h.eq_of_name_eq he hd (by rw [← hname, ← hname', heq])]
  · have := hbounds e' he'
    omega
  · have := hq.size
    unfold comparableId at hid'
    omega
  · have := hbounds d' hd'
    omega
  · omega

/-! ## Names -/

/-- Names that mean something in both runs mean the same. -/
theorem renumbers_of_typeOf? (uses : List TypeUse)
    (huses : ∀ u ∈ uses, env.scope.isType u.1 = true → ∃ type, env.typeOf? p u.1 = some type ∧
      env.typeOf? q u.1 = some (type.rename (p.placeIn q))) :
    env.Renumbers (p.placeIn q) p.table q.table (env.typeOf? p) (env.typeOf? q) uses where
  error := Progress.placeIn_predeclared (Nat.zero_le _)
  comparable := Progress.placeIn_predeclared (Nat.le_refl _)
  nameChars id := Table.nameChars_congr (h.label?_placeIn hq hcomplete id)
  means u hu hisType := by
    obtain ⟨type, htype, htype'⟩ := huses u hu hisType
    rw [htype, htype', Option.map_some]

/-- What a name was found to mean, it means in every complete run. -/
theorem typeOf?_placeIn {name : String} {type : Ty} (htype : env.typeOf? p name = some type) :
    env.typeOf? q name = some (type.rename (p.placeIn q)) := by
  refine h.induction (P := fun name type =>
    env.typeOf? q name = some (type.rename (p.placeIn q))) ?_ ?_ htype
  · intro e he
    obtain ⟨e', he', hname⟩ := h.exists_entered_of_complete hcomplete he
    rw [← hname, hq.typeOf?_entered he', Ty.rename, h.placeIn_entered hq he he' hname]
    rfl
  · intro name spec type hspec halias hreads huses
    -- the declaration has a meaning in the other run, and what it uses was found before
    have hisAlias : env.scope.isAlias name = true := (FileScope.isAlias_eq hspec).trans halias
    obtain ⟨type', htype'⟩ := hcomplete name (FileScope.isType_iff.mpr ⟨spec, hspec⟩)
    obtain ⟨-, spec', hspec', -, hreads'⟩ := hq.aliasFound hisAlias htype'
    cases hspec.symm.trans hspec'
    have hmeaning := (hreads' q (.refl q)).meaning
    have hrenumbers := h.renumbers_of_typeOf? hq hcomplete spec.rightUses
      fun u hu hisType => by
        obtain ⟨used, hused, -⟩ := hreads.counted u hu hisType
        exact ⟨used, hused, huses u hu used hused⟩
    rw [TypeExpr.meaning?_renumbers spec.type hrenumbers, hreads.meaning,
      Option.map_some] at hmeaning
    rw [htype', hmeaning]

/-- Uses of names that mean something here mean the same in every complete run. -/
theorem renumbers (uses : List TypeUse) (huses : ∀ u ∈ uses, env.scope.isType u.1 = true →
      ∃ type, env.typeOf? p u.1 = some type) :
    env.Renumbers (p.placeIn q) p.table q.table (env.typeOf? p) (env.typeOf? q) uses :=
  h.renumbers_of_typeOf? hq hcomplete uses fun u hu hisType => by
    obtain ⟨type, htype⟩ := huses u hu hisType
    exact ⟨type, htype, h.typeOf?_placeIn hq hcomplete htype⟩

/-! ## Numbers of type arguments -/

theorem arity_placeIn (id : Nat) : env.arity q.table (p.placeIn q id) = env.arity p.table id := by
  have hle : p.placeIn q id ≤ comparableId ↔ id ≤ comparableId := by
    rcases h.placeIn_cases hq hcomplete id with
      ⟨hid, hplace⟩ | ⟨e, he, e', he', rfl, -, hplace⟩ | ⟨hid, hplace⟩ <;> rw [hplace]
    · have hleft : comparableId < e'.id := (hq.bounds he').1
      have hright : comparableId < e.id := (h.bounds he).1
      omega
    · have hsize := h.size
      have hsize' := hq.size
      unfold comparableId
      omega
  simp only [arity, hle, h.label?_placeIn hq hcomplete id]

/-- A type whose type parameters are set has as many as in the other run. -/
theorem length_typeParams_placeIn {id : Nat} (hid : id < p.table.size)
    (hunset : id ∉ unset.map EnteredType.id) :
    (p.table.typeParams id).length = env.arity q.table (p.placeIn q id) := by
  rw [keeps.arity p h id hid hunset, h.arity_placeIn hq hcomplete id]

/-- A use in a declaration that is right in a complete run is right here, unless the type that is
used is the one whose constraints are being resolved. -/
theorem length_typeParams_of_counted (hback : ∀ generic, ¬ env.scope.LeadsBack generic)
    {name : String} {u : TypeUse} (hu : u ∈ env.scope.usesOf name) (hcounted : env.Counted name q u)
    {id : Nat} (hmeans : env.typeOf? p u.1 = some (.named id []))
    (hreached : ∀ e ∈ unset, e.id = id → env.scope.Reached e.name.text name) :
    (p.table.typeParams id).length = u.2 := by
  have hsize : id < p.table.size := keeps.lt_size h hmeans
  have hmeans' := h.typeOf?_placeIn hq hcomplete hmeans
  obtain ⟨type, htype, hcount⟩ := hcounted (keeps.isType p h _ _ hmeans)
  have hunset : id ∉ unset.map EnteredType.id := by
    intro hmem
    obtain ⟨e, he, rfl⟩ := List.mem_map.mp hmem
    have hentered := (h.unfinished e (h.noParams e he).1).1
    exact hback _ (h.leadsBack_of_use hentered (hreached e he rfl) hu hmeans)
  rw [h.length_typeParams_placeIn hq hcomplete hsize hunset]
  rcases hcount _ (Option.some.inj (htype.symm.trans hmeans')) with
    hequal | ⟨hzero, generic, hlabel, hreaches⟩
  · exact hequal.symm
  by_cases hpredeclared : id ≤ comparableId
  · rw [Progress.placeIn_predeclared hpredeclared, hzero]
    exact if_pos hpredeclared
  -- in the other run the use was reached from the constraints of the type
  obtain ⟨e, he, rfl⟩ := h.exists_entered (Nat.lt_of_not_le hpredeclared) hsize
  rw [h.label?_placeIn hq hcomplete, h.labels e he] at hlabel
  cases hlabel
  exact absurd (h.leadsBack_of_use he hreaches hu hmeans) (hback _)

/-- A use that fits in a complete run has the right number of arguments where no type parameters are
being resolved. -/
theorem length_typeParams_of_fits {u : TypeUse} (hfits : env.Fits [] q u) {id : Nat}
    (hunset : id ∉ unset.map EnteredType.id)
    (hmeans : env.typeOf? p u.1 = some (.named id [])) :
    (p.table.typeParams id).length = u.2 := by
  have hmeans' := h.typeOf?_placeIn hq hcomplete hmeans
  obtain ⟨type, htype, hcount⟩ := hfits (keeps.isType p h _ _ hmeans)
  rw [h.length_typeParams_placeIn hq hcomplete (keeps.lt_size h hmeans) hunset]
  exact ((hcount _ (Option.some.inj (htype.symm.trans hmeans'))).2 List.not_mem_nil).symm

end Env.Consistent

end GoSignatures
