import GoSignatures.Proofs.Resolution.Receiving
import GoSignatures.Proofs.Resolution.Reentering
import GoSignatures.Proofs.Resolution.Referring

/-!
# Settling types in another order

Which types wait for the underlying types of others depends on the order in which they are entered.
That all of them can be settled does not, and if no type arguments are lost on the way, then the
table of the one run is a copy of the table of the other: the same types with the same type
parameters and the same underlying types stand there, at other places.

* `Env.Settled.settlePending_succeeds` — types that could be settled in another run are settled
* `Env.LendsAll` — types have the underlying types of what they are defined as
* `Env.Settled.copied` — the table of one run is a copy of that of another
-/

namespace GoSignatures

variable {env : Env} {p q p' q' : Progress} {opened unset : List EnteredType}

/-! ## Definitions of types as other types -/

namespace Env.Consistent

section

variable (h : env.Consistent opened unset p) (h' : env.Consistent [] [] p')
  (hcomplete : env.Complete p')
include h h' hcomplete

/-- The right-hand side of a declaration means the same in both runs. -/
theorem rightMeans_placeIn {e e' : EnteredType} (hname : e'.name.text = e.name.text)
    {type type' : Ty} (hright : env.RightMeans p e type) (hright' : env.RightMeans p' e' type') :
    type' = type.rename (p.placeIn p') := by
  obtain ⟨spec, hspec, hreads⟩ := hright
  obtain ⟨spec', hspec', hreads'⟩ := hright'
  rw [hname, hspec] at hspec'
  cases hspec'
  obtain ⟨hmeaning, hcounted⟩ := hreads p (.refl p)
  have hrenumbers := h.renumbers h' hcomplete spec.rightUses fun u hu htype => by
    obtain ⟨used, hused, -⟩ := hcounted u hu htype
    exact ⟨used, hused⟩
  have hsame := (hreads' p' (.refl p')).meaning
  rw [TypeExpr.meaning?_renumbers spec.type hrenumbers, hmeaning] at hsame
  exact (Option.some.inj hsame).symm

end

/-- A type whose definition leads to an end in one run has such a definition in the other. -/
theorem grounded_of_placeIn (h : env.Consistent [] [] p) (h' : env.Consistent [] [] p')
    (hcomplete : env.Complete p') {place : Nat} (hgrounded : env.Grounded p' place) {id : Nat}
    (hplace : p.placeIn p' id = place) (hid : id < p.table.size) : env.Grounded p id := by
  -- a place of a type in the other run is that of a type of the same name here
  have hentered : ∀ {id e'}, id < p.table.size → e' ∈ p'.entered → p.placeIn p' id = e'.id →
      ∃ e ∈ p.entered, e.id = id ∧ e'.name.text = e.name.text := by
    intro id e' hid he' hplace
    rcases h.placeIn_cases h' hcomplete id with
      ⟨hle, hsame⟩ | ⟨e, he, d, hd, rfl, hname, hsame⟩ | ⟨hsize, -⟩
    · have hbound : comparableId < e'.id := (h'.bounds he').1
      omega
    · obtain rfl := h'.eq_of_id_eq hd he' (hsame.symm.trans hplace)
      exact ⟨e, he, rfl, hname⟩
    · omega
  induction hgrounded generalizing id with
  | predeclared hle =>
    rcases h.placeIn_cases h' hcomplete id with
      ⟨hle', -⟩ | ⟨e, he, e', he', -, -, hsame⟩ | ⟨hsize, -⟩
    · exact .predeclared hle'
    · have hbound : comparableId < e'.id := (h'.bounds he').1
      omega
    · omega
  | @own e' type' he' hright' hown =>
    obtain ⟨e, he, rfl, hname⟩ := hentered hid he' hplace
    obtain ⟨type, hright, -⟩ := h.right e he (by simp)
    obtain rfl := h.rightMeans_placeIn h' hcomplete hname hright hright'
    exact .own he hright fun target args htype => hown _ _ (by rw [htype, Ty.rename])
  | @lent e' target' args' he' hright' _ ih =>
    obtain ⟨e, he, rfl, hname⟩ := hentered hid he' hplace
    obtain ⟨type, hright, -⟩ := h.right e he (by simp)
    have hsame := h.rightMeans_placeIn h' hcomplete hname hright hright'
    cases type with
    | named target args =>
      obtain ⟨htarget, -⟩ := Ty.named.inj hsame
      obtain ⟨spec, -, hreads⟩ := id hright
      have hproper := keeps.proper_meaning h (hreads p (.refl p)).meaning
      exact .lent he hright (ih htarget.symm hproper.1)
    | _ => cases hsame

/-- A type whose definition leads to an end receives an underlying type. -/
theorem receives_of_grounded (h : env.Consistent [] [] p) {id : Nat}
    (hgrounded : env.Grounded p id) : ∃ type, p.table.Receives p.pending id type := by
  induction hgrounded with
  | predeclared hle =>
    obtain ⟨iface, hiface⟩ := h.underlying?_predeclared hle
    exact ⟨_, .known hiface⟩
  | @own e type he hright hown =>
    obtain ⟨type', hright', ⟨known, hknown, -⟩ | ⟨target, args, rfl, -⟩⟩ := h.right e he (by simp)
    · exact ⟨known, .known hknown⟩
    · cases hright.unique hright'
      exact absurd rfl (hown target args)
  | @lent e target args he hright _ ih =>
    obtain ⟨type', hright', ⟨known, hknown, -⟩ | ⟨target', args', rfl, -, hwaits⟩⟩ :=
      h.right e he (by simp)
    · exact ⟨known, .known hknown⟩
    · cases hright.unique hright'
      obtain ⟨type, hreceives⟩ := ih
      exact ⟨type, .waits hwaits hreceives⟩

end Env.Consistent

/-- Types that could be settled in another run are settled. -/
theorem Env.Settled.settlePending_succeeds (hs' : env.Settled p' q') (h : env.Consistent [] [] p) :
    ∃ t, env.settlePending p = .ok ((), { p with table := t, pending := [] }) ∧
      p.table.Settles t p.pending [] := by
  have hcomplete : env.Complete p' := hs'.complete
  have hall : ∀ w ∈ p.pending, ∃ type, p.table.Receives p.pending w.1 type := by
    intro w hw
    obtain ⟨-, e, he, hid, -⟩ := h.waiting w hw
    obtain ⟨e', he', hname⟩ := h.exists_entered_of_complete hcomplete he
    obtain ⟨type, htype⟩ := hs'.consistent.underlying?_isSome hs'.settles
      (hs'.settles.size ▸ (hs'.consistent.bounds he').2)
    have hgrounded := hs'.consistent.grounded_of_settles hs'.settles htype
    rw [← hid]
    exact h.receives_of_grounded (h.grounded_of_placeIn hs'.consistent hcomplete hgrounded
      (h.placeIn_entered hs'.consistent he he' hname) (h.bounds he).2)
  obtain ⟨t, hsettle⟩ := (Table.settle_ok_iff h.waits).mpr hall
  refine ⟨t, ?_, Table.settle_ok h.waits hsettle⟩
  unfold settlePending
  rw [Resolve.get_bind, hsettle]
  rfl

/-! ## The table -/

/-- Every type has the underlying type of what its declaration defines it as. -/
def Env.LendsAll (env : Env) (p q : Progress) : Prop :=
  ∀ e ∈ p.entered, ∀ type, env.RightMeans p e type →
    q.table.underlying? e.id = some (q.table.underlying type)

namespace Env.Settled

theorem underlying?_predeclared (h : env.Settled p q) {id : Nat} (hid : id ≤ comparableId) :
    q.table.underlying? id = Table.initial.underlying? id := by
  obtain ⟨iface, hiface⟩ := h.consistent.underlying?_predeclared hid
  rw [h.settles.known id _ hiface, ← hiface, Table.underlying?,
    h.consistent.get?_predeclared hid, Table.underlying?]

variable (h : env.Settled p q) (h' : env.Settled p' q')
include h h'

theorem label?_placeIn (id : Nat) : q'.table.label? (p.placeIn p' id) = q.table.label? id := by
  rw [h'.settles.labels, h.settles.labels,
    h.consistent.label?_placeIn h'.consistent h'.complete]

theorem typeParams_placeIn (id : Nat) :
    q'.table.typeParams (p.placeIn p' id) =
      TypeParam.renames (p.placeIn p') (q.table.typeParams id) := by
  rw [h'.settles.typeParams, h.settles.typeParams]
  rcases h.consistent.placeIn_cases h'.consistent h'.complete id with
    ⟨hid, hplace⟩ | ⟨e, he, e', he', rfl, hname, hplace⟩ | ⟨hid, hplace⟩ <;> rw [hplace]
  · rw [h'.consistent.typeParams_predeclared hid, h.consistent.typeParams_predeclared hid]
    rfl
  · -- both are what the declaration means
    obtain ⟨spec, hspec, hreads⟩ := h.consistent.params e he (by simp)
    obtain ⟨spec', hspec', hreads'⟩ := h'.consistent.params e' he' (by simp)
    rw [hname, hspec] at hspec'
    cases hspec'
    have hrenumbers := h.consistent.renumbers h'.consistent h'.complete
      (TypeParamDecl.allUses spec.params spec.typeParams) fun u _ htype =>
        h.complete u.1 htype
    have hmeans := (hreads' p' (.refl p')).meaning
    rw [TypeParamDecl.meanings?_renumbers spec.typeParams hrenumbers,
      (hreads p (.refl p)).meaning] at hmeans
    exact (Option.some.inj hmeans).symm
  · rw [Table.typeParams, Table.typeParams, Table.get?_eq_none_of_size_le hid,
      Table.get?_eq_none_of_size_le (Nat.le_add_right _ _)]
    rfl

/-- Types have the same underlying types in both runs, if none loses type arguments. -/
theorem underlying?_placeIn (hlends : env.LendsAll p q) (hlends' : env.LendsAll p' q') {id : Nat}
    (hgrounded : env.Grounded p id) :
    q'.table.underlying? (p.placeIn p' id) =
      (q.table.underlying? id).map (Ty.rename (p.placeIn p')) := by
  have hpredeclared : ∀ id ≤ comparableId, q'.table.underlying? (p.placeIn p' id) =
      (q.table.underlying? id).map (Ty.rename (p.placeIn p')) := by
    intro id hid
    rw [Progress.placeIn_predeclared hid, h'.underlying?_predeclared hid,
      h.underlying?_predeclared hid]
    obtain rfl | rfl : id = 0 ∨ id = 1 := by
      unfold comparableId at hid
      omega
    · rfl
    · rfl
  -- what a type is defined as decides, and this is the same on both sides
  have hentered : ∀ {e type}, e ∈ p.entered → env.RightMeans p e type →
      (∀ id args, type = .named id args → q'.table.underlying? (p.placeIn p' id) =
        (q.table.underlying? id).map (Ty.rename (p.placeIn p'))) →
      q'.table.underlying? (p.placeIn p' e.id) =
        (q.table.underlying? e.id).map (Ty.rename (p.placeIn p')) := by
    intro e type he hright htarget
    obtain ⟨e', he', hname⟩ := h.consistent.exists_entered_of_complete h'.complete he
    obtain ⟨type', hright', -⟩ := h'.consistent.right e' he' (by simp)
    obtain rfl := h.consistent.rightMeans_placeIn h'.consistent h'.complete hname hright hright'
    have hproper : type.Proper p.table.places := by
      obtain ⟨spec, -, hreads⟩ := hright
      exact Consistent.keeps.proper_meaning h.consistent (hreads p (.refl p)).meaning
    rw [h.consistent.placeIn_entered h'.consistent he he' hname, hlends e he type hright,
      hlends' e' he' _ hright', Option.map_some]
    refine congrArg some (Table.underlying_rename hproper fun id args hlooked => ?_)
    refine Table.instance?_rename (h.typeParams_placeIn h' id) ?_ args
    rcases hlooked with htype | rfl
    · exact htarget id args htype
    · exact hpredeclared errorId (Nat.zero_le _)
  induction hgrounded with
  | predeclared hle => exact hpredeclared _ hle
  | own he hright hown => exact hentered he hright fun id args htype => absurd htype (hown id args)
  | lent he hright _ ih =>
    refine hentered he hright fun id args htype => ?_
    cases htype
    exact ih

/-- Each type of the other run stands in this one, too. -/
theorem exists_placeIn {place : Nat} (hplace : place < q'.table.size) :
    ∃ id < q.table.size, p.placeIn p' id = place := by
  rw [h'.settles.size] at hplace
  rw [h.settles.size]
  by_cases hle : place ≤ comparableId
  · refine ⟨place, ?_, Progress.placeIn_predeclared hle⟩
    exact Nat.lt_of_le_of_lt hle (Consistent.keeps.size p h.consistent)
  · obtain ⟨e', he', rfl⟩ := h'.consistent.exists_entered (Nat.lt_of_not_le hle) hplace
    obtain ⟨e, he, hname⟩ := h'.consistent.exists_entered_of_complete h.complete he'
    exact ⟨e.id, (h.consistent.bounds he).2,
      h.consistent.placeIn_entered h'.consistent he he' hname.symm⟩

/-- The table of one run is a copy of that of another. -/
theorem copied (hlends : env.LendsAll p q) (hlends' : env.LendsAll p' q') :
    q.table.Copied (p.placeIn p') q'.table := by
  have hunderlying : ∀ id < q.table.size, q'.table.underlying? (p.placeIn p' id) =
      (q.table.underlying? id).map (Ty.rename (p.placeIn p')) := by
    intro id hid
    obtain ⟨type, htype⟩ := h.consistent.underlying?_isSome h.settles hid
    exact h.underlying?_placeIn h' hlends hlends'
      (h.consistent.grounded_of_settles h.settles htype)
  constructor
  case injective => exact fun _ _ => h.consistent.placeIn_injective h'.consistent h'.complete
  case error => exact Progress.placeIn_predeclared (Nat.zero_le _)
  case comparable => exact Progress.placeIn_predeclared (Nat.le_refl _)
  case get? =>
    intro id
    by_cases hid : id < q.table.size
    · exact Table.get?_eq_map_rename (h.label?_placeIn h' id) (h.typeParams_placeIn h' id)
        (hunderlying id hid)
    · have hlabel := h.label?_placeIn h' id
      rw [Table.label?, Table.label?, Table.get?_eq_none_of_size_le (Nat.le_of_not_lt hid),
        Option.map_none, Option.map_eq_none_iff] at hlabel
      rw [hlabel, Table.get?_eq_none_of_size_le (Nat.le_of_not_lt hid)]
      rfl
  case refers =>
    intro place type htype
    have hsize := Table.lt_size_of_underlying? htype
    obtain ⟨id, hid, rfl⟩ := h.exists_placeIn h' hsize
    rw [hunderlying id hid] at htype
    obtain ⟨original, -, rfl⟩ := Option.map_eq_some_iff.mp htype
    exact ⟨original, rfl⟩

end Env.Settled

end GoSignatures
