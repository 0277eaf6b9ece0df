import GoSignatures.Proofs.Resolution.Expression
import Mathlib.Data.List.Nodup

/-!
# What is known of entered types

At every moment of a run each declared type that was reached is in one of three stages: its type
parameters are being resolved, its right-hand side is being resolved, or it is finished. A finished
type has the meaning of its declaration; its underlying type is known, or the type waits for the
underlying type of the one that it is defined as.

* `Env.Consistent` — the invariant of a run
* `Env.Grounded` — definitions of types as other types lead to an end
* `Env.Consistent.induction` — what holds of defined types, and passes on to other names, holds of
  all names
-/

namespace GoSignatures

namespace Env

variable (env : Env)

/-! ## What a declaration means -/

/-- A name that is used in the declaration of another means something. The use has the right number
of arguments, or none where it is reached from the constraints of the type that is used. -/
def Counted (name : String) (p : Progress) (u : TypeUse) : Prop :=
  env.scope.isType u.1 = true → ∃ type, env.typeOf? p u.1 = some type ∧
    ∀ id, type = .named id [] →
      u.2 = env.arity p.table id ∨
        u.2 = 0 ∧ ∃ generic, p.table.label? id = some (env.packageName, generic) ∧
          env.scope.Reached generic name

/-- The right-hand side of a declaration means a type. -/
structure ReadsRight (name : String) (spec : TypeSpec) (type : Ty) (p : Progress) : Prop where
  meaning : spec.type.meaning? env p.table (env.typeOf? p) spec.params = some type
  counted : ∀ u ∈ spec.rightUses, env.Counted name p u

/-- The type parameters of the declared type at a place are those of its declaration. A constraint
uses the type itself without arguments only. -/
structure ReadsParams (name : String) (id : Nat) (spec : TypeSpec) (params : List TypeParam)
    (p : Progress) : Prop where
  meaning : TypeParamDecl.meanings? env p.table (env.typeOf? p) spec.params spec.typeParams
    = some params
  own : ∀ u ∈ spec.constraintUses, env.scope.isType u.1 = true →
    env.typeOf? p u.1 = some (.named id []) → u.2 = 0
  counted : ∀ u ∈ spec.constraintUses, env.typeOf? p u.1 ≠ some (.named id []) →
    env.Counted name p u

/-! ## Stages -/

/-- The declaration of an entered type defines it as a type, now and later. -/
def RightMeans (p : Progress) (e : EnteredType) (type : Ty) : Prop :=
  ∃ spec, env.scope.lookup e.name.text = some (.type spec) ∧
    ∀ q, p.Later q → env.ReadsRight e.name.text spec type q

/-- The type parameters of an entered type are known. -/
def ParamsFound (p : Progress) (e : EnteredType) : Prop :=
  ∃ spec, env.scope.lookup e.name.text = some (.type spec) ∧
    ∀ q, p.Later q → env.ReadsParams e.name.text e.id spec (p.table.typeParams e.id) q

/-- The type at a place has the underlying type of another, or waits for it. -/
def Lent (p : Progress) (id : Nat) (type : Ty) : Prop :=
  (∃ known, p.table.underlying? id = some known ∧
    ∀ q, p.Later q → q.table.underlying type = known) ∨
    ∃ target args, type = .named target args ∧ p.table.underlying? id = none ∧
      (id, target) ∈ p.pending

/-- An entered type is finished. -/
def RightFound (p : Progress) (e : EnteredType) : Prop :=
  ∃ type, env.RightMeans p e type ∧ Lent p e.id type

/-- What another name for a type stands for is what its declaration says. -/
def AliasFound (p : Progress) (name : String) (type : Ty) : Prop :=
  type.Proper (env.counts p.table) ∧
    ∃ spec, env.scope.lookup name = some (.type spec) ∧ spec.isAlias = true ∧
      ∀ q, p.Later q → env.ReadsRight name spec type q

/-- Types defined as other types lead to a type that is predeclared or has a right-hand side of its
own. -/
inductive Grounded (p : Progress) : Nat → Prop
  | predeclared {id : Nat} (h : id ≤ comparableId) : Grounded p id
  | own {e : EnteredType} {type : Ty} (he : e ∈ p.entered) (hright : env.RightMeans p e type)
      (hown : ∀ target args, type ≠ .named target args) : Grounded p e.id
  | lent {e : EnteredType} {target : Nat} {args : List Ty} (he : e ∈ p.entered)
      (hright : env.RightMeans p e (.named target args)) (h : Grounded p target) : Grounded p e.id

/-- The invariant of a run in which the right-hand sides of the types `opened` and the type
parameters of the types `unset` are being resolved. -/
structure Consistent (opened unset : List EnteredType) (p : Progress) : Prop where
  predeclared : Table.initial.entries <+: p.table.entries
  size : p.table.size = p.entered.length + 2
  places : p.entered.map EnteredType.id = List.range' 2 p.entered.length
  distinct : (p.entered.map fun e => e.name.text).Nodup
  declared : ∀ e ∈ p.entered, ∃ spec, env.scope.lookup e.name.text = some (.type spec) ∧
    spec.isAlias = false
  labels : ∀ e ∈ p.entered, p.table.label? e.id = some (env.packageName, e.name.text)
  unfinished : ∀ e ∈ opened, e ∈ p.entered ∧ p.table.underlying? e.id = none
  noParams : ∀ e ∈ unset, e ∈ opened ∧ p.table.typeParams e.id = []
  params : ∀ e ∈ p.entered, e ∉ unset → env.ParamsFound p e
  right : ∀ e ∈ p.entered, e ∉ opened → env.RightFound p e
  grounded : ∀ id type, p.table.underlying? id = some type → env.Grounded p id
  waiting : ∀ w ∈ p.pending, p.table.underlying? w.1 = none ∧
    ∃ e ∈ p.entered, e.id = w.1 ∧ e ∉ opened ∧ env.scope.MayWait e.name.text
  pending : (p.pending.map Prod.fst).Nodup
  aliases : ∀ a ∈ p.aliases, env.AliasFound p a.1 a.2
  ordered : ∀ l a r, p.aliases = l ++ a :: r → ∀ spec, env.scope.lookup a.1 = some (.type spec) →
    ∀ u ∈ spec.rightUses, env.scope.isAlias u.1 = true → u.1 ∈ l.map Prod.fst
  definitions : ∀ d ∈ p.definitions, d.Proper (env.counts p.table)

/-- How a declared name is reached: from the declarations of the types `opened`, which are being
resolved, and from the constraints of the types `unset`. -/
structure Tracked (opened unset : List EnteredType) (name : String) : Prop where
  opened : ∀ e ∈ opened, Relation.TransGen env.scope.Uses e.name.text name
  unset : ∀ e ∈ unset, name = e.name.text ∧ env.scope.ReachesSelf e.name.text ∨
    env.scope.Reached e.name.text name

end Env

/-! ## What lasts -/

variable {env : Env} {p q : Progress} {opened unset : List EnteredType}

theorem Ty.Proper.later {type : Ty} (hlater : p.Later q) (h : type.Proper (env.counts p.table)) :
    type.Proper (env.counts q.table) :=
  h.mono (fun _ _ hid => Env.counts_later hlater hid) fun _ _ => trivial

theorem Definition.Proper.later {d : Definition} (hlater : p.Later q)
    (h : d.Proper (env.counts p.table)) : d.Proper (env.counts q.table) :=
  h.mono (fun _ _ hid => Env.counts_later hlater hid) fun _ _ => trivial

namespace Env

theorem RightMeans.later {e : EnteredType} {type : Ty} (hlater : p.Later q)
    (h : env.RightMeans p e type) : env.RightMeans q e type := by
  obtain ⟨spec, hspec, hreads⟩ := h
  exact ⟨spec, hspec, fun r hr => hreads r (hlater.trans hr)⟩

/-- A declaration defines a type as one type only. -/
theorem RightMeans.unique {e : EnteredType} {type type' : Ty} (h : env.RightMeans p e type)
    (h' : env.RightMeans p e type') : type = type' := by
  obtain ⟨spec, hspec, hreads⟩ := h
  obtain ⟨spec', hspec', hreads'⟩ := h'
  cases hspec.symm.trans hspec'
  exact Option.some.inj
    ((hreads p (.refl p)).meaning.symm.trans (hreads' p (.refl p)).meaning)

theorem ParamsFound.later {e : EnteredType} (hlater : p.Later q)
    (hsame : q.table.typeParams e.id = p.table.typeParams e.id) (h : env.ParamsFound p e) :
    env.ParamsFound q e := by
  obtain ⟨spec, hspec, hreads⟩ := h
  exact ⟨spec, hspec, fun r hr => hsame ▸ hreads r (hlater.trans hr)⟩

theorem Lent.later {id : Nat} {type : Ty} (hlater : p.Later q) (hpending : p.pending ⊆ q.pending)
    (hsame : q.table.underlying? id = p.table.underlying? id) (h : Lent p id type) :
    Lent q id type := by
  rcases h with ⟨known, hknown, hlasts⟩ | ⟨target, args, htype, hnone, hwaits⟩
  · exact Or.inl ⟨known, hsame.trans hknown, fun r hr => hlasts r (hlater.trans hr)⟩
  · exact Or.inr ⟨target, args, htype, hsame.trans hnone, hpending hwaits⟩

theorem RightFound.later {e : EnteredType} (hlater : p.Later q) (hpending : p.pending ⊆ q.pending)
    (hsame : q.table.underlying? e.id = p.table.underlying? e.id) (h : env.RightFound p e) :
    env.RightFound q e := by
  obtain ⟨type, hright, hlent⟩ := h
  exact ⟨type, hright.later hlater, hlent.later hlater hpending hsame⟩

theorem AliasFound.later {name : String} {type : Ty} (hlater : p.Later q)
    (h : env.AliasFound p name type) : env.AliasFound q name type := by
  obtain ⟨hproper, spec, hspec, halias, hreads⟩ := h
  exact ⟨hproper.later hlater, spec, hspec, halias, fun r hr => hreads r (hlater.trans hr)⟩

theorem Grounded.later {id : Nat} (hlater : p.Later q) (h : env.Grounded p id) :
    env.Grounded q id := by
  induction h with
  | predeclared h => exact .predeclared h
  | own he hright hown => exact .own (hlater.entered.mem he) (hright.later hlater) hown
  | lent he hright _ ih => exact .lent (hlater.entered.mem he) (hright.later hlater) ih

/-! ## Places -/

namespace Consistent

theorem nodup_places (h : env.Consistent opened unset p) :
    (p.entered.map EnteredType.id).Nodup := by
  rw [h.places]
  exact List.nodup_range'

/-- The types of a file stand behind the predeclared ones. -/
theorem bounds (h : env.Consistent opened unset p) {e : EnteredType} (he : e ∈ p.entered) :
    2 ≤ e.id ∧ e.id < p.table.size := by
  have hmem : e.id ∈ List.range' 2 p.entered.length := h.places ▸ List.mem_map_of_mem he
  rw [List.mem_range'_1] at hmem
  rw [h.size]
  omega

theorem exists_entered (h : env.Consistent opened unset p) {id : Nat} (hid : comparableId < id)
    (hsize : id < p.table.size) : ∃ e ∈ p.entered, e.id = id := by
  have hmem : id ∈ List.range' 2 p.entered.length := by
    rw [List.mem_range'_1]
    rw [h.size] at hsize
    exact ⟨hid, by omega⟩
  rw [← h.places] at hmem
  exact List.mem_map.mp hmem

theorem eq_of_id_eq (h : env.Consistent opened unset p) {e e' : EnteredType} (he : e ∈ p.entered)
    (he' : e' ∈ p.entered) (hid : e.id = e'.id) : e = e' :=
  List.inj_on_of_nodup_map h.nodup_places he he' hid

theorem eq_of_name_eq (h : env.Consistent opened unset p) {e e' : EnteredType} (he : e ∈ p.entered)
    (he' : e' ∈ p.entered) (hname : e.name.text = e'.name.text) : e = e' :=
  List.inj_on_of_nodup_map h.distinct he he' hname

theorem get?_predeclared (h : env.Consistent opened unset p) {id : Nat} (hid : id ≤ comparableId) :
    p.table.get? id = Table.initial.get? id :=
  Table.get?_of_prefix h.predeclared (Nat.lt_succ_of_le hid)

theorem typeParams_predeclared (h : env.Consistent opened unset p) {id : Nat}
    (hid : id ≤ comparableId) : p.table.typeParams id = [] := by
  rw [Table.typeParams, h.get?_predeclared hid]
  obtain rfl | rfl : id = 0 ∨ id = 1 := by
    unfold comparableId at hid
    omega
  · rfl
  · rfl

theorem enteredType?_eq_some (h : env.Consistent opened unset p) {e : EnteredType}
    (he : e ∈ p.entered) : p.enteredType? e.name.text = some e := by
  have hsome : (p.entered.find? fun e' => e'.name.text == e.name.text).isSome :=
    List.find?_isSome.mpr ⟨e, he, by simp⟩
  obtain ⟨found, hfound⟩ := Option.isSome_iff_exists.mp hsome
  have hmem := List.mem_of_find?_eq_some hfound
  have hname : found.name.text = e.name.text := by simpa using List.find?_some hfound
  rw [Progress.enteredType?, hfound, h.eq_of_name_eq hmem he hname]

theorem find?_id_eq_some (h : env.Consistent opened unset p) {e : EnteredType}
    (he : e ∈ p.entered) : (p.entered.find? fun e' => e'.id == e.id) = some e := by
  have hsome : (p.entered.find? fun e' => e'.id == e.id).isSome :=
    List.find?_isSome.mpr ⟨e, he, by simp⟩
  obtain ⟨found, hfound⟩ := Option.isSome_iff_exists.mp hsome
  have hid : found.id = e.id := by simpa using List.find?_some hfound
  rw [hfound, h.eq_of_id_eq (List.mem_of_find?_eq_some hfound) he hid]

theorem isAlias_entered (h : env.Consistent opened unset p) {e : EnteredType} (he : e ∈ p.entered) :
    env.scope.isAlias e.name.text = false := by
  obtain ⟨spec, hspec, halias⟩ := h.declared e he
  simp [FileScope.isAlias, hspec, halias]

theorem typeOf?_entered (h : env.Consistent opened unset p) {e : EnteredType} (he : e ∈ p.entered) :
    env.typeOf? p e.name.text = some (.named e.id []) := by
  rw [typeOf?, h.isAlias_entered he, if_neg (by simp), h.enteredType?_eq_some he]
  rfl

/-! ## Names -/

/-- What holds of the defined types, and of another name for a type if it holds of the names that
its declaration uses, holds of all names. -/
theorem induction (h : env.Consistent opened unset p) {P : String → Ty → Prop}
    (hdefined : ∀ e ∈ p.entered, P e.name.text (.named e.id []))
    (halias : ∀ name spec type, env.scope.lookup name = some (.type spec) → spec.isAlias = true →
      env.ReadsRight name spec type p →
      (∀ u ∈ spec.rightUses, ∀ type', env.typeOf? p u.1 = some type' → P u.1 type') → P name type)
    {name : String} {type : Ty} (htype : env.typeOf? p name = some type) : P name type := by
  have hother : ∀ {name type}, env.scope.isAlias name = false →
      env.typeOf? p name = some type → P name type := by
    intro name type hname htype
    obtain ⟨e, he, rfl, rfl⟩ := entered_of_typeOf? hname htype
    exact hdefined e he
  -- the names that the declaration of another name uses were found before it
  have hfound : ∀ (n : Nat) (l : List (String × Ty)) (a : String × Ty) (r : List (String × Ty)),
      l.length = n → p.aliases = l ++ a :: r → P a.1 a.2 := by
    intro n
    induction n using Nat.strongRecOn with
    | _ n ih =>
      rintro l a r rfl hlr
      obtain ⟨-, spec, hspec, hisAlias, hreads⟩ := h.aliases a (by simp [hlr])
      refine halias a.1 spec a.2 hspec hisAlias (hreads p (.refl p)) fun u hu type' htype' => ?_
      by_cases hualias : env.scope.isAlias u.1 = true
      · have hearlier := h.ordered l a r hlr spec hspec u hu hualias
        rw [typeOf?, if_pos hualias] at htype'
        obtain ⟨l', r', hlr', hfirst⟩ := List.lookup_eq_some_iff.mp htype'
        refine ih l'.length (Nat.lt_of_not_le fun hle => ?_) l' (u.1, type') r' rfl hlr'
        -- otherwise the name would stand before its first place
        obtain ⟨b, hb, hname⟩ := List.mem_map.mp hearlier
        have hbehind : l <+: p.aliases := hlr ▸ List.prefix_append l (a :: r)
        have hbehind' : l' <+: p.aliases := hlr' ▸ List.prefix_append l' ((u.1, type') :: r')
        have hearliest : l <+: l' := List.prefix_of_prefix_length_le hbehind hbehind' hle
        have hne := hfirst b (hearliest.mem hb)
        simp [hname] at hne
      · exact hother (by simpa using hualias) htype'
  by_cases hname : env.scope.isAlias name = true
  · rw [typeOf?, if_pos hname] at htype
    obtain ⟨l, r, hlr, -⟩ := List.lookup_eq_some_iff.mp htype
    exact hfound l.length l (name, type) r rfl hlr
  · exact hother (by simpa using hname) htype

/-- A name means a declared type of the file because it leads to it, or is its own name. -/
theorem leads_of_typeOf? (h : env.Consistent opened unset p) {name : String} {target : Nat}
    {args : List Ty} (htarget : comparableId < target)
    (hmeans : env.typeOf? p name = some (.named target args)) :
    ∃ e ∈ p.entered, e.id = target ∧
      if env.scope.isAlias name then env.scope.Leads name e.name.text else name = e.name.text := by
  refine h.induction (P := fun name type => ∀ args, type = .named target args →
    ∃ e ∈ p.entered, e.id = target ∧
      if env.scope.isAlias name then env.scope.Leads name e.name.text else name = e.name.text)
    ?_ ?_ hmeans args rfl
  · intro e he args htype
    cases htype
    refine ⟨e, he, rfl, ?_⟩
    rw [h.isAlias_entered he]
    rfl
  · rintro name spec _ hspec halias hreads huses args rfl
    obtain ⟨other, count, hhead, htype, huse, hother⟩ :=
      TypeExpr.head_of_meaning? htarget spec.type hreads.meaning
    obtain ⟨as, hmeans⟩ : ∃ as, env.typeOf? p other = some (.named target as) :=
      hother.elim (fun h => ⟨_, h.1⟩) fun h => ⟨_, h.1⟩
    obtain ⟨e, he, hid, hleads⟩ := huses (other, count) huse _ hmeans as rfl
    refine ⟨e, he, hid, ?_⟩
    rw [FileScope.isAlias_eq hspec, if_pos halias]
    exact .of_head ((FileScope.headOf_eq hspec).trans hhead) htype hleads

/-- A declaration whose right-hand side means a declared type of the file leads to that type. -/
theorem leads_of_meaning? (h : env.Consistent opened unset p) {name : String} {spec : TypeSpec}
    (hspec : env.scope.lookup name = some (.type spec)) {target : Nat} {args : List Ty}
    (htarget : comparableId < target)
    (hmeans : spec.type.meaning? env p.table (env.typeOf? p) spec.params
      = some (.named target args)) :
    ∃ e ∈ p.entered, e.id = target ∧ env.scope.Leads name e.name.text := by
  obtain ⟨other, count, hhead, htype, -, hother⟩ :=
    TypeExpr.head_of_meaning? htarget spec.type hmeans
  obtain ⟨as, hmeans⟩ : ∃ as, env.typeOf? p other = some (.named target as) :=
    hother.elim (fun h => ⟨_, h.1⟩) fun h => ⟨_, h.1⟩
  obtain ⟨e, he, hid, hleads⟩ := h.leads_of_typeOf? htarget hmeans
  exact ⟨e, he, hid, .of_head ((FileScope.headOf_eq hspec).trans hhead) htype hleads⟩

/-! ## What resolving needs -/

theorem length_meanings? {decls : List TypeParamDecl} {t : Table} {m : Meanings}
    {names : List String} {params : List TypeParam}
    (h : TypeParamDecl.meanings? env t m names decls = some params) :
    params.map TypeParam.name = TypeParamDecl.allNames decls := by
  induction decls generalizing params with
  | nil =>
    cases h
    rfl
  | cons decl decls ih =>
    cases decl
    obtain ⟨_, rest, -, hrest, rfl⟩ := Option.of_return₂_eq_some h
    simp [TypeParamDecl.allNames, List.map_append, ih hrest, Function.comp_def]

theorem arity_entered (h : env.Consistent opened unset p) {e : EnteredType} (he : e ∈ p.entered) :
    env.arity p.table e.id = env.scope.arityOf e.name.text := by
  have hid : ¬ e.id ≤ comparableId := Nat.not_le_of_lt (h.bounds he).1
  rw [arity, if_neg hid, h.labels e he]
  rfl

/-- Recording a definition keeps the invariant. -/
theorem define (h : env.Consistent opened unset p) {d : Definition}
    (hd : d.Proper (env.counts p.table)) : env.Consistent opened unset (p.define d) :=
  { h with
    params := fun e he hunset => (h.params e he hunset).later (p.later_define d) rfl
    right := fun e he hopened =>
      (h.right e he hopened).later (p.later_define d) (fun _ hw => hw) rfl
    grounded := fun id type hid => (h.grounded id type hid).later (p.later_define d)
    aliases := fun a ha => (h.aliases a ha).later (p.later_define d)
    definitions := List.forall_mem_append.mpr ⟨h.definitions, List.forall_mem_singleton.mpr hd⟩ }

/-- A name that means a generic type, and is reached from its constraints, leads back to it. -/
theorem leadsBack_of_reached (h : env.Consistent opened unset p) {e : EnteredType}
    (he : e ∈ p.entered) {name : String} (hreached : env.scope.Reached e.name.text name)
    (hmeans : env.typeOf? p name = some (.named e.id [])) : env.scope.LeadsBack e.name.text := by
  obtain ⟨e', he', hid, hleads⟩ := h.leads_of_typeOf? (h.bounds he).1 hmeans
  rw [h.eq_of_id_eq he' he hid] at hleads
  split at hleads
  · exact hreached.leadsBack_of_leads hleads (h.isAlias_entered he)
  · exact absurd hleads hreached.ne

/-- A generic type that is meant by a name in a declaration which is reached from its constraints
is led back to. -/
theorem leadsBack_of_use (h : env.Consistent opened unset p) {e : EnteredType} (he : e ∈ p.entered)
    {name : String} (hreached : env.scope.Reached e.name.text name) {u : TypeUse}
    (hu : u ∈ env.scope.usesOf name) (hmeans : env.typeOf? p u.1 = some (.named e.id [])) :
    env.scope.LeadsBack e.name.text := by
  by_cases hsame : u.1 = e.name.text
  · exact ⟨name, hreached, u, hu, hsame⟩
  · exact h.leadsBack_of_reached he (hreached.use hu hsame) hmeans

/-- Another name for a type that means something was found to. -/
theorem aliasFound (h : env.Consistent opened unset p) {name : String} {type : Ty}
    (halias : env.scope.isAlias name = true) (htype : env.typeOf? p name = some type) :
    env.AliasFound p name type := by
  rw [typeOf?, if_pos halias] at htype
  obtain ⟨l, r, hlr, -⟩ := List.lookup_eq_some_iff.mp htype
  exact h.aliases (name, type) (by simp [hlr])

/-- What another name for a type stands for makes references that are allowed. -/
theorem proper_alias (h : env.Consistent opened unset p) {name : String} {type : Ty}
    (halias : env.scope.isAlias name = true) (htype : env.typeOf? p name = some type) :
    type.Proper (env.counts p.table) :=
  (h.aliasFound halias htype).1

theorem keeps : env.Keeps (unset.map EnteredType.id) (env.Tracked opened unset)
    (env.Consistent opened unset) where
  define p f _ h hsig := h.define hsig.funcDef
  isType p h name type htype := by
    by_cases halias : env.scope.isAlias name = true
    · exact FileScope.isType_of_isAlias halias
    · obtain ⟨e, he, rfl, -⟩ := entered_of_typeOf? (by simpa using halias) htype
      obtain ⟨spec, hspec, -⟩ := h.declared e he
      exact FileScope.isType_iff.mpr ⟨spec, hspec⟩
  proper p h name type htype := by
    by_cases halias : env.scope.isAlias name = true
    · exact Or.inr (h.proper_alias halias htype)
    · obtain ⟨e, he, -, rfl⟩ := entered_of_typeOf? (by simpa using halias) htype
      exact Or.inl ⟨e.id, rfl, (h.bounds he).2⟩
  reaches p h name htracked id hid hmeans := by
    obtain ⟨e, he, rfl⟩ := List.mem_map.mp hid
    have hentered := (h.unfinished e (h.noParams e he).1).1
    refine ⟨e.name.text, h.labels e hentered, ?_⟩
    rcases htracked.unset e he with ⟨-, hself⟩ | hreached
    · exact hself
    · exact Or.inr (h.leadsBack_of_reached hentered hreached hmeans)
  size p h := by
    rw [h.size]
    omega
  noParams p h id hid := by
    obtain ⟨e, he, rfl⟩ := List.mem_map.mp hid
    exact (h.noParams e he).2
  arity p h id hsize hid := by
    by_cases hpredeclared : id ≤ comparableId
    · rw [h.typeParams_predeclared hpredeclared, arity, if_pos hpredeclared]
      rfl
    · obtain ⟨e, he, rfl⟩ := h.exists_entered (Nat.lt_of_not_le hpredeclared) hsize
      have hunset : e ∉ unset := fun hmem => hid (List.mem_map_of_mem hmem)
      obtain ⟨spec, hspec, hreads⟩ := h.params e he hunset
      rw [h.arity_entered he, FileScope.arityOf_eq hspec, TypeSpec.arity,
        ← length_meanings? (hreads p (.refl p)).meaning, List.length_map]

end Consistent

end Env

end GoSignatures
