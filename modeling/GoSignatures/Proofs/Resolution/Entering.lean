import GoSignatures.Proofs.Lists
import GoSignatures.Proofs.Resolution.Consistent

/-!
# Entering declared types

A name of a declared type that is entered means what has been found for it, and the invariant of
the run is kept. Each change that entering makes takes a type from one stage to the next.

* `Env.Consistent.enter`, `.setTypeParams`, `.finish`, `.addAlias` — the changes keep the invariant
* `Env.enterType_yields` — entering a name finds what it means
-/

namespace GoSignatures

open Resolve

variable {env : Env} {p q : Progress} {opened unset : List EnteredType}

/-! ## Changes -/

namespace Progress

theorem extends_enter (p : Progress) (name : Piece) (package : String) :
    p.Extends (p.enter name package) :=
  ⟨List.prefix_append _ _, List.prefix_append _ _, List.prefix_rfl, List.prefix_rfl, .of_eq rfl⟩

theorem later_setTypeParams {id : Nat} (hid : id < p.table.size)
    (hnone : p.table.underlying? id = none) (params : List TypeParam) :
    p.Later { p with table := p.table.setTypeParams id params } where
  entered := List.prefix_rfl
  aliases := List.prefix_rfl
  size := by simp
  labels _ _ := by simp
  underlying j type hu := by
    have hne : j ≠ id := by
      rintro rfl
      rw [hnone] at hu
      cases hu
    rw [Table.underlying?_setTypeParams, Table.typeParams_setTypeParams _ _ hid, if_neg hne]
    exact ⟨hu, rfl⟩

theorem later_setUnderlying {id : Nat} (hid : id < p.table.size)
    (hnone : p.table.underlying? id = none) (type : Ty) :
    p.Later { p with table := p.table.setUnderlying id type } where
  entered := List.prefix_rfl
  aliases := List.prefix_rfl
  size := by simp
  labels _ _ := by simp
  underlying j type hu := by
    have hne : j ≠ id := by
      rintro rfl
      rw [hnone] at hu
      cases hu
    rw [Table.underlying?_setUnderlying _ _ hid, if_neg hne, Table.typeParams_setUnderlying]
    exact ⟨hu, rfl⟩

theorem later_addAlias (p : Progress) (name : String) (type : Ty) :
    p.Later { p with aliases := p.aliases ++ [(name, type)] } :=
  ⟨List.prefix_rfl, List.prefix_append _ _, Nat.le_refl _, fun _ _ => rfl, fun _ _ h => ⟨h, rfl⟩⟩

theorem later_addPending (p : Progress) (w : Nat × Nat) :
    p.Later { p with pending := p.pending ++ [w] } :=
  ⟨List.prefix_rfl, List.prefix_rfl, Nat.le_refl _, fun _ _ => rfl, fun _ _ h => ⟨h, rfl⟩⟩

/-- The right-hand side of a type is finished at once if its underlying type is known. -/
theorem finish_eq (p : Progress) (id : Nat) (type : Ty) :
    (∃ target args, type = .named target args ∧ p.table.underlying? target = none ∧
        p.finish id type = { p with pending := p.pending ++ [(id, target)] }) ∨
      (∀ target args, type = .named target args →
          ∃ known, p.table.underlying? target = some known) ∧
        p.finish id type =
          { p with table := p.table.setUnderlying id (p.table.underlying type) } := by
  cases type with
  | named target args =>
    cases hu : p.table.underlying? target with
    | none => exact Or.inl ⟨target, args, rfl, hu, by simp [finish, hu]⟩
    | some known =>
      refine Or.inr ⟨fun target' args' h => ?_, by simp [finish, hu]⟩
      cases h
      exact ⟨known, hu⟩
  | _ => exact Or.inr ⟨(fun _ _ h => nomatch h), rfl⟩

end Progress

/-- An underlying type that is known stays. -/
theorem Progress.Later.underlying_eq (h : p.Later q) {A : Ty.Allowed} {type : Ty}
    (hproper : type.Proper A)
    (herror : ∃ known, p.table.underlying? errorId = some known)
    (hknown : ∀ target args, type = .named target args →
      ∃ known, p.table.underlying? target = some known) :
    q.table.underlying type = p.table.underlying type := by
  have hinstance : ∀ id args, (∃ known, p.table.underlying? id = some known) →
      q.table.instance? id args = p.table.instance? id args := by
    rintro id args ⟨known, hid⟩
    obtain ⟨hid', hparams⟩ := h.underlying id known hid
    rw [Table.instance?, Table.instance?, hid, hid', hparams]
  cases type with
  | named target args =>
    rw [Table.underlying, Table.underlying, hinstance target args (hknown target args rfl)]
  | imported path name underlying =>
    cases underlying with
    | none => rfl
    | some type =>
      rcases hproper type rfl with ⟨kind, rfl⟩ | rfl
      · rfl
      · simp only [Table.underlying, Ty.error, hinstance errorId [] herror]
  | _ => rfl

/-! ## The changes keep the invariant -/

namespace Env.Consistent

/-- The predeclared types are interfaces. -/
theorem underlying?_predeclared (h : env.Consistent opened unset p) {id : Nat}
    (hid : id ≤ comparableId) : ∃ iface, p.table.underlying? id = some (.interface iface) := by
  rw [Table.underlying?, h.get?_predeclared hid]
  obtain rfl | rfl : id = 0 ∨ id = 1 := by
    unfold comparableId at hid
    omega
  · exact ⟨_, rfl⟩
  · exact ⟨_, rfl⟩

theorem enter (h : env.Consistent opened unset p) {spec : TypeSpec}
    (hspec : env.scope.lookup spec.name.text = some (.type spec)) (halias : spec.isAlias = false)
    (hfresh : p.enteredType? spec.name.text = none) :
    env.Consistent (⟨spec.name, p.table.size⟩ :: opened) (⟨spec.name, p.table.size⟩ :: unset)
      (p.enter spec.name env.packageName) := by
  have hext := p.extends_enter spec.name env.packageName
  -- the places of the types so far are below the new one, whose entry is still empty
  have hnew : ∀ e ∈ p.entered, e ≠ ⟨spec.name, p.table.size⟩ := by
    rintro e he rfl
    exact absurd (h.bounds he).2 (Nat.lt_irrefl _)
  have hget : ∀ e ∈ p.entered,
      (p.enter spec.name env.packageName).table.get? e.id = p.table.get? e.id :=
    fun e he => hext.get? (h.bounds he).2
  have hget' : (p.enter spec.name env.packageName).table.get? p.table.size
      = some { name := spec.name.text, package := env.packageName } :=
    Table.get?_declare_size p.table spec.name.text env.packageName
  constructor
  case predeclared => exact h.predeclared.trans hext.entries
  case size => simp [Progress.enter, h.size]
  case places =>
    simp only [Progress.enter, List.map_append, h.places, List.map_cons, List.map_nil,
      List.length_append, List.length_singleton, List.range'_1_concat, h.size]
    rw [Nat.add_comm]
  case distinct =>
    simp only [Progress.enter, List.map_append, List.map_cons, List.map_nil]
    refine h.distinct.append (List.nodup_singleton _) ?_
    simp only [List.disjoint_singleton, List.mem_map, not_exists, not_and]
    intro e he hname
    rw [← hname, h.enteredType?_eq_some he] at hfresh
    cases hfresh
  case declared =>
    intro e he
    rcases List.mem_append.mp he with he | he
    · exact h.declared e he
    · obtain rfl := List.mem_singleton.mp he
      exact ⟨spec, hspec, halias⟩
  case labels =>
    intro e he
    rcases List.mem_append.mp he with he | he
    · rw [Table.label?, hget e he]
      exact h.labels e he
    · obtain rfl := List.mem_singleton.mp he
      rw [Table.label?, hget']
      rfl
  case unfinished =>
    intro e he
    rcases List.mem_cons.mp he with rfl | he
    · refine ⟨List.mem_append_right _ (List.mem_singleton.mpr rfl), ?_⟩
      rw [Table.underlying?, hget']
      rfl
    · obtain ⟨hentered, hnone⟩ := h.unfinished e he
      refine ⟨List.mem_append_left _ hentered, ?_⟩
      rw [Table.underlying?, hget e hentered]
      exact hnone
  case noParams =>
    intro e he
    rcases List.mem_cons.mp he with rfl | he
    · refine ⟨List.mem_cons_self, ?_⟩
      rw [Table.typeParams, hget']
    · obtain ⟨hopened, hnil⟩ := h.noParams e he
      refine ⟨List.mem_cons_of_mem _ hopened, ?_⟩
      rw [Table.typeParams, hget e (h.unfinished e hopened).1]
      exact hnil
  case params =>
    intro e he hunset
    rcases List.mem_append.mp he with he | he
    · refine (h.params e he fun hmem => hunset (List.mem_cons_of_mem _ hmem)).later hext.later ?_
      rw [Table.typeParams, Table.typeParams, hget e he]
    · exact absurd (List.mem_singleton.mp he ▸ List.mem_cons_self) hunset
  case right =>
    intro e he hopened
    rcases List.mem_append.mp he with he | he
    · refine (h.right e he fun hmem => hopened (List.mem_cons_of_mem _ hmem)).later hext.later
        (fun _ hw => hw) ?_
      rw [Table.underlying?, Table.underlying?, hget e he]
    · exact absurd (List.mem_singleton.mp he ▸ List.mem_cons_self) hopened
  case grounded =>
    intro id type hid
    by_cases hsize : id < p.table.size
    · rw [Table.underlying?, hext.get? hsize] at hid
      exact (h.grounded id type hid).later hext.later
    · have hlast : id = p.table.size := by
        have hlt := Table.lt_size_of_underlying? hid
        simp only [Progress.enter, Table.size_declare] at hlt
        omega
      rw [hlast, Table.underlying?, hget'] at hid
      cases hid
  case waiting =>
    intro w hw
    obtain ⟨hnone, e, he, hid, hopened, hwaits⟩ := h.waiting w hw
    refine ⟨?_, e, List.mem_append_left _ he, hid, ?_, hwaits⟩
    · rw [← hid, Table.underlying?, hget e he]
      rw [← hid] at hnone
      exact hnone
    · rw [List.mem_cons, not_or]
      exact ⟨hnew e he, hopened⟩
  case pending => exact h.pending
  case aliases => exact fun a ha => (h.aliases a ha).later hext.later
  case ordered => exact h.ordered
  case definitions => exact fun d hd => (h.definitions d hd).later hext.later

theorem setTypeParams {e : EnteredType} (h : env.Consistent opened (e :: unset) p)
    {spec : TypeSpec} (hspec : env.scope.lookup e.name.text = some (.type spec))
    {params : List TypeParam} (hne : e ∉ unset)
    (hreads : ∀ q, p.Later q → env.ReadsParams e.name.text e.id spec params q) :
    env.Consistent opened unset { p with table := p.table.setTypeParams e.id params } := by
  obtain ⟨hopened, -⟩ := h.noParams e List.mem_cons_self
  obtain ⟨hentered, hnone⟩ := h.unfinished e hopened
  have hsize := (h.bounds hentered).2
  have hlater := Progress.later_setTypeParams hsize hnone params
  have hother : ∀ e' ∈ p.entered, e' ≠ e →
      (p.table.setTypeParams e.id params).typeParams e'.id = p.table.typeParams e'.id := by
    intro e' he' hne'
    rw [Table.typeParams_setTypeParams _ _ hsize,
      if_neg fun hid => hne' (h.eq_of_id_eq he' hentered hid)]
  constructor
  case predeclared => exact prefix_modify h.predeclared (h.bounds hentered).1 _
  case size => simpa using h.size
  case places => exact h.places
  case distinct => exact h.distinct
  case declared => exact h.declared
  case labels => simpa using h.labels
  case unfinished => simpa using h.unfinished
  case noParams =>
    intro e' he'
    obtain ⟨hopened', hnil⟩ := h.noParams e' (List.mem_cons_of_mem _ he')
    refine ⟨hopened', ?_⟩
    rw [hother e' (h.unfinished e' hopened').1 fun heq => hne (heq ▸ he')]
    exact hnil
  case params =>
    intro e' he' hunset
    by_cases heq : e' = e
    · subst heq
      refine ⟨spec, hspec, fun q hq => ?_⟩
      rw [Table.typeParams_setTypeParams _ _ hsize, if_pos rfl]
      exact hreads q (hlater.trans hq)
    · refine (h.params e' he' ?_).later hlater (hother e' he' heq)
      rw [List.mem_cons, not_or]
      exact ⟨heq, hunset⟩
  case right =>
    exact fun e' he' hopened' => (h.right e' he' hopened').later hlater (fun _ hw => hw) (by simp)
  case grounded =>
    intro id type hid
    rw [Table.underlying?_setTypeParams] at hid
    exact (h.grounded id type hid).later hlater
  case waiting => simpa using h.waiting
  case pending => exact h.pending
  case aliases => exact fun a ha => (h.aliases a ha).later hlater
  case ordered => exact h.ordered
  case definitions => exact fun d hd => (h.definitions d hd).later hlater

/-- A type that is defined as one without an underlying type was reached from it, or that type
waits already. -/
theorem mayWait {e : EnteredType} (h : env.Consistent (e :: opened) unset p) {target : Nat}
    {args : List Ty} (hright : env.RightMeans p e (.named target args))
    (hused : ∀ e' ∈ opened, Relation.TransGen env.scope.Uses e'.name.text e.name.text)
    (htarget : p.table.underlying? target = none) : env.scope.MayWait e.name.text := by
  have hid : comparableId < target := by
    refine Nat.lt_of_not_le fun hle => ?_
    obtain ⟨type, htype⟩ := h.underlying?_predeclared hle
    rw [htarget] at htype
    cases htype
  obtain ⟨spec, hspec, hreads⟩ := hright
  obtain ⟨e', he', rfl, hleads⟩ := h.leads_of_meaning? hspec hid (hreads p (.refl p)).meaning
  -- a type without an underlying type is being resolved, or waits itself
  by_cases hmem : e' ∈ e :: opened
  · rcases List.mem_cons.mp hmem with rfl | hmem
    · exact .used hleads hleads.transGen_uses
    · exact .used hleads (hused e' hmem)
  · obtain ⟨_, -, ⟨known, hknown, -⟩ | ⟨_, _, -, -, hpending⟩⟩ := h.right e' he' hmem
    · rw [htarget] at hknown
      cases hknown
    · obtain ⟨-, e'', he'', hsame, -, hwaits⟩ := h.waiting _ hpending
      have heq : e'' = e' := h.eq_of_id_eq he'' he' hsame
      exact .waits hleads (heq ▸ hwaits)

/-- A type whose right-hand side is found is finished. -/
theorem finish {e : EnteredType} (h : env.Consistent (e :: opened) unset p) {type : Ty}
    (hright : env.RightMeans p e type) (hproper : type.Proper p.table.places) (hopened : e ∉ opened)
    (hunset : e ∉ unset)
    (hused : ∀ e' ∈ opened, Relation.TransGen env.scope.Uses e'.name.text e.name.text) :
    env.Consistent opened unset (p.finish e.id type) := by
  obtain ⟨hentered, hnone⟩ := h.unfinished e List.mem_cons_self
  have hsize := (h.bounds hentered).2
  have hne : ∀ e' ∈ opened, e' ≠ e := fun e' he' heq => hopened (heq ▸ he')
  have hwaiting : ∀ w ∈ p.pending, w.1 ≠ e.id := by
    intro w hw heq
    obtain ⟨-, e', he', hid, hnot, -⟩ := h.waiting w hw
    exact hnot (h.eq_of_id_eq he' hentered (hid.trans heq) ▸ List.mem_cons_self)
  have hnoParams : ∀ e' ∈ unset, e' ∈ opened ∧ p.table.typeParams e'.id = [] := by
    intro e' he'
    obtain ⟨hmem, hnil⟩ := h.noParams e' he'
    rcases List.mem_cons.mp hmem with rfl | hmem
    · exact absurd he' hunset
    · exact ⟨hmem, hnil⟩
  -- the type waits for the one it is defined as, or has its underlying type at once
  rcases p.finish_eq e.id type with ⟨target, args, rfl, htarget, hfinish⟩ | ⟨hknown, hfinish⟩
  · have hlater := p.later_addPending (e.id, target)
    rw [hfinish]
    constructor
    case predeclared => exact h.predeclared
    case size => exact h.size
    case places => exact h.places
    case distinct => exact h.distinct
    case declared => exact h.declared
    case labels => exact h.labels
    case unfinished => exact fun e' he' => h.unfinished e' (List.mem_cons_of_mem _ he')
    case noParams => exact hnoParams
    case params => exact fun e' he' hunset' => (h.params e' he' hunset').later hlater rfl
    case right =>
      intro e' he' hopened'
      by_cases heq : e' = e
      · subst heq
        exact ⟨_, hright.later hlater,
          Or.inr ⟨target, args, rfl, hnone, List.mem_append_right _ (List.mem_singleton.mpr rfl)⟩⟩
      · refine (h.right e' he' ?_).later hlater (List.subset_append_left _ _) rfl
        rw [List.mem_cons, not_or]
        exact ⟨heq, hopened'⟩
    case grounded => exact fun id type hid => (h.grounded id type hid).later hlater
    case waiting =>
      intro w hw
      rcases List.mem_append.mp hw with hw | hw
      · obtain ⟨hw, e', he', hid, hnot, hwaits⟩ := h.waiting w hw
        exact ⟨hw, e', he', hid, fun hmem => hnot (List.mem_cons_of_mem _ hmem), hwaits⟩
      · obtain rfl := List.mem_singleton.mp hw
        exact ⟨hnone, e, hentered, rfl, hopened, h.mayWait hright hused htarget⟩
    case pending =>
      rw [List.map_append]
      refine h.pending.append (List.nodup_singleton _) ?_
      simp only [List.map_cons, List.map_nil, List.disjoint_singleton, List.mem_map, not_exists,
        not_and]
      exact hwaiting
    case aliases => exact fun a ha => (h.aliases a ha).later hlater
    case ordered => exact h.ordered
    case definitions => exact fun d hd => (h.definitions d hd).later hlater
  · have hlater := Progress.later_setUnderlying hsize hnone (p.table.underlying type)
    have hother : ∀ id, id ≠ e.id →
        (p.table.setUnderlying e.id (p.table.underlying type)).underlying? id
          = p.table.underlying? id := by
      intro id hid
      rw [Table.underlying?_setUnderlying _ _ hsize, if_neg hid]
    have hself : (p.table.setUnderlying e.id (p.table.underlying type)).underlying? e.id
        = some (p.table.underlying type) := by
      rw [Table.underlying?_setUnderlying _ _ hsize, if_pos rfl]
    rw [hfinish]
    constructor
    case predeclared => exact prefix_modify h.predeclared (h.bounds hentered).1 _
    case size => simpa using h.size
    case places => exact h.places
    case distinct => exact h.distinct
    case declared => exact h.declared
    case labels => simpa using h.labels
    case unfinished =>
      intro e' he'
      obtain ⟨hentered', hnone'⟩ := h.unfinished e' (List.mem_cons_of_mem _ he')
      refine ⟨hentered', ?_⟩
      rw [hother e'.id fun hid => hne e' he' (h.eq_of_id_eq hentered' hentered hid)]
      exact hnone'
    case noParams => simpa using hnoParams
    case params => exact fun e' he' hunset' => (h.params e' he' hunset').later hlater (by simp)
    case right =>
      intro e' he' hopened'
      by_cases heq : e' = e
      · subst heq
        refine ⟨type, hright.later hlater, Or.inl ⟨_, hself, fun q hq => ?_⟩⟩
        obtain ⟨iface, herror⟩ := h.underlying?_predeclared (Nat.zero_le comparableId)
        exact (hlater.trans hq).underlying_eq hproper ⟨_, herror⟩ hknown
      · refine (h.right e' he' ?_).later hlater (fun _ hw => hw)
          (hother e'.id fun hid => heq (h.eq_of_id_eq he' hentered hid))
        rw [List.mem_cons, not_or]
        exact ⟨heq, hopened'⟩
    case grounded =>
      intro id known hid
      by_cases heq : id = e.id
      · subst heq
        by_cases hnamed : ∃ target args, type = .named target args
        · obtain ⟨target, args, rfl⟩ := hnamed
          obtain ⟨known', htarget⟩ := hknown target args rfl
          exact .lent hentered (hright.later hlater) ((h.grounded target _ htarget).later hlater)
        · exact .own hentered (hright.later hlater) fun target args htype =>
            hnamed ⟨target, args, htype⟩
      · rw [hother id heq] at hid
        exact (h.grounded id known hid).later hlater
    case waiting =>
      intro w hw
      obtain ⟨hnone', e', he', hid, hnot, hwaits⟩ := h.waiting w hw
      refine ⟨?_, e', he', hid, fun hmem => hnot (List.mem_cons_of_mem _ hmem), hwaits⟩
      rw [hother w.1 (hwaiting w hw)]
      exact hnone'
    case pending => exact h.pending
    case aliases => exact fun a ha => (h.aliases a ha).later hlater
    case ordered => exact h.ordered
    case definitions => exact fun d hd => (h.definitions d hd).later hlater

/-- Another name for a type is remembered with what it stands for. -/
theorem addAlias (h : env.Consistent opened unset p) {name : String} {type : Ty}
    (hfound : env.AliasFound p name type)
    (hordered : ∀ spec, env.scope.lookup name = some (.type spec) → ∀ u ∈ spec.rightUses,
      env.scope.isAlias u.1 = true → u.1 ∈ p.aliases.map Prod.fst) :
    env.Consistent opened unset { p with aliases := p.aliases ++ [(name, type)] } := by
  have hlater := p.later_addAlias name type
  exact {
    h with
    params := fun e he hunset => (h.params e he hunset).later hlater rfl
    right := fun e he hopened => (h.right e he hopened).later hlater (fun _ hw => hw) rfl
    grounded := fun id type hid => (h.grounded id type hid).later hlater
    aliases := by
      intro a ha
      rcases List.mem_append.mp ha with ha | ha
      · exact (h.aliases a ha).later hlater
      · obtain rfl := List.mem_singleton.mp ha
        exact hfound.later hlater
    ordered := by
      intro l a r hlr spec hspec u hu halias
      -- the place is that of the new name, or an earlier one
      rcases List.eq_nil_or_concat r with rfl | ⟨r', a', rfl⟩
      · obtain ⟨rfl, ha⟩ := List.append_inj' hlr rfl
        cases ha
        exact hordered spec hspec u hu halias
      · rw [List.concat_eq_append, ← List.cons_append, ← List.append_assoc] at hlr
        obtain ⟨hlr, -⟩ := List.append_inj' hlr rfl
        exact h.ordered l a r' hlr spec hspec u hu halias
    definitions := fun d hd => (h.definitions d hd).later hlater }

end Env.Consistent

/-! ## Declarations that are reached -/

/-- Where nothing is being resolved, a name need not be reached from anything. -/
theorem Env.Tracked.none (name : String) : env.Tracked [] [] name where
  opened := by simp
  unset := by simp

/-- What a reached declaration uses is reached. -/
theorem Env.Tracked.of_use {name : String} {u : TypeUse} (hu : u ∈ env.scope.usesOf name)
    (hused : ∀ e ∈ opened, e.name.text = name ∨ Relation.TransGen env.scope.Uses e.name.text name)
    (hreached : ∀ e ∈ unset, env.scope.Reached e.name.text name) :
    env.Tracked opened unset u.1 where
  opened e he := by
    have huses : env.scope.Uses name u.1 := ⟨u, hu, rfl⟩
    rcases hused e he with hsame | hused
    · rw [hsame]
      exact .single huses
    · exact hused.tail huses
  unset e he := by
    by_cases hsame : u.1 = e.name.text
    · exact Or.inl ⟨hsame, Or.inr ⟨name, hreached e he, u, hu, hsame⟩⟩
    · exact Or.inr ((hreached e he).use hu hsame)

/-- A type whose parameters are being resolved is none of the other names, so these are reached. -/
theorem Env.Tracked.reached_alias {name : String} {spec : TypeSpec}
    (htracked : env.Tracked opened unset name)
    (hspec : env.scope.lookup name = some (.type spec)) (halias : spec.isAlias = true)
    (hp : env.Consistent opened unset p) : ∀ e ∈ unset, env.scope.Reached e.name.text name := by
  intro e he
  rcases htracked.unset e he with ⟨hsame, -⟩ | hreached
  · have hisAlias : env.scope.isAlias name = true := by simp [FileScope.isAlias, hspec, halias]
    have hentered := (hp.unfinished e (hp.noParams e he).1).1
    rw [hsame, hp.isAlias_entered hentered] at hisAlias
    cases hisAlias
  · exact hreached

/-- What the declaration of another name for a type uses is tracked as the name is. -/
theorem Env.Tracked.alias_uses {name : String} {spec : TypeSpec}
    (htracked : env.Tracked opened unset name)
    (hspec : env.scope.lookup name = some (.type spec)) (halias : spec.isAlias = true)
    (hp : env.Consistent opened unset p) :
    ∀ u ∈ spec.type.uses [], env.Tracked opened unset u.1 := by
  have hparams : spec.params = [] := if_pos halias
  intro u hu
  refine .of_use (FileScope.mem_usesOf_right hspec ?_) (fun e he => Or.inr (htracked.opened e he))
    (htracked.reached_alias hspec halias hp)
  rwa [TypeSpec.rightUses, hparams]

/-- A type whose parameters are being resolved is entered, so a name that is not is reached. -/
theorem Env.Tracked.reached_new {name : String} (htracked : env.Tracked opened unset name)
    (hp : env.Consistent opened unset p) (hnew : p.enteredType? name = Option.none) :
    ∀ e ∈ unset, env.scope.Reached e.name.text name := by
  intro e he
  rcases htracked.unset e he with ⟨hsame, -⟩ | hreached
  · rw [hsame, hp.enteredType?_eq_some (hp.unfinished e (hp.noParams e he).1).1] at hnew
    cases hnew
  · exact hreached

/-- What the constraints of a type use is tracked, the type itself included. -/
theorem Env.tracked_constraintUses {e : EnteredType} {spec : TypeSpec}
    (hspec : env.scope.lookup e.name.text = some (.type spec)) (halias : spec.isAlias = false)
    (hused : ∀ e' ∈ opened,
      e'.name.text = e.name.text ∨ Relation.TransGen env.scope.Uses e'.name.text e.name.text)
    (hreached : ∀ e' ∈ unset, env.scope.Reached e'.name.text e.name.text) :
    ∀ u ∈ TypeParamDecl.allUses spec.params spec.typeParams,
      env.Tracked opened (e :: unset) u.1 := by
  have hconstraints : spec.constraintUses = TypeParamDecl.allUses spec.params spec.typeParams := by
    simp [TypeSpec.constraintUses, halias]
  intro u hu
  rw [← hconstraints] at hu
  have htracked : env.Tracked opened unset u.1 :=
    .of_use (FileScope.mem_usesOf_constraint hspec hu) hused hreached
  refine ⟨htracked.opened, List.forall_mem_cons.mpr ⟨?_, htracked.unset⟩⟩
  have hu : u ∈ env.scope.constraintUsesOf e.name.text := by
    rwa [FileScope.constraintUsesOf_eq hspec]
  by_cases hsame : u.1 = e.name.text
  · exact Or.inl ⟨hsame, Or.inl ⟨u, hu, hsame⟩⟩
  · exact Or.inr (.constraint hu hsame)

/-- A use that fits counts as one in the declaration that is being resolved. -/
theorem Env.Fits.counted {unset' : List EnteredType} (hp : env.Consistent opened unset' p)
    (hsub : unset ⊆ unset') (hq : p.Later q) {name : String} {u : TypeUse}
    (hreached : ∀ e ∈ unset, env.scope.Reached e.name.text name)
    (h : env.Fits (unset.map EnteredType.id) q u) : env.Counted name q u := by
  intro htype
  obtain ⟨type, hmeans, hcount⟩ := h htype
  refine ⟨type, hmeans, fun id hid => ?_⟩
  obtain ⟨hunset, hset⟩ := hcount id hid
  by_cases hmem : id ∈ unset.map EnteredType.id
  · obtain ⟨e, he, rfl⟩ := List.mem_map.mp hmem
    have hentered := (hp.unfinished e (hp.noParams e (hsub he)).1).1
    refine Or.inr ⟨hunset hmem, e.name.text, ?_, hreached e he⟩
    rw [hq.labels e.id (hp.bounds hentered).2]
    exact hp.labels e hentered
  · exact Or.inl (hset hmem)

/-! ## Entering a name -/

/-- Every declaration stands in the scope under its own name. -/
def FileScope.Named (scope : FileScope) : Prop :=
  ∀ name spec, scope.lookup name = some (.type spec) → spec.name.text = name

/-- What a name means that is entered while other types are being resolved. -/
def Env.Enters (env : Env) (enter : EnterType) : Prop :=
  ∀ opened unset (name : Piece), env.Tracked opened unset name.text →
    Yields (env.Consistent opened unset) (fun type q => env.typeOf? q name.text = some type)
      (enter name)

/-- Another name for a type that is resolved is remembered with its meaning. -/
theorem Env.Enters.alias {enter : EnterType} (henter : env.Enters enter) {name : String}
    {spec : TypeSpec} (hspec : env.scope.lookup name = some (.type spec))
    (halias : spec.isAlias = true) (htracked : env.Tracked opened unset name)
    (hp : env.Consistent opened unset p) {type : Ty} {p₁ : Progress}
    (hrun : spec.type.resolve env enter [] p = .ok (type, p₁)) :
    env.Consistent opened unset { p₁ with aliases := p₁.aliases ++ [(name, type)] } ∧
      p.Extends { p₁ with aliases := p₁.aliases ++ [(name, type)] } ∧
      env.typeOf? { p₁ with aliases := p₁.aliases ++ [(name, type)] } name = some type := by
  have hparams : spec.params = [] := if_pos halias
  have hisAlias : env.scope.isAlias name = true := by simp [FileScope.isAlias, hspec, halias]
  have hreached := htracked.reached_alias hspec halias hp
  have huses := htracked.alias_uses hspec halias hp
  obtain ⟨hp₁, hext, hread⟩ := TypeExpr.resolve_yields Consistent.keeps (henter opened unset)
    spec.type huses p type p₁ hp hrun
  have hright : ∀ q, p₁.Later q → env.ReadsRight name spec type q := by
    intro q hq
    obtain ⟨hmeaning, hfits⟩ := hread q hq
    refine ⟨hparams ▸ hmeaning, fun u hu => ?_⟩
    rw [TypeSpec.rightUses, hparams] at hu
    exact (hfits u hu).counted hp₁ (List.Subset.refl _) hq hreached
  have hproper := Consistent.keeps.counts_meaning hp₁ huses (hread p₁ (.refl p₁))
  refine ⟨hp₁.addAlias ⟨hproper, spec, hspec, halias, hright⟩ ?_, ?_, ?_⟩
  · intro spec' hspec' u hu hualias
    obtain rfl : spec' = spec := by
      rw [hspec] at hspec'
      cases hspec'
      rfl
    rw [TypeSpec.rightUses, hparams] at hu
    obtain ⟨found, hfound, -⟩ :=
      (hread p₁ (.refl p₁)).fits u hu (FileScope.isType_of_isAlias hualias)
    rw [typeOf?, if_pos hualias] at hfound
    obtain ⟨l, r, hlr, -⟩ := List.lookup_eq_some_iff.mp hfound
    simp [hlr]
  · exact ⟨hext.entries, hext.entered, hext.aliases.trans (List.prefix_append _ _), hext.pending,
      hext.definitions⟩
  · rw [typeOf?, if_pos hisAlias, List.lookup_append]
    cases hold : p₁.aliases.lookup name with
    | none => simp
    | some old =>
      -- the name was resolved on the way, and it means the same
      obtain ⟨l, r, hlr, -⟩ := List.lookup_eq_some_iff.mp hold
      obtain ⟨-, spec', hspec', -, hreads⟩ := hp₁.aliases (name, old) (by simp [hlr])
      rw [hspec] at hspec'
      cases hspec'
      have hsame := (hreads p₁ (.refl p₁)).meaning.symm.trans (hright p₁ (.refl p₁)).meaning
      exact hsame

/-- Type parameters that are the ones set already change nothing. -/
theorem Table.setTypeParams_self {t : Table} {id : Nat} {params : List TypeParam}
    (h : t.typeParams id = params) : t.setTypeParams id params = t := by
  obtain ⟨entries⟩ := t
  simp only [setTypeParams, mk.injEq]
  refine List.ext_getElem? fun j => ?_
  rw [List.getElem?_modify]
  cases hentry : entries[j]? with
  | none => rfl
  | some entry =>
    by_cases hj : id = j
    · subst hj
      have hparams : entry.typeParams = params := by
        simpa [typeParams, get?, hentry] using h
      simp [← hparams]
    · simp [hj]

/-- The part of a declaration that sets the type parameters. -/
def TypeSpec.resolveParams (env : Env) (enter : EnterType) (id : Nat) (spec : TypeSpec) :
    Resolve Unit :=
  unless spec.typeParams.isEmpty do
    let params ← TypeParamDecl.resolveAll env enter (TypeParamDecl.allNames spec.typeParams)
      spec.typeParams
    modify fun p => { p with table := p.table.setTypeParams id params }

theorem TypeSpec.resolveDefined_eq (env : Env) (enter : EnterType) (id : Nat) (spec : TypeSpec) :
    spec.resolveDefined env enter id = (do
      spec.resolveParams env enter id
      let type ← spec.type.resolve env enter (TypeParamDecl.allNames spec.typeParams)
      modify fun p => p.finish id type) := by
  unfold resolveDefined resolveParams
  split
  · rfl
  · simp [bind_assoc]

/-- The constraints of a declaration are resolved while the type itself has no parameters. -/
theorem Env.Enters.constraints {enter : EnterType} (henter : env.Enters enter) {e : EnteredType}
    {spec : TypeSpec} (hspec : env.scope.lookup e.name.text = some (.type spec))
    (halias : spec.isAlias = false) (hne : e ∉ unset)
    (hused : ∀ e' ∈ opened,
      e'.name.text = e.name.text ∨ Relation.TransGen env.scope.Uses e'.name.text e.name.text)
    (hreached : ∀ e' ∈ unset, env.scope.Reached e'.name.text e.name.text)
    (hp : env.Consistent opened (e :: unset) p) {p' : Progress}
    (hrun : spec.resolveParams env enter e.id p = .ok ((), p')) :
    env.Consistent opened unset p' ∧ p.Later p' ∧
      ∀ base : Progress, base.Extends p → base.table.size ≤ e.id → base.Extends p' := by
  have hparams : spec.params = TypeParamDecl.allNames spec.typeParams := by
    simp [TypeSpec.params, halias]
  have hconstraints : spec.constraintUses = TypeParamDecl.allUses spec.params spec.typeParams := by
    simp [TypeSpec.constraintUses, halias]
  unfold TypeSpec.resolveParams at hrun
  by_cases hempty : spec.typeParams.isEmpty = true
  · rw [if_pos hempty] at hrun
    obtain ⟨-, rfl⟩ := pure_eq_ok_iff.mp hrun
    rw [List.isEmpty_iff] at hempty
    have hset : env.Consistent opened unset
        { p with table := p.table.setTypeParams e.id [] } := by
      refine hp.setTypeParams hspec hne fun q hq => ⟨?_, ?_, ?_⟩
      · rw [hempty]
        rfl
      · intro u hu
        rw [hconstraints, hempty] at hu
        cases hu
      · intro u hu
        rw [hconstraints, hempty] at hu
        cases hu
    rw [Table.setTypeParams_self (hp.noParams e List.mem_cons_self).2] at hset
    exact ⟨hset, .refl p, fun base hbase _ => hbase⟩
  · rw [if_neg hempty] at hrun
    obtain ⟨params, p₁, hresolve, hmodify⟩ := bind_eq_ok_iff.mp hrun
    rw [modify_eq_ok_iff] at hmodify
    subst hmodify
    rw [← hparams] at hresolve
    have huses := env.tracked_constraintUses hspec halias hused hreached
    obtain ⟨hp₁, hext, hread⟩ := TypeParamDecl.resolveAll_yields Consistent.keeps
      (henter opened (e :: unset)) spec.typeParams huses p params p₁ hp hresolve
    obtain ⟨hentered, hnone⟩ := hp₁.unfinished e (hp₁.noParams e List.mem_cons_self).1
    refine ⟨hp₁.setTypeParams hspec hne fun q hq => ?_,
      hext.later.trans (Progress.later_setTypeParams (hp₁.bounds hentered).2 hnone params),
      fun base hbase hsize => ?_⟩
    · obtain ⟨hmeaning, hfits⟩ := hread q hq
      refine ⟨hmeaning, fun u hu htype hself => ?_, fun u hu hother htype => ?_⟩
      · obtain ⟨type, hmeans, hcount⟩ := hfits u (hconstraints ▸ hu) htype
        have hid : type = .named e.id [] := Option.some.inj (hmeans.symm.trans hself)
        exact (hcount e.id hid).1 List.mem_cons_self
      · obtain ⟨type, hmeans, hcount⟩ := hfits u (hconstraints ▸ hu) htype
        have hfits' : env.Fits (unset.map EnteredType.id) q u := by
          refine fun _ => ⟨type, hmeans, fun id hid => ?_⟩
          have hne' : id ≠ e.id := fun hsame => hother (hsame ▸ hid ▸ hmeans)
          have hmem : id ∈ (e :: unset).map EnteredType.id ↔ id ∈ unset.map EnteredType.id := by
            simp [hne']
          exact ⟨fun h => (hcount id hid).1 (hmem.mpr h),
            fun h => (hcount id hid).2 fun h' => h (hmem.mp h')⟩
        exact hfits'.counted hp₁ (List.subset_cons_self _ _) hq hreached htype
    · have hbase₁ := hbase.trans hext
      exact ⟨prefix_modify hbase₁.entries hsize _, hbase₁.entered, hbase₁.aliases, hbase₁.pending,
        hbase₁.definitions⟩

/-- A defined type whose declaration is resolved is finished. -/
theorem Env.Enters.defined {enter : EnterType} (henter : env.Enters enter) {e : EnteredType}
    {spec : TypeSpec} (hspec : env.scope.lookup e.name.text = some (.type spec))
    (halias : spec.isAlias = false) (hopened : e ∉ opened) (hunset : e ∉ unset)
    (hused : ∀ e' ∈ opened, Relation.TransGen env.scope.Uses e'.name.text e.name.text)
    (hreached : ∀ e' ∈ unset, env.scope.Reached e'.name.text e.name.text)
    (hp : env.Consistent (e :: opened) (e :: unset) p) {p' : Progress}
    (hrun : spec.resolveDefined env enter e.id p = .ok ((), p')) :
    env.Consistent opened unset p' ∧ p.Later p' ∧
      ∀ base : Progress, base.Extends p → base.table.size ≤ e.id → base.Extends p' := by
  have hparams : spec.params = TypeParamDecl.allNames spec.typeParams := by
    simp [TypeSpec.params, halias]
  rw [TypeSpec.resolveDefined_eq] at hrun
  obtain ⟨_, p₁, hconstraints, hrun⟩ := bind_eq_ok_iff.mp hrun
  have hused' : ∀ e' ∈ e :: opened,
      e'.name.text = e.name.text ∨ Relation.TransGen env.scope.Uses e'.name.text e.name.text :=
    List.forall_mem_cons.mpr ⟨Or.inl rfl, fun e' he' => Or.inr (hused e' he')⟩
  obtain ⟨hp₁, hlater₁, hbase₁⟩ :=
    henter.constraints hspec halias hunset hused' hreached hp hconstraints
  obtain ⟨type, p₂, hright, hfinish⟩ := bind_eq_ok_iff.mp hrun
  rw [modify_eq_ok_iff] at hfinish
  subst hfinish
  rw [← hparams] at hright
  have huses : ∀ u ∈ spec.rightUses, env.Tracked (e :: opened) unset u.1 :=
    fun u hu => .of_use (FileScope.mem_usesOf_right hspec hu) hused' hreached
  obtain ⟨hp₂, hext, hread⟩ := TypeExpr.resolve_yields Consistent.keeps
    (henter (e :: opened) unset) spec.type huses p₁ type p₂ hp₁ hright
  have hmeans : env.RightMeans p₂ e type := by
    refine ⟨spec, hspec, fun q hq => ?_⟩
    obtain ⟨hmeaning, hfits⟩ := hread q hq
    exact ⟨hmeaning, fun u hu => (hfits u hu).counted hp₂ (List.Subset.refl _) hq hreached⟩
  have hproper := Consistent.keeps.proper_meaning hp₂ (hread p₂ (.refl p₂)).meaning
  obtain ⟨hentered, hnone⟩ := hp₂.unfinished e List.mem_cons_self
  have hlater₂ := hlater₁.trans hext.later
  refine ⟨hp₂.finish hmeans hproper hopened hunset hused, ?_⟩
  rcases p₂.finish_eq e.id type with ⟨target, _, -, -, hfinish⟩ | ⟨-, hfinish⟩
  · rw [hfinish]
    refine ⟨hlater₂.trans (p₂.later_addPending _), fun base hbase hsize => ?_⟩
    have hbase₂ := (hbase₁ base hbase hsize).trans hext
    exact ⟨hbase₂.entries, hbase₂.entered, hbase₂.aliases,
      hbase₂.pending.trans (List.prefix_append _ _), hbase₂.definitions⟩
  · rw [hfinish]
    refine ⟨hlater₂.trans (Progress.later_setUnderlying (hp₂.bounds hentered).2 hnone _),
      fun base hbase hsize => ?_⟩
    have hbase₂ := (hbase₁ base hbase hsize).trans hext
    exact ⟨prefix_modify hbase₂.entries hsize _, hbase₂.entered, hbase₂.aliases, hbase₂.pending,
      hbase₂.definitions⟩

/-! ## The cases of entering -/

/-- A name that stands for no type is refused. -/
theorem Env.enterType_of_no_type {env : Env} {name : Piece}
    (h : ∀ spec, env.scope.lookup name.text ≠ some (.type spec)) (depth : Nat)
    (resolving : List String) :
    env.enterType (depth + 1) resolving name = env.fail name.position (.notAType name.text) := by
  unfold Env.enterType
  split
  · next spec hspec => exact absurd hspec (h spec)
  · rfl

namespace Env

variable {depth : Nat} {resolving : List String} {name : Piece} {spec : TypeSpec}
  (hlookup : env.scope.lookup name.text = some (.type spec))
include hlookup

theorem enterType_alias_known (halias : spec.isAlias = true) {type : Ty}
    (hknown : p.aliases.lookup name.text = some type) :
    env.enterType (depth + 1) resolving name p = .ok (type, p) := by
  simp only [enterType, hlookup, halias, if_true, get_bind, hknown]
  rfl

theorem enterType_alias_new (halias : spec.isAlias = true)
    (hnew : p.aliases.lookup name.text = none) :
    env.enterType (depth + 1) resolving name p =
      if resolving.contains name.text then
        .error (env.errorAt name.position (.invalidRecursiveType name.text))
      else
        (do let type ← spec.type.resolve env (env.enterType depth (name.text :: resolving)) []
            modify fun p => { p with aliases := p.aliases ++ [(name.text, type)] }
            return type : Resolve Ty) p := by
  simp only [enterType, hlookup, halias, if_true, get_bind, hnew]
  split <;> rfl

theorem enterType_entered (halias : spec.isAlias = false) {e : EnteredType}
    (hknown : p.enteredType? name.text = some e) :
    env.enterType (depth + 1) resolving name p = .ok (.named e.id [], p) := by
  simp only [enterType, hlookup, halias, Bool.false_eq_true, if_false, get_bind, hknown]
  rfl

theorem enterType_new (halias : spec.isAlias = false) (hnew : p.enteredType? name.text = none) :
    env.enterType (depth + 1) resolving name p =
      (do spec.resolveDefined env (env.enterType depth []) p.table.size
          return .named p.table.size [] : Resolve Ty) (p.enter spec.name env.packageName) := by
  simp only [enterType, hlookup, halias, Bool.false_eq_true, if_false, get_bind, hnew]
  rfl

omit hlookup in
/-- Only names of types are entered. -/
theorem lookup_of_enterType {type : Ty} {p' : Progress}
    (hrun : env.enterType depth resolving name p = .ok (type, p')) :
    ∃ spec, env.scope.lookup name.text = some (.type spec) := by
  cases depth with
  | zero => exact absurd hrun fail_ne_ok
  | succ depth =>
    simp only [enterType] at hrun
    cases hlookup : env.scope.lookup name.text with
    | none =>
      rw [hlookup] at hrun
      exact absurd hrun fail_ne_ok
    | some entry =>
      rw [hlookup] at hrun
      cases entry with
      | type spec => exact ⟨spec, rfl⟩
      | _ => exact absurd hrun fail_ne_ok

end Env

/-- Entering a declared name finds what it means. -/
theorem Env.enterType_enters (hnamed : env.scope.Named) (depth : Nat) (resolving : List String) :
    env.Enters (env.enterType depth resolving) := by
  induction depth generalizing resolving with
  | zero => exact fun _ _ _ _ => .fail
  | succ depth ih =>
    intro opened unset name htracked p type p' hp hrun
    obtain ⟨spec, hlookup⟩ := lookup_of_enterType hrun
    have hname := hnamed _ _ hlookup
    by_cases halias : spec.isAlias = true
    · have hisAlias : env.scope.isAlias name.text = true := by
        simp [FileScope.isAlias, hlookup, halias]
      cases hknown : p.aliases.lookup name.text with
      | some known =>
        rw [enterType_alias_known hlookup halias hknown] at hrun
        cases hrun
        refine ⟨hp, .refl p, fun q hq => env.typeOf?_of_later hq ?_⟩
        rw [typeOf?, if_pos hisAlias, hknown]
      | none =>
        rw [enterType_alias_new hlookup halias hknown] at hrun
        split at hrun
        · cases hrun
        · obtain ⟨found, p₁, hresolve, hrun⟩ := bind_eq_ok_iff.mp hrun
          rw [modify_bind, pure_eq_ok_iff] at hrun
          obtain ⟨rfl, rfl⟩ := hrun
          obtain ⟨hp', hext, hmeans⟩ :=
            (ih _).alias hlookup halias htracked hp hresolve
          exact ⟨hp', hext, fun q hq => env.typeOf?_of_later hq hmeans⟩
    · rw [Bool.not_eq_true] at halias
      have hisAlias : env.scope.isAlias name.text = false := by
        simp [FileScope.isAlias, hlookup, halias]
      cases hknown : p.enteredType? name.text with
      | some e =>
        rw [enterType_entered hlookup halias hknown] at hrun
        cases hrun
        refine ⟨hp, .refl p, fun q hq => env.typeOf?_of_later hq ?_⟩
        rw [typeOf?, hisAlias, if_neg (by simp), hknown]
        rfl
      | none =>
        rw [enterType_new hlookup halias hknown] at hrun
        obtain ⟨_, p₁, hresolve, hrun⟩ := bind_eq_ok_iff.mp hrun
        rw [pure_eq_ok_iff] at hrun
        obtain ⟨rfl, rfl⟩ := hrun
        rw [← hname] at hlookup hknown htracked
        have hnew : ∀ e ∈ p.entered, e ≠ ⟨spec.name, p.table.size⟩ := by
          rintro e he rfl
          exact absurd (hp.bounds he).2 (Nat.lt_irrefl _)
        have hreached := htracked.reached_new hp hknown
        have hentered := hp.enter hlookup halias hknown
        obtain ⟨hp', hlater, hbase⟩ := (ih []).defined hlookup halias
          (fun hmem => hnew _ (hp.unfinished _ hmem).1 rfl)
          (fun hmem => hnew _ (hp.unfinished _ (hp.noParams _ hmem).1).1 rfl)
          htracked.opened hreached hentered hresolve
        have hext := hbase p (p.extends_enter spec.name env.packageName) (Nat.le_refl _)
        refine ⟨hp', hext, fun q hq => env.typeOf?_of_later hq ?_⟩
        rw [← hname]
        exact hp'.typeOf?_entered (hlater.entered.mem
          (List.mem_append_right _ (List.mem_singleton.mpr rfl)))

end GoSignatures
