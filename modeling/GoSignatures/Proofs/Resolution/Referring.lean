import GoSignatures.Proofs.Resolution.Lending
import GoSignatures.Proofs.Ty.Composing
import GoSignatures.Proofs.Ty.References

/-!
# What a file refers to

A declared type is to be referred to with as many type arguments as it has type parameters. A type
whose type parameters are being resolved passes for one without type parameters, so a generic type
that is reached from its own constraints may be referred to without arguments; all other references
have the right number.

* `Env.Settled.proper_typeParams`, `Env.Settled.proper_underlying?` — the references in the table
* `SourceFile.proper_definitions` — the references in what is defined
* `SourceFile.references_of_resolve` — all references of a file that is accepted
-/

namespace GoSignatures

variable {env : Env} {p q : Progress} {t : Table}

/-! ## Type parameters -/

/-- No type parameter occurs in what the names of a file mean. -/
theorem Env.Consistent.closed_of_typeOf? {opened unset : List EnteredType}
    (h : env.Consistent opened unset p) {name : String} {type : Ty}
    (htype : env.typeOf? p name = some type) : type.Proper (.paramsIn []) := by
  refine h.induction (P := fun _ type => type.Proper (.paramsIn [])) ?_ ?_ htype
  · intro e he
    exact ⟨trivial, trivial⟩
  · intro name spec type hspec halias hreads huses
    have hparams : spec.params = [] := if_pos halias
    refine TypeExpr.proper_of_meaning? trivial trivial ?_ spec.type ?_ hreads.meaning
    · rw [hparams]
      exact fun _ h => h
    · exact fun u hu type' htype' => ⟨fun _ _ => trivial, Or.inr (huses u hu type' htype')⟩

/-- A declared type has the type parameters of its declaration. -/
theorem Env.Settled.map_name_typeParams (h : env.Settled p q) {e : EnteredType}
    (he : e ∈ p.entered) {spec : TypeSpec}
    (hspec : env.scope.lookup e.name.text = some (.type spec)) :
    (q.table.typeParams e.id).map TypeParam.name = spec.params := by
  obtain ⟨spec', hspec', halias⟩ := h.consistent.declared e he
  cases hspec.symm.trans hspec'
  obtain ⟨spec', hspec', hreads⟩ := h.consistent.params e he (by simp)
  cases hspec.symm.trans hspec'
  rw [h.settles.typeParams, Consistent.length_meanings? (hreads p (.refl p)).meaning,
    TypeSpec.params, if_neg (by simp [halias])]

/-! ## Uses that are counted -/

namespace Env.Settled

/-- A use that is counted in a declaration makes a reference that is allowed. -/
theorem allowed_of_counted (h : env.Settled p q) {name : String} {u : TypeUse}
    (hu : u ∈ env.scope.usesOf name) (hcounted : env.Counted name q u) {id : Nat}
    (hmeans : env.typeOf? q u.1 = some (.named id [])) : (env.counts q.table).named id u.2 := by
  obtain ⟨type, htype, hcount⟩ := hcounted (h.known.isType _ _ hmeans)
  have hsize := h.lt_size hmeans
  refine ⟨hsize, ?_⟩
  rcases hcount id (Option.some.inj (htype.symm.trans hmeans)) with
    hequal | ⟨hzero, generic, hlabel, hreached⟩
  · exact Or.inl hequal
  -- a predeclared type has no type parameters, whatever it is called
  by_cases hpredeclared : id ≤ comparableId
  · exact Or.inl (hzero.trans (if_pos hpredeclared).symm)
  refine Or.inr ⟨hzero, generic, hlabel, ?_⟩
  rw [h.settles.size] at hsize
  obtain ⟨e, he, rfl⟩ := h.consistent.exists_entered (Nat.lt_of_not_le hpredeclared) hsize
  obtain rfl : e.name.text = generic := by
    rw [h.settles.labels, h.consistent.labels e he] at hlabel
    cases hlabel
    rfl
  rw [h.typeOf?] at hmeans
  exact Or.inr (h.consistent.leadsBack_of_use he hreached hu hmeans)

/-- What a right-hand side means makes references that are allowed. -/
theorem proper_right (h : env.Settled p q) {name : String} {spec : TypeSpec} {type : Ty}
    (hspec : env.scope.lookup name = some (.type spec))
    (hreads : env.ReadsRight name spec type q) : type.Proper (env.counts q.table) := by
  obtain ⟨herror, hcomparable, hnames⟩ := h.known.keeps.proper_names h.known.sameTypes
  refine TypeExpr.proper_of_meaning? herror hcomparable (fun _ _ => trivial) spec.type
    (.of_names hnames fun u hu _ hmeans => ?_) hreads.meaning
  exact h.allowed_of_counted (FileScope.mem_usesOf_right hspec hu) (hreads.counted u hu) hmeans

/-- What the constraints of a generic type mean makes references that are allowed. -/
theorem proper_constraints (h : env.Settled p q) {e : EnteredType} (he : e ∈ p.entered)
    {spec : TypeSpec} {params : List TypeParam}
    (hspec : env.scope.lookup e.name.text = some (.type spec)) (halias : spec.isAlias = false)
    (hreads : env.ReadsParams e.name.text e.id spec params q) :
    ∀ param ∈ params, param.constraint.Proper (env.counts q.table) := by
  obtain ⟨herror, hcomparable, hnames⟩ := h.known.keeps.proper_names h.known.sameTypes
  refine TypeParamDecl.proper_of_meanings? herror hcomparable (fun _ _ => trivial)
    (.of_names hnames fun u hu id hmeans => ?_) hreads.meaning
  have hu : u ∈ spec.constraintUses := by simpa [TypeSpec.constraintUses, halias] using hu
  by_cases hown : id = e.id
  · subst hown
    have hzero := hreads.own u hu (h.known.isType _ _ hmeans) hmeans
    have hlabel : q.table.label? e.id = some (env.packageName, e.name.text) := by
      rw [h.settles.labels, h.consistent.labels e he]
    refine ⟨h.lt_size hmeans, Or.inr ⟨hzero, e.name.text, hlabel, ?_⟩⟩
    rw [← FileScope.constraintUsesOf_eq hspec] at hu
    by_cases hsame : u.1 = e.name.text
    · exact Or.inl ⟨u, hu, hsame⟩
    · rw [h.typeOf?] at hmeans
      exact Or.inr (h.consistent.leadsBack_of_reached he (.constraint hu hsame) hmeans)
  · refine h.allowed_of_counted (FileScope.mem_usesOf_constraint hspec hu)
      (hreads.counted u hu fun hself => hown ?_) hmeans
    cases hmeans.symm.trans hself
    rfl

end Env.Settled

/-! ## The table when types are settled -/

/-- The predeclared types are interfaces without references to other types. -/
theorem Table.proper_initial {A : Ty.Allowed} {id : Nat} {type : Ty}
    (h : Table.initial.underlying? id = some type) : type.Proper A := by
  have hid : id < Table.initial.size := Table.lt_size_of_underlying? h
  obtain rfl | rfl : id = 0 ∨ id = 1 := by
    simp only [Table.size, Table.initial, List.length_cons, List.length_nil] at hid
    omega
  · cases h
    exact ⟨⟨⟨rfl, rfl, trivial, trivial, trivial⟩, trivial⟩, trivial⟩
  · cases h
    exact ⟨trivial, trivial⟩

theorem TypeParam.mem_of_argument? {params : List TypeParam} {args : List Ty} {name : String}
    {type : Ty} (h : TypeParam.argument? params args name = some type) : type ∈ args := by
  induction params generalizing args with
  | nil => cases h
  | cons param params ih =>
    cases args with
    | nil => cases h
    | cons arg args =>
      rw [TypeParam.argument?] at h
      split at h
      · cases h
        exact List.mem_cons_self
      · exact List.mem_cons_of_mem _ (ih h)

/-- Only what is allowed occurs in the underlying type of a type, if that is so of the instances
whose underlying types are looked up. -/
theorem Table.proper_underlying_of_instances {A : Ty.Allowed} {type : Ty} (h : type.Proper A)
    (hnamed : ∀ id args, type = .named id args → (t.underlying (.named id args)).Proper A)
    (herror : (t.underlying .error).Proper A) : (t.underlying type).Proper A := by
  cases type with
  | named id args => exact hnamed id args rfl
  | imported path name underlying =>
    cases underlying with
    | none => exact h
    | some type =>
      rcases h type rfl with ⟨kind, rfl⟩ | rfl
      · trivial
      · exact herror
  | _ => exact h

/-- Only what is allowed occurs in the underlying type of a type, if that is so of the declared
types whose underlying types are looked up. -/
theorem Table.proper_underlying {A : Ty.Allowed} (hparam : ∀ name, A.param name) {type : Ty}
    (h : type.Proper A)
    (hlooked : ∀ id args, type = .named id args ∨ id = errorId →
      ∃ known, t.underlying? id = some known ∧ known.Proper A) :
    (t.underlying type).Proper A := by
  have hinstance : ∀ id args, (type = .named id args ∨ id = errorId) → Ty.AllProper A args →
      (t.underlying (.named id args)).Proper A := by
    intro id args hid hargs
    obtain ⟨known, hknown, hproper⟩ := hlooked id args hid
    rw [Table.underlying, Table.instance?, hknown, Option.map_some, Option.getD_some]
    split
    · exact hproper
    · refine Ty.proper_subst (fun _ _ h => h) (fun name _ => ?_) known hproper
      cases hargument : TypeParam.argument? (t.typeParams id) args name with
      | none => exact hparam name
      | some arg => exact Ty.allProper_iff.mp hargs arg (TypeParam.mem_of_argument? hargument)
  refine Table.proper_underlying_of_instances h (fun id args htype => ?_)
    (hinstance errorId [] (Or.inr rfl) trivial)
  subst htype
  exact hinstance id args (Or.inl rfl) h.2

namespace Env.Consistent

/-- When types are settled, the definitions of all of them lead to an end. -/
theorem grounded_of_settles (h : env.Consistent [] [] p) (hs : p.table.Settles t p.pending [])
    {id : Nat} {type : Ty} (hid : t.underlying? id = some type) : env.Grounded p id := by
  refine hs.spread (env.Grounded p) h.grounded (fun w hw htarget => ?_) id type hid
  obtain ⟨hnone, e, he, hself, -, -⟩ := h.waiting w hw
  obtain ⟨right, hright, ⟨known, hknown, -⟩ | ⟨target, args, rfl, -, hwaits⟩⟩ :=
    h.right e he (by simp)
  · rw [hself, hnone] at hknown
    cases hknown
  · have hsame : (e.id, target) = w := List.inj_on_of_nodup_map h.pending hwaits hw hself
    rw [← hsame] at htarget ⊢
    exact .lent he hright htarget

end Env.Consistent

namespace Env.Settled

theorem proper_predeclared (h : env.Settled p q) {A : Ty.Allowed} {id : Nat}
    (hle : id ≤ comparableId) :
    ∃ type, q.table.underlying? id = some type ∧ type.Proper A := by
  obtain ⟨iface, hiface⟩ := h.consistent.underlying?_predeclared hle
  have hinitial : Table.initial.underlying? id = some (.interface iface) := by
    rw [← hiface, Table.underlying?, Table.underlying?, h.consistent.get?_predeclared hle]
  exact ⟨_, h.settles.known id _ hiface, Table.proper_initial hinitial⟩

/-- The underlying types make references that are allowed. -/
theorem proper_underlying? (h : env.Settled p q) {id : Nat} {type : Ty}
    (hid : q.table.underlying? id = some type) : type.Proper (env.counts q.table) := by
  have hproper : ∀ {e : EnteredType} {type : Ty}, env.RightMeans p e type →
      type.Proper (env.counts q.table) := by
    rintro e type ⟨spec, hspec, hreads⟩
    exact h.proper_right hspec (hreads q h.later)
  -- along the definitions of types as other types
  induction h.consistent.grounded_of_settles h.settles hid generalizing type with
  | predeclared hle =>
    obtain ⟨type', hid', hproper'⟩ := h.proper_predeclared hle
    cases hid'.symm.trans hid
    exact hproper'
  | own he hright hown =>
    rcases h.consistent.underlying?_of_right h.settles he hright with
      hstored | ⟨target, args, htype, -⟩
    · cases hstored.symm.trans hid
      refine Table.proper_underlying (fun _ => trivial) (hproper hright) ?_
      rintro id args (htype | rfl)
      · exact absurd htype (hown id args)
      · exact h.proper_predeclared (Nat.zero_le _)
    · exact absurd htype (hown target args)
  | lent he hright _ ih =>
    rcases h.consistent.underlying?_of_right h.settles he hright with
      hstored | ⟨target', args', htype, -, hstored⟩
    · cases hstored.symm.trans hid
      refine Table.proper_underlying (fun _ => trivial) (hproper hright) ?_
      rintro id args (htype | rfl)
      · cases htype
        obtain ⟨known, hlender⟩ := h.consistent.underlying?_isSome h.settles (hproper hright).1.1
        exact ⟨known, hlender, ih hlender⟩
      · exact h.proper_predeclared (Nat.zero_le _)
    · cases htype
      exact ih (hstored.symm.trans hid)

/-- The type parameters make references that are allowed. -/
theorem proper_typeParams (h : env.Settled p q) (id : Nat) :
    ∀ param ∈ q.table.typeParams id, param.constraint.Proper (env.counts q.table) := by
  rw [h.settles.typeParams]
  by_cases hpredeclared : id ≤ comparableId
  · rw [h.consistent.typeParams_predeclared hpredeclared]
    exact List.forall_mem_nil _
  by_cases hsize : id < p.table.size
  · obtain ⟨e, he, rfl⟩ := h.consistent.exists_entered (Nat.lt_of_not_le hpredeclared) hsize
    obtain ⟨spec, hspec, hreads⟩ := h.consistent.params e he (by simp)
    obtain ⟨spec', hspec', halias⟩ := h.consistent.declared e he
    cases hspec.symm.trans hspec'
    exact h.proper_constraints he hspec halias (hreads q h.later)
  · rw [Table.typeParams, Table.get?_eq_none_of_size_le (Nat.le_of_not_lt hsize)]
    exact List.forall_mem_nil _

end Env.Settled

/-! ## References of a file -/

namespace SourceFile

variable {file : SourceFile} {config : Config} {result : ResolvedFile}

/-- What is defined makes references that are allowed. -/
theorem proper_definitions (h : file.resolve config = .ok result)
    (hsettle : file.settleTypes config = .ok (env, q)) :
    ∀ d ∈ result.definitions, d.Proper (env.counts result.table) := by
  rw [resolve_eq] at h
  obtain ⟨⟨env', q'⟩, hsettle', h⟩ := Except.bind_eq_ok_iff.mp h
  cases hsettle'.symm.trans hsettle
  obtain ⟨⟨_, _⟩, hcheck, h⟩ := Except.bind_eq_ok_iff.mp h
  obtain ⟨⟨_, r⟩, hothers, h⟩ := Except.bind_eq_ok_iff.mp h
  cases h
  obtain ⟨-, hsame⟩ := Env.of_checkContainment_eq_ok hcheck
  subst hsame
  obtain ⟨hr, -⟩ := Env.resolveOthers_ok (typesKnown_of_settleTypes hsettle) hothers
  dsimp only
  rw [hr.table]
  exact hr.definitions

/-- The references of a file that is accepted have as many arguments as the declared type has type
parameters; only a type that is reached from its own constraints may have none. -/
theorem references_of_resolve (h : file.resolve config = .ok result) {scope : FileScope}
    (hscope : FileScope.ofDeclarations file.path file.declarations = .ok scope) :
    ∀ r ∈ result.references, r.2 = (result.table.typeParams r.1).length ∨
      r.2 = 0 ∧ ∃ name, result.table.label? r.1 = some (file.packageName, name) ∧
        scope.ReachesSelf name := by
  obtain ⟨env, q, -, -, hsettle, -, -, -, -, htable, -⟩ := resolve_ok h
  obtain ⟨p, henter, hsettled⟩ := settled_of_settleTypes hsettle
  have hknown := hsettled.known
  have hdefinitions := proper_definitions h hsettle
  rw [htable] at hdefinitions
  have hallowed : ∀ r ∈ result.references, (env.counts q.table).named r.1 r.2 := by
    have herror : (env.counts q.table).named errorId 0 :=
      (hknown.keeps.proper_names hknown.sameTypes).1
    refine List.forall_mem_append.mpr ⟨fun r hr => ?_, fun r hr => ?_⟩
    · rw [htable] at hr
      obtain ⟨entry, hentry, hr⟩ := List.mem_flatMap.mp hr
      obtain ⟨id, hget⟩ := List.mem_iff_getElem?.mp hentry
      have hget : q.table.get? id = some entry := hget
      rcases List.mem_append.mp hr with hr | hr
      · refine TypeParam.references_of_proper herror (fun param hparam => ?_) r hr
        refine hsettled.proper_typeParams id param ?_
        rw [Table.typeParams, hget]
        exact hparam
      · cases hunderlying : entry.underlying with
        | none =>
          rw [hunderlying] at hr
          cases hr
        | some type =>
          rw [hunderlying] at hr
          have hstored : q.table.underlying? id = some type := by
            rw [Table.underlying?, hget, Option.bind_some, hunderlying]
          exact Ty.Proper.references herror (hsettled.proper_underlying? hstored) r hr
    · obtain ⟨d, hd, hr⟩ := List.mem_flatMap.mp hr
      exact (hdefinitions d hd).references herror r hr
  intro r hr
  obtain ⟨hsize, hcount⟩ := hallowed r hr
  have hentered := enterTypes_ok henter
  cases hscope.symm.trans hentered.scope
  have hpackage : env.packageName = file.packageName := by rw [hentered.surroundings]
  rw [htable, hknown.arity r.1 hsize, ← hpackage]
  exact hcount

end SourceFile

end GoSignatures
