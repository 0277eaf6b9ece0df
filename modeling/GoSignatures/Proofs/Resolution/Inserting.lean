import GoSignatures.Proofs.Resolution.Widening
import GoSignatures.Proofs.Resolution.Termination

/-!
# A type that is entered in between

A blank declaration of a type is resolved without an entry in the table. Under a name that nothing
uses it receives one: all that was entered before refers to places before it, so it stays, and what
is entered afterwards stands one place further. The scope with the name allows deeper nesting, but
bounds that suffice do not matter.

* `Env.Consistent.rename_get?` — entries refer to places of the table only
* `Table.Copied.insert` — a copy that leaves out one place
* `Env.Consistent.resolveTypeSpecAt_eq` — a bound that suffices does not matter
* `Env.resolveTypeSpec_insert` — the declaration without and with the name
* `Env.resolveTypeSpecs_insert` — all declarations of types
-/

namespace GoSignatures

open Resolve

/-! ## Closed tables -/

section

variable {env : Env} {p : Progress} {t : Table} {f : Nat → Nat}

/-- The underlying type of a type that is kept is kept if those that are stored are. -/
theorem Table.rename_underlying {A : Ty.Allowed} (herror : f errorId = errorId)
    (hnamed : ∀ id count, A.named id count → f id = id)
    (hparams : ∀ id, TypeParam.renames f (t.typeParams id) = t.typeParams id) {type : Ty}
    (h : type.Proper A)
    (hstored : ∀ id args, type = .named id args ∨ id = errorId →
      ∀ known, t.underlying? id = some known → known.rename f = known) :
    (t.underlying type).rename f = t.underlying type := by
  have hinstance : ∀ id args, (type = .named id args ∨ id = errorId) → Ty.AllProper A args →
      (t.underlying (.named id args)).rename f = t.underlying (.named id args) := by
    intro id args hid hargs
    rw [Table.underlying, Table.instance?]
    cases hknown : t.underlying? id with
    | none => rfl
    | some known =>
      have hsame := hstored id args hid known hknown
      rw [Option.map_some, Option.getD_some]
      split
      · exact hsame
      · rw [Ty.rename_instantiate, hsame, hparams, Ty.renames_eq_self hnamed herror args hargs]
  cases type with
  | named id args => exact hinstance id args (.inl rfl) h.2
  | imported path name underlying =>
    cases underlying with
    | none => rfl
    | some type =>
      rcases h type rfl with ⟨kind, rfl⟩ | rfl
      · rfl
      · exact hinstance errorId [] (.inr rfl) trivial
  | _ => exact Ty.rename_eq_self hnamed herror _ h

theorem Ty.rename_eq_self_of_places (herror : f errorId = errorId)
    (hf : ∀ id < t.size, f id = id) {type : Ty} (h : type.Proper t.places) :
    type.rename f = type :=
  Ty.rename_eq_self (fun id _ hid => hf id hid) herror type h

namespace Env.Consistent

variable (h : env.Consistent [] [] p) (hf : ∀ id < p.table.size, f id = id)
include h hf

/-- While types are entered, type parameters refer to places of the table only. -/
theorem rename_typeParams (id : Nat) :
    TypeParam.renames f (p.table.typeParams id) = p.table.typeParams id := by
  have hsize := Consistent.keeps.size p h
  have herror : f errorId = errorId := hf errorId (Nat.lt_of_succ_lt hsize)
  by_cases hpredeclared : id ≤ comparableId
  · rw [h.typeParams_predeclared hpredeclared]
    rfl
  by_cases hid : id < p.table.size
  · obtain ⟨e, he, rfl⟩ := h.exists_entered (Nat.lt_of_not_le hpredeclared) hid
    obtain ⟨spec, -, hreads⟩ := h.params e he List.not_mem_nil
    have hproper := TypeParamDecl.proper_of_meanings? (A := p.table.places)
      (Nat.lt_of_succ_lt hsize) hsize (fun _ _ => trivial) (Consistent.keeps.allows_places h _)
      (hreads p (.refl p)).meaning
    rw [TypeParam.renames_eq_map]
    refine (List.map_congr_left fun param hparam => ?_).trans (List.map_id _)
    rw [TypeParam.rename, Ty.rename_eq_self_of_places herror hf (hproper param hparam)]
    cases param
    rfl
  · rw [Table.typeParams, Table.get?_eq_none_of_size_le (Nat.le_of_not_lt hid)]
    rfl

/-- While types are entered, underlying types refer to places of the table only. -/
theorem rename_underlying? {id : Nat} {type : Ty} (hid : p.table.underlying? id = some type) :
    type.rename f = type := by
  have herror : f errorId = errorId := hf errorId (Nat.lt_of_succ_lt (Consistent.keeps.size p h))
  have hpredeclared : ∀ {id : Nat} {type : Ty}, id ≤ comparableId →
      p.table.underlying? id = some type → type.rename f = type := by
    intro id type hle hid
    rw [Table.underlying?, h.get?_predeclared hle] at hid
    exact Ty.rename_eq_self_of_places herror hf (Table.proper_initial hid)
  have hright : ∀ {e : EnteredType} {right type : Ty}, e ∈ p.entered → env.RightMeans p e right →
      p.table.underlying? e.id = some type →
        type = p.table.underlying right ∧ right.Proper p.table.places := by
    rintro e right type he ⟨spec, hspec, hreads⟩ hid
    obtain ⟨right', ⟨spec', hspec', hreads'⟩, hlent⟩ := h.right e he List.not_mem_nil
    cases hspec.symm.trans hspec'
    have hmeaning := (hreads p (.refl p)).meaning
    cases hmeaning.symm.trans (hreads' p (.refl p)).meaning
    refine ⟨?_, Consistent.keeps.proper_meaning h hmeaning⟩
    rcases hlent with ⟨known, hknown, hlasts⟩ | ⟨-, -, -, hnone, -⟩
    · cases hid.symm.trans hknown
      exact (hlasts p (.refl p)).symm
    · rw [hnone] at hid
      cases hid
  -- along the definitions of types as other types
  induction h.grounded id type hid generalizing type with
  | predeclared hle => exact hpredeclared hle hid
  | own he hmeans hown =>
    obtain ⟨rfl, hproper⟩ := hright he hmeans hid
    refine Table.rename_underlying herror (fun id _ => hf id) (h.rename_typeParams hf) hproper ?_
    rintro id args (htype | rfl) known hknown
    · exact absurd htype (hown id args)
    · exact hpredeclared (Nat.zero_le _) hknown
  | lent he hmeans _ ih =>
    obtain ⟨rfl, hproper⟩ := hright he hmeans hid
    refine Table.rename_underlying herror (fun id _ => hf id) (h.rename_typeParams hf) hproper ?_
    rintro id args (htype | rfl) known hknown
    · cases htype
      exact ih hknown
    · exact hpredeclared (Nat.zero_le _) hknown

/-- While types are entered, entries refer to places of the table only. -/
theorem rename_get? (id : Nat) :
    (p.table.get? id).map (NamedType.rename f) = p.table.get? id := by
  have hparams := h.rename_typeParams hf id
  have hunderlying := fun type => @rename_underlying? _ _ _ h hf id type
  rw [Table.typeParams] at hparams
  simp only [Table.underlying?] at hunderlying
  cases hget : p.table.get? id with
  | none => rfl
  | some entry =>
    rw [hget] at hparams hunderlying
    rw [Option.map_some, NamedType.rename, hparams]
    cases hstored : entry.underlying with
    | none => rw [Ty.renameOpt, ← hstored]
    | some type => rw [Ty.renameOpt, hunderlying type hstored, ← hstored]

end Env.Consistent

end

/-! ## One place more -/

/-- The numbering that leaves out one place. -/
def Table.skip (place id : Nat) : Nat :=
  if id < place then id else id + 1

namespace Table

variable {t t' : Table}

theorem skip_of_lt {place id : Nat} (h : id < place) : skip place id = id := if_pos h

theorem skip_add (place n : Nat) : skip place (place + n) = place + 1 + n := by
  rw [skip, if_neg (by omega)]
  omega

theorem skip_ne (place id : Nat) : skip place id ≠ place := by
  unfold skip
  split <;> omega

theorem skip_injective (place i j : Nat) (h : skip place i = skip place j) : i = j := by
  unfold skip at h
  split at h <;> split at h <;> omega

/-- A copy in which another entry is made is a copy that leaves out its place. -/
theorem Copied.insert (h : t.Copied id t')
    (hclosed : ∀ f : Nat → Nat, (∀ id < t.size, f id = id) →
      ∀ id, (t.get? id).map (NamedType.rename f) = t.get? id)
    (hsize : comparableId < t.size) (name package : String) :
    t.Copied (skip t.size) (t'.declare name package) := by
  have hsame : ∀ id, t'.get? id = t.get? id := fun id =>
    (h.get? id).trans (hclosed _ (fun _ _ => rfl) id)
  have hsizes : t'.size = t.size := Nat.le_antisymm
    (Nat.le_of_not_lt fun hlt => Nat.lt_irrefl _ ((h.lt_size_iff t.size).mp hlt))
    (Nat.le_of_not_lt fun hlt => Nat.lt_irrefl _ ((h.lt_size_iff t'.size).mpr hlt))
  have hskip := hclosed (skip t.size) fun _ => skip_of_lt
  refine ⟨skip_injective t.size, skip_of_lt (Nat.lt_trans (by decide) hsize), skip_of_lt hsize,
    fun id => ?_, fun id type hid => ?_⟩
  · rw [Copied.get?_declare, hsizes, if_neg (skip_ne t.size id), hsame, hskip]
    by_cases hid : id < t.size
    · rw [skip_of_lt hid]
    · have hle := Nat.le_of_not_lt hid
      rw [get?_eq_none_of_size_le hle, get?_eq_none_of_size_le]
      obtain ⟨n, rfl⟩ := Nat.exists_eq_add_of_le hle
      rw [skip_add]
      omega
  · rw [Copied.underlying?_declare, Table.underlying?, hsame] at hid
    obtain ⟨entry, hentry, hstored⟩ := Option.bind_eq_some_iff.mp hid
    have hkept := hskip id
    rw [hentry, Option.map_some, Option.some.injEq] at hkept
    refine ⟨type, ?_⟩
    have hunderlying := congrArg NamedType.underlying hkept
    rw [NamedType.rename, hstored] at hunderlying
    exact (Option.some.inj hunderlying).symm

end Table

theorem Progress.functions_eq_nil {p : Progress} (h : p.declared = []) : p.functions = [] := by
  refine List.filter_eq_nil_iff.mpr fun f hf htop => ?_
  obtain ⟨d, hd, hfunc⟩ := List.mem_filterMap.mp hf
  obtain rfl : d = .func f := by
    cases d <;> cases hfunc
    rfl
  have hmem : .func f ∈ p.declared := List.mem_filter.mpr ⟨hd, htop⟩
  rw [h] at hmem
  cases hmem

namespace Progress.Copied

variable {f : Nat → Nat} {fresh : String} {p p' : Progress}

/-- A name that does not occur may count as additional. -/
theorem widen (h : p.Copied f [] p') (hentered : ∀ e ∈ p.entered, e.name.text ≠ fresh)
    (haliases : ∀ a ∈ p.aliases, a.1 ≠ fresh) : p.Copied f [fresh] p' := by
  have hentered' : p'.entered = p.entered.map (EnteredType.rename f) := by simpa using h.entered
  have haliases' : p'.aliases = p.aliases.map fun a => (a.1, a.2.rename f) := by
    simpa using h.aliases
  refine { h with entered := ?_, outside := ?_, aliases := ?_ }
  · rw [hentered', List.filter_eq_self]
    exact List.forall_mem_map.mpr fun e he => by simpa [EnteredType.rename] using hentered e he
  · rw [hentered']
    exact List.forall_mem_map.mpr fun e he hextra => by
      simp [EnteredType.rename, hentered e he] at hextra
  · rw [haliases', List.filter_eq_self]
    exact List.forall_mem_map.mpr fun a ha => by simpa using haliases a ha

/-- Another name for a type is remembered in the copy only. -/
theorem addAliasRight (h : p.Copied f [fresh] p') (type : Ty) :
    p.Copied f [fresh] { p' with aliases := p'.aliases ++ [(fresh, type)] } :=
  { h with aliases := by simpa using h.aliases }

/-- A type is entered in the copy only. -/
theorem insert {env : Env} (h : p.Copied id [fresh] p') (hp : env.Consistent [] [] p)
    (hdeclared : p.declared = []) {name : Piece} (hname : name.text = fresh)
    (packageName : String) :
    p.Copied (Table.skip p.table.size) [fresh] (p'.enter name packageName) := by
  have hsize : p.table.size = p'.table.size := h.size
  have hcomparable : comparableId < p.table.size := Env.Consistent.keeps.size p hp
  have hskip : ∀ id < p.table.size, Table.skip p.table.size id = id := fun _ => Table.skip_of_lt
  have hothers : ∀ e ∈ p'.entered, [fresh].contains e.name.text = false := fun e he =>
    Bool.eq_false_iff.mpr fun hextra => h.outside e he hextra e.id rfl
  refine ⟨h.table.insert (fun f hf => hp.rename_get? hf) hcomparable _ _, fun n => ?_, ?_, ?_, ?_,
    ?_, ?_, ?_⟩
  · rw [Table.skip_add, Progress.enter, Table.size_declare, hsize]
  · have hentered := h.entered
    simp only [Progress.enter, List.filter_append, hentered]
    simp only [List.filter_cons, hname, List.contains_cons, beq_self_eq_true, Bool.true_or,
      Bool.not_true, List.filter_nil, if_false, List.append_nil, Bool.false_eq_true]
    refine List.map_congr_left fun e he => ?_
    rw [EnteredType.rename, EnteredType.rename, hskip e.id (hp.bounds he).2, id]
  · refine List.forall_mem_append.mpr ⟨fun e he hextra => ?_,
      List.forall_mem_singleton.mpr fun _ => hsize ▸ Table.skip_ne _⟩
    rw [hothers e he] at hextra
    cases hextra
  · have haliases := h.aliases
    simp only [Progress.enter, haliases]
    refine List.map_congr_left fun a ha => ?_
    have hproper := (hp.aliases a ha).1.places
    rw [Ty.rename_eq_self_of_places (f := id) (t := p.table) rfl (fun _ _ => rfl) hproper,
      Ty.rename_eq_self_of_places (hskip errorId (Nat.lt_trans (by decide) hcomparable)) hskip
        hproper]
  · intro w hw
    obtain ⟨hid, htarget⟩ := hp.inPlace w hw
    rw [hskip _ hid, hskip _ htarget]
    exact h.waits w hw
  · intro w hw
    rcases h.waited w hw with ⟨v, hv, rfl⟩ | ⟨hother, -⟩
    · obtain ⟨hid, htarget⟩ := hp.inPlace v hv
      exact .inl ⟨v, hv, by rw [hskip _ hid, hskip _ htarget, id, id]⟩
    · exact absurd rfl (hother w.1)
  · have hnone : p'.functions = p.functions.map (FuncDef.rename id) := h.functions
    rw [functions_eq_nil hdeclared] at hnone ⊢
    exact hnone

/-- The right-hand side of a type becomes known that was entered in the copy only. -/
theorem finishRight (h : p.Copied f [fresh] p') {place : Nat} (hplace : ∀ id, f id ≠ place)
    {type : Ty} (htarget : ∀ target args, type = .named target args → target < p.table.size) :
    p.Copied f [fresh] (p'.finish place (type.rename f)) := by
  rcases h.finish_cases 0 place type with ⟨target, args, htype, -, hright⟩ | ⟨-, hright⟩
  · rw [hright]
    refine { h with waits := fun w hw => List.mem_append_left _ (h.waits w hw), waited := ?_ }
    refine List.forall_mem_append.mpr ⟨h.waited, List.forall_mem_singleton.mpr ?_⟩
    exact .inr ⟨hplace, target, htarget target args htype, rfl⟩
  · rw [hright]
    exact { h with
      table := h.table.setUnderlying_other hplace _
      grows := by simpa using h.grows }

end Progress.Copied

/-- The declaration of a defined type without type parameters. -/
theorem TypeSpec.resolveDefined_plain {env : Env} {enter : EnterType} {spec : TypeSpec}
    (hparams : spec.typeParams = []) (place : Nat) (p : Progress) :
    spec.resolveDefined env enter place p =
      spec.type.resolve env enter [] p >>= fun a => .ok ((), a.2.finish place a.1) := by
  rw [resolveDefined_eq, resolveParams, hparams]
  rfl

/-- The declaration of a type under another name. -/
def TypeSpec.named (spec : TypeSpec) (name : String) : TypeSpec :=
  { spec with name := ⟨name, spec.name.position⟩ }

/-! ## Depths -/

section

variable {env : Env} {p q : Progress}

/-- Resolves a type declaration where at most `depth` declarations nest. -/
def Env.resolveTypeSpecAt (env : Env) (depth : Nat) (spec : TypeSpec) : Resolve Unit :=
  (if spec.name.text = "_" then spec.type.resolve env (env.enterType depth []) []
    else env.enterType depth [] spec.name) >>=
      fun type => modify fun p =>
        p.define (.type ⟨spec.name.text, type, spec.isAlias, spec.name.position⟩)

/-- A bound that suffices does not matter. -/
theorem Env.Consistent.resolveTypeSpecAt_eq (hnamed : env.scope.Named) (hp : env.Consistent [] [] p)
    {depth : Nat} (hdepth : env.scope.nesting ≤ depth) (spec : TypeSpec) :
    env.resolveTypeSpecAt depth spec p = env.resolveTypeSpec spec p := by
  have hlt := env.nestable_lt_nesting p
  let broken := env.errorAt .start (.undefinedType "")
  let guarded := env.enterTypeGuarded broken env.scope.nesting []
  -- both are the same as under guard
  have halike : ∀ depth, env.scope.nesting ≤ depth →
      env.EntersAlike (env.undeclared p) guarded (env.enterType depth []) := fun depth hdepth =>
    Env.enterTypeGuarded_eq hnamed broken depth (Nat.lt_of_lt_of_le hlt hdepth) hlt
  have hexpr : ∀ depth, env.scope.nesting ≤ depth →
      spec.type.resolveGuarded broken env guarded [] p =
        spec.type.resolve env (env.enterType depth []) [] p := fun depth hdepth =>
    (halike depth hdepth).typeExpr (enterType_enters hnamed depth []) (fun _ _ => .none _) hp
      (Nat.le_refl _)
  have hname : ∀ depth, env.scope.nesting ≤ depth →
      guarded spec.name p = env.enterType depth [] spec.name p := fun depth hdepth =>
    halike depth hdepth [] [] spec.name (.none _) p ⟨hp, Nat.le_refl _⟩
  rw [resolveTypeSpec_eq, resolveTypeSpecAt]
  refine bind_congr_run ?_ fun _ _ _ => rfl
  split
  · exact (hexpr depth hdepth).symm.trans (hexpr _ (Nat.le_refl _))
  · exact (hname depth hdepth).symm.trans (hname _ (Nat.le_refl _))

end

/-! ## Declarations of types -/

section

variable {env env' : Env} {fresh : String} {f : Nat → Nat} {p p' : Progress}
  (hwidens : env.Widens env' fresh) (hnamed : env.scope.Named) (havoids : env.Avoids fresh)
include hwidens hnamed havoids

theorem Env.resolveTypeSpecAt_follows {extra : List String}
    (hextra : ∀ name, name ≠ fresh → extra.contains name = false) (depth : Nat) {spec : TypeSpec}
    (hname : spec.name.text ≠ fresh)
    (huses : spec.name.text = "_" → ∀ u ∈ spec.type.uses [], u.1 ≠ fresh) :
    Follows (Progress.Copies f extra) id (env.resolveTypeSpecAt depth spec)
      (env'.resolveTypeSpecAt depth spec) := by
  intro p p' hp
  have henter : ∀ name : Piece, name.text ≠ fresh →
      Follows (Progress.Copies f extra) (Ty.rename f) (env.enterType depth [] name)
        (env'.enterType depth [] name) := fun name hname =>
    Env.enterType_follows hwidens hnamed havoids hextra depth (fun _ _ => rfl) name hname
  refine Follows.bind (R := Progress.Copies f extra) (g := Ty.rename f) ?_ (fun type =>
    .modify fun p p' h => h.defineType _ _) p p' hp
  split
  · next hblank =>
    exact TypeExpr.resolve_follows (EnterType.parallel_of_copied hwidens hp henter)
      List.not_mem_nil spec.type (huses hblank)
  · exact henter spec.name hname

/-- Another declaration of a type than that of a name, which does not use the name. -/
structure TypeSpec.Avoids (spec : TypeSpec) (env : Env) (fresh : String) : Prop where
  name : spec.name.text ≠ fresh
  blank : spec.name.text = "_" → ∀ u ∈ spec.type.uses [], u.1 ≠ fresh
  lookup : spec.name.text ≠ "_" → env.scope.lookup spec.name.text = some (.type spec)

/-- Declarations that do not use the additional name are resolved alike. -/
theorem Env.resolveTypeSpecs_follow {extra : List String}
    (hextra : ∀ name, name ≠ fresh → extra.contains name = false)
    (hnesting : env.scope.nesting ≤ env'.scope.nesting) {specs : List TypeSpec}
    (hspecs : ∀ spec ∈ specs, spec.Avoids env fresh) :
    Follows (fun p p' => p.Copied f extra p' ∧ env.Consistent [] [] p ∧ p.declared = []) id
      (specs.forM env.resolveTypeSpec) (specs.forM env'.resolveTypeSpec) := by
  refine .forM fun spec hspec => ?_
  obtain ⟨hname, huses, hlookup⟩ := hspecs spec hspec
  rintro p p' ⟨hp, hconsistent, hdeclared⟩
  have hleft := hconsistent.resolveTypeSpecAt_eq hnamed hnesting spec
  have hright : env'.resolveTypeSpecAt env'.scope.nesting spec p' =
      env'.resolveTypeSpec spec p' := by
    rw [resolveTypeSpec_eq]
    rfl
  have hfollows := Env.resolveTypeSpecAt_follows hwidens hnamed havoids hextra env'.scope.nesting
    hname huses p p' hp
  rw [hleft, hright] at hfollows
  rcases hfollows with ⟨⟨_, q⟩, b, hrun, hrun', hsame, hq⟩ | ⟨e, e', hrun, hrun'⟩
  · obtain ⟨hconsistent', -, hdeclared', -⟩ := resolveTypeSpec_ok hnamed hlookup hconsistent hrun
    exact .inl ⟨_, b, hrun, hrun', hsame, hq, hconsistent', hdeclared'.trans hdeclared⟩
  · exact .inr ⟨e, e', hrun, hrun'⟩

omit hnamed havoids in
/-- What is known so far is not known under the additional name. -/
theorem Progress.Copied.widenFresh (h : p.Copied f [] p') (hp : env.Consistent [] [] p) :
    p.Copied f [fresh] p' ∧ p'.enteredType? fresh = none ∧ p'.aliases.lookup fresh = none := by
  have hother : ∀ {name spec}, env.scope.lookup name = some (.type spec) → name ≠ fresh := by
    rintro name spec hspec rfl
    cases hspec.symm.trans hwidens.unknown
  have hentered : ∀ e ∈ p.entered, e.name.text ≠ fresh := fun e he => by
    obtain ⟨spec, hspec, -⟩ := hp.declared e he
    exact hother hspec
  have haliases : ∀ a ∈ p.aliases, a.1 ≠ fresh := fun a ha => by
    obtain ⟨-, spec, hspec, -⟩ := hp.aliases a ha
    exact hother hspec
  refine ⟨h.widen hentered haliases, ?_, ?_⟩
  · rw [h.enteredType? rfl, Option.map_eq_none_iff, Progress.enteredType?, List.find?_eq_none]
    exact fun e he => by simpa using hentered e he
  · rw [h.lookup_aliases rfl, Option.map_eq_none_iff, List.lookup_eq_none_iff]
    exact fun a ha => by simpa using (haliases a ha).symm

variable {spec : TypeSpec} (huses : ∀ u ∈ spec.type.uses [], u.1 ≠ fresh)
  (hknown : env'.scope.lookup fresh = some (.type (spec.named fresh))) (hp : p.Copied id [] p')
  (hconsistent : env.Consistent [] [] p)
include huses hknown hp hconsistent

/-- Another name for a type is entered in the wider scope if its right-hand side is resolved. -/
theorem Env.enter_insert_alias (halias : spec.isAlias = true) {depth : Nat}
    (hnesting : env'.scope.nesting = depth + 1) :
    Except.Alike (fun a b => a.2.Copied id [fresh] b.2)
      (spec.type.resolve env (env.enterType depth []) [] p)
      (env'.enter (spec.named fresh).name p') := by
  obtain ⟨hwide, -, hnew⟩ := hp.widenFresh hwidens hconsistent
  have hextra : ∀ other, other ≠ fresh → [fresh].contains other = false := by simp
  have henter : ∀ other : Piece, other.text ≠ fresh →
      Follows (Progress.Copies id [fresh]) (Ty.rename id) (env.enterType depth [] other)
        (env'.enterType depth [fresh] other) := fun other hother =>
    Env.enterType_follows hwidens hnamed havoids hextra depth hextra other hother
  have hlookup : env'.scope.lookup (spec.named fresh).name.text = some (.type (spec.named fresh)) :=
    hknown
  rw [Env.enter, hnesting, enterType_alias_new hlookup halias hnew]
  refine (TypeExpr.resolve_follows (EnterType.parallel_of_copied hwidens hwide henter)
    List.not_mem_nil spec.type huses p p' hwide).bind_right ?_
  rintro a b - - ⟨-, hq⟩
  exact ⟨_, rfl, hq.addAliasRight _⟩

/-- A defined type is entered in the wider scope if its right-hand side is resolved. -/
theorem Env.enter_insert_defined (halias : spec.isAlias = false) (hparams : spec.typeParams = [])
    (hdeclared : p.declared = []) {depth : Nat} (hnesting : env'.scope.nesting = depth + 1) :
    Except.Alike (fun a b => a.2.Copied (Table.skip p.table.size) [fresh] b.2)
      (spec.type.resolve env (env.enterType depth []) [] p)
      (env'.enter (spec.named fresh).name p') := by
  obtain ⟨hwide, hnew, -⟩ := hp.widenFresh hwidens hconsistent
  have hentered : p.Copied (Table.skip p.table.size) [fresh]
      (p'.enter (spec.named fresh).name env'.packageName) :=
    hwide.insert hconsistent hdeclared rfl env'.packageName
  have hextra : ∀ other, other ≠ fresh → [fresh].contains other = false := by simp
  have henter : ∀ other : Piece, other.text ≠ fresh →
      Follows (Progress.Copies (Table.skip p.table.size) [fresh])
        (Ty.rename (Table.skip p.table.size)) (env.enterType depth [] other)
        (env'.enterType depth [] other) := fun other hother =>
    Env.enterType_follows hwidens hnamed havoids hextra depth (fun _ _ => rfl) other hother
  have hlookup : env'.scope.lookup (spec.named fresh).name.text = some (.type (spec.named fresh)) :=
    hknown
  have hsize : p.table.size = p'.table.size := hp.size
  -- the type is entered at the old size, and all that follows leaves that place out
  rw [Env.enter, hnesting, enterType_new hlookup halias hnew, ← hsize]
  show Except.Alike _ _ ((spec.named fresh).resolveDefined env' (env'.enterType depth [])
    p.table.size (p'.enter (spec.named fresh).name env'.packageName) >>= _)
  have hplain : (spec.named fresh).typeParams = [] := hparams
  rw [TypeSpec.resolveDefined_plain hplain]
  have hfollows := TypeExpr.resolve_follows (EnterType.parallel_of_copied hwidens hentered henter)
    List.not_mem_nil spec.type huses p _ hentered
  refine (hfollows.bind_right (U := fun a c => a.2.Copied (Table.skip p.table.size) [fresh] c.2)
    ?_).bind_right fun _ _ _ _ hq => ⟨_, rfl, hq⟩
  rintro ⟨type, q⟩ ⟨_, q'⟩ hrun - ⟨hsame, hq⟩
  subst hsame
  -- a right-hand side that is a declared type is known on both sides, so it may be waited for
  refine ⟨_, rfl, hq.finishRight (Table.skip_ne p.table.size) ?_⟩
  rintro target args rfl
  obtain ⟨hconsistent', -, hread⟩ := TypeExpr.resolve_yields Consistent.keeps
    (enterType_enters hnamed depth [] [] []) spec.type (fun _ _ => .none _) p _ q hconsistent hrun
  exact (Consistent.keeps.proper_meaning hconsistent' (hread q (.refl q)).meaning).1

/-- A blank declaration is resolved under the additional name if it is without. -/
theorem Env.resolveTypeSpec_insert (hblank : spec.name.text = "_")
    (hparams : spec.typeParams = []) (hfresh : fresh ≠ "_")
    (hnesting : env.scope.nesting < env'.scope.nesting) (hdeclared : p.declared = []) :
    Except.Alike (fun a b => ∃ f, a.2.Copied f [fresh] b.2) (env.resolveTypeSpec spec p)
      (env'.resolveTypeSpec (spec.named fresh) p') := by
  obtain ⟨depth, hdepth⟩ := env'.scope.exists_nesting_eq
  have hle : env.scope.nesting ≤ depth := by omega
  have henter : Except.Alike (fun a b => ∃ f, a.2.Copied f [fresh] b.2)
      (spec.type.resolve env (env.enterType depth []) [] p)
      (env'.enter (spec.named fresh).name p') := by
    cases halias : spec.isAlias with
    | true =>
      exact (Env.enter_insert_alias hwidens hnamed havoids huses hknown hp hconsistent halias
        hdepth).mono fun _ _ h => ⟨_, h⟩
    | false =>
      exact (Env.enter_insert_defined hwidens hnamed havoids huses hknown hp hconsistent halias
        hparams hdeclared hdepth).mono fun _ _ h => ⟨_, h⟩
  have hnot : ¬ ((spec.named fresh).name.text = "_") := hfresh
  rw [← hconsistent.resolveTypeSpecAt_eq hnamed hle spec, resolveTypeSpecAt, if_pos hblank,
    resolveTypeSpec_eq, if_neg hnot]
  exact henter.bind fun _ _ _ _ ⟨f, hq⟩ => .ok ⟨f, hq.defineType _ _⟩

end

/-! ## All declarations of types -/

/-- Before types are entered, the progress is a copy of itself. -/
theorem Progress.Copied.initial (env : Env) : ({} : Progress).Copied id [] {} := by
  have hconsistent : env.Consistent [] [] {} := .initial
  have hsame := hconsistent.rename_get? (f := id) fun _ _ => rfl
  have hunderlying : ∀ {place : Nat} {type : Ty},
      ({} : Progress).table.underlying? place = some type → type.rename id = type :=
    hconsistent.rename_underlying? fun _ _ => rfl
  exact {
    table := ⟨fun _ _ => id, rfl, rfl, fun place => (hsame place).symm,
      fun _ type hplace => ⟨type, (hunderlying hplace).symm⟩⟩
    grows := fun _ => rfl
    entered := rfl
    outside := List.forall_mem_nil _
    aliases := rfl
    waits := List.forall_mem_nil _
    waited := List.forall_mem_nil _
    functions := rfl }

section

variable {env env' : Env} {fresh : String} (hwidens : env.Widens env' fresh)
  (hnamed : env.scope.Named) (havoids : env.Avoids fresh)
include hwidens hnamed havoids

/-- The types of a file are resolved with a name for a blank declaration if they are without. -/
theorem Env.resolveTypeSpecs_insert {before after : List TypeSpec} {spec : TypeSpec}
    (hspecs : ∀ other ∈ before ++ spec :: after, other.Avoids env fresh)
    (hblank : spec.name.text = "_") (hparams : spec.typeParams = []) (hfresh : fresh ≠ "_")
    (hknown : env'.scope.lookup fresh = some (.type (spec.named fresh)))
    (hnesting : env.scope.nesting < env'.scope.nesting) :
    Except.Alike (fun a b => ∃ f, a.2.Copied f [fresh] b.2)
      ((before ++ spec :: after).forM env.resolveTypeSpec {})
      ((before ++ spec.named fresh :: after).forM env'.resolveTypeSpec {}) := by
  obtain ⟨hbefore, hspecs⟩ := List.forall_mem_append.mp hspecs
  obtain ⟨hspec, hafter⟩ := List.forall_mem_cons.mp hspecs
  have hle := Nat.le_of_lt hnesting
  -- up to the blank declaration the copy is exact, and from there on it leaves out one place
  rw [List.forM_eq_forM, List.forM_append, List.forM_append, List.forM_cons, List.forM_cons]
  refine (resolveTypeSpecs_follow hwidens hnamed havoids (fun _ _ => rfl) hle hbefore {} {}
    ⟨.initial env, .initial, rfl⟩).bind ?_
  rintro ⟨_, p⟩ ⟨_, p'⟩ - - ⟨-, hp, hconsistent, hdeclared⟩
  refine (resolveTypeSpec_insert hwidens hnamed havoids (hspec.blank hblank) hknown hp hconsistent
    hblank hparams hfresh hnesting hdeclared).bind ?_
  rintro ⟨_, q⟩ ⟨_, q'⟩ hrun - ⟨f, hq⟩
  obtain ⟨hconsistent', -, hdeclared', -⟩ := resolveTypeSpec_ok hnamed hspec.lookup hconsistent hrun
  exact (resolveTypeSpecs_follow hwidens hnamed havoids (by simp) hle hafter q q'
    ⟨hq, hconsistent', hdeclared'.trans hdeclared⟩).mono fun _ _ h => ⟨f, h.2.1⟩

end

end GoSignatures
