import GoSignatures.Proofs.Resolution.Declarations

/-!
# Resolving functions and values

Once all types are known, the remaining declarations add definitions and nothing else. What a
function means depends on what the type names mean, and not on how they were found.

* `Env.TypesKnown` — all types of a file are known
* `Env.Settled` — the types that were entered are settled
* `FuncDecl.meaning?`, `MethodDecl.meaning?` — what functions and methods mean
* `Env.resolveOthers_ok` — the remaining declarations, resolved, define what they mean
-/

namespace GoSignatures

open Resolve

variable {env : Env} {p q r : Progress}

/-! ## What functions mean -/

namespace FuncDecl

/-- The type parameters in force in a function declaration. -/
def params (decl : FuncDecl) : List String :=
  TypeParamDecl.allNames decl.typeParams

/-- The function that a declaration defines. -/
def meaning? (env : Env) (t : Table) (m : Meanings) (decl : FuncDecl) : Option FuncDef := do
  let typeParams ← TypeParamDecl.meanings? env t m decl.params decl.typeParams
  let sig ← decl.signature.meaning? env t m decl.params
  return ⟨decl.name.text, { sig with typeParams }, decl.name.position, .package⟩

/-- The names that a function declaration uses. -/
def uses (decl : FuncDecl) : List TypeUse :=
  TypeParamDecl.allUses decl.params decl.typeParams ++ decl.signature.uses decl.params

end FuncDecl

namespace ReceiverExpr

/-- The receiver of a method, if its base is a type that the file declares. -/
def meaning? (env : Env) (t : Table) (m : Meanings) (receiver : ReceiverExpr) : Option Var :=
  if env.scope.isType receiver.base.text then
    (receiver.type.meaning? env t m receiver.typeParams).map fun type => ⟨receiver.name, type⟩
  else none

end ReceiverExpr

namespace MethodDecl

/-- The type parameters in force in a method declaration. -/
def params (decl : MethodDecl) : List String :=
  (decl.receiver.map ReceiverExpr.typeParams).getD []

/-- The method that a declaration defines. -/
def meaning? (env : Env) (t : Table) (m : Meanings) (decl : MethodDecl) : Option FuncDef := do
  let receiver ← (← decl.receiver).meaning? env t m
  let sig ← decl.signature.meaning? env t m decl.params
  return ⟨decl.name.text, { sig with receiver := some receiver }, decl.name.position, .package⟩

/-- The names that a method declaration uses. -/
def uses (decl : MethodDecl) : List TypeUse :=
  (decl.receiver.map fun receiver => receiver.type.uses receiver.typeParams).getD [] ++
    decl.signature.uses decl.params

/-- The base of the receiver and the name, which no other method shares unless the name is blank. -/
def key? (decl : MethodDecl) : Option (String × String) :=
  if decl.name.text = "_" then none
  else decl.receiver.map fun receiver => (receiver.base.text, decl.name.text)

end MethodDecl

/-! ## When all types are known -/

/-- The progress `q` knows the types as `p` does, and what it defines makes references that are
allowed. -/
structure Env.SameTypes (env : Env) (p q : Progress) : Prop where
  table : q.table = p.table
  entered : q.entered = p.entered
  aliases : q.aliases = p.aliases
  definitions : ∀ d ∈ q.definitions, d.Proper (env.counts p.table)

theorem ValueSpec.proper_of_mem {A : Ty.Allowed} {spec : ValueSpec} {d : Definition}
    (h : d ∈ spec.definitions) : d.Proper A := by
  obtain ⟨name, -, rfl⟩ := List.mem_map.mp h
  dsimp only
  split <;> trivial

namespace Env.SameTypes

theorem define (h : env.SameTypes p q) {d : Definition} (hd : d.Proper (env.counts p.table)) :
    env.SameTypes p (q.define d) :=
  ⟨h.table, h.entered, h.aliases,
    List.forall_mem_append.mpr ⟨h.definitions, List.forall_mem_singleton.mpr hd⟩⟩

theorem defineValues (h : env.SameTypes p q) (specs : List ValueSpec) :
    env.SameTypes p
      { q with definitions := q.definitions ++ specs.flatMap ValueSpec.definitions } := by
  refine ⟨h.table, h.entered, h.aliases, List.forall_mem_append.mpr ⟨h.definitions, ?_⟩⟩
  intro d hd
  obtain ⟨spec, -, hd⟩ := List.mem_flatMap.mp hd
  exact ValueSpec.proper_of_mem hd

theorem typeOf? (h : env.SameTypes p q) (name : String) :
    env.typeOf? q name = env.typeOf? p name := by
  simp only [Env.typeOf?, Progress.enteredType?, h.entered, h.aliases]

end Env.SameTypes

/-- Declarations may nest in every scope. -/
theorem FileScope.exists_nesting_eq (scope : FileScope) : ∃ depth, scope.nesting = depth + 1 :=
  Nat.exists_eq_succ_of_ne_zero (Nat.ne_of_gt (Nat.mul_pos (Nat.succ_pos _) (Nat.succ_pos _)))

/-- All types of a file are known. -/
structure Env.TypesKnown (env : Env) (p : Progress) : Prop where
  complete : env.Complete p
  isType : ∀ name type, env.typeOf? p name = some type → env.scope.isType name = true
  proper : ∀ name type, env.typeOf? p name = some type →
    (∃ id, type = .named id [] ∧ id < p.table.size) ∨ type.Proper (env.counts p.table)
  size : 2 ≤ p.table.size
  arity : ∀ id < p.table.size, (p.table.typeParams id).length = env.arity p.table id
  definitions : ∀ d ∈ p.definitions, d.Proper (env.counts p.table)

/-- Settling types leaves all else that is known of them. -/
theorem Env.Consistent.typesKnown (h : env.Consistent [] [] p) (hcomplete : env.Complete p)
    (hsettles : p.table.Settles q.table p.pending [])
    (hq : q = { p with table := q.table, pending := [] }) : env.TypesKnown q := by
  have htypeOf : ∀ name, env.typeOf? q name = env.typeOf? p name := by
    intro name
    rw [hq]
    rfl
  have hlater : p.Later q := hq ▸ Progress.later_of_settles hsettles []
  have hkeeps := @Env.Consistent.keeps env [] []
  refine ⟨fun name hname => ?_, fun name type htype => ?_, fun name type htype => ?_, ?_,
    fun id hid => ?_, fun d hd => ?_⟩
  · rw [htypeOf]
    exact hcomplete name hname
  · rw [htypeOf] at htype
    exact hkeeps.isType p h name type htype
  · rw [htypeOf] at htype
    rw [hsettles.size]
    exact (hkeeps.proper p h name type htype).imp_right (Ty.Proper.later hlater)
  · rw [hsettles.size]
    exact hkeeps.size p h
  · rw [hsettles.size] at hid
    rw [hsettles.typeParams, hkeeps.arity p h id hid (by simp), env.arity_of_later hlater hid]
  · rw [hq] at hd
    exact (h.definitions d hd).later hlater

theorem SourceFile.typesKnown_of_settleTypes {file : SourceFile} {config : Config}
    (h : file.settleTypes config = .ok (env, q)) : env.TypesKnown q := by
  obtain ⟨p, henter, hsettles, hq⟩ := settleTypes_ok h
  obtain ⟨-, -, hconsistent, hcomplete, -⟩ := enterTypes_ok henter
  exact hconsistent.typesKnown hcomplete hsettles hq

namespace Env.TypesKnown

theorem sameTypes (h : env.TypesKnown p) : env.SameTypes p p := ⟨rfl, rfl, rfl, h.definitions⟩

theorem keeps (h : env.TypesKnown p) : env.Keeps [] (fun _ => True) (env.SameTypes p) where
  define _ f _ hq hsig := hq.define (hq.table ▸ hsig.funcDef)
  isType q hq name type htype := by
    rw [hq.typeOf?] at htype
    exact h.isType name type htype
  proper q hq name type htype := by
    rw [hq.typeOf?] at htype
    rw [hq.table]
    exact h.proper name type htype
  reaches _ _ _ _ _ hid := by cases hid
  size q hq := hq.table ▸ h.size
  noParams _ _ _ hid := by cases hid
  arity q hq id hid _ := by
    rw [hq.table] at hid ⊢
    exact h.arity id hid

/-- A name of a type that is known means that type, and entering it changes nothing. -/
theorem enter_eq (h : env.TypesKnown p) (hq : ∀ name, env.typeOf? q name = env.typeOf? p name)
    {name : Piece} (hname : env.scope.isType name.text = true) :
    ∃ type, env.typeOf? p name.text = some type ∧ env.enter name q = .ok (type, q) := by
  obtain ⟨spec, hspec⟩ := FileScope.isType_iff.mp hname
  obtain ⟨type, htype⟩ := h.complete name.text hname
  -- what is known is found at the first step
  obtain ⟨depth, hdepth⟩ := env.scope.exists_nesting_eq
  refine ⟨type, htype, ?_⟩
  rw [← hq] at htype
  rw [enter, hdepth]
  by_cases halias : spec.isAlias = true
  · rw [typeOf?, if_pos (by simp [FileScope.isAlias, hspec, halias])] at htype
    exact enterType_alias_known hspec halias htype
  · rw [Bool.not_eq_true] at halias
    rw [typeOf?, if_neg (by simp [FileScope.isAlias, hspec, halias])] at htype
    obtain ⟨e, he, rfl⟩ := Option.map_eq_some_iff.mp htype
    exact enterType_entered hspec halias he

/-- Only names of types are entered, and then they mean what is known. -/
theorem enter_yields (h : env.TypesKnown p) (name : Piece) :
    Yields (env.SameTypes p) (fun type q => env.typeOf? q name.text = some type)
      (env.enter name) := by
  intro q type q' hq hrun
  obtain ⟨spec, hspec⟩ := lookup_of_enterType hrun
  obtain ⟨type', htype, henter⟩ := h.enter_eq hq.typeOf? (FileScope.isType_iff.mpr ⟨spec, hspec⟩)
  rw [henter] at hrun
  cases hrun
  refine ⟨hq, .refl q, fun r hr => env.typeOf?_of_later hr ?_⟩
  rw [hq.typeOf?]
  exact htype

theorem typeExpr_yields (h : env.TypesKnown p) (params : List String) (e : TypeExpr) :
    Yields (env.SameTypes p) (env.Reads [] (fun t m => e.meaning? env t m params) (e.uses params))
      (e.resolve env env.enter params) :=
  TypeExpr.resolve_yields h.keeps (fun name _ => h.enter_yields name) e fun _ _ => trivial

theorem signature_yields (h : env.TypesKnown p) (params : List String) (sig : SignatureExpr) :
    Yields (env.SameTypes p)
      (env.Reads [] (fun t m => sig.meaning? env t m params) (sig.uses params))
      (sig.resolve env env.enter params) :=
  SignatureExpr.resolve_yields h.keeps (fun name _ => h.enter_yields name) sig fun _ _ => trivial

theorem typeParams_yields (h : env.TypesKnown p) (params : List String)
    (decls : List TypeParamDecl) :
    Yields (env.SameTypes p)
      (env.Reads [] (fun t m => TypeParamDecl.meanings? env t m params decls)
        (TypeParamDecl.allUses params decls))
      (TypeParamDecl.resolveAll env env.enter params decls) :=
  TypeParamDecl.resolveAll_yields h.keeps (fun name _ => h.enter_yields name) decls
    fun _ _ => trivial

/-- What is read after the types, when all of them are known. -/
theorem reads_of_sameTypes {α : Type} {meaning : Table → Meanings → Option α} {uses : List TypeUse}
    {a : α} (hq : env.SameTypes p q) (h : env.Reads [] meaning uses a q) :
    env.Reads [] meaning uses a p := by
  have htypeOf : env.typeOf? q = env.typeOf? p := funext hq.typeOf?
  obtain ⟨hmeaning, hfits⟩ := h
  refine ⟨?_, fun u hu => ?_⟩
  · rwa [hq.table, htypeOf] at hmeaning
  · have hu := hfits u hu
    unfold Fits at hu ⊢
    rwa [htypeOf, hq.table] at hu

/-- An expression that is resolved has its meaning, and only methods of interfaces are recorded. -/
theorem of_yields {α : Type} {x : Resolve α} {meaning : Table → Meanings → Option α}
    {uses : List TypeUse} (hx : Yields (env.SameTypes p) (env.Reads [] meaning uses) x)
    (hq : env.SameTypes p q) {a : α} (hrun : x q = .ok (a, r)) :
    env.SameTypes p r ∧ r.declared = q.declared ∧ env.Reads [] meaning uses a p := by
  obtain ⟨hr, hext, hreads⟩ := hx q a r hq hrun
  exact ⟨hr, hext.declared, reads_of_sameTypes hr (hreads r (.refl r))⟩

end Env.TypesKnown

/-! ## Types that are settled -/

/-- The types that were entered when the progress was `p` are settled in `q`. -/
structure Env.Settled (env : Env) (p q : Progress) : Prop where
  consistent : env.Consistent [] [] p
  settles : p.table.Settles q.table p.pending []
  same : q = { p with table := q.table, pending := [] }
  known : env.TypesKnown q

theorem SourceFile.settled_of_settleTypes {file : SourceFile} {config : Config}
    (h : file.settleTypes config = .ok (env, q)) :
    ∃ p, file.enterTypes config = .ok (env, p) ∧ env.Settled p q := by
  obtain ⟨p, henter, hsettles, hq⟩ := settleTypes_ok h
  exact ⟨p, henter, (enterTypes_ok henter).consistent, hsettles, hq, typesKnown_of_settleTypes h⟩

namespace Env.Settled

theorem later (h : env.Settled p q) : p.Later q := by
  rw [h.same]
  exact Progress.later_of_settles h.settles []

theorem entered (h : env.Settled p q) : q.entered = p.entered := by
  rw [h.same]

theorem typeOf? (h : env.Settled p q) (name : String) :
    env.typeOf? q name = env.typeOf? p name := by
  rw [h.same]
  rfl

theorem complete (h : env.Settled p q) : env.Complete p := by
  intro name hname
  obtain ⟨type, htype⟩ := h.known.complete name hname
  exact ⟨type, (h.typeOf? name).symm.trans htype⟩

theorem lt_size (h : env.Settled p q) {name : String} {id : Nat}
    (hmeans : env.typeOf? q name = some (.named id [])) : id < q.table.size :=
  h.known.keeps.lt_size h.known.sameTypes hmeans

end Env.Settled

/-! ## Functions -/

theorem Progress.declared_define {d : Definition} (hd : d.isDeclared = true) :
    (p.define d).declared = p.declared ++ [d] := by
  simp [declared, define, List.filter_append, hd]

/-- The base of a receiver that passes the check is a type of the file, and the check changes
nothing. -/
theorem Env.of_checkReceiverBase_eq_ok {base : Piece} {u : Unit}
    (h : env.checkReceiverBase base q = .ok (u, r)) :
    env.scope.isType base.text = true ∧ r = q := by
  unfold checkReceiverBase at h
  unfold FileScope.isType
  cases hlookup : env.scope.lookup base.text with
  | none =>
    rw [hlookup] at h
    exact absurd h fail_ne_ok
  | some entry =>
    rw [hlookup] at h
    cases entry with
    | type spec => exact ⟨rfl, (pure_eq_ok_iff.mp h).2.symm⟩
    | _ => exact absurd h fail_ne_ok

namespace Env.TypesKnown

/-- A function that is resolved is defined as its declaration means. -/
theorem resolveFunc_ok (h : env.TypesKnown p) (hq : env.SameTypes p q) {decl : FuncDecl}
    (hrun : env.resolveFunc decl q = .ok ((), r)) :
    env.SameTypes p r ∧ ∃ f, env.Reads [] (decl.meaning? env) decl.uses f p ∧
      r.declared = q.declared ++ [.func f] := by
  obtain ⟨params, q₁, hparams, hrun⟩ := bind_eq_ok_iff.mp hrun
  obtain ⟨sig, q₂, hsig, hdefine⟩ := bind_eq_ok_iff.mp hrun
  rw [modify_eq_ok_iff] at hdefine
  subst hdefine
  obtain ⟨hq₁, hdeclared₁, hparams⟩ := of_yields
    (h.typeParams_yields _ decl.typeParams) hq hparams
  obtain ⟨hq₂, hdeclared₂, hsig⟩ := of_yields
    (h.signature_yields _ decl.signature) hq₁ hsig
  have hconstraints := h.keeps.counts_typeParams h.sameTypes (fun _ _ => trivial) hparams
  have hproper := (h.keeps.counts_signature h.sameTypes (fun _ _ => trivial) hsig).funcDef
    (f := ⟨decl.name.text, sig, decl.name.position, .package⟩)
  refine ⟨hq₂.define ⟨hproper.receiver, hconstraints, hproper.params, hproper.results⟩, _,
    ⟨?_, List.forall_mem_append.mpr ⟨hparams.fits, hsig.fits⟩⟩,
    (Progress.declared_define rfl).trans (by rw [hdeclared₂, hdeclared₁])⟩
  have hparams := hparams.meaning
  simp only [FuncDecl.meaning?, FuncDecl.params, hparams, hsig.meaning, Option.bind_eq_bind,
    Option.bind_some, Option.pure_def]

/-- Functions that are resolved are defined, in order, as their declarations mean. -/
theorem resolveFuncs_ok (h : env.TypesKnown p) (hq : env.SameTypes p q) {decls : List FuncDecl}
    (hrun : decls.forM env.resolveFunc q = .ok ((), r)) :
    env.SameTypes p r ∧ ∃ fs : List FuncDef,
      decls.mapM (FuncDecl.meaning? env p.table (env.typeOf? p)) = some fs ∧
      (∀ decl ∈ decls, ∀ u ∈ decl.uses, env.Fits [] p u) ∧
      r.declared = q.declared ++ fs.map .func := by
  induction decls generalizing q with
  | nil =>
    obtain ⟨-, rfl⟩ := pure_eq_ok_iff.mp hrun
    exact ⟨hq, [], rfl, by simp, by simp⟩
  | cons decl decls ih =>
    obtain ⟨_, q₁, hfirst, hrest⟩ := bind_eq_ok_iff.mp hrun
    obtain ⟨hq₁, f, ⟨hmeaning, hfits⟩, hdeclared₁⟩ := h.resolveFunc_ok hq hfirst
    obtain ⟨hr, fs, hmeanings, hfits', hdeclared⟩ := ih hq₁ hrest
    refine ⟨hr, f :: fs, ?_, List.forall_mem_cons.mpr ⟨hfits, hfits'⟩, ?_⟩
    · simp [List.mapM_cons, hmeaning, hmeanings]
    · rw [hdeclared, hdeclared₁, List.append_assoc, List.map_cons, List.singleton_append]

/-! ## Methods -/

/-- A method that is resolved is defined as its declaration means. -/
theorem resolveMethod_ok (h : env.TypesKnown p) (hq : env.SameTypes p q) {decl : MethodDecl}
    {base : String} (hrun : env.resolveMethod decl q = .ok (base, r)) :
    env.SameTypes p r ∧ (∃ receiver, decl.receiver = some receiver ∧ base = receiver.base.text) ∧
      ∃ f, env.Reads [] (decl.meaning? env) decl.uses f p ∧
        r.declared = q.declared ++ [.func f] := by
  unfold Env.resolveMethod at hrun
  cases hreceiver : decl.receiver with
  | none =>
    rw [hreceiver] at hrun
    exact absurd hrun fail_ne_ok
  | some receiver =>
    rw [hreceiver] at hrun
    obtain ⟨_, q₀, hbase, hrun⟩ := bind_eq_ok_iff.mp hrun
    obtain ⟨type, q₁, htype, hrun⟩ := bind_eq_ok_iff.mp hrun
    obtain ⟨sig, q₂, hsig, hrun⟩ := bind_eq_ok_iff.mp hrun
    obtain ⟨_, _, hdefine, hrun⟩ := bind_eq_ok_iff.mp hrun
    rw [modify_eq_ok_iff] at hdefine
    obtain ⟨rfl, rfl⟩ := pure_eq_ok_iff.mp hrun
    subst hdefine
    obtain ⟨hisType, rfl⟩ := env.of_checkReceiverBase_eq_ok hbase
    obtain ⟨hq₁, hdeclared₁, htype⟩ := of_yields
      (h.typeExpr_yields _ receiver.type) hq htype
    obtain ⟨hq₂, hdeclared₂, hsig⟩ := of_yields
      (h.signature_yields _ decl.signature) hq₁ hsig
    have hbase := h.keeps.counts_meaning h.sameTypes (fun _ _ => trivial) htype
    have hproper := (h.keeps.counts_signature h.sameTypes (fun _ _ => trivial) hsig).funcDef
      (f := ⟨decl.name.text, sig, decl.name.position, .package⟩)
    have hreceives : ∀ v, some (⟨receiver.name, type⟩ : Var) = some v →
        v.type.Proper (env.counts p.table) := by
      rintro _ ⟨rfl⟩
      exact hbase
    refine ⟨hq₂.define ⟨hreceives, hproper.typeParams, hproper.params, hproper.results⟩,
      ⟨receiver, rfl, rfl⟩, _, ⟨?_, ?_⟩,
      (Progress.declared_define rfl).trans (by rw [hdeclared₂, hdeclared₁])⟩
    · simp [MethodDecl.meaning?, MethodDecl.params, ReceiverExpr.meaning?, hreceiver, hisType,
        htype.meaning, hsig.meaning]
    · simp only [MethodDecl.uses, MethodDecl.params, hreceiver, Option.map_some, Option.getD_some]
      exact List.forall_mem_append.mpr ⟨htype.fits, hsig.fits⟩

/-- Methods that are resolved are defined, in order, as their declarations mean, and no receiver
has two of one name. -/
theorem resolveMethods_ok (h : env.TypesKnown p) (hq : env.SameTypes p q) {decls : List MethodDecl}
    {seen : List (String × String)} (hrun : env.resolveMethods seen decls q = .ok ((), r)) :
    env.SameTypes p r ∧ (decls.filterMap MethodDecl.key?).Nodup ∧
      (∀ key ∈ decls.filterMap MethodDecl.key?, key ∉ seen) ∧ ∃ fs : List FuncDef,
        decls.mapM (MethodDecl.meaning? env p.table (env.typeOf? p)) = some fs ∧
        (∀ decl ∈ decls, ∀ u ∈ decl.uses, env.Fits [] p u) ∧
        r.declared = q.declared ++ fs.map .func := by
  induction decls generalizing q seen with
  | nil =>
    obtain ⟨-, rfl⟩ := pure_eq_ok_iff.mp hrun
    exact ⟨hq, List.nodup_nil, by simp, [], rfl, by simp, by simp⟩
  | cons decl decls ih =>
    obtain ⟨base, q₁, hfirst, hrest⟩ := bind_eq_ok_iff.mp hrun
    obtain ⟨hq₁, ⟨receiver, hreceiver, rfl⟩, f, ⟨hmeaning, hfits⟩, hdeclared₁⟩ :=
      h.resolveMethod_ok hq hfirst
    have hdone : ∀ {seen' : List (String × String)} {keys : List (String × String)},
        env.resolveMethods seen' decls q₁ = .ok ((), r) →
        ((decls.filterMap MethodDecl.key?).Nodup →
          (∀ key ∈ decls.filterMap MethodDecl.key?, key ∉ seen') →
            keys.Nodup ∧ ∀ key ∈ keys, key ∉ seen) →
        env.SameTypes p r ∧ keys.Nodup ∧ (∀ key ∈ keys, key ∉ seen) ∧ ∃ fs : List FuncDef,
          (decl :: decls).mapM (MethodDecl.meaning? env p.table (env.typeOf? p)) = some fs ∧
          (∀ decl' ∈ decl :: decls, ∀ u ∈ decl'.uses, env.Fits [] p u) ∧
          r.declared = q.declared ++ fs.map .func := by
      intro seen' keys hrest hkeys
      obtain ⟨hr, hnodup, hseen, fs, hmeanings, hfits', hdeclared⟩ := ih hq₁ hrest
      obtain ⟨hnodup', hseen'⟩ := hkeys hnodup hseen
      refine ⟨hr, hnodup', hseen', f :: fs, ?_, List.forall_mem_cons.mpr ⟨hfits, hfits'⟩, ?_⟩
      · simp [List.mapM_cons, hmeaning, hmeanings]
      · rw [hdeclared, hdeclared₁, List.append_assoc, List.map_cons, List.singleton_append]
    by_cases hblank : decl.name.text = "_"
    · rw [if_pos hblank] at hrest
      have hkey : decl.key? = none := if_pos hblank
      rw [List.filterMap_cons_none hkey]
      exact hdone hrest fun hnodup hseen => ⟨hnodup, hseen⟩
    · rw [if_neg hblank] at hrest
      have hkey : decl.key? = some (receiver.base.text, decl.name.text) := by
        simp [MethodDecl.key?, hblank, hreceiver]
      rw [List.filterMap_cons_some hkey]
      split at hrest
      · exact absurd hrest fail_ne_ok
      · next hnew =>
        refine hdone hrest fun hnodup hseen => ?_
        simp only [List.mem_cons, not_or] at hseen
        refine ⟨List.nodup_cons.mpr ⟨fun hmem => (hseen _ hmem).1 rfl, hnodup⟩,
          List.forall_mem_cons.mpr ⟨by simpa using hnew, fun key hkey => (hseen key hkey).2⟩⟩

/-! ## Values -/

/-- The types that declarations of variables and constants give are resolved. -/
theorem resolveValues_ok (h : env.TypesKnown p) (hq : env.SameTypes p q) {specs : List ValueSpec}
    (hrun : specs.forM (ValueSpec.resolveType env) q = .ok ((), r)) :
    env.SameTypes p r ∧ r.declared = q.declared ∧ ∀ spec ∈ specs, ∀ type, spec.type = some type →
      (∃ a, type.meaning? env p.table (env.typeOf? p) [] = some a) ∧
        ∀ u ∈ type.uses [], env.Fits [] p u := by
  induction specs generalizing q with
  | nil =>
    obtain ⟨-, rfl⟩ := pure_eq_ok_iff.mp hrun
    exact ⟨hq, rfl, by simp⟩
  | cons spec specs ih =>
    obtain ⟨_, q₁, hfirst, hrest⟩ := bind_eq_ok_iff.mp hrun
    unfold ValueSpec.resolveType at hfirst
    cases htype : spec.type with
    | none =>
      rw [htype] at hfirst
      obtain ⟨-, rfl⟩ := pure_eq_ok_iff.mp hfirst
      obtain ⟨hr, hdeclared, hspecs⟩ := ih hq hrest
      exact ⟨hr, hdeclared, List.forall_mem_cons.mpr ⟨by simp [htype], hspecs⟩⟩
    | some type =>
      rw [htype] at hfirst
      obtain ⟨a, q₂, hresolve, hfirst⟩ := bind_eq_ok_iff.mp hfirst
      obtain ⟨-, rfl⟩ := pure_eq_ok_iff.mp hfirst
      obtain ⟨hq₂, hdeclared₂, hmeaning, hfits⟩ := of_yields
        (h.typeExpr_yields [] type) hq hresolve
      obtain ⟨hr, hdeclared, hspecs⟩ := ih hq₂ hrest
      refine ⟨hr, hdeclared.trans hdeclared₂,
        List.forall_mem_cons.mpr ⟨fun type' htype' => ?_, hspecs⟩⟩
      cases htype.symm.trans htype'
      exact ⟨⟨a, hmeaning⟩, hfits⟩

end Env.TypesKnown

/-! ## All that follows the types -/

/-- What holds of the declarations of a file that are not types when they are resolved. -/
structure SourceFile.OthersRead (file : SourceFile) (env : Env) (p : Progress)
    (functions methods : List FuncDef) : Prop where
  values : ∀ spec ∈ file.valueSpecs, ∀ type, spec.type = some type →
    (∃ a, type.meaning? env p.table (env.typeOf? p) [] = some a) ∧
      ∀ u ∈ type.uses [], env.Fits [] p u
  functions : file.funcDecls.mapM (FuncDecl.meaning? env p.table (env.typeOf? p)) = some functions
  functionUses : ∀ decl ∈ file.funcDecls, ∀ u ∈ decl.uses, env.Fits [] p u
  methods : file.methodDecls.mapM (MethodDecl.meaning? env p.table (env.typeOf? p)) = some methods
  methodUses : ∀ decl ∈ file.methodDecls, ∀ u ∈ decl.uses, env.Fits [] p u
  distinct : (file.methodDecls.filterMap MethodDecl.key?).Nodup

theorem ValueSpec.isDeclared_of_mem {spec : ValueSpec} {d : Definition}
    (h : d ∈ spec.definitions) : d.isDeclared = true := by
  obtain ⟨name, -, rfl⟩ := List.mem_map.mp h
  dsimp only
  split <;> rfl

/-- Declarations of variables and constants define no functions. -/
theorem ValueSpec.func?_of_mem {spec : ValueSpec} {d : Definition} (h : d ∈ spec.definitions) :
    d.func? = none := by
  obtain ⟨name, -, rfl⟩ := List.mem_map.mp h
  dsimp only
  split <;> rfl

/-- The declarations that follow the types define values, functions and methods, in this order. -/
theorem Env.resolveOthers_ok {file : SourceFile} (h : env.TypesKnown p)
    (hrun : env.resolveOthers file p = .ok ((), r)) :
    env.SameTypes p r ∧ ∃ functions methods, file.OthersRead env p functions methods ∧
      r.declared = p.declared ++ file.valueSpecs.flatMap ValueSpec.definitions ++
        (functions ++ methods).map .func := by
  obtain ⟨_, q₁, hvalues, hrun⟩ := bind_eq_ok_iff.mp hrun
  obtain ⟨_, q₂, hdefine, hrun⟩ := bind_eq_ok_iff.mp hrun
  obtain ⟨_, q₃, hfunctions, hmethods⟩ := bind_eq_ok_iff.mp hrun
  rw [modify_eq_ok_iff] at hdefine
  subst hdefine
  obtain ⟨hq₁, hdeclared₁, hvalues⟩ := h.resolveValues_ok h.sameTypes hvalues
  obtain ⟨hq₃, functions, hfunctions, huses, hdeclared₃⟩ :=
    h.resolveFuncs_ok (hq₁.defineValues _) hfunctions
  obtain ⟨hr, hdistinct, -, methods, hmethods, huses', hdeclared⟩ :=
    h.resolveMethods_ok hq₃ hmethods
  refine ⟨hr, functions, methods, ⟨hvalues, hfunctions, huses, hmethods, huses', hdistinct⟩, ?_⟩
  have hdefined : (file.valueSpecs.flatMap ValueSpec.definitions).filter Definition.isDeclared =
      file.valueSpecs.flatMap ValueSpec.definitions := by
    refine List.filter_eq_self.mpr fun d hd => ?_
    obtain ⟨spec, -, hd⟩ := List.mem_flatMap.mp hd
    exact ValueSpec.isDeclared_of_mem hd
  rw [hdeclared, hdeclared₃, List.map_append, ← List.append_assoc]
  congr 2
  rw [Progress.declared, List.filter_append, hdefined, ← hdeclared₁, Progress.declared]

/-- What is known of a file that is accepted. -/
theorem SourceFile.resolve_ok {file : SourceFile} {config : Config} {result : ResolvedFile}
    (h : file.resolve config = .ok result) :
    ∃ env p functions methods, file.settleTypes config = .ok (env, p) ∧
      (∀ e ∈ p.entered, p.table.containsItself e.id = false) ∧
      file.OthersRead env p functions methods ∧ result.path = file.path ∧
      result.packageName = file.packageName ∧ result.table = p.table ∧
      result.definitions.filter Definition.isDeclared =
        file.valueSpecs.flatMap ValueSpec.definitions ++ (functions ++ methods).map .func := by
  rw [resolve_eq] at h
  obtain ⟨⟨env, p⟩, hsettle, h⟩ := Except.bind_eq_ok_iff.mp h
  obtain ⟨⟨_, p'⟩, hcheck, h⟩ := Except.bind_eq_ok_iff.mp h
  obtain ⟨⟨_, r⟩, hothers, h⟩ := Except.bind_eq_ok_iff.mp h
  cases h
  obtain ⟨hcontained, hsame⟩ := Env.of_checkContainment_eq_ok hcheck
  subst hsame
  obtain ⟨hr, functions, methods, hread, hdeclared⟩ :=
    Env.resolveOthers_ok (typesKnown_of_settleTypes hsettle) hothers
  refine ⟨env, p, functions, methods, hsettle, hcontained, hread, rfl, rfl, hr.table, ?_⟩
  obtain ⟨p₀, henter, -, hp⟩ := settleTypes_ok hsettle
  have hnone : p.declared = [] := by
    rw [hp]
    exact (enterTypes_ok henter).declared
  rw [hnone, List.nil_append] at hdeclared
  exact hdeclared

end GoSignatures
