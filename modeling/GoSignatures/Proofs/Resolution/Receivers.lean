import GoSignatures.Proofs.Resolution.Failing
import GoSignatures.Ty.Equality

/-!
# Methods of one receiver

A receiver may have one method of a name. Whether two methods have one receiver is decided by the
base of the receiver as it is written, which does not see that two names stand for one type.

* `MethodDecl.baseType?` — the base type of a receiver
* `SourceFile.RefusesRepeats` — exactly the files that repeat a method are refused for it
* `SourceFile.OtherwiseResolves.refusedForMethod_iff` — methods that repeat one as it is written are
  always refused
* `SourceFile.refusesRepeats_iff` — when this is so
* `SourceFile.refusesRepeats_of_defined` — it is so where no receiver is written with another name
  for its type
-/

namespace GoSignatures

open Resolve

variable {env : Env} {p q : Progress}

/-! ## Base types -/

/-- A type without its pointers and its type arguments. -/
def Ty.base : Ty → Ty
  | .pointer elem => elem.base
  | .named id _ => .named id []
  | type => type

namespace MethodDecl

/-- The base type of the receiver of a method: what the name in its receiver stands for, without
pointers and type arguments. -/
def baseType? (env : Env) (p : Progress) (decl : MethodDecl) : Option Ty :=
  decl.receiver.bind fun receiver => (env.typeOf? p receiver.base.text).map Ty.base

/-- Two methods have receivers of one base type. -/
def SameBase (env : Env) (p : Progress) (d d' : MethodDecl) : Prop :=
  ∃ type, d.baseType? env p = some type ∧ d'.baseType? env p = some type

/-- Two methods have receivers whose base is written with one name. -/
def SameText (d d' : MethodDecl) : Prop :=
  ∃ r r', d.receiver = some r ∧ d'.receiver = some r' ∧ r.base.text = r'.base.text

end MethodDecl

/-- Resolves a method declaration, whatever methods there are already. -/
def Env.resolveAlone (env : Env) (decl : MethodDecl) : Resolve Unit := do
  let _ ← env.resolveMethod decl

/-- Resolves the declarations of a file that are not types, its methods without regard to one
another. -/
def Env.resolveApart (env : Env) (file : SourceFile) : Resolve Unit := do
  file.valueSpecs.forM (ValueSpec.resolveType env)
  modify fun p =>
    { p with definitions := p.definitions ++ file.valueSpecs.flatMap ValueSpec.definitions }
  file.funcDecls.forM env.resolveFunc
  file.methodDecls.forM env.resolveAlone

namespace SourceFile

variable {file : SourceFile} {config : Config}

/-- Two methods of one name that is not blank have receivers that are the same. -/
def Repeats (file : SourceFile) (same : MethodDecl → MethodDecl → Prop) : Prop :=
  ∃ d d', [d, d'].Sublist file.methodDecls ∧ d.name.text = d'.name.text ∧ d.name.text ≠ "_" ∧
    same d d'

/-- A file is refused because a method is declared twice. -/
def RefusedForMethod (file : SourceFile) (config : Config) : Prop :=
  ∃ e receiver name, file.resolve config = .error e ∧ e.cause = .duplicateMethod receiver name

/-- The declarations of a file resolve, its methods without regard to one another. -/
def OtherwiseResolves (file : SourceFile) (config : Config) : Prop :=
  ∃ env p r, file.settleTypes config = .ok (env, p) ∧ env.checkContainment p = .ok ((), p) ∧
    env.resolveApart file p = .ok ((), r)

/-- If its declarations resolve otherwise, a file is refused for a method exactly if it repeats one,
where receivers are the same if their base types are. -/
def RefusesRepeats (file : SourceFile) (config : Config) : Prop :=
  file.OtherwiseResolves config → ∃ env p, file.settleTypes config = .ok (env, p) ∧
    (file.RefusedForMethod config ↔ file.Repeats (MethodDecl.SameBase env p))

end SourceFile

/-! ## What is written -/

theorem MethodDecl.key?_eq_some_iff {d : MethodDecl} {base name : String} :
    d.key? = some (base, name) ↔ d.name.text = name ∧ name ≠ "_" ∧
      ∃ receiver, d.receiver = some receiver ∧ receiver.base.text = base := by
  unfold key?
  split
  · next hblank =>
    simp only [reduceCtorEq, false_iff]
    rintro ⟨rfl, hname, -⟩
    exact hname hblank
  · next hblank =>
    simp only [Option.map_eq_some_iff, Prod.mk.injEq]
    constructor
    · rintro ⟨receiver, hreceiver, hbase, rfl⟩
      exact ⟨rfl, hblank, receiver, hreceiver, hbase⟩
    · rintro ⟨hname, -, receiver, hreceiver, hbase⟩
      exact ⟨receiver, hreceiver, hbase, hname⟩

/-- Methods are repeated as they are written exactly if a key is. -/
theorem SourceFile.repeats_sameText_iff {file : SourceFile} :
    file.Repeats MethodDecl.SameText ↔ ¬ (file.methodDecls.filterMap MethodDecl.key?).Nodup := by
  have hnodup : (file.methodDecls.filterMap MethodDecl.key?).Nodup ↔
      ∀ d d', [d, d'].Sublist file.methodDecls → ∀ key, d.key? = some key → d'.key? ≠ some key := by
    rw [List.Nodup, List.pairwise_filterMap, List.pairwise_iff_forall_sublist]
    constructor
    · exact fun h d d' hsub key hkey hkey' => h hsub key hkey key hkey' rfl
    · rintro h d d' hsub key hkey _ hkey' rfl
      exact h d d' hsub key hkey hkey'
  rw [hnodup]
  constructor
  · rintro ⟨d, d', hsub, hname, hblank, r, r', hr, hr', hbase⟩ h
    refine h d d' hsub (r.base.text, d.name.text) ?_ ?_
    · exact MethodDecl.key?_eq_some_iff.mpr ⟨rfl, hblank, r, hr, rfl⟩
    · exact MethodDecl.key?_eq_some_iff.mpr ⟨hname.symm, hblank, r', hr', hbase.symm⟩
  · intro h
    push Not at h
    obtain ⟨d, d', hsub, ⟨base, name⟩, hkey, hkey'⟩ := h
    obtain ⟨rfl, hblank, r, hr, rfl⟩ := MethodDecl.key?_eq_some_iff.mp hkey
    obtain ⟨hname, -, r', hr', hbase⟩ := MethodDecl.key?_eq_some_iff.mp hkey'
    exact ⟨d, d', hsub, hname.symm, hblank, r, r', hr, hr', hbase.symm⟩

/-! ## Where methods fail -/

theorem MethodDecl.isType_of_meaning? {t : Table} {m : Meanings} {decl : MethodDecl} {f : FuncDef}
    (h : decl.meaning? env t m = some f) {receiver : ReceiverExpr}
    (hreceiver : decl.receiver = some receiver) : env.scope.isType receiver.base.text = true := by
  simp only [meaning?, hreceiver, ReceiverExpr.meaning?, Option.bind_eq_bind, Option.bind_some,
    Option.bind_eq_some_iff] at h
  obtain ⟨_, hmeans, -⟩ := h
  exact (Option.ite_none_right_eq_some.mp hmeans).1

namespace Env

/-- Methods that resolve each by itself resolve, or one of them is declared twice. -/
theorem resolveMethods_of_alone {decls : List MethodDecl} {seen : List (String × String)}
    {r : Progress} (h : decls.forM env.resolveAlone q = .ok ((), r)) :
    env.resolveMethods seen decls q = .ok ((), r) ∨
      ∃ e, env.resolveMethods seen decls q = .error e ∧ e.IsOfMethod := by
  induction decls generalizing q seen with
  | nil => exact .inl h
  | cons decl decls ih =>
    obtain ⟨_, q₁, hfirst, hrest⟩ := bind_eq_ok_iff.mp h
    obtain ⟨base, _, hmethod, hpure⟩ := bind_eq_ok_iff.mp hfirst
    obtain ⟨-, rfl⟩ := pure_eq_ok_iff.mp hpure
    rw [resolveMethods, bind_eq_of_eq_ok hmethod]
    split
    · exact ih hrest
    · split
      · exact .inr ⟨_, rfl, base, decl.name.text, rfl⟩
      · exact ih hrest

/-- Methods that resolve do so each by itself. -/
theorem alone_of_resolveMethods {decls : List MethodDecl} {seen : List (String × String)}
    {r : Progress} (h : env.resolveMethods seen decls q = .ok ((), r)) :
    decls.forM env.resolveAlone q = .ok ((), r) := by
  induction decls generalizing q seen with
  | nil => exact h
  | cons decl decls ih =>
    obtain ⟨base, q₁, hmethod, hrest⟩ := bind_eq_ok_iff.mp h
    have hfirst : env.resolveAlone decl q = .ok ((), q₁) :=
      bind_eq_ok_iff.mpr ⟨base, q₁, hmethod, rfl⟩
    refine bind_eq_ok_iff.mpr ⟨(), q₁, hfirst, ?_⟩
    split at hrest
    · exact ih hrest
    · split at hrest
      · exact absurd hrest fail_ne_ok
      · exact ih hrest

end Env

namespace Env.TypesKnown

/-- Resolving methods fails for a type, or because an earlier method has the name and the base of
the receiver. -/
theorem resolveMethods_error (h : env.TypesKnown p) (hq : env.SameTypes p q)
    {decls : List MethodDecl} {seen : List (String × String)} {e : ResolveError}
    (hrun : env.resolveMethods seen decls q = .error e) :
    env.IsTypeError e ∨ ∃ l d r base, decls = l ++ d :: r ∧ d.key? = some (base, d.name.text) ∧
      env.scope.isType base = true ∧
      ((base, d.name.text) ∈ seen ∨ (base, d.name.text) ∈ l.filterMap MethodDecl.key?) := by
  -- what was seen at first grows by the keys of the methods that were passed
  induction decls generalizing q seen with
  | nil => cases hrun
  | cons decl decls ih =>
    rcases bind_eq_error_iff.mp hrun with hfirst | ⟨base, q₁, hfirst, hrest⟩
    · have hnames : env.UsesOnly fun _ => True := fun _ _ _ _ _ => trivial
      exact .inl (Env.resolveMethod_fails hnames decl (fun _ _ => trivial) trivial q e hfirst).ofType
    obtain ⟨hq₁, ⟨receiver, hreceiver, rfl⟩, f, ⟨hmeaning, -⟩, -⟩ := h.resolveMethod_ok hq hfirst
    split at hrest
    · next hblank =>
      obtain herror | ⟨l, d, r, base, rfl, hkey, htype, hmem⟩ := ih hq₁ hrest
      · exact .inl herror
      · have hnone : decl.key? = none := if_pos hblank
        refine .inr ⟨decl :: l, d, r, base, rfl, hkey, htype, hmem.imp_right fun hmem => ?_⟩
        rwa [List.filterMap_cons_none hnone]
    · next hblank =>
      have hdecl : decl.key? = some (receiver.base.text, decl.name.text) :=
        MethodDecl.key?_eq_some_iff.mpr ⟨rfl, hblank, receiver, hreceiver, rfl⟩
      split at hrest
      · next hseen =>
        exact .inr ⟨[], decl, decls, receiver.base.text, rfl, hdecl,
          MethodDecl.isType_of_meaning? hmeaning hreceiver, .inl (by simpa using hseen)⟩
      · obtain herror | ⟨l, d, r, base, rfl, hkey, htype, hmem⟩ := ih hq₁ hrest
        · exact .inl herror
        · refine .inr ⟨decl :: l, d, r, base, rfl, hkey, htype, ?_⟩
          rw [List.filterMap_cons_some hdecl, List.mem_cons]
          rcases hmem with hmem | hmem
          · exact (List.mem_cons.mp hmem).symm.imp_right .inl
          · exact .inr (.inr hmem)

end Env.TypesKnown

namespace SourceFile

variable {file : SourceFile} {config : Config}

/-- A file that is accepted does not repeat a method as it is written. -/
theorem not_repeats_of_resolve {result : ResolvedFile} (h : file.resolve config = .ok result) :
    ¬ file.Repeats MethodDecl.SameText := by
  obtain ⟨env, p, functions, methods, -, -, hread, -⟩ := resolve_ok h
  rw [repeats_sameText_iff, not_not]
  exact hread.distinct

/-- A file that is refused for a method repeats one as it is written, and the base of the receivers
is a type. -/
theorem repeats_of_refusedForMethod (h : file.RefusedForMethod config) :
    ∃ env p, file.settleTypes config = .ok (env, p) ∧
      file.Repeats fun d d' => d.SameText d' ∧ d.SameBase env p d' := by
  obtain ⟨e, receiver, name, herror, hcause⟩ := h
  have hmethod : e.IsOfMethod := ⟨receiver, name, hcause⟩
  obtain ⟨env, p, q, hsettle, hq, hmethods⟩ := methods_of_resolve_error herror hmethod
  have htypes := typesKnown_of_settleTypes hsettle
  obtain hfails | ⟨l, d, r, base, hdecls, hkey, hbase, hmem⟩ :=
    htypes.resolveMethods_error hq hmethods
  · exact absurd hmethod hfails.not_isOfMethod
  obtain ⟨d', hd', hkey'⟩ := List.mem_filterMap.mp (hmem.resolve_left List.not_mem_nil)
  obtain ⟨-, -, receiver, hreceiver, rfl⟩ := MethodDecl.key?_eq_some_iff.mp hkey
  obtain ⟨hname, hblank, receiver', hreceiver', hsame⟩ := MethodDecl.key?_eq_some_iff.mp hkey'
  obtain ⟨type, htype⟩ := htypes.complete _ hbase
  have hsub : [d', d].Sublist file.methodDecls := by
    rw [hdecls]
    exact (List.singleton_sublist.mpr hd').append (List.singleton_sublist.mpr List.mem_cons_self)
  refine ⟨env, p, hsettle, d', d, hsub, hname, hname ▸ hblank, ⟨_, _, hreceiver', hreceiver, hsame⟩,
    type.base, ?_, ?_⟩
  · simp [MethodDecl.baseType?, hreceiver', hsame, htype]
  · simp [MethodDecl.baseType?, hreceiver, htype]

namespace OtherwiseResolves

/-- The declarations of a file that is accepted resolve. -/
theorem of_resolve {result : ResolvedFile} (h : file.resolve config = .ok result) :
    file.OtherwiseResolves config := by
  rw [resolve_eq] at h
  obtain ⟨⟨env, p⟩, hsettle, h⟩ := Except.bind_eq_ok_iff.mp h
  obtain ⟨⟨_, p'⟩, hcheck, h⟩ := Except.bind_eq_ok_iff.mp h
  obtain ⟨⟨_, r⟩, hothers, -⟩ := Except.bind_eq_ok_iff.mp h
  obtain ⟨-, rfl⟩ := Env.of_checkContainment_eq_ok hcheck
  obtain ⟨_, q₁, hvalues, hothers⟩ := bind_eq_ok_iff.mp hothers
  obtain ⟨_, q₂, hdefine, hothers⟩ := bind_eq_ok_iff.mp hothers
  obtain ⟨_, q₃, hfunctions, hmethods⟩ := bind_eq_ok_iff.mp hothers
  refine ⟨env, p, r, hsettle, hcheck, bind_eq_ok_iff.mpr ⟨_, q₁, hvalues, ?_⟩⟩
  refine bind_eq_ok_iff.mpr ⟨_, q₂, hdefine, bind_eq_ok_iff.mpr ⟨_, q₃, hfunctions, ?_⟩⟩
  exact Env.alone_of_resolveMethods hmethods

theorem settleTypes (h : file.OtherwiseResolves config) :
    ∃ env p, file.settleTypes config = .ok (env, p) := by
  obtain ⟨env, p, -, hsettle, -⟩ := h
  exact ⟨env, p, hsettle⟩

/-- A file whose declarations resolve otherwise is accepted or refused for a method. -/
theorem resolves_or_refused (h : file.OtherwiseResolves config) :
    (∃ result, file.resolve config = .ok result) ∨ file.RefusedForMethod config := by
  obtain ⟨env, p, r, hsettle, hcheck, hapart⟩ := h
  obtain ⟨_, q₁, hvalues, hapart⟩ := bind_eq_ok_iff.mp hapart
  obtain ⟨_, q₂, hdefine, hapart⟩ := bind_eq_ok_iff.mp hapart
  obtain ⟨_, q₃, hfunctions, hmethods⟩ := bind_eq_ok_iff.mp hapart
  -- up to its methods the file is resolved in the same way
  have hresolve : ∀ result, env.resolveMethods [] file.methodDecls q₃ = result →
      file.resolve config = result.map fun resolved =>
        ⟨file.path, file.packageName, resolved.2.definitions, resolved.2.table⟩ := by
    rintro _ rfl
    rw [resolve_eq, hsettle]
    show (env.checkContainment p >>= _) = _
    rw [hcheck]
    show (env.resolveOthers file p >>= _) = _
    rw [Env.resolveOthers, bind_eq_of_eq_ok hvalues, bind_eq_of_eq_ok hdefine,
      bind_eq_of_eq_ok hfunctions]
    cases env.resolveMethods [] file.methodDecls q₃ <;> rfl
  rcases Env.resolveMethods_of_alone hmethods with hok | ⟨e, herror, receiver, name, hcause⟩
  · exact .inl ⟨_, hresolve _ hok⟩
  · exact .inr ⟨e, receiver, name, hresolve _ herror, hcause⟩

/-- Repeated methods are refused as they are written. -/
theorem refusedForMethod_iff (h : file.OtherwiseResolves config) :
    file.RefusedForMethod config ↔ file.Repeats MethodDecl.SameText := by
  constructor
  · intro hrefused
    obtain ⟨env, p, -, d, d', hsub, hname, hblank, hsame, -⟩ := repeats_of_refusedForMethod hrefused
    exact ⟨d, d', hsub, hname, hblank, hsame⟩
  · intro hrepeats
    refine h.resolves_or_refused.resolve_left ?_
    rintro ⟨result, hresolve⟩
    exact not_repeats_of_resolve hresolve hrepeats

end OtherwiseResolves

/-! ## When repeated methods are refused -/

/-- Repeated methods are refused exactly if, whenever two methods of one name have receivers of one
base type, two methods of one name have receivers that are written with one name. -/
theorem refusesRepeats_iff (file : SourceFile) (config : Config) :
    file.RefusesRepeats config ↔ ∀ env p, file.settleTypes config = .ok (env, p) →
      file.OtherwiseResolves config → file.Repeats (MethodDecl.SameBase env p) →
        file.Repeats MethodDecl.SameText := by
  constructor
  · intro h env p hsettle hresolves hrepeats
    obtain ⟨env', p', hsettle', hiff⟩ := h hresolves
    cases hsettle.symm.trans hsettle'
    exact hresolves.refusedForMethod_iff.mp (hiff.mpr hrepeats)
  · intro h hresolves
    obtain ⟨env, p, hsettle⟩ := hresolves.settleTypes
    refine ⟨env, p, hsettle, fun hrefused => ?_, fun hrepeats => ?_⟩
    · obtain ⟨env', p', hsettle', d, d', hsub, hname, hblank, -, hsame⟩ :=
        repeats_of_refusedForMethod hrefused
      cases hsettle.symm.trans hsettle'
      exact ⟨d, d', hsub, hname, hblank, hsame⟩
    · exact hresolves.refusedForMethod_iff.mpr (h env p hsettle hresolves hrepeats)

/-- Repeated methods are refused where no receiver is written with another name for its type. -/
theorem refusesRepeats_of_defined
    (h : ∀ spec ∈ file.typeSpecs, spec.isAlias = true → ∀ d ∈ file.methodDecls,
      ∀ receiver, d.receiver = some receiver → receiver.base.text ≠ spec.name.text) :
    file.RefusesRepeats config := by
  refine (refusesRepeats_iff file config).mpr ?_
  rintro env p hsettle - ⟨d, d', hsub, hname, hblank, type, htype, htype'⟩
  obtain ⟨p₀, henter, -, hp⟩ := settleTypes_ok hsettle
  have hentered := enterTypes_ok henter
  -- the base of a receiver is a defined type, so its type tells its name
  have hbase : ∀ d ∈ file.methodDecls, d.baseType? env p = some type → ∃ receiver,
      d.receiver = some receiver ∧ ∃ e ∈ p₀.entered, e.name.text = receiver.base.text ∧
        type = .named e.id [] := by
    intro d hd htype
    obtain ⟨receiver, hreceiver, htype⟩ := Option.bind_eq_some_iff.mp htype
    obtain ⟨found, hfound, rfl⟩ := Option.map_eq_some_iff.mp htype
    have hdefined : env.scope.isAlias receiver.base.text = false := by
      by_contra halias
      obtain ⟨spec, hspec⟩ := FileScope.isType_iff.mp
        (FileScope.isType_of_isAlias (by simpa using halias))
      obtain ⟨hmem, hspecName, -⟩ := (FileScope.lookup_eq_type_iff hentered.scope).mp hspec
      rw [FileScope.isAlias_eq hspec, Bool.not_eq_false] at halias
      exact h spec (mem_typeSpecs.mpr hmem) halias d hd receiver hreceiver hspecName.symm
    obtain ⟨e, he, hename, rfl⟩ := Env.entered_of_typeOf? hdefined hfound
    rw [hp] at he
    exact ⟨receiver, hreceiver, e, he, hename, rfl⟩
  obtain ⟨r, hr, e, he, hename, rfl⟩ :=
    hbase d (hsub.subset List.mem_cons_self) htype
  obtain ⟨r', hr', e', he', hename', hid⟩ :=
    hbase d' (hsub.subset (List.mem_cons_of_mem _ List.mem_cons_self)) htype'
  obtain ⟨hid, -⟩ := Ty.named.injEq .. ▸ hid
  have hsame : e = e' := hentered.consistent.eq_of_id_eq he he' hid
  exact ⟨d, d', hsub, hname, hblank, r, r', hr, hr', by rw [← hename, hsame, hename']⟩

/-! ## Two names for a receiver -/

/-- The file `type S struct{}; type A = S; func (S) M() {}; func (A) M() {}`. -/
def ofRenamedReceiver : SourceFile where
  path := "a.go"
  packageName := "p"
  declarations :=
    [.type ⟨⟨"S", ⟨16, 3, 6⟩⟩, false, [], .struct []⟩,
      .type ⟨⟨"A", ⟨33, 5, 6⟩⟩, true, [], .named (.plain ⟨"S", ⟨37, 5, 10⟩⟩) []⟩,
      .method ⟨⟨"(S)", ⟨45, 7, 6⟩⟩,
        some ⟨"", .named (.plain ⟨"S", ⟨46, 7, 7⟩⟩) [], ⟨"S", ⟨46, 7, 7⟩⟩, []⟩,
        ⟨"M", ⟨49, 7, 10⟩⟩, ⟨[], .list []⟩⟩,
      .method ⟨⟨"(A)", ⟨62, 9, 6⟩⟩,
        some ⟨"", .named (.plain ⟨"A", ⟨63, 9, 7⟩⟩) [], ⟨"A", ⟨63, 9, 7⟩⟩, []⟩,
        ⟨"M", ⟨66, 9, 10⟩⟩, ⟨[], .list []⟩⟩]

/-- Both methods `M` belong to `S`, and the file is accepted. -/
theorem not_refusesRepeats_ofRenamedReceiver :
    ¬ ofRenamedReceiver.RefusesRepeats {} ∧
      ∃ result, ofRenamedReceiver.resolve {} = .ok result ∧
        result.functions.map FuncDef.name = ["M", "M"] ∧
        result.functions.map (fun f => f.signature.receiver.map Var.type) =
          [some (.named 2 []), some (.named 2 [])] := by
  have hsettles : (ofRenamedReceiver.settleTypes {}).toOption.map (fun settled =>
      ofRenamedReceiver.methodDecls.map (MethodDecl.baseType? settled.1 settled.2)) =
        some [some (.named 2 []), some (.named 2 [])] := by
    decide +kernel
  have hresolves : (ofRenamedReceiver.resolve {}).toOption.map (fun result =>
      (result.functions.map FuncDef.name,
        result.functions.map fun f => f.signature.receiver.map Var.type)) =
        some (["M", "M"], [some (.named 2 []), some (.named 2 [])]) := by
    decide +kernel
  obtain ⟨⟨env, p⟩, hsettle, hbases⟩ := Option.map_eq_some_iff.mp hsettles
  obtain ⟨result, hresolve, hresult⟩ := Option.map_eq_some_iff.mp hresolves
  obtain ⟨hnames, hreceivers⟩ := Prod.mk.injEq .. ▸ hresult
  rw [Except.toOption_eq_some_iff] at hsettle hresolve
  refine ⟨fun h => ?_, result, hresolve, hnames, hreceivers⟩
  obtain ⟨env', p', hsettle', hrefused⟩ := h (.of_resolve hresolve)
  cases hsettle.symm.trans hsettle'
  obtain ⟨hfirst, hrest⟩ := List.cons.inj (show _ :: [_] = _ from hbases)
  obtain ⟨e, -, -, herror, -⟩ := hrefused.mpr
    ⟨_, _, List.Sublist.refl _, rfl, by decide, _, hfirst, (List.cons.inj hrest).1⟩
  cases hresolve.symm.trans herror

end SourceFile

end GoSignatures
