import GoSignatures.Proofs.Recursion.Copying
import GoSignatures.Proofs.Report.Copying
import GoSignatures.Proofs.Resolution.Inserting
import GoSignatures.Proofs.Resolution.Instances
import GoSignatures.Proofs.Resolution.Receiving

/-!
# A blank declaration receives a name

A blank declaration of a type may be given a name that the file does not use. Then the file is
accepted as it was, and the reports on it are the same: stage by stage, what is found without the
name is copied into what is found with it.

* `FileScope.ofDeclarations_named` — the scope has one name more
* `Env.settlePending_alike`, `Env.checkContainment_alike` — the stages over the table
* `SourceFile.acceptedAlike_naming` — the whole file
-/

namespace GoSignatures

open Resolve

/-! ## The scope with one name more -/

namespace FileScope

/-- The scope has one type more. -/
structure Adds (scope : FileScope) (name : String) (spec : TypeSpec) (scope' : FileScope) :
    Prop where
  imports : scope'.imports = scope.imports
  entries : ∃ l r, scope.entries = l ++ r ∧ scope'.entries = l ++ (name, .type spec) :: r
  unknown : scope.lookup name = none

namespace Adds

variable {scope scope' : FileScope} {name : String} {spec : TypeSpec}
  (h : scope.Adds name spec scope')
include h

theorem lookup {other : String} (hother : other ≠ name) :
    scope'.lookup other = scope.lookup other := by
  obtain ⟨l, r, hentries, hentries'⟩ := h.entries
  have hbeq : (other == name) = false := beq_eq_false_iff_ne.mpr hother
  rw [FileScope.lookup, FileScope.lookup, hentries, hentries', List.lookup_append,
    List.lookup_append, List.lookup_cons, hbeq]

theorem known : scope'.lookup name = some (.type spec) := by
  obtain ⟨l, r, hentries, hentries'⟩ := h.entries
  have hnone : l.lookup name = none := by
    have hunknown := h.unknown
    rw [FileScope.lookup, hentries, List.lookup_append, Option.or_eq_none_iff] at hunknown
    exact hunknown.1
  rw [FileScope.lookup, hentries', List.lookup_append, hnone, List.lookup_cons_self]
  rfl

/-- More declarations may nest. -/
theorem nesting_lt : scope.nesting < scope'.nesting := by
  obtain ⟨l, r, hentries, hentries'⟩ := h.entries
  have hcount : ∀ aliases, scope'.countTypes aliases =
      scope.countTypes aliases + if spec.isAlias = aliases then 1 else 0 := by
    intro aliases
    rw [countTypes, countTypes, hentries, hentries', List.countP_append, List.countP_append,
      List.countP_cons]
    simp only [beq_iff_eq]
    omega
  have hone : (spec.isAlias = false ∧ spec.isAlias ≠ true) ∨
      (spec.isAlias = true ∧ spec.isAlias ≠ false) := by
    cases spec.isAlias <;> simp
  rw [nesting, nesting, hcount, hcount]
  rcases hone with ⟨hdefined, hnot⟩ | ⟨halias, hnot⟩
  · rw [if_pos hdefined, if_neg hnot]
    exact Nat.mul_lt_mul_of_pos_right (Nat.lt_succ_self _) (Nat.succ_pos _)
  · rw [if_neg hnot, if_pos halias]
    exact Nat.mul_lt_mul_of_pos_left (Nat.lt_succ_self _) (Nat.succ_pos _)

end Adds

section

variable {path : String} {before after : List Declaration} {spec : TypeSpec} {name : String}
  (hblank : spec.name.text = "_") (hname : name ≠ "_")
  (hnew : name ∉ (introduced (before ++ .type spec :: after)).map Prod.fst)
include hblank hname hnew

/-- A scope is collected with a name for a blank declaration if it is without. -/
theorem ofDeclarations_named :
    Except.Alike (fun scope scope' => scope.Adds name (spec.named name) scope')
      (ofDeclarations path (before ++ .type spec :: after))
      (ofDeclarations path (before ++ .type (spec.named name) :: after)) := by
  have hintroduced : introduced (before ++ .type spec :: after) =
      introduced before ++ introduced after := by
    simp [introduced, Declaration.introduced, entered, Declaration.names, introducesNothing, hblank]
  have hintroduced' : introduced (before ++ .type (spec.named name) :: after) =
      introduced before ++ (name, .type (spec.named name)) :: introduced after := by
    simp [introduced, Declaration.introduced, entered, Declaration.names, introducesNothing,
      TypeSpec.named, hname]
  have hspecs : ∀ spec : TypeSpec, Declaration.importSpecs (before ++ .type spec :: after) =
      Declaration.importSpecs before ++ Declaration.importSpecs after := by
    simp [Declaration.importSpecs]
  have hnodup : ((introduced (before ++ .type (spec.named name) :: after)).map Prod.fst).Nodup ↔
      ((introduced (before ++ .type spec :: after)).map Prod.fst).Nodup := by
    rw [hintroduced] at hnew ⊢
    rw [hintroduced', List.map_append, List.map_cons, List.nodup_middle, ← List.map_append,
      List.nodup_cons]
    exact and_iff_right hnew
  have hnames : Declaration.importedNames (before ++ .type (spec.named name) :: after) =
      Declaration.importedNames (before ++ .type spec :: after) := by
    rw [Declaration.importedNames, Declaration.importedNames, hspecs, hspecs]
  cases hscope : ofDeclarations path (before ++ .type spec :: after) with
  | ok scope =>
    have hcollected := ofDeclarations_eq_ok_iff.mp hscope
    obtain ⟨himports, hentries, rfl⟩ := hcollected
    rw [ofDeclarations_eq_ok_iff.mpr ⟨hnames ▸ himports, hnodup.mpr hentries, rfl⟩]
    refine .ok ⟨?_, ?_, lookup_eq_none_iff.mpr hnew⟩
    · simp only [Imports.ofDeclarations, hspecs]
    · exact ⟨_, _, hintroduced, hintroduced'⟩
  | error e =>
    cases hscope' : ofDeclarations path (before ++ .type (spec.named name) :: after) with
    | error e' => exact .error e e'
    | ok scope' =>
      obtain ⟨himports, hentries, -⟩ := ofDeclarations_eq_ok_iff.mp hscope'
      have hok : ofDeclarations path (before ++ .type spec :: after) = .ok _ :=
        ofDeclarations_eq_ok_iff.mpr ⟨hnames ▸ himports, hnodup.mp hentries, rfl⟩
      rw [hscope] at hok
      cases hok

end

end FileScope

/-! ## Whole files -/

namespace SourceFile

/-- A name that is not declared in a file, neither at file level nor as a type parameter, and that
is not used there. -/
structure Unused (file : SourceFile) (name : String) : Prop where
  notBlank : name ≠ "_"
  introduced : name ∉ (FileScope.introduced file.declarations).map Prod.fst
  params : ∀ d ∈ file.declarations, name ∉ d.params
  uses : file.UsesOnly (· ≠ name)

/-- The file in which a declaration of a type stands under another name. -/
def naming (file : SourceFile) (before after : List Declaration) (spec : TypeSpec)
    (name : String) : SourceFile :=
  { file with declarations := before ++ .type (spec.named name) :: after }

/-- Two files are both refused, or both accepted with the same reports. -/
def AcceptedAlike (file file' : SourceFile) (config : Config) : Prop :=
  Except.Alike (fun result result' => ∀ path requested,
    result'.report path requested = result.report path requested)
    (file.resolve config) (file'.resolve config)

section

variable {file : SourceFile} {config : Config} {before after : List Declaration} {spec : TypeSpec}
  {name : String}

theorem typeSpecs_of_eq {middle : TypeSpec}
    (h : file.declarations = before ++ .type middle :: after) :
    file.typeSpecs = { file with declarations := before }.typeSpecs ++
      middle :: { file with declarations := after }.typeSpecs := by
  simp [typeSpecs, h]

namespace Unused

variable (h : file.Unused name)
include h

theorem avoids {env : Env}
    (hscope : FileScope.ofDeclarations file.path file.declarations = .ok env.scope) :
    env.Avoids name := by
  intro other spec hspec
  refine ⟨fun hmem => ?_, h.uses.types hscope other spec hspec⟩
  obtain ⟨hdeclared, -⟩ := (FileScope.lookup_eq_type_iff hscope).mp hspec
  unfold TypeSpec.params at hmem
  split at hmem
  · cases hmem
  · exact h.params _ hdeclared hmem

theorem typeSpec {env : Env}
    (hscope : FileScope.ofDeclarations file.path file.declarations = .ok env.scope)
    {spec : TypeSpec} (hspec : spec ∈ file.typeSpecs) : spec.Avoids env name := by
  refine ⟨?_, h.uses.blank spec hspec, fun hname => (FileScope.lookup_eq_type_iff hscope).mpr
    ⟨mem_typeSpecs.mp hspec, rfl, hname⟩⟩
  rintro rfl
  exact h.introduced (List.mem_map.mpr ⟨_, FileScope.mem_introduced_type.mpr
    ⟨mem_typeSpecs.mp hspec, rfl, h.notBlank⟩, rfl⟩)

end Unused

end

end SourceFile

/-! ## Stages over the table -/

section

variable {env env' : Env} {f : Nat → Nat} {extra : List String} {p p' : Progress}

/-- Types are settled alike. -/
theorem Env.settlePending_alike (hconsistent : env.Consistent [] [] p)
    (hwaits : p'.table.Waits p'.pending) (h : p.Copied f extra p') :
    Except.Alike (fun a b => a.2.Copied f extra b.2) (env.settlePending p)
      (env'.settlePending p') := by
  have hiff := h.settle_ok_iff hconsistent hwaits
  unfold settlePending
  rw [get_bind, get_bind]
  cases hsettle : p.table.settle p.pending with
  | ok t =>
    obtain ⟨t', hsettle'⟩ := hiff.mpr ⟨t, hsettle⟩
    rw [hsettle']
    exact .ok (h.settled (Table.settle_ok hconsistent.waits hsettle)
      (Table.settle_ok hwaits hsettle'))
  | error id =>
    cases hsettle' : p'.table.settle p'.pending with
    | ok t' =>
      obtain ⟨t, hok⟩ := hiff.mp ⟨t', hsettle'⟩
      rw [hsettle] at hok
      cases hok
    | error id' =>
      obtain ⟨e, -, herror, -⟩ := @failRecursive_eq env p id
      obtain ⟨e', -, herror', -⟩ := @failRecursive_eq env' p' id'
      exact .inr ⟨e, e', herror, herror'⟩

/-- In a copy of a progress the same entered types contain themselves by value. -/
theorem Progress.Copied.containsItself_iff (h : p.Copied f extra p') :
    (∃ e ∈ p'.entered, p'.table.containsItself e.id = true) ↔
      ∃ e ∈ p.entered, p.table.containsItself e.id = true := by
  constructor
  · rintro ⟨e', he', hcontains⟩
    -- the additional type is not copied, and nothing that is copied refers to it
    cases hextra : extra.contains e'.name.text with
    | true =>
      have hnot := h.table.not_containsItself (h.outside e' he' hextra)
      rw [hnot] at hcontains
      cases hcontains
    | false =>
      have hkept : e' ∈ p'.entered.filter fun e => !extra.contains e.name.text :=
        List.mem_filter.mpr ⟨he', by rw [hextra]; rfl⟩
      rw [h.entered] at hkept
      obtain ⟨e, he, rfl⟩ := List.mem_map.mp hkept
      exact ⟨e, he, (h.table.containsItself e.id).symm.trans hcontains⟩
  · rintro ⟨e, he, hcontains⟩
    have hkept : e.rename f ∈ p'.entered.filter fun e => !extra.contains e.name.text := by
      rw [h.entered]
      exact List.mem_map_of_mem he
    exact ⟨e.rename f, (List.mem_filter.mp hkept).1,
      (h.table.containsItself e.id).trans hcontains⟩

/-- Types that contain themselves by value are refused alike. -/
theorem Env.checkContainment_alike (h : p.Copied f extra p') :
    Except.Alike (fun _ _ => True) (env.checkContainment p) (env'.checkContainment p') := by
  have hrefused : ∀ (env : Env) (p : Progress),
      (∃ e ∈ p.entered, p.table.containsItself e.id = true) →
        ∃ error, env.checkContainment p = .error error := by
    rintro env p ⟨e, he, hcontains⟩
    obtain ⟨e', -, -, hfails⟩ := env.checkContainment_eq_failRecursive he hcontains
    obtain ⟨error, -, herror, -⟩ := @failRecursive_eq env p e'.id
    exact ⟨error, hfails.trans herror⟩
  have hpassed : ∀ (env : Env) (p : Progress),
      (¬ ∃ e ∈ p.entered, p.table.containsItself e.id = true) →
        env.checkContainment p = .ok ((), p) := fun _ _ hnone =>
    checkContainment_eq_ok fun e he =>
      Bool.eq_false_iff.mpr fun hcontains => hnone ⟨e, he, hcontains⟩
  by_cases hcontains : ∃ e ∈ p.entered, p.table.containsItself e.id = true
  · obtain ⟨error, herror⟩ := hrefused env p hcontains
    obtain ⟨error', herror'⟩ := hrefused env' p' (h.containsItself_iff.mpr hcontains)
    exact .inr ⟨error, error', herror, herror'⟩
  · rw [hpassed env p hcontains, hpassed env' p' (mt h.containsItself_iff.mp hcontains)]
    exact .ok trivial

end

namespace SourceFile

variable {file : SourceFile} {config : Config} {before after : List Declaration} {spec : TypeSpec}
  {name : String} (hdeclarations : file.declarations = before ++ .type spec :: after)
  (hblank : spec.name.text = "_") (hparams : spec.typeParams = []) (hunused : file.Unused name)
include hdeclarations hblank hparams hunused

/-- The types of a file are entered alike. -/
theorem enterTypes_naming :
    Except.Alike (fun a b => a.1.Widens b.1 name ∧ ∃ f, a.2.Copied f [name] b.2)
      (file.enterTypes config) ((file.naming before after spec name).enterTypes config) := by
  have hcollect : Except.Alike (fun scope scope' => scope.Adds name (spec.named name) scope')
      (FileScope.ofDeclarations file.path file.declarations)
      (FileScope.ofDeclarations file.path (before ++ .type (spec.named name) :: after)) :=
    hdeclarations ▸ FileScope.ofDeclarations_named hblank hunused.notBlank
      (hdeclarations ▸ hunused.introduced)
  refine hcollect.bind fun scope scope' hscope hscope' hadds => ?_
  let env : Env := ⟨file.path, file.packageName, config, scope⟩
  let env' : Env := ⟨file.path, file.packageName, config, scope'⟩
  have hwidens : env.Widens env' name :=
    ⟨rfl, rfl, hadds.imports, fun _ => hadds.lookup, hadds.unknown, _, hadds.known⟩
  have hnamed := FileScope.named_ofDeclarations hscope
  have havoids : env.Avoids name := hunused.avoids hscope
  have hspecs := typeSpecs_of_eq hdeclarations
  have hspecs' : (file.naming before after spec name).typeSpecs =
      { file with declarations := before }.typeSpecs ++
        spec.named name :: { file with declarations := after }.typeSpecs := typeSpecs_of_eq rfl
  have hall : ∀ other ∈ file.typeSpecs, other.Avoids env name := fun _ hother =>
    hunused.typeSpec hscope hother
  rw [hspecs] at hall ⊢
  rw [hspecs']
  exact (Env.resolveTypeSpecs_insert hwidens hnamed havoids hall hblank hparams hunused.notBlank
    hadds.known hadds.nesting_lt).bind fun _ _ _ _ h => .ok ⟨hwidens, h⟩

/-- The types of a file are settled alike. -/
theorem settleTypes_naming :
    Except.Alike (fun a b => a.1.Widens b.1 name ∧ ∃ f, a.2.Copied f [name] b.2)
      (file.settleTypes config) ((file.naming before after spec name).settleTypes config) := by
  refine (enterTypes_naming hdeclarations hblank hparams hunused).bind ?_
  rintro ⟨env, p⟩ ⟨env', p'⟩ henter henter' ⟨hwidens, f, hp⟩
  have hconsistent := (enterTypes_ok henter).consistent
  have hwaits' := (enterTypes_ok henter').consistent.waits
  refine (Env.settlePending_alike hconsistent hwaits' hp).bind fun _ _ _ _ h => .ok ⟨hwidens, f, h⟩

/-- A file is accepted with a name for a blank declaration if it is accepted without, and the
reports are the same. -/
theorem acceptedAlike_naming :
    file.AcceptedAlike (file.naming before after spec name) config := by
  unfold AcceptedAlike
  rw [resolve_eq, resolve_eq]
  refine (settleTypes_naming hdeclarations hblank hparams hunused).bind ?_
  rintro ⟨env, p⟩ ⟨env', p'⟩ hsettle - ⟨hwidens, f, hp⟩
  have hknown := typesKnown_of_settleTypes hsettle
  refine (Env.checkContainment_alike hp).bind ?_
  rintro ⟨_, q⟩ ⟨_, q'⟩ hcheck hcheck' -
  obtain ⟨-, rfl⟩ := Env.of_checkContainment_eq_ok hcheck
  obtain ⟨-, rfl⟩ := Env.of_checkContainment_eq_ok hcheck'
  have hextra : ∀ other, other ≠ name → [name].contains other = false := by simp
  have hvalues : (file.naming before after spec name).valueSpecs = file.valueSpecs := by
    simp [naming, valueSpecs, hdeclarations]
  have hfunctions : (file.naming before after spec name).funcDecls = file.funcDecls := by
    simp [naming, funcDecls, hdeclarations]
  have hmethods : (file.naming before after spec name).methodDecls = file.methodDecls := by
    simp [naming, methodDecls, hdeclarations]
  refine (Env.resolveOthers_follow hwidens hextra hunused.uses
    (fun decl hdecl => hunused.params _ (mem_funcDecls.mp hdecl))
    (fun decl hdecl => hunused.params _ (mem_methodDecls.mp hdecl)) hvalues hfunctions hmethods
    p p' ⟨hp, hknown.complete⟩).bind fun a b _ _ ⟨_, hr, _⟩ => .ok ?_
  exact ResolvedFile.Copied.report ⟨rfl, hr.table, hr.functions⟩

end SourceFile

end GoSignatures
