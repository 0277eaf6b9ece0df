import GoSignatures.Proofs.Resolution.Entering
import GoSignatures.Proofs.Resolution.Reflecting

/-!
# Declared names with a memory

Entering a declared name with a memory does what entering it does with the context handed down. What
is put back is the context from before, and another name for a type that is remembered anew stands
for the same type as before.

* `Env.EntersMirrored` — entering names with a memory does what entering them does
* `Env.enterTypeIn_mirrored` — it does, at every depth
-/

namespace GoSignatures

open Resolve

variable {params resolving : List String} {env : Env} {p : Progress} {m : Memory}
  {opened unset : List EnteredType}

/-! ## The memory of a step -/

namespace Memory.Reflects

/-- The context may be exchanged. -/
theorem inContext (h : m.Reflects params resolving p) (params' resolving' : List String) :
    ({ m with params := params', resolving := resolving' } : Memory).Reflects params' resolving'
      p :=
  { h with params := rfl, resolving := rfl }

theorem withParams (h : m.Reflects params resolving p) (params' : List String) :
    ({ m with params := params' } : Memory).Reflects params' resolving p :=
  { h with params := rfl }

theorem enteredType? (h : m.Reflects params resolving p) (name : String) :
    m.enteredType? name = p.enteredType? name := by
  rw [Progress.enteredType?, Progress.enteredType?, h.entered]

theorem enter (h : m.Reflects params resolving p) (name : Piece) (package : String) :
    ({ m with toProgress := m.toProgress.enter name package } : Memory).Reflects params resolving
      (p.enter name package) :=
  { h with
    table := by rw [Progress.enter, Progress.enter, h.table]
    entered := by rw [Progress.enter, Progress.enter, h.table, h.entered] }

theorem setTypeParams (h : m.Reflects params resolving p) (id : Nat) (found : List TypeParam) :
    ({ m with table := m.table.setTypeParams id found } : Memory).Reflects params resolving
      { p with table := p.table.setTypeParams id found } :=
  { h with table := by rw [h.table] }

/-- Another name for a type may be remembered anew if it stands for the same type as before. -/
theorem addAlias (h : m.Reflects params resolving p) {name : String} {type : Ty}
    (hsame : (p.aliases ++ [(name, type)]).lookup name = some type) :
    ({ m with aliases := (name, type) :: m.aliases } : Memory).Reflects params resolving
      { p with aliases := p.aliases ++ [(name, type)] } :=
  { h with
    aliases := fun other => by
      rw [List.lookup_cons]
      by_cases hother : other = name
      · rw [hother, beq_self_eq_true, hsame]
      · rw [beq_false_of_ne hother, h.aliases other, List.lookup_append]
        rw [List.lookup_cons, beq_false_of_ne hother, List.lookup_nil, Option.or_none] }

end Memory.Reflects

/-- An underlying type that is known is assigned. -/
theorem Remember.finish_eq_assign {type : Ty} (h : ∀ target args, type = .named target args →
    ∃ known, m.table.underlying? target = some known) (id : Nat) :
    finish id type m = assign id (m.table.underlying type) m := by
  cases type with
  | named target args =>
    obtain ⟨known, hknown⟩ := h target args rfl
    rw [finish, get_bind, hknown]
    rfl
  | _ => rfl

/-- Finishing a defined type does the same. -/
theorem Resolve.EndsAlike.finish (h : m.Reflects params resolving p) (id : Nat) (type : Ty) :
    EndsAlike params resolving ((modify fun p => p.finish id type : Resolve Unit) p)
      (Remember.finish id type m) := by
  show EndsAlike params resolving (.ok ((), p.finish id type)) _
  rcases p.finish_eq id type with ⟨target, args, rfl, hnone, hfinish⟩ | ⟨hknown, hfinish⟩
  · rw [hfinish, Remember.finish, Remember.get_bind, h.table, hnone]
    exact ⟨rfl, { h with pending := congrArg (· ++ [(id, target)]) h.pending }⟩
  · rw [hfinish, Remember.finish_eq_assign (h.table ▸ hknown), h.table]
    exact ⟨rfl, { h with table := congrArg (Table.setUnderlying · id _) h.table }⟩

/-! ## Entering a name -/

/-- Where the other names `resolving` are being resolved, entering a name with a memory does what
entering it does, whatever type parameters are in force. -/
def Env.EntersMirrored (env : Env) (resolving : List String) (enter : EnterType)
    (enterIn : EnterTypeIn) : Prop :=
  ∀ params opened unset (name : Piece), env.Tracked opened unset name.text →
    Mirrored params resolving (env.Consistent opened unset) (enter name) (enterIn name)

section

variable {enter : EnterType} {enterIn : EnterTypeIn} (henter : env.Enters enter)
  (hmirrored : env.EntersMirrored resolving enter enterIn)
include henter hmirrored

theorem Env.EntersMirrored.typeExpr {e : TypeExpr}
    (huses : ∀ u ∈ e.uses params, env.Tracked opened unset u.1) :
    Mirrored params resolving (env.Consistent opened unset) (e.resolve env enter params)
      (e.resolveIn env enterIn) :=
  TypeExpr.resolveIn_mirrored Consistent.keeps (fun name hname => henter opened unset name hname)
    (fun name hname => hmirrored params opened unset name hname) e huses

end

section

variable {enter : EnterType} {enterIn : EnterTypeIn} (henter : env.Enters enter)
  (hmirrored : env.EntersMirrored [] enter enterIn)
include henter hmirrored

/-- The type parameters of a defined type are set alike, and their names are in force then. -/
theorem Env.EntersMirrored.constraints {e : EnteredType} {spec : TypeSpec}
    (hspec : env.scope.lookup e.name.text = some (.type spec)) (halias : spec.isAlias = false)
    (hused : ∀ e' ∈ opened,
      e'.name.text = e.name.text ∨ Relation.TransGen env.scope.Uses e'.name.text e.name.text)
    (hreached : ∀ e' ∈ unset, env.scope.Reached e'.name.text e.name.text)
    (hp : env.Consistent opened (e :: unset) p) (hm : m.Reflects [] [] p) :
    EndsAlike spec.params [] (spec.resolveParams env enter e.id p)
      (spec.resolveParamsIn env enterIn e.id m) := by
  have hparams : spec.params = TypeParamDecl.allNames spec.typeParams := by
    simp [TypeSpec.params, halias]
  have huses := env.tracked_constraintUses hspec halias hused hreached
  unfold TypeSpec.resolveParams TypeSpec.resolveParamsIn
  rw [← hparams]
  split
  · next hnone =>
    have hempty : spec.params = [] := by
      rw [hparams, List.isEmpty_iff.mp hnone]
      rfl
    rw [hempty]
    exact ⟨rfl, hm⟩
  · have hconstraints : EndsAlike spec.params []
        (TypeParamDecl.resolveAll env enter spec.params spec.typeParams p)
        (TypeParamDecl.resolveAllIn env enterIn spec.typeParams m) := by
      rw [TypeParamDecl.resolveAllIn, Remember.modify_bind, hm.params, List.nil_append, ← hparams]
      exact TypeParamDecl.resolveConstraintsIn_mirrored Consistent.keeps
        (fun name hname => henter opened (e :: unset) name hname)
        (fun name hname => hmirrored spec.params opened (e :: unset) name hname) spec.typeParams
        huses p _ hp (hm.withParams spec.params)
    exact hconstraints.bind fun found q m' _ hm' => ⟨rfl, hm'.setTypeParams e.id found⟩

/-- The declaration of a defined type is resolved alike. -/
theorem Env.EntersMirrored.defined {e : EnteredType} {spec : TypeSpec}
    (hspec : env.scope.lookup e.name.text = some (.type spec)) (halias : spec.isAlias = false)
    (hunset : e ∉ unset)
    (hused : ∀ e' ∈ opened, Relation.TransGen env.scope.Uses e'.name.text e.name.text)
    (hreached : ∀ e' ∈ unset, env.scope.Reached e'.name.text e.name.text)
    (hp : env.Consistent (e :: opened) (e :: unset) p) (hm : m.Reflects [] [] p) :
    EndsAlike spec.params [] (spec.resolveDefined env enter e.id p)
      (spec.resolveDefinedIn env enterIn e.id m) := by
  have hused' : ∀ e' ∈ e :: opened,
      e'.name.text = e.name.text ∨ Relation.TransGen env.scope.Uses e'.name.text e.name.text :=
    List.forall_mem_cons.mpr ⟨Or.inl rfl, fun e' he' => Or.inr (hused e' he')⟩
  have huses : ∀ u ∈ spec.rightUses, env.Tracked (e :: opened) unset u.1 :=
    fun u hu => .of_use (FileScope.mem_usesOf_right hspec hu) hused' hreached
  have hparams : spec.params = TypeParamDecl.allNames spec.typeParams := by
    simp [TypeSpec.params, halias]
  rw [TypeSpec.resolveDefined_eq, TypeSpec.resolveDefinedIn, ← hparams]
  refine (hmirrored.constraints henter hspec halias hused' hreached hp hm).bind
    fun _ p₁ m₁ hrun hm₁ => ?_
  obtain ⟨hp₁, -, -⟩ := henter.constraints hspec halias hunset hused' hreached hp hrun
  exact (hmirrored.typeExpr henter huses p₁ m₁ hp₁ hm₁).bind
    fun type p₂ m₂ _ hm₂ => .finish hm₂ e.id type

end

/-! ## The cases of entering -/

namespace Env

variable {depth : Nat} {name : Piece} {spec : TypeSpec}

theorem enterTypeIn_of_no_type (hlookup : ∀ spec, env.scope.lookup name.text ≠ some (.type spec)) :
    env.enterTypeIn (depth + 1) name = env.failIn name.position (.notAType name.text) := by
  rw [enterTypeIn]
  split
  · next spec hspec => exact absurd hspec (hlookup spec)
  · rfl

section

variable (hlookup : env.scope.lookup name.text = some (.type spec))
include hlookup

theorem enterTypeIn_alias (halias : spec.isAlias = true) :
    env.enterTypeIn (depth + 1) name m =
      spec.resolveAliasIn env (env.enterTypeIn depth) name m := by
  simp only [enterTypeIn, hlookup, halias, if_true]

theorem enterTypeIn_alias_known (halias : spec.isAlias = true) {type : Ty}
    (hknown : m.aliases.lookup name.text = some type) :
    env.enterTypeIn (depth + 1) name m = .ok type m := by
  rw [enterTypeIn_alias hlookup halias, TypeSpec.resolveAliasIn, Remember.get_bind, hknown]
  rfl

theorem enterTypeIn_entered (halias : spec.isAlias = false) {e : EnteredType}
    (hknown : m.enteredType? name.text = some e) :
    env.enterTypeIn (depth + 1) name m = .ok (.named e.id []) m := by
  simp only [enterTypeIn, hlookup, halias, Bool.false_eq_true, if_false, Remember.get_bind, hknown]
  rfl

theorem enterTypeIn_new (halias : spec.isAlias = false)
    (hnew : m.enteredType? name.text = none) :
    env.enterTypeIn (depth + 1) name m = spec.enterDefinedIn env (env.enterTypeIn depth) m := by
  simp only [enterTypeIn, hlookup, halias, Bool.false_eq_true, if_false, Remember.get_bind, hnew]

end

end Env

/-! ## At every depth -/

/-- Another name for a type that is not known yet is resolved alike. -/
theorem Env.EntersMirrored.alias {enter : EnterType} {enterIn : EnterTypeIn}
    (henter : env.Enters enter) {name : Piece}
    (hmirrored : env.EntersMirrored (name.text :: resolving) enter enterIn) {spec : TypeSpec}
    (hspec : env.scope.lookup name.text = some (.type spec)) (halias : spec.isAlias = true)
    (htracked : env.Tracked opened unset name.text) (hp : env.Consistent opened unset p)
    (hm : m.Reflects params resolving p) (hunknown : p.aliases.lookup name.text = none)
    (hnew : resolving.contains name.text = false) :
    EndsAlike params resolving
      ((do
        let type ← spec.type.resolve env enter []
        modify fun p => { p with aliases := p.aliases ++ [(name.text, type)] }
        return type : Resolve Ty) p)
      (spec.resolveAliasIn env enterIn name m) := by
  rw [TypeSpec.resolveAliasIn, Remember.get_bind, hm.aliases, hunknown]
  dsimp only
  rw [Remember.get_bind, hm.resolving, if_neg (by simpa using hnew), Remember.modify_bind,
    Remember.get_bind, Remember.modify_bind, Remember.capture_bind, Remember.modify_bind,
    Remember.modify_bind]
  have hinner := hmirrored.typeExpr henter (htracked.alias_uses hspec halias hp) p
    { m with params := [], resolving := name.text :: m.resolving } hp
    (hm.resolving ▸ hm.inContext [] (name.text :: m.resolving))
  let back (m' : Memory) : Memory :=
    { m' with params := m.params, resolving := m'.resolving.erase name.text }
  refine hinner.capture back fun type q m' hrun hm' => ?_
  have hisAlias : env.scope.isAlias name.text = true := by
    simp [FileScope.isAlias, hspec, halias]
  -- the name may have been resolved on the way; then it was remembered with the same type
  obtain ⟨-, -, hmeans⟩ := henter.alias hspec halias htracked hp hrun
  rw [Env.typeOf?, if_pos hisAlias] at hmeans
  have hback : (back m').Reflects params resolving q :=
    { hm' with
      params := hm.params
      resolving := by
        show m'.resolving.erase name.text = resolving
        rw [hm'.resolving, List.erase_cons_head] }
  exact ⟨rfl, hback.addAlias hmeans⟩

/-- A defined type that is not entered yet is entered alike. -/
theorem Env.EntersMirrored.enterDefined {enter : EnterType} {enterIn : EnterTypeIn}
    (henter : env.Enters enter) (hmirrored : env.EntersMirrored [] enter enterIn) {spec : TypeSpec}
    (hspec : env.scope.lookup spec.name.text = some (.type spec)) (halias : spec.isAlias = false)
    (htracked : env.Tracked opened unset spec.name.text) (hp : env.Consistent opened unset p)
    (hm : m.Reflects params resolving p) (hunknown : p.enteredType? spec.name.text = none) :
    EndsAlike params resolving
      ((do
        spec.resolveDefined env enter p.table.size
        return .named p.table.size [] : Resolve Ty) (p.enter spec.name env.packageName))
      (spec.enterDefinedIn env enterIn m) := by
  -- the place that is made is not among the places from before
  have hnew : ⟨spec.name, p.table.size⟩ ∉ unset := fun hmem =>
    absurd (hp.bounds (hp.unfinished _ (hp.noParams _ hmem).1).1).2 (Nat.lt_irrefl _)
  have hinner := hmirrored.defined henter hspec halias hnew htracked.opened
    (htracked.reached_new hp hunknown) (hp.enter hspec halias hunknown)
    ((hm.enter spec.name env.packageName).inContext [] [])
  rw [TypeSpec.enterDefinedIn, Remember.get_bind, Remember.update_bind, Remember.get_bind,
    Remember.get_bind, Remember.modify_bind, Remember.capture_bind, Remember.modify_bind,
    Remember.modify_bind, hm.table]
  let back (m' : Memory) : Memory := { m' with params := m.params, resolving := m.resolving }
  exact hinner.capture back fun _ q m' _ hm' =>
    ⟨rfl, { hm' with params := hm.params, resolving := hm.resolving }⟩

/-- Entering a declared name with a memory does what entering it does. -/
theorem Env.enterTypeIn_mirrored (hnamed : env.scope.Named) (depth : Nat)
    (resolving : List String) :
    env.EntersMirrored resolving (env.enterType depth resolving) (env.enterTypeIn depth) := by
  induction depth generalizing resolving with
  | zero => exact fun _ _ _ _ _ => .fail
  | succ depth ih =>
    intro params opened unset name htracked p m hp hm
    by_cases hisType : ∃ spec, env.scope.lookup name.text = some (.type spec)
    · obtain ⟨spec, hlookup⟩ := hisType
      have hname := hnamed _ _ hlookup
      cases halias : spec.isAlias with
      | true =>
        cases hknown : p.aliases.lookup name.text with
        | some type =>
          rw [enterType_alias_known hlookup halias hknown,
            enterTypeIn_alias_known hlookup halias ((hm.aliases _).trans hknown)]
          exact ⟨rfl, hm⟩
        | none =>
          rw [enterType_alias_new hlookup halias hknown, enterTypeIn_alias hlookup halias]
          split
          · next hold =>
            rw [TypeSpec.resolveAliasIn, Remember.get_bind, hm.aliases, hknown]
            dsimp only
            rw [Remember.get_bind, hm.resolving, if_pos hold]
            exact rfl
          · next hnew =>
            exact (ih (name.text :: resolving)).alias (enterType_enters hnamed _ _) hlookup halias
              htracked hp hm hknown (by simpa using hnew)
      | false =>
        cases hknown : p.enteredType? name.text with
        | some e =>
          rw [enterType_entered hlookup halias hknown,
            enterTypeIn_entered hlookup halias ((hm.enteredType? _).trans hknown)]
          exact ⟨rfl, hm⟩
        | none =>
          rw [enterType_new hlookup halias hknown,
            enterTypeIn_new hlookup halias ((hm.enteredType? _).trans hknown)]
          rw [← hname] at hlookup hknown htracked
          exact (ih []).enterDefined (enterType_enters hnamed depth []) hlookup halias htracked hp
            hm hknown
    · rw [enterType_of_no_type (not_exists.mp hisType),
        enterTypeIn_of_no_type (not_exists.mp hisType)]
      exact rfl

end GoSignatures
