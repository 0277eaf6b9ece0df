import GoSignatures.Proofs.Resolution.Alike
import GoSignatures.Proofs.Ty.Viewing

/-!
# Runs that match

Alike declarations are resolved alike, and it does not matter much what the imports are: the two
runs enter the same types at the same places of the table. The types of one run are not those of the
other, where lengths of arrays are written otherwise or a name comes from another dot import; but
they look alike through every view through which the types of such names look alike. Where one run
fails the other fails with the same kind of error.

* `Progress.Matches` — two moments of runs, alike except for positions and through a view
* `Resolve.Matches` — two steps both fail with one kind of error, or both succeed, and then their
  results and what they leave look alike
* `Env.Matches` — two surroundings that differ in what imported names stand for
* `TypeExpr.resolve_matches` — type expressions that are alike
-/

namespace GoSignatures

open Resolve

/-! ## Progress that looks alike -/

/-- The entered type without its position. -/
def EnteredType.erase (e : EnteredType) : EnteredType :=
  { e with name := ⟨e.name.text, {}⟩ }

/-- The function without its position, and with the types of its signature looked at. -/
def FuncDef.view (v : Ty → Ty) (f : FuncDef) : FuncDef :=
  { f with signature := f.signature.view v, position := {} }

/-- The definition without its position, and with its types looked at. -/
def Definition.view (v : Ty → Ty) : Definition → Definition
  | .func f => .func (f.view v)
  | .var d => .var { d with position := {} }
  | .const d => .const { d with position := {} }
  | .type d => .type { d with type := v d.type, position := {} }

namespace Progress

/-- The progress without positions, and with its types looked at. -/
def view (v : Ty → Ty) (p : Progress) : Progress where
  table := p.table.view v
  entered := p.entered.map EnteredType.erase
  aliases := p.aliases.map fun a => (a.1, v a.2)
  pending := p.pending
  definitions := p.definitions.map (Definition.view v)

/-- Two moments of runs look alike. In both tables the predeclared `error` is in its place, and no
type waits there. -/
structure Matches (v : Ty → Ty) (p p' : Progress) : Prop where
  view : p.view v = p'.view v
  hasError : p.table.HasError
  hasError' : p'.table.HasError
  waiting : ∀ w ∈ p.pending, w.1 ≠ errorId

variable {v : Ty → Ty} {p p' : Progress}

namespace Matches

/-- Before anything is resolved there is nothing to tell apart. -/
theorem initial (v : Ty → Ty) : Matches v {} {} :=
  ⟨rfl, Table.hasError_initial, Table.hasError_initial, fun _ hw => by cases hw⟩

variable (h : Matches v p p')
include h

theorem table : p.table.view v = p'.table.view v :=
  congrArg Progress.table h.view

theorem pending : p.pending = p'.pending := by
  show (p.view v).pending = (p'.view v).pending
  rw [h.view]

theorem entered : p.entered.map EnteredType.erase = p'.entered.map EnteredType.erase := by
  show (p.view v).entered = (p'.view v).entered
  rw [h.view]

/-- Since the tables have the same length, types are entered at the same places. -/
theorem size : p.table.size = p'.table.size := by
  rw [← Table.size_view v, h.table, Table.size_view]

/-- Types at the same place have the same number of parameters, so the same uses lack arguments. -/
theorem length_typeParams (id : Nat) :
    (p.table.typeParams id).length = (p'.table.typeParams id).length := by
  have hparams : (p.table.typeParams id).map (TypeParam.view v) =
      (p'.table.typeParams id).map (TypeParam.view v) := by
    rw [← Table.typeParams_view, h.table, Table.typeParams_view]
  simpa using congrArg List.length hparams

/-- A name is entered in both runs or in neither, at the same place. -/
theorem enteredType? (name : String) :
    (p.enteredType? name).map EnteredType.erase = (p'.enteredType? name).map EnteredType.erase := by
  have hmap : ∀ entered : List EnteredType,
      (entered.map EnteredType.erase).find? (fun e => e.name.text == name) =
        (entered.find? fun e => e.name.text == name).map EnteredType.erase :=
    fun _ => List.find?_map ..
  rw [Progress.enteredType?, Progress.enteredType?, ← hmap, h.entered, hmap]

/-- A name is an alias in both runs or in neither, for types that look alike. -/
theorem lookup_aliases (name : String) :
    (p.aliases.lookup name).map v = (p'.aliases.lookup name).map v := by
  have haliases : p.aliases.map (fun a => (a.1, v a.2)) = p'.aliases.map fun a => (a.1, v a.2) :=
    congrArg Progress.aliases h.view
  have hmap : ∀ l : List (String × Ty),
      (l.map fun a => (a.1, v a.2)).lookup name = (l.lookup name).map v := by
    intro l
    rw [lookup_eq_map_find?, lookup_eq_map_find?, List.find?_map, Option.map_map, Option.map_map]
    rfl
  rw [← hmap, haliases, hmap]

end Matches

/-! ### Changes -/

/-- Looking at the progress commutes with entering a type. So it does with each of the other changes
below, and a change that is made on both sides keeps the two alike. -/
theorem view_enter (p : Progress) (name : Piece) (packageName : String) :
    (p.enter name packageName).view v = (p.view v).enter ⟨name.text, {}⟩ packageName := by
  simp [view, enter, Table.view_declare, EnteredType.erase]

theorem view_define (p : Progress) (d : Definition) :
    (p.define d).view v = (p.view v).define (d.view v) := by
  simp [view, define]

theorem view_addDefinitions (p : Progress) (ds : List Definition) :
    view v { p with definitions := p.definitions ++ ds } =
      { p.view v with definitions := (p.view v).definitions ++ ds.map (Definition.view v) } := by
  simp [view]

theorem view_addAlias (p : Progress) (name : String) (type : Ty) :
    view v { p with aliases := p.aliases ++ [(name, type)] } =
      { p.view v with aliases := (p.view v).aliases ++ [(name, v type)] } := by
  simp [view]

theorem view_addPending (p : Progress) (id target : Nat) :
    view v { p with pending := p.pending ++ [(id, target)] } =
      { p.view v with pending := (p.view v).pending ++ [(id, target)] } := rfl

theorem view_setTypeParams (p : Progress) (id : Nat) (params : List TypeParam) :
    view v { p with table := p.table.setTypeParams id params } =
      { p.view v with
        table := (p.view v).table.setTypeParams id (params.map (TypeParam.view v)) } := by
  simp [view, Table.view_setTypeParams]

theorem view_setUnderlying (p : Progress) (id : Nat) (type : Ty) :
    view v { p with table := p.table.setUnderlying id type } =
      { p.view v with table := (p.view v).table.setUnderlying id (v type) } := by
  simp [view, Table.view_setUnderlying]

namespace Matches

variable (h : Matches v p p')
include h

theorem enter {name name' : Piece} (hname : name.text = name'.text) (packageName : String) :
    Matches v (p.enter name packageName) (p'.enter name' packageName) where
  view := by rw [view_enter, view_enter, h.view, hname]
  hasError := h.hasError.declare _ _
  hasError' := h.hasError'.declare _ _
  waiting := h.waiting

/-- Definitions that look alike may be recorded. -/
theorem define {d d' : Definition} (hd : d.view v = d'.view v) :
    Matches v (p.define d) (p'.define d') where
  view := by rw [view_define, view_define, h.view, hd]
  hasError := h.hasError
  hasError' := h.hasError'
  waiting := h.waiting

theorem addDefinitions {ds ds' : List Definition}
    (hds : ds.map (Definition.view v) = ds'.map (Definition.view v)) :
    Matches v { p with definitions := p.definitions ++ ds }
      { p' with definitions := p'.definitions ++ ds' } where
  view := by rw [view_addDefinitions, view_addDefinitions, h.view, hds]
  hasError := h.hasError
  hasError' := h.hasError'
  waiting := h.waiting

theorem addAlias (name : String) {a b : Ty} (hab : v a = v b) :
    Matches v { p with aliases := p.aliases ++ [(name, a)] }
      { p' with aliases := p'.aliases ++ [(name, b)] } where
  view := by rw [view_addAlias, view_addAlias, h.view, hab]
  hasError := h.hasError
  hasError' := h.hasError'
  waiting := h.waiting

/-- Parameters that look alike may be set for any type: `error` is known by its underlying type. -/
theorem setTypeParams (id : Nat) {params params' : List TypeParam}
    (hparams : params.map (TypeParam.view v) = params'.map (TypeParam.view v)) :
    Matches v { p with table := p.table.setTypeParams id params }
      { p' with table := p'.table.setTypeParams id params' } where
  view := by rw [view_setTypeParams, view_setTypeParams, h.view, hparams]
  hasError := h.hasError.setTypeParams _ _
  hasError' := h.hasError'.setTypeParams _ _
  waiting := h.waiting

/-- A type may wait for another one, though the predeclared `error` may not. -/
theorem addPending {id : Nat} (hid : id ≠ errorId) (target : Nat) :
    Matches v { p with pending := p.pending ++ [(id, target)] }
      { p' with pending := p'.pending ++ [(id, target)] } where
  view := by rw [view_addPending, view_addPending, h.view]
  hasError := h.hasError
  hasError' := h.hasError'
  waiting := List.forall_mem_append.mpr ⟨h.waiting, List.forall_mem_singleton.mpr hid⟩

/-- A type other than the predeclared `error` may get its underlying type. -/
theorem setUnderlying {id : Nat} (hid : id ≠ errorId) {a b : Ty} (hab : v a = v b) :
    Matches v { p with table := p.table.setUnderlying id a }
      { p' with table := p'.table.setUnderlying id b } where
  view := by rw [view_setUnderlying, view_setUnderlying, h.view, hab]
  hasError := h.hasError.setUnderlying hid _
  hasError' := h.hasError'.setUnderlying hid _
  waiting := h.waiting

/-- The right-hand side of a defined type is another declared type on both sides or on neither. -/
theorem finish (hv : Ty.View v) {id : Nat} (hid : id ≠ errorId) {a b : Ty} (hab : v a = v b) :
    Matches v (p.finish id a) (p'.finish id b) := by
  have hunknown : ∀ target, p.table.underlying? target = none ↔
      p'.table.underlying? target = none := by
    intro target
    rw [← Option.map_eq_none_iff (f := v), ← Table.underlying?_view, h.table,
      Table.underlying?_view, Option.map_eq_none_iff]
  have hset := h.setUnderlying hid (hv.underlying h.hasError h.hasError' h.table hab)
  rcases p.finish_eq id a with ⟨target, args, rfl, hnone, hfinish⟩ | ⟨hsome, hfinish⟩
  · obtain ⟨args', rfl, -⟩ := hv.of_named hab.symm
    rw [hfinish]
    simp only [Progress.finish, (hunknown target).mp hnone]
    exact h.addPending hid target
  · rw [hfinish]
    rcases p'.finish_eq id b with ⟨target, args, rfl, hnone', -⟩ | ⟨-, hfinish'⟩
    · obtain ⟨args', rfl, -⟩ := hv.of_named hab
      obtain ⟨known, hknown⟩ := hsome target args' rfl
      rw [(hunknown target).mpr hnone'] at hknown
      cases hknown
    · rw [hfinish']
      exact hset

end Matches

end Progress

/-! ## Steps that match -/

/-- What two outcomes are compared by: the kind of the error, or what `f` leaves of the result. -/
def Except.told {α β : Type} (f : α → β) : Except ResolveError α → Except Nat β
  | .error e => .error e.cause.ctorIdx
  | .ok a => .ok (f a)

/-- Of two outcomes that tell the same, both are errors of one kind or neither is an error. -/
theorem Except.of_told_eq_told {α β : Type} {f : α → β} {x y : Except ResolveError α}
    (h : told f x = told f y) :
    (∃ e e', x = .error e ∧ y = .error e' ∧ e.cause.ctorIdx = e'.cause.ctorIdx) ∨
      ∃ a b, x = .ok a ∧ y = .ok b ∧ f a = f b := by
  cases x with
  | error e =>
    cases y with
    | error e' => exact .inl ⟨e, e', rfl, rfl, Except.error.inj h⟩
    | ok b => cases h
  | ok a =>
    cases y with
    | error e' => cases h
    | ok b => exact .inr ⟨a, b, rfl, rfl, Except.ok.inj h⟩

/-- The rest has to tell the same whenever the first results do. -/
theorem Except.told_bind {α β γ δ : Type} {f : α → γ} {g : β → δ} {x y : Except ResolveError α}
    {u v : α → Except ResolveError β} (h : told f x = told f y)
    (huv : ∀ a b, f a = f b → told g (u a) = told g (v b)) :
    told g (x >>= u) = told g (y >>= v) := by
  rcases of_told_eq_told h with ⟨e, e', rfl, rfl, hkind⟩ | ⟨a, b, rfl, rfl, hab⟩
  · exact congrArg Except.error hkind
  · exact huv a b hab

namespace Resolve

variable {v : Ty → Ty} {α β γ δ ε ζ : Type}

/-- From moments that look alike, two steps both fail with one kind of error, or both succeed with
results of which `f` leaves the same, and then what they leave looks alike. -/
def Matches (v : Ty → Ty) (f : α → β) (x y : Resolve α) : Prop :=
  ∀ p p', Progress.Matches v p p' →
    (∃ e e', x p = .error e ∧ y p' = .error e' ∧ e.cause.ctorIdx = e'.cause.ctorIdx) ∨
      ∃ a q b q', x p = .ok (a, q) ∧ y p' = .ok (b, q') ∧ f a = f b ∧ q.Matches v q'

namespace Matches

variable {f : α → γ} {g : β → δ} {x y : Resolve α}

theorem pure {a b : α} (h : f a = f b) :
    Matches v f (Pure.pure a : Resolve α) (Pure.pure b : Resolve α) := by
  intro p p' hp
  exact .inr ⟨a, p, b, p', rfl, rfl, h, hp⟩

/-- Two errors match if they are of one kind, wherever they are and whatever names they quote. -/
theorem fail {env env' : Env} {place place' : Position} {cause cause' : ResolveCause}
    (h : cause.ctorIdx = cause'.ctorIdx) :
    Matches v f (env.fail place cause : Resolve α) (env'.fail place' cause' : Resolve α) := by
  intro p p' _
  exact .inl ⟨env.errorAt place cause, env'.errorAt place' cause', rfl, rfl, h⟩

theorem modify {u u' : Progress → Progress}
    (h : ∀ p p' : Progress, p.Matches v p' → (u p).Matches v (u' p')) :
    Matches v id (modify u : Resolve Unit) (modify u' : Resolve Unit) := by
  intro p p' hp
  exact .inr ⟨(), u p, (), u' p', rfl, rfl, rfl, h p p' hp⟩

/-- The rest has to match for every two results of which `f` leaves the same. -/
theorem bind {k l : α → Resolve β} (h : Matches v f x y)
    (hkl : ∀ a b, f a = f b → Matches v g (k a) (l b)) :
    Matches v g (x >>= k) (y >>= l) := by
  intro p p' hp
  rcases h p p' hp with ⟨e, e', hx, hy, hkind⟩ | ⟨a, q, b, q', hx, hy, hab, hq⟩
  · exact .inl ⟨e, e', bind_eq_error_iff.mpr (.inl hx), bind_eq_error_iff.mpr (.inl hy), hkind⟩
  · rw [bind_eq_of_eq_ok hx, bind_eq_of_eq_ok hy]
    exact hkl a b hab q q' hq

/-- A step may look at the progress. -/
theorem get {k l : Progress → Resolve β}
    (h : ∀ p p' : Progress, p.Matches v p' → Matches v g (k p) (l p')) :
    Matches v g ((MonadState.get : Resolve Progress) >>= k)
      ((MonadState.get : Resolve Progress) >>= l) := by
  intro p p' hp
  exact h p p' hp p p' hp

theorem set {q q' : Progress} (h : q.Matches v q') :
    Matches v id (MonadState.set q : Resolve Unit) (MonadState.set q' : Resolve Unit) := by
  intro p p' _
  exact .inr ⟨(), q, (), q', rfl, rfl, rfl, h⟩

theorem map {k l : α → β} (h : Matches v f x y) (hkl : ∀ a b, f a = f b → g (k a) = g (l b)) :
    Matches v g (do return k (← x)) (do return l (← y)) :=
  h.bind fun a b hab => .pure (hkl a b hab)

/-- A result made of two parts looks the same if it does so for parts that look the same. -/
theorem map₂ {m : ε → ζ} {z w : Resolve β} {k l : α → β → ε} (h : Matches v f x y)
    (h' : Matches v g z w)
    (hkl : ∀ a b, f a = f b → ∀ c d, g c = g d → m (k a c) = m (l b d)) :
    Matches v m (do return k (← x) (← z)) (do return l (← y) (← w)) :=
  h.bind fun a b hab => h'.map (hkl a b hab)

/-- What is done for the elements of two lists in turn matches if it does so for each pair. -/
theorem forM {S : β → β → Prop} {k l : β → Resolve Unit} {bs bs' : List β}
    (h : List.Forall₂ S bs bs') (hkl : ∀ b ∈ bs, ∀ b', S b b' → Matches v id (k b) (l b')) :
    Matches v id (bs.forM k) (bs'.forM l) := by
  induction h with
  | nil => exact .pure rfl
  | cons hb _ ih =>
    obtain ⟨hfirst, hrest⟩ := List.forall_mem_cons.mp hkl
    exact (hfirst _ hb).bind fun _ _ _ => ih hrest

/-- From moments that look alike, both steps tell the same. -/
theorem told (h : Matches v f x y) {p p' : Progress} (hp : p.Matches v p') :
    Except.told (Prod.map f (Progress.view v)) (x p) =
      Except.told (Prod.map f (Progress.view v)) (y p') := by
  rcases h p p' hp with ⟨e, e', hx, hy, hkind⟩ | ⟨a, q, b, q', hx, hy, hab, hq⟩
  · rw [hx, hy]
    exact congrArg Except.error hkind
  · rw [hx, hy]
    exact congrArg Except.ok (Prod.ext hab hq.view)

end Matches

end Resolve

/-! ## Surroundings that match -/

/-- What an unqualified name of an imported type stands for. -/
def Env.dotType? (env : Env) (name : String) : Option Ty :=
  env.scope.imports.dotImport?.map fun path => env.importedType path name

/-- A name is known without dot imports. -/
def FileScope.Knows (scope : FileScope) (name : String) : Prop :=
  (scope.lookup name).isSome ∨ (Universe.type? name).isSome

/-- The same is fixed for two files: the same names stand for the same, except that unqualified
names of imported types need look alike only, as far as they are among the names `N`. -/
structure Env.Matches (v : Ty → Ty) (N : String → Prop) (env env' : Env) : Prop where
  packageName : env.packageName = env'.packageName
  config : env.config = env'.config
  scope : env.scope.Alike env'.scope
  dotType? : ∀ name, N name → ¬ env.scope.Knows name →
    (env.dotType? name).map v = (env'.dotType? name).map v

/-- Names are entered alike in two files. -/
def EnterType.Matches (v : Ty → Ty) (enter enter' : EnterType) : Prop :=
  ∀ name name' : Piece, name.text = name'.text → Resolve.Matches v v (enter name) (enter' name')

/-- A name is the name of a type parameter in both files, or it is so in neither and is among the
names `N`. -/
def ReadAlike (N : String → Prop) (params params' : List String) (name : String) : Prop :=
  params.contains name = params'.contains name ∧ (params.contains name = false → N name)

/-- Names are read alike if those that name no type parameter are among the names `N`. -/
theorem readAlike_of_uses {N : String → Prop} {params params' : List String}
    {visible uses : List TypeUse}
    (hvisible : visible = uses.filter fun u => !params.contains u.1)
    (hN : ∀ u ∈ visible, N u.1)
    (hparams : ∀ u ∈ uses, params.contains u.1 = params'.contains u.1) :
    ∀ u ∈ uses, ReadAlike N params params' u.1 := by
  refine fun u hu => ⟨hparams u hu, fun hparam => hN u ?_⟩
  rw [hvisible]
  exact List.mem_filter.mpr ⟨hu, by rw [hparam, Bool.not_false]⟩

/-- A qualified imported type depends on the configuration alone, which the files share. -/
theorem Env.Matches.importedType {v : Ty → Ty} {N : String → Prop} {env env' : Env}
    (h : env.Matches v N env') (path name : String) :
    env.importedType path name = env'.importedType path name := by
  rw [Env.importedType, Env.importedType, h.config]

theorem TypeName.unqualified_of_alike {name name' : TypeName} (h : name.alike name' = true) :
    name.unqualified = name'.unqualified := by
  cases name <;> cases name' <;> simp_all [alike, unqualified]

/-- Of alike lists of parameters both have dots, or neither has. -/
theorem ParamDecl.any_variadic_of_allAlike {decls decls' : List ParamDecl}
    (h : ParamDecl.allAlike decls decls' = true) :
    decls.any ParamDecl.variadic = decls'.any ParamDecl.variadic := by
  induction decls generalizing decls' with
  | nil =>
    cases decls' with
    | nil => rfl
    | cons => cases h
  | cons decl decls ih =>
    cases decl
    cases decls' with
    | nil => cases h
    | cons decl' decls' =>
      cases decl'
      simp only [allAlike, Bool.and_eq_true, beq_iff_eq] at h
      obtain ⟨⟨-, rfl⟩, hdecls⟩ := h
      rw [List.any_cons, List.any_cons, ih hdecls]

/-! ## Names -/

section

variable {v : Ty → Ty} (hv : Ty.View v) {N : String → Prop} {env env' : Env}
  (h : env.Matches v N env') {enter enter' : EnterType} (henter : enter.Matches v enter')
  {params params' : List String}
include h henter

/-- A name that is read alike stands for types that look alike. The files differ only where it names
a type of a dot import, and such types look alike by assumption. -/
theorem Ty.ofName_matches {name name' : Piece} (hname : name.text = name'.text)
    (hread : ReadAlike N params params' name.text) :
    Matches v v (Ty.ofName env enter params name) (Ty.ofName env' enter' params' name') := by
  obtain ⟨hparams, hN⟩ := hread
  unfold Ty.ofName
  simp only [← hname, ← hparams]
  split
  · exact .pure rfl
  next hparam =>
  have hN : N name.text := hN (by simpa using hparam)
  have hlookup := h.scope.lookup name.text
  have himport : (env.scope.imports.lookup name.text).isSome =
      (env'.scope.imports.lookup name.text).isSome := by
    rw [← Option.isSome_map (f := ImportEntry.path), h.scope.lookupImport, Option.isSome_map]
  cases hfound : env.scope.lookup name.text with
  | some e =>
    rw [hfound] at hlookup
    generalize env'.scope.lookup name.text = found' at hlookup
    cases hlookup with
    | @some _ e' hentry =>
      cases e <;> cases e' <;> first
        | exact .fail rfl
        | exact henter name name' hname
        | cases hentry
  | none =>
    rw [hfound] at hlookup
    generalize env'.scope.lookup name.text = found' at hlookup
    cases hlookup
    dsimp only
    cases htype : Universe.type? name.text with
    | some type => exact .pure rfl
    | none =>
      have hunknown : ¬ env.scope.Knows name.text := by
        simp [FileScope.Knows, hfound, htype]
      have hdots := h.dotType? name.text hN hunknown
      dsimp only
      rw [himport]
      split
      · exact .fail rfl
      · rcases Option.of_map_eq_map hdots with ⟨hleft, hright⟩ | ⟨type, type', hleft, hright, hsame⟩
        · rw [Option.map_eq_none_iff.mp hleft, Option.map_eq_none_iff.mp hright]
          exact .fail rfl
        · obtain ⟨path, hpath, rfl⟩ := Option.map_eq_some_iff.mp hleft
          obtain ⟨path', hpath', rfl⟩ := Option.map_eq_some_iff.mp hright
          rw [hpath, hpath']
          exact .pure hsame

include hv

/-- A type lacks arguments in both files or in neither: whether it is a declared one can be seen
through the view, and so can how many parameters it has. -/
theorem Ty.ofBareName_matches {name name' : Piece} (hname : name.text = name'.text)
    (hread : ReadAlike N params params' name.text) :
    Matches v v (Ty.ofBareName env enter params name)
      (Ty.ofBareName env' enter' params' name') := by
  refine (Ty.ofName_matches h henter hname hread).bind fun type type' htype => ?_
  split
  · next id args =>
    obtain ⟨args', rfl, hargs⟩ := hv.of_named htype.symm
    have hempty : args.isEmpty = args'.isEmpty := by
      rw [← List.isEmpty_map (f := v), ← hargs, List.isEmpty_map]
    refine .get fun p p' hp => ?_
    simp only [hempty, hp.length_typeParams]
    split
    · exact .fail rfl
    · exact .pure htype
  · next hother =>
    split
    · next id args =>
      obtain ⟨args', rfl, -⟩ := hv.of_named htype
      exact absurd rfl (hother id args')
    · exact .pure htype

/-- Arguments that look alike are taken in both files, or refused in both with one kind of error. -/
theorem Ty.ofGenericName_matches {name name' : Piece} (hname : name.text = name'.text)
    (hread : ReadAlike N params params' name.text) {args args' : List Ty}
    (hargs : args.map v = args'.map v) :
    Matches v v (Ty.ofGenericName env enter params name args)
      (Ty.ofGenericName env' enter' params' name' args') := by
  have hlength : args.length = args'.length := by
    simpa using congrArg List.length hargs
  refine (Ty.ofName_matches h henter hname hread).bind fun type type' htype => ?_
  split
  · next id =>
    obtain ⟨none', rfl, hnone⟩ := hv.of_named htype.symm
    obtain rfl := List.map_eq_nil_iff.mp hnone
    refine .get fun p p' hp => ?_
    simp only [hlength, hp.length_typeParams]
    split
    · exact .pure (hv.named hargs)
    · exact .fail rfl
  · next hother =>
    have hother' : ∀ id, type' ≠ .named id [] := by
      rintro id rfl
      obtain ⟨none', rfl, hnone⟩ := hv.of_named htype
      obtain rfl := List.map_eq_nil_iff.mp hnone
      exact hother id rfl
    have halias : env.scope.isAlias name.text = env'.scope.isAlias name'.text := by
      rw [h.scope.isAlias, hname]
    split
    · next hleft =>
      split
      · exact absurd rfl (hother' _)
      · rw [if_pos (halias ▸ hleft)]
        exact .pure htype
    · next hleft =>
      split
      · exact absurd rfl (hother' _)
      · rw [if_neg (halias ▸ hleft)]
        exact .fail rfl

omit henter in
/-- A qualified name asks the named imports only, which lead to the same paths. -/
theorem Ty.ofQualifiedName_matches {package package' name name' : Piece}
    (hpackage : package.text = package'.text) (hname : name.text = name'.text)
    {args args' : List Ty} :
    Matches v v (Ty.ofQualifiedName env package name args)
      (Ty.ofQualifiedName env' package' name' args') := by
  unfold Ty.ofQualifiedName
  rw [← hpackage]
  rcases Option.of_map_eq_map (h.scope.lookupImport package.text) with
    ⟨hleft, hright⟩ | ⟨entry, entry', hleft, hright, hpath⟩
  · rw [hleft, hright]
    exact .fail rfl
  · rw [hleft, hright]
    refine .get fun p p' hp => .pure ?_
    rw [hv.withArguments, hv.withArguments, hpath, hname, h.importedType]

/-- Alike names, read alike, stand for types that look alike. -/
theorem TypeName.resolve_matches {name name' : TypeName} (halike : name.alike name' = true)
    {args args' : List Ty} (hargs : args.map v = args'.map v) {count : Nat}
    (hreads : ∀ u ∈ name.uses [] count, ReadAlike N params params' u.1) :
    Matches v v (name.resolve env enter params args)
      (name'.resolve env' enter' params' args') := by
  cases name with
  | plain name =>
    cases name' with
    | plain name' =>
      have hname : name.text = name'.text := beq_iff_eq.mp halike
      have hread := hreads (name.text, count) List.mem_cons_self
      have hempty : args.isEmpty = args'.isEmpty := by
        rw [← List.isEmpty_map (f := v), hargs, List.isEmpty_map]
      rw [resolve, resolve, hempty]
      split
      · exact Ty.ofBareName_matches hv h henter hname hread
      · exact Ty.ofGenericName_matches hv h henter hname hread hargs
    | qualified => cases halike
  | qualified package name =>
    cases name' with
    | plain => cases halike
    | qualified package' name' =>
      obtain ⟨hpackage, hname⟩ := Bool.and_eq_true_iff.mp halike
      exact Ty.ofQualifiedName_matches hv h (beq_iff_eq.mp hpackage) (beq_iff_eq.mp hname)

/-! ## Type expressions -/

-- each lemma of the block has the assumptions for the others, which the linter does not see
set_option linter.unusedSectionVars false in
mutual

/-- Type expressions that are alike are resolved alike, provided that the names in them are read
alike. -/
theorem TypeExpr.resolve_matches : ∀ e e' : TypeExpr, e.alike e' = true →
    (∀ u ∈ e.uses [], ReadAlike N params params' u.1) →
      Matches v v (e.resolve env enter params) (e'.resolve env' enter' params')
  | .named name args, e', halike, hreads => by
    cases e' with
    | named name' args' =>
      obtain ⟨hname, hargs⟩ := Bool.and_eq_true_iff.mp halike
      obtain ⟨hargReads, hnameReads⟩ := List.forall_mem_append.mp hreads
      exact (TypeArg.resolveAll_matches args args' hargs hargReads).bind fun _ _ htypes =>
        TypeName.resolve_matches hv h henter hname htypes hnameReads
    | _ => cases halike
  | .pointer elem, e', halike, hreads => by
    cases e' with
    | pointer elem' =>
      exact (TypeExpr.resolve_matches elem elem' halike hreads).map fun _ _ hab => hv.pointer hab
    | _ => cases halike
  | .slice elem, e', halike, hreads => by
    cases e' with
    | slice elem' =>
      exact (TypeExpr.resolve_matches elem elem' halike hreads).map fun _ _ hab => hv.slice hab
    | _ => cases halike
  | .array _ elem, e', halike, hreads => by
    cases e' with
    | array _ elem' =>
      exact (TypeExpr.resolve_matches elem elem' halike hreads).map fun _ _ hab => hv.array hab
    | _ => cases halike
  | .map key value, e', halike, hreads => by
    cases e' with
    | map key' value' =>
      obtain ⟨hkey, hvalue⟩ := Bool.and_eq_true_iff.mp halike
      obtain ⟨hkeyReads, hvalueReads⟩ := List.forall_mem_append.mp hreads
      exact (TypeExpr.resolve_matches key key' hkey hkeyReads).map₂
        (TypeExpr.resolve_matches value value' hvalue hvalueReads) fun _ _ hab _ _ hcd =>
          hv.map hab hcd
    | _ => cases halike
  | .chan dir elem, e', halike, hreads => by
    cases e' with
    | chan dir' elem' =>
      obtain ⟨hdir, helem⟩ := Bool.and_eq_true_iff.mp halike
      obtain rfl := beq_iff_eq.mp hdir
      exact (TypeExpr.resolve_matches elem elem' helem hreads).map fun _ _ hab => hv.chan hab
    | _ => cases halike
  | .func sig, e', halike, hreads => by
    cases e' with
    | func sig' =>
      exact (SignatureExpr.resolve_matches sig sig' halike hreads).map fun _ _ hab => hv.func hab
    | _ => cases halike
  | .struct fields, e', halike, hreads => by
    cases e' with
    | struct fields' =>
      exact (FieldDecl.resolveAll_matches fields fields' halike hreads).map fun _ _ hab =>
        hv.struct hab
    | _ => cases halike
  | .interface elems, e', halike, hreads => by
    cases e' with
    | interface elems' =>
      exact (InterfaceElem.resolveAll_matches elems elems' halike hreads).map fun _ _ hab =>
        hv.interface (by rw [Interface.view_ofElems, Interface.view_ofElems, hab])
    | _ => cases halike
  | .group inner, e', halike, hreads => by
    cases e' with
    | group inner' => exact TypeExpr.resolve_matches inner inner' halike hreads
    | _ => cases halike
  | .tilde inner, e', halike, hreads => by
    cases e' with
    | tilde inner' =>
      exact (TypeExpr.resolve_matches inner inner' halike hreads).map fun _ _ hab =>
        hv.union (congrArg (fun type => [(⟨true, type⟩ : Term)]) hab)
    | _ => cases halike
termination_by structural e => e

theorem TypeExpr.resolveTerms_matches : ∀ terms terms' : List TypeExpr,
    TypeExpr.allAlike terms terms' = true →
      (∀ u ∈ TypeExpr.allUses [] terms, ReadAlike N params params' u.1) →
        Matches v (List.map (Term.view v)) (TypeExpr.resolveTerms env enter params terms)
          (TypeExpr.resolveTerms env' enter' params' terms')
  | [], terms', halike, _ => by
    cases terms' with
    | nil => exact .pure rfl
    | cons => cases halike
  | term :: terms, terms', halike, hreads => by
    cases terms' with
    | nil => cases halike
    | cons term' terms' =>
      obtain ⟨hfirst, hrest⟩ := Bool.and_eq_true_iff.mp halike
      obtain ⟨hreads, hrestReads⟩ := List.forall_mem_append.mp hreads
      have hterm := TypeExpr.resolve_matches term term' hfirst hreads
      have hterms := TypeExpr.resolveTerms_matches terms terms' hrest hrestReads
      have hcons : ∀ (tilde : Bool) (a b : Ty), v a = v b → ∀ as bs : List Term,
          as.map (Term.view v) = bs.map (Term.view v) →
            ((⟨tilde, a⟩ : Term) :: as).map (Term.view v) =
              ((⟨tilde, b⟩ : Term) :: bs).map (Term.view v) := by
        intro tilde a b hab as bs habs
        rw [List.map_cons, List.map_cons, Term.view, Term.view, hab, habs]
      -- only a term with a tilde is resolved without it
      cases term with
      | tilde inner =>
        cases term' with
        | tilde inner' =>
          exact (TypeExpr.resolve_matches inner inner' hfirst hreads).map₂ hterms (hcons true)
        | _ => cases hfirst
      | _ => cases term' <;> first | cases hfirst | exact hterm.map₂ hterms (hcons false)
termination_by structural terms => terms

theorem TypeArg.resolveAll_matches : ∀ args args' : List TypeArg,
    TypeArg.allAlike args args' = true →
      (∀ u ∈ TypeArg.allUses [] args, ReadAlike N params params' u.1) →
        Matches v (List.map v) (TypeArg.resolveAll env enter params args)
          (TypeArg.resolveAll env' enter' params' args')
  | [], args', halike, _ => by
    cases args' with
    | nil => exact .pure rfl
    | cons => cases halike
  | ⟨_, terms⟩ :: args, args', halike, hreads => by
    cases args' with
    | nil => cases halike
    | cons arg' args' =>
      obtain ⟨_, terms'⟩ := arg'
      obtain ⟨hterms, hargs⟩ := Bool.and_eq_true_iff.mp halike
      obtain ⟨htermReads, hargReads⟩ := List.forall_mem_append.mp hreads
      refine (TypeExpr.resolveTerms_matches terms terms' hterms htermReads).map₂
        (TypeArg.resolveAll_matches args args' hargs hargReads) fun a b hab c d hcd => ?_
      rw [List.map_cons, List.map_cons, hv.ofTerms hab, hcd]
termination_by structural args => args

theorem SignatureExpr.resolve_matches : ∀ sig sig' : SignatureExpr, sig.alike sig' = true →
    (∀ u ∈ sig.uses [], ReadAlike N params params' u.1) →
      Matches v (Signature.view v) (sig.resolve env enter params) (sig'.resolve env' enter' params')
  | ⟨decls, results⟩, ⟨decls', results'⟩, halike, hreads => by
    obtain ⟨hdecls, hresults⟩ := Bool.and_eq_true_iff.mp halike
    obtain ⟨hdeclReads, hresultReads⟩ := List.forall_mem_append.mp hreads
    have hvariadic := ParamDecl.any_variadic_of_allAlike hdecls
    exact (ParamDecl.resolveAll_matches decls decls' hdecls hdeclReads).map₂
      (ResultExpr.resolve_matches results results' hresults hresultReads) fun a b hab c d hcd => by
        simp only [Signature.view, hab, hcd, hvariadic]
termination_by structural sig => sig

theorem ResultExpr.resolve_matches : ∀ results results' : ResultExpr,
    results.alike results' = true →
      (∀ u ∈ results.uses [], ReadAlike N params params' u.1) →
        Matches v (List.map (Var.view v)) (results.resolve env enter params)
          (results'.resolve env' enter' params')
  | .list decls, results', halike, hreads => by
    cases results' with
    | list decls' => exact ParamDecl.resolveAll_matches decls decls' halike hreads
    | single => cases halike
  | .single type, results', halike, hreads => by
    cases results' with
    | list => cases halike
    | single type' =>
      exact (TypeExpr.resolve_matches type type' halike hreads).map fun _ _ hab =>
        congrArg (fun type => [(⟨"", type⟩ : Var)]) hab
termination_by structural results => results

theorem ParamDecl.resolveAll_matches : ∀ decls decls' : List ParamDecl,
    ParamDecl.allAlike decls decls' = true →
      (∀ u ∈ ParamDecl.allUses [] decls, ReadAlike N params params' u.1) →
        Matches v (List.map (Var.view v)) (ParamDecl.resolveAll env enter params decls)
          (ParamDecl.resolveAll env' enter' params' decls')
  | [], decls', halike, _ => by
    cases decls' with
    | nil => exact .pure rfl
    | cons => cases halike
  | ⟨names, type, variadic⟩ :: decls, decls', halike, hreads => by
    cases decls' with
    | nil => cases halike
    | cons decl' decls' =>
      obtain ⟨names', type', variadic'⟩ := decl'
      simp only [ParamDecl.allAlike, Bool.and_eq_true, beq_iff_eq] at halike
      obtain ⟨⟨⟨rfl, htype⟩, rfl⟩, hdecls⟩ := halike
      obtain ⟨htypeReads, hdeclReads⟩ := List.forall_mem_append.mp hreads
      refine (TypeExpr.resolve_matches type type' htype htypeReads).map₂
        (ParamDecl.resolveAll_matches decls decls' hdecls hdeclReads) fun a b hab c d hcd => ?_
      have hvar : v (if variadic then .slice a else a) = v (if variadic then .slice b else b) := by
        split
        · exact hv.slice hab
        · exact hab
      rw [List.map_append, List.map_append, Var.map_view_ofNames, Var.map_view_ofNames, hvar, hcd]
termination_by structural decls => decls

theorem FieldDecl.resolveAll_matches : ∀ decls decls' : List FieldDecl,
    FieldDecl.allAlike decls decls' = true →
      (∀ u ∈ FieldDecl.allUses [] decls, ReadAlike N params params' u.1) →
        Matches v (List.map (Field.view v)) (FieldDecl.resolveAll env enter params decls)
          (FieldDecl.resolveAll env' enter' params' decls')
  | [], decls', halike, _ => by
    cases decls' with
    | nil => exact .pure rfl
    | cons => cases halike
  | .named names type tag :: decls, decls', halike, hreads => by
    rcases decls' with _ | ⟨⟨names', type', tag'⟩ | _, decls'⟩
    · cases halike
    · simp only [FieldDecl.allAlike, Bool.and_eq_true, beq_iff_eq] at halike
      obtain ⟨⟨⟨rfl, htype⟩, rfl⟩, hdecls⟩ := halike
      obtain ⟨htypeReads, hdeclReads⟩ := List.forall_mem_append.mp hreads
      refine (TypeExpr.resolve_matches type type' htype htypeReads).map₂
        (FieldDecl.resolveAll_matches decls decls' hdecls hdeclReads) fun a b hab c d hcd => ?_
      rw [List.map_append, List.map_append, Field.map_view_ofNames, Field.map_view_ofNames, hab,
        hcd]
    · cases halike
  | .embedded pointer name args tag :: decls, decls', halike, hreads => by
    rcases decls' with _ | ⟨_ | ⟨pointer', name', args', tag'⟩, decls'⟩
    · cases halike
    · cases halike
    · simp only [FieldDecl.allAlike, Bool.and_eq_true, beq_iff_eq] at halike
      obtain ⟨⟨⟨⟨rfl, hname⟩, hargs⟩, rfl⟩, hdecls⟩ := halike
      obtain ⟨hfieldReads, hdeclReads⟩ := List.forall_mem_append.mp hreads
      obtain ⟨hargReads, hnameReads⟩ := List.forall_mem_append.mp hfieldReads
      refine (TypeArg.resolveAll_matches args args' hargs hargReads).bind
        fun types types' htypes => ?_
      refine (TypeName.resolve_matches hv h henter hname htypes hnameReads).map₂
        (FieldDecl.resolveAll_matches decls decls' hdecls hdeclReads) fun a b hab c d hcd => ?_
      have htype : v (if pointer then .pointer a else a) =
          v (if pointer then .pointer b else b) := by
        split
        · exact hv.pointer hab
        · exact hab
      rw [List.map_cons, List.map_cons, Field.view, Field.view, htype, hcd,
        TypeName.unqualified_of_alike hname]
termination_by structural decls => decls

/-- The methods of an interface are recorded on the way, at positions that may differ. -/
theorem InterfaceElem.resolveAll_matches : ∀ elems elems' : List InterfaceElem,
    InterfaceElem.allAlike elems elems' = true →
      (∀ u ∈ InterfaceElem.allUses [] elems, ReadAlike N params params' u.1) →
        Matches v (List.map (ResolvedElem.view v)) (InterfaceElem.resolveAll env enter params elems)
          (InterfaceElem.resolveAll env' enter' params' elems')
  | [], elems', halike, _ => by
    cases elems' with
    | nil => exact .pure rfl
    | cons => cases halike
  | .method name sig :: elems, elems', halike, hreads => by
    rcases elems' with _ | ⟨⟨name', sig'⟩ | _, elems'⟩
    · cases halike
    · simp only [InterfaceElem.allAlike, Bool.and_eq_true, beq_iff_eq] at halike
      obtain ⟨⟨hname, hsig⟩, helems⟩ := halike
      obtain ⟨hsigReads, helemReads⟩ := List.forall_mem_append.mp hreads
      refine (SignatureExpr.resolve_matches sig sig' hsig hsigReads).bind fun a b hab => ?_
      refine (Matches.modify fun p p' hp => hp.define ?_).bind fun _ _ _ => ?_
      · simp only [Definition.view, FuncDef.view, hname, hab]
      · refine (InterfaceElem.resolveAll_matches elems elems' helems helemReads).map
          fun c d hcd => ?_
        rw [List.map_cons, List.map_cons, hcd]
        simp only [ResolvedElem.view, Sum.map_inl, Method.view, hname, hab]
    · cases halike
  | .union terms :: elems, elems', halike, hreads => by
    rcases elems' with _ | ⟨_ | terms', elems'⟩
    · cases halike
    · cases halike
    · obtain ⟨hterms, helems⟩ := Bool.and_eq_true_iff.mp halike
      obtain ⟨htermReads, helemReads⟩ := List.forall_mem_append.mp hreads
      refine (TypeExpr.resolveTerms_matches terms terms' hterms htermReads).map₂
        (InterfaceElem.resolveAll_matches elems elems' helems helemReads) fun a b hab c d hcd => ?_
      rw [List.map_cons, List.map_cons, hcd]
      simp only [ResolvedElem.view, Sum.map_inr, Embedded.view_ofTerms, hab]
termination_by structural elems => elems

end

theorem TypeParamDecl.resolveAll_matches {decls decls' : List TypeParamDecl}
    (halike : TypeParamDecl.allAlike decls decls' = true)
    (hreads : ∀ u ∈ TypeParamDecl.allUses [] decls, ReadAlike N params params' u.1) :
    Matches v (List.map (TypeParam.view v)) (TypeParamDecl.resolveAll env enter params decls)
      (TypeParamDecl.resolveAll env' enter' params' decls') := by
  induction decls generalizing decls' with
  | nil =>
    cases decls' with
    | nil => exact .pure rfl
    | cons => cases halike
  | cons decl decls ih =>
    cases decls' with
    | nil => cases halike
    | cons decl' decls' =>
      obtain ⟨names, constraint⟩ := decl
      obtain ⟨names', constraint'⟩ := decl'
      simp only [TypeParamDecl.allAlike, Bool.and_eq_true, beq_iff_eq] at halike
      obtain ⟨⟨rfl, hconstraint⟩, hdecls⟩ := halike
      obtain ⟨hconstraintReads, hdeclReads⟩ := List.forall_mem_append.mp hreads
      refine (TypeExpr.resolveTerms_matches hv h henter constraint constraint' hconstraint
        hconstraintReads).bind fun a b hab => (ih hdecls hdeclReads).map fun c d hcd => ?_
      simp only [List.map_append, List.map_map, hcd, Function.comp_def, TypeParam.view,
        hv.ofTerms hab]

end

end GoSignatures
