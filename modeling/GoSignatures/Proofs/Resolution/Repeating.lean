import GoSignatures.Proofs.Resolution.Chains
import GoSignatures.Proofs.Resolution.Mirroring
import GoSignatures.Proofs.Resolution.Restoring
import GoSignatures.Proofs.Resolution.Termination

/-!
# A file with a memory

Stage by stage, resolving a file with a memory does what resolving it does with the context handed
down. While types are entered, declared names mean the same; when types are settled, the rounds are
the same; and when all types are known, entering a name only looks it up.

* `Env.settleIn_ends` — rounds over types that wait
* `Env.TypesKnown.resolveOthersIn_ends` — the declarations that follow the types
* `SourceFile.resolveIn_eq` — the whole file
* `Env.RestoresContext` — what is kept where a type expression is resolved
* `SourceFile.resolve_restoresContext` — every file is resolved with a memory that keeps it
-/

namespace GoSignatures

open Resolve

variable {params resolving : List String} {env : Env} {p q : Progress} {m : Memory}

/-! ## Steps of a file -/

namespace Resolve

/-- Steps over the same list do the same if each does so, and the invariant lasts. -/
theorem Mirrored.forM {β : Type} {I : Progress → Prop} {f : β → Resolve Unit}
    {g : β → Remember Unit} {l : List β} (hfg : ∀ b ∈ l, Mirrored params resolving I (f b) (g b))
    (hI : ∀ b ∈ l, ∀ p q, I p → f b p = .ok ((), q) → I q) :
    Mirrored params resolving I (l.forM f) (l.forM g) := by
  induction l with
  | nil => exact .pure ()
  | cons b l ih =>
    obtain ⟨hfg, hrest⟩ := List.forall_mem_cons.mp hfg
    obtain ⟨hI, hlasts⟩ := List.forall_mem_cons.mp hI
    exact fun p m hp hm => (hfg p m hp hm).bind fun _ q m' hrun hm' =>
      ih hrest hlasts q m' (hI p q hp hrun) hm'

/-- A step in which other type parameters are in force ends alike once they are put back. -/
theorem EndsAlike.withParams {α : Type} {x : Resolve α} {y : Remember α}
    {names names' : List String} (hm : m.Reflects params resolving p)
    (h : EndsAlike names' resolving (x p) (y { m with params := names })) :
    EndsAlike params resolving (x p) (Remember.withParams names y m) := by
  rw [Remember.withParams, Remember.get_bind, Remember.modify_bind, Remember.capture_bind,
    Remember.modify_bind]
  rcases h.error_or_ok with ⟨e, m', hx, hy⟩ | ⟨a, q, m', hx, hy, hm'⟩
  · rw [hx, hy]
    exact rfl
  · rw [hx, hy]
    exact ⟨rfl, hm.params ▸ hm'.withParams m.params⟩

/-- What a step finds is defined alike. -/
theorem EndsAlike.define {α : Type} {x : Resolve α} {y : Remember α}
    (h : EndsAlike params resolving (x p) (y m)) (f : α → Definition) :
    EndsAlike params resolving ((x >>= fun a => modify fun p => p.define (f a)) p)
      ((y >>= fun a => Remember.update fun p => p.define (f a)) m) :=
  h.bind fun a _ _ _ hm' => ⟨rfl, hm'.define (f a)⟩

end Resolve

/-! ## Types -/

theorem Table.name_eq (t : Table) (id : Nat) :
    t.name id = ((t.label? id).map Prod.snd).getD "" := by
  unfold name label?
  cases t.get? id <;> rfl

namespace Env

theorem enterIn_mirrored (hnamed : env.scope.Named) :
    env.EntersMirrored [] env.enter env.enterIn :=
  enterTypeIn_mirrored hnamed env.scope.nesting []

/-- A type declaration is resolved alike. -/
theorem resolveTypeSpecIn_mirrored (hnamed : env.scope.Named) (spec : TypeSpec) :
    Mirrored [] [] (env.Consistent [] []) (env.resolveTypeSpec spec)
      (env.resolveTypeSpecIn spec) := by
  intro p m hp hm
  unfold resolveTypeSpec resolveTypeSpecIn
  split
  · have htype : EndsAlike [] [] (spec.type.resolve env env.enter [] p)
        (spec.type.resolveIn env env.enterIn { m with params := [] }) :=
      (enterIn_mirrored hnamed).typeExpr (enterType_enters hnamed _ _) (fun _ _ => .none _) p
        _ hp (hm.withParams [])
    exact (htype.withParams hm).define _
  · exact (enterIn_mirrored hnamed [] [] [] spec.name (.none _) p m hp hm).define _

/-! ## The stages over the table -/

theorem failRecursiveIn_ends (hm : m.Reflects params resolving p) (id : Nat) :
    EndsAlike params resolving (env.failRecursive id p) (env.failRecursiveIn id m) := by
  rw [failRecursive, get_bind, failRecursiveIn, Remember.get_bind, hm.entered, hm.table]
  cases p.entered.find? fun e => e.id == id <;> exact rfl

/-- What a recursive type is refused with does not depend on what is settled. -/
theorem failRecursive_congr {t : Table} (hlabels : ∀ id, t.label? id = p.table.label? id)
    (waiting : List (Nat × Nat)) (id : Nat) :
    env.failRecursive id { p with table := t, pending := waiting } = env.failRecursive id p := by
  rw [failRecursive_eq_error, failRecursive_eq_error, p.table.name_eq, ← hlabels id, ← t.name_eq]
  rfl

theorem settlePending_eq (p : Progress) :
    env.settlePending p =
      match p.table.settle p.pending with
      | .ok t => .ok ((), { p with table := t, pending := [] })
      | .error id => env.failRecursive id p := by
  rw [settlePending, get_bind]
  cases p.table.settle p.pending <;> rfl

/-- Types that are settled in a first round may be left to it. -/
theorem settlePending_congr {t : Table} {waiting : List (Nat × Nat)}
    (hlabels : ∀ id, t.label? id = p.table.label? id)
    (hsettle : p.table.settle p.pending = t.settle waiting) :
    env.settlePending p = env.settlePending { p with table := t, pending := waiting } := by
  rw [settlePending_eq, settlePending_eq, hsettle]
  cases t.settle waiting with
  | ok t' => rfl
  | error id => exact (failRecursive_congr hlabels waiting id).symm

/-- A round settles the same types, and the others wait again. -/
theorem settleRoundIn_reflects (waiting : List (Nat × Nat)) (hm : m.Reflects params resolving p) :
    ∃ m', settleRoundIn waiting m = .ok () m' ∧ m'.Reflects params resolving
      { p with
        table := (p.table.settleRound waiting).1
        pending := p.pending ++ (p.table.settleRound waiting).2 } := by
  induction waiting generalizing m p with
  | nil =>
    refine ⟨m, rfl, ?_⟩
    rw [Table.settleRound, List.append_nil]
    exact hm
  | cons w waiting ih =>
    obtain ⟨id, target⟩ := w
    rw [settleRoundIn, Table.settleRound, Remember.get_bind, hm.table]
    cases p.table.underlying? target with
    | some type =>
      exact @ih { p with table := p.table.setUnderlying id type }
        { m with table := m.table.setUnderlying id type, assigned := m.assigned ++ [id] }
        { hm with table := congrArg (Table.setUnderlying · id type) hm.table }
    | none =>
      obtain ⟨m', hrun, hm'⟩ := @ih { p with pending := p.pending ++ [(id, target)] }
        { m with pending := m.pending ++ [(id, target)] }
        { hm with pending := congrArg (· ++ [(id, target)]) hm.pending }
      refine ⟨m', hrun, ?_⟩
      simpa only [List.append_assoc, List.singleton_append] using hm'

theorem settlePending_none (hm : m.Reflects params resolving p) (hnone : p.pending = []) :
    EndsAlike params resolving (env.settlePending p) (.ok () m) := by
  rw [settlePending_eq, hnone, Table.settle, Table.settleRound]
  exact ⟨rfl, { hm with pending := hm.pending.trans hnone }⟩

/-- Round after round, types are settled alike. -/
theorem settleIn_ends (rounds : Nat) (hwaits : p.table.Waits p.pending)
    (hrounds : p.pending.length ≤ rounds) (hm : m.Reflects params resolving p) :
    EndsAlike params resolving (env.settlePending p) (env.settleIn rounds m) := by
  induction rounds generalizing p m with
  | zero => exact settlePending_none hm (List.length_eq_zero_iff.mp (Nat.le_zero.mp hrounds))
  | succ rounds ih =>
    rw [settleIn, Remember.get_bind, hm.pending]
    split
    · next hempty => exact settlePending_none hm (List.isEmpty_iff.mp hempty)
    · obtain ⟨t, remaining, hround⟩ : ∃ t remaining,
        p.table.settleRound p.pending = (t, remaining) := ⟨_, _, rfl⟩
      have hsettles := Table.settleRound_settles hwaits hround
      obtain ⟨m', hrun, hm'⟩ := @settleRoundIn_reflects _ _ { p with pending := [] }
        { m with pending := [] } p.pending { hm with pending := rfl }
      rw [hround, List.nil_append] at hm'
      rw [Remember.update_bind, Remember.bind_of_ok hrun, Remember.get_bind, hm'.pending]
      cases remaining with
      | nil =>
        rw [settlePending_eq, Table.settle, hround]
        exact ⟨rfl, hm'⟩
      | cons w remaining =>
        have hle := hsettles.sublist.length_le
        dsimp only
        split
        · next hsame =>
          -- the round has settled none, and the first that waits is told
          have hstuck : p.table.settle p.pending = .error w.1 := by
            rw [Table.settle, hround]
            exact if_neg (by rw [← hsame]; exact Nat.lt_irrefl _)
          rw [settlePending_eq, hstuck]
          dsimp only
          rw [← failRecursive_congr hsettles.labels]
          exact failRecursiveIn_ends hm' w.1
        · next hless =>
          -- it has settled one, so there are fewer rounds to go
          have hlt := Nat.lt_of_le_of_ne hle hless
          have hrest : p.table.settle p.pending = t.settle (w :: remaining) := by
            rw [Table.settle, hround]
            exact if_pos hlt
          rw [settlePending_congr hsettles.labels hrest]
          exact ih (hwaits.of_settles hsettles)
            (Nat.le_of_lt_succ (Nat.lt_of_lt_of_le hlt hrounds)) hm'

theorem settlePendingIn_ends (hwaits : p.table.Waits p.pending)
    (hm : m.Reflects params resolving p) :
    EndsAlike params resolving (env.settlePending p) (env.settlePendingIn m) := by
  rw [settlePendingIn, Remember.get_bind, hm.pending]
  exact settleIn_ends _ hwaits (Nat.le_refl _) hm

theorem checkContainmentIn_ends (hm : m.Reflects params resolving p) :
    EndsAlike params resolving (env.checkContainment p) (env.checkContainmentIn m) := by
  rw [checkContainment, get_bind, checkContainmentIn, Remember.get_bind, hm.entered, hm.table]
  cases p.entered.find? fun e => p.table.containsItself e.id with
  | some e => exact failRecursiveIn_ends hm e.id
  | none => exact ⟨rfl, hm⟩

end Env

/-! ## When all types are known -/

/-- Resolves the signature of a function, with its type parameters. -/
def FuncDecl.resolveSignature (env : Env) (decl : FuncDecl) : Resolve Signature := do
  let params ← TypeParamDecl.resolveAll env env.enter decl.params decl.typeParams
  let sig ← decl.signature.resolve env env.enter decl.params
  return { sig with typeParams := params }

/-- Resolves the signature of a method, with its receiver. -/
def MethodDecl.resolveSignature (env : Env) (decl : MethodDecl) (receiver : ReceiverExpr) :
    Resolve Signature := do
  env.checkReceiverBase receiver.base
  let type ← receiver.type.resolve env env.enter receiver.typeParams
  let sig ← decl.signature.resolve env env.enter receiver.typeParams
  return { sig with receiver := some ⟨receiver.name, type⟩ }

namespace Env

theorem resolveFunc_eq (decl : FuncDecl) :
    env.resolveFunc decl = (do
      let sig ← decl.resolveSignature env
      modify fun p => p.define
        (.func ⟨decl.name.text, sig, decl.name.position, .package⟩)) := by
  simp only [resolveFunc, FuncDecl.resolveSignature, FuncDecl.params, bind_assoc, pure_bind]

theorem resolveMethod_eq {decl : MethodDecl} {receiver : ReceiverExpr}
    (h : decl.receiver = some receiver) :
    env.resolveMethod decl = (do
      let sig ← decl.resolveSignature env receiver
      modify fun p => p.define (.func ⟨decl.name.text, sig, decl.name.position, .package⟩)
      return receiver.base.text) := by
  simp only [resolveMethod, h, MethodDecl.resolveSignature, bind_assoc, pure_bind]

theorem checkReceiverBaseIn_ends (hm : m.Reflects params resolving p) (base : Piece) :
    EndsAlike params resolving (env.checkReceiverBase base p) (env.checkReceiverBaseIn base m) := by
  unfold checkReceiverBase checkReceiverBaseIn
  cases env.scope.lookup base.text with
  | none => exact rfl
  | some entry =>
    cases entry with
    | type spec => exact ⟨rfl, hm⟩
    | _ => exact rfl

namespace TypesKnown

/-- A name that is entered when all types are known is looked up alike. -/
theorem enterIn_mirrored (h : env.TypesKnown p) (name : Piece) :
    Mirrored params resolving (env.SameTypes p) (env.enter name) (env.enterIn name) := by
  intro q m hq hm
  obtain ⟨depth, hdepth⟩ := env.scope.exists_nesting_eq
  rw [enterIn, hdepth]
  by_cases hisType : ∃ spec, env.scope.lookup name.text = some (.type spec)
  · obtain ⟨spec, hlookup⟩ := hisType
    obtain ⟨type, htype, henter⟩ := h.enter_eq hq.typeOf? (FileScope.isType_iff.mpr ⟨spec, hlookup⟩)
    rw [henter]
    rw [← hq.typeOf?] at htype
    cases halias : spec.isAlias with
    | true =>
      rw [typeOf?, if_pos (FileScope.isAlias_eq hlookup ▸ halias)] at htype
      rw [enterTypeIn_alias_known hlookup halias ((hm.aliases _).trans htype)]
      exact ⟨rfl, hm⟩
    | false =>
      rw [typeOf?, if_neg (by simp [FileScope.isAlias_eq hlookup, halias])] at htype
      obtain ⟨e, he, rfl⟩ := Option.map_eq_some_iff.mp htype
      rw [enterTypeIn_entered hlookup halias ((hm.enteredType? _).trans he)]
      exact ⟨rfl, hm⟩
  · rw [enter, hdepth, enterType_of_no_type (not_exists.mp hisType),
      enterTypeIn_of_no_type (not_exists.mp hisType)]
    exact rfl

section

variable (h : env.TypesKnown p)
include h

theorem typeExprIn_mirrored (e : TypeExpr) :
    Mirrored params resolving (env.SameTypes p) (e.resolve env env.enter params)
      (e.resolveIn env env.enterIn) :=
  TypeExpr.resolveIn_mirrored h.keeps (fun name _ => h.enter_yields name)
    (fun name _ => h.enterIn_mirrored name) e fun _ _ => trivial

theorem signatureIn_mirrored (sig : SignatureExpr) :
    Mirrored params resolving (env.SameTypes p) (sig.resolve env env.enter params)
      (sig.resolveIn env env.enterIn) :=
  SignatureExpr.resolveIn_mirrored h.keeps (fun name _ => h.enter_yields name)
    (fun name _ => h.enterIn_mirrored name) sig fun _ _ => trivial

theorem resolveValueIn_mirrored (spec : ValueSpec) :
    Mirrored [] [] (env.SameTypes p) (ValueSpec.resolveType env spec)
      (env.resolveValueIn spec) := by
  intro q m hq hm
  unfold ValueSpec.resolveType resolveValueIn
  cases spec.type with
  | none => exact ⟨rfl, hm⟩
  | some type => exact (h.typeExprIn_mirrored type q m hq hm).bind fun _ _ _ _ hm' => ⟨rfl, hm'⟩

/-- A function is resolved alike, with its type parameters in force. -/
theorem resolveFuncIn_mirrored (decl : FuncDecl) :
    Mirrored [] [] (env.SameTypes p) (env.resolveFunc decl) (env.resolveFuncIn decl) := by
  intro q m hq hm
  have hparams : EndsAlike decl.params []
      (TypeParamDecl.resolveAll env env.enter decl.params decl.typeParams q)
      (TypeParamDecl.resolveAllIn env env.enterIn decl.typeParams { m with params := [] }) :=
    TypeParamDecl.resolveConstraintsIn_mirrored h.keeps (fun name _ => h.enter_yields name)
      (fun name _ => h.enterIn_mirrored name) decl.typeParams (fun _ _ => trivial) q _ hq
      (hm.withParams decl.params)
  have hsig : EndsAlike decl.params [] (decl.resolveSignature env q)
      ((do
        let params ← TypeParamDecl.resolveAllIn env env.enterIn decl.typeParams
        let sig ← decl.signature.resolveIn env env.enterIn
        return { sig with typeParams := params } : Remember Signature) { m with params := [] }) :=
    hparams.bind fun params q₁ m₁ hrun hm₁ =>
      have hq₁ := (h.typeParams_yields decl.params decl.typeParams q params q₁ hq hrun).1
      (h.signatureIn_mirrored decl.signature).map
        (fun sig => { sig with typeParams := params }) q₁ m₁ hq₁ hm₁
  rw [resolveFunc_eq]
  exact (hsig.withParams hm).define _

/-- A method is resolved alike, with the type parameters of its receiver in force. -/
theorem resolveMethodIn_mirrored (decl : MethodDecl) :
    Mirrored [] [] (env.SameTypes p) (env.resolveMethod decl) (env.resolveMethodIn decl) := by
  intro q m hq hm
  cases hreceiver : decl.receiver with
  | none =>
    rw [resolveMethod, resolveMethodIn, hreceiver]
    exact rfl
  | some receiver =>
    have hbase : EndsAlike receiver.typeParams [] (env.checkReceiverBase receiver.base q)
        (env.checkReceiverBaseIn receiver.base { m with params := receiver.typeParams }) :=
      checkReceiverBaseIn_ends (hm.withParams receiver.typeParams) receiver.base
    have hsig : EndsAlike receiver.typeParams [] (decl.resolveSignature env receiver q)
        ((do
          env.checkReceiverBaseIn receiver.base
          let type ← receiver.type.resolveIn env env.enterIn
          let sig ← decl.signature.resolveIn env env.enterIn
          return { sig with receiver := some ⟨receiver.name, type⟩ } : Remember Signature)
          { m with params := receiver.typeParams }) := by
      refine hbase.bind fun _ q₀ m₀ hchecked hm₀ => ?_
      obtain ⟨-, rfl⟩ := env.of_checkReceiverBase_eq_ok hchecked
      refine (h.typeExprIn_mirrored receiver.type q₀ m₀ hq hm₀).bind fun type q₁ m₁ hrun hm₁ => ?_
      have hq₁ := (h.typeExpr_yields receiver.typeParams receiver.type q₀ type q₁ hq hrun).1
      exact (h.signatureIn_mirrored decl.signature).map
        (fun sig => { sig with receiver := some ⟨receiver.name, type⟩ }) q₁ m₁ hq₁ hm₁
    rw [resolveMethod_eq hreceiver, resolveMethodIn, hreceiver]
    exact (hsig.withParams hm).bind fun sig _ _ _ hm' => ⟨rfl, hm'.define _⟩

/-- Methods are resolved alike, and those that a receiver has twice are refused alike. -/
theorem resolveMethodsIn_mirrored (seen : List (String × String)) (decls : List MethodDecl) :
    Mirrored [] [] (env.SameTypes p) (env.resolveMethods seen decls)
      (env.resolveMethodsIn seen decls) := by
  induction decls generalizing seen with
  | nil => exact .pure ()
  | cons decl decls ih =>
    intro q m hq hm
    refine (h.resolveMethodIn_mirrored decl q m hq hm).bind fun base q₁ m₁ hrun hm₁ => ?_
    have hq₁ := (h.resolveMethod_ok hq hrun).1
    split
    · exact ih seen q₁ m₁ hq₁ hm₁
    · split
      · exact rfl
      · exact ih _ q₁ m₁ hq₁ hm₁

/-- The declarations that follow the types are resolved alike. -/
theorem resolveOthersIn_ends (file : SourceFile) (hm : m.Reflects [] [] p) :
    EndsAlike [] [] (env.resolveOthers file p) (env.resolveOthersIn file m) := by
  have hvalues : Mirrored [] [] (env.SameTypes p) (file.valueSpecs.forM (ValueSpec.resolveType env))
      (file.valueSpecs.forM env.resolveValueIn) := by
    refine .forM (fun spec _ => h.resolveValueIn_mirrored spec) fun spec _ q r hq hrun => ?_
    have hone : [spec].forM (ValueSpec.resolveType env) q = .ok ((), r) := bind_eq_of_eq_ok hrun _
    exact (h.resolveValues_ok hq hone).1
  have hfuncs : Mirrored [] [] (env.SameTypes p) (file.funcDecls.forM env.resolveFunc)
      (file.funcDecls.forM env.resolveFuncIn) :=
    .forM (fun decl _ => h.resolveFuncIn_mirrored decl)
      fun decl _ q r hq hrun => (h.resolveFunc_ok hq hrun).1
  refine (hvalues p m h.sameTypes hm).bind fun _ q₁ m₁ hrun hm₁ => ?_
  have hq₁ := (h.resolveValues_ok h.sameTypes hrun).1
  rw [modify_bind, Remember.update_bind]
  have hm₂ := hm₁.defineAll (file.valueSpecs.flatMap ValueSpec.definitions)
  refine (hfuncs _ _ (hq₁.defineValues file.valueSpecs) hm₂).bind fun _ q₃ m₃ hrun hm₃ => ?_
  have hq₃ := (h.resolveFuncs_ok (hq₁.defineValues file.valueSpecs) hrun).1
  exact h.resolveMethodsIn_mirrored [] file.methodDecls q₃ m₃ hq₃ hm₃

end

end TypesKnown

end Env

/-! ## The whole file -/

namespace SourceFile

variable {file : SourceFile} {config : Config}

section

variable (hscope : FileScope.ofDeclarations file.path file.declarations = .ok env.scope)
  (henv : env = ⟨file.path, file.packageName, config, env.scope⟩)
include hscope

theorem resolveTypeSpecsIn_mirrored :
    Mirrored [] [] (env.Consistent [] []) (file.typeSpecs.forM env.resolveTypeSpec)
      (file.typeSpecs.forM env.resolveTypeSpecIn) := by
  have hnamed := FileScope.named_ofDeclarations hscope
  refine .forM (fun spec _ => Env.resolveTypeSpecIn_mirrored hnamed spec)
    fun spec hspec p q hp hrun => ?_
  refine (Env.resolveTypeSpec_ok hnamed (fun hname => ?_) hp hrun).1
  exact (FileScope.lookup_eq_type_iff hscope).mpr ⟨mem_typeSpecs.mp hspec, rfl, hname⟩

include henv

/-- The declarations of a file are resolved alike. -/
theorem resolveAllIn_ends :
    EndsAlike [] [] (env.resolveAll file {}) (env.resolveAllIn file {}) := by
  have hinitial : Memory.Reflects [] [] {} {} := ⟨rfl, rfl, fun _ => rfl, rfl, rfl, rfl, rfl⟩
  rw [resolveAll_eq, Env.resolveAllIn]
  refine (resolveTypeSpecsIn_mirrored hscope {} {} .initial hinitial).bind
    fun _ p m henter hm => ?_
  have hp := (enterTypes_ok (enterTypes_eq_ok hscope henv henter)).consistent
  refine (Env.settlePendingIn_ends hp.waits hm).bind fun _ q m₁ hsettle hm₁ => ?_
  obtain ⟨p', -, hsettled⟩ := settled_of_settleTypes (settleTypes_eq_ok hscope henv henter hsettle)
  refine (Env.checkContainmentIn_ends hm₁).bind fun _ q' m₂ hcheck hm₂ => ?_
  obtain ⟨-, rfl⟩ := Env.of_checkContainment_eq_ok hcheck
  exact hsettled.known.resolveOthersIn_ends file hm₂

end

/-- Resolving a file with a memory finds what resolving it finds, and ends with the same error. -/
theorem resolveIn_eq (file : SourceFile) (config : Config) :
    file.resolveIn config = file.resolve config := by
  unfold resolveIn resolve
  refine Except.bind_congr fun scope hscope => ?_
  let env : Env := ⟨file.path, file.packageName, config, scope⟩
  have hends := @resolveAllIn_ends env file config hscope rfl
  dsimp only
  rw [StateT.run]
  rcases hends.error_or_ok with ⟨e, m, hrun, hrunIn⟩ | ⟨_, p, m, hrun, hrunIn, hm⟩
  · rw [hrun, hrunIn]
    rfl
  · rw [hrun, hrunIn]
    dsimp only
    rw [Except.ok_bind, hm.table, hm.definitions]

end SourceFile

/-! ## The context of type expressions -/

open Remember

/-- What is remembered in `m` is kept in `m'`, and the context is the same. -/
structure Memory.KeptIn (m m' : Memory) : Prop where
  params : m'.params = m.params
  resolving : m'.resolving = m.resolving
  /-- An entry of the table keeps its place, its name and package, its type parameters and its
  underlying type. -/
  entries : ∀ id entry, m.table.get? id = some entry → m'.table.get? id = some entry
  entered : m.entered <+: m'.entered
  aliases : ∀ name type, m.aliases.lookup name = some type → m'.aliases.lookup name = some type

theorem Memory.Restores.keptIn {m' : Memory} (h : m.Restores m') : m.KeptIn m' where
  params := h.params
  resolving := h.resolving
  entries id entry hid := by
    have hlt : id < m.table.size := Nat.lt_of_not_le fun hle => by
      rw [Table.get?_eq_none_of_size_le hle] at hid
      cases hid
    exact (Table.get?_of_prefix h.entries hlt).trans hid
  entered := h.entered
  aliases := h.aliases

/-- Whatever is remembered at the start, it is kept, whether resolving ends with a type or with an
error. -/
structure Env.RestoresContext (env : Env) : Prop where
  typeExpr : ∀ depth (e : TypeExpr) (m : Memory),
    m.KeptIn (memory (e.resolveIn env (env.enterTypeIn depth) m))
  terms : ∀ depth (terms : List TypeExpr) (m : Memory),
    m.KeptIn (memory (TypeExpr.resolveTermsIn env (env.enterTypeIn depth) terms m))
  /-- A declared name that is entered, and whatever declarations this leads to. -/
  declared : ∀ depth (name : Piece) (m : Memory),
    m.KeptIn (memory (env.enterTypeIn depth name m))
  /-- A declaration of a type, also one without a name. -/
  typeSpec : ∀ (spec : TypeSpec) (m : Memory), m.KeptIn (memory (env.resolveTypeSpecIn spec m))

theorem Env.restoresContext (env : Env) : env.RestoresContext where
  typeExpr depth e m := (e.resolveIn_putsBack env (env.enterTypeIn_putsBack depth) m).keptIn
  terms depth terms m :=
    (TypeExpr.resolveTermsIn_putsBack env (env.enterTypeIn_putsBack depth) terms m).keptIn
  declared depth name m := (env.enterTypeIn_putsBack depth name m).keptIn
  typeSpec spec m := (env.resolveTypeSpecIn_putsBack spec m).keptIn

/-- The places that have received an underlying type are those of the declared types that have one,
and none of them has received it twice. -/
structure Memory.AssignedOnce (m : Memory) : Prop where
  nodup : m.assigned.Nodup
  declared : ∀ id ∈ m.assigned, Table.initial.size ≤ id ∧ id < m.table.size
  received : m.Received

theorem Memory.Once.assignedOnce (h : m.Once) : m.AssignedOnce where
  nodup := (List.nodup_append.mp h.nodup).1
  declared id hid := h.place id (List.mem_append_left _ hid)
  received := h.received

/-- A file can be resolved with a memory that is changed and put back by hand. Then a type
expression, at whatever state it is resolved and however that ends, leaves the type parameters in
force and the other names that are being resolved as they were; what was entered or remembered stays
as it was; and over the whole file no entry of the table receives an underlying type twice. -/
theorem SourceFile.resolve_restoresContext (file : SourceFile) (config : Config) :
    file.resolveIn config = file.resolve config ∧
      ∀ env : Env, env.RestoresContext ∧ (memory (env.resolveAllIn file {})).AssignedOnce :=
  ⟨file.resolveIn_eq config, fun env =>
    ⟨env.restoresContext, (env.resolveAllIn_once file).assignedOnce⟩⟩

end GoSignatures
