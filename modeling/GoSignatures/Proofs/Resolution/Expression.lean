import GoSignatures.Proofs.Resolution.Growth
import GoSignatures.Proofs.Resolution.Meaning
import Mathlib.Tactic.ByContra

/-!
# Resolving finds the meaning

A type expression that is resolved means what its names mean, then and ever after. The names are
entered on the way; all that is needed of this is that each is found to mean something, and that
the invariant of the run is kept. Every use has as many arguments as the declared type has
parameters, except that a type whose parameters are not set yet passes for one without parameters.

* `Env.counts` — references with no arguments, or with as many as the type has parameters
* `Env.Reads` — an expression has a meaning, and its uses have the right numbers of arguments
* `TypeExpr.resolve_yields` — a type expression that is resolved has the meaning that is returned
* `TypeParamDecl.resolveAll_yields` — the same for declarations of type parameters
-/

namespace GoSignatures

open Resolve

/-- Which declared types a table can show: those at its places. -/
def Table.places (t : Table) : Ty.Allowed where
  named id _ := id < t.size
  param _ := True

/-- A type keeps its text later on. -/
theorem Progress.Later.render {p q : Progress} (h : p.Later q) (hsize : errorId < p.table.size)
    {type : Ty} (htype : type.Proper p.table.places) :
    type.render q.table = type.render p.table := by
  have hnames : ∀ id < p.table.size, q.table.nameChars id = p.table.nameChars id :=
    fun id hid => Table.nameChars_congr (h.labels id hid)
  rw [Ty.render, Ty.render, Ty.chars_congr (fun _ _ hid => hid) hnames hsize htype]

theorem Progress.Later.withArguments {p q : Progress} (h : p.Later q)
    (hsize : errorId < p.table.size) {args : List Ty} (hargs : Ty.AllProper p.table.places args)
    (type : Ty) : type.withArguments q.table args = type.withArguments p.table args := by
  have hrender : args.map (Ty.render q.table) = args.map (Ty.render p.table) :=
    List.map_congr_left fun arg harg => h.render hsize (Ty.allProper_iff.mp hargs arg harg)
  cases type <;> simp only [Ty.withArguments, hrender]

/-! ## Numbers of arguments -/

/-- A declared name that is used means something. A use has as many arguments as the declared type
has parameters, and none if the type parameters of that type are not set. -/
def Env.Fits (env : Env) (unset : List Nat) (p : Progress) (u : TypeUse) : Prop :=
  env.scope.isType u.1 = true → ∃ type, env.typeOf? p u.1 = some type ∧
    ∀ id, type = .named id [] →
      (id ∈ unset → u.2 = 0) ∧ (id ∉ unset → u.2 = env.arity p.table id)

/-- An expression has a meaning under what the declared names mean so far, and its uses have the
right numbers of arguments. -/
structure Env.Reads {α : Type} (env : Env) (unset : List Nat)
    (meaning : Table → Meanings → Option α) (uses : List TypeUse) (a : α) (q : Progress) :
    Prop where
  meaning : meaning q.table (env.typeOf? q) = some a
  fits : ∀ u ∈ uses, env.Fits unset q u

/-- The type at a place is reached from its own constraints. -/
def Env.ReachesSelf (env : Env) (t : Table) (id : Nat) : Prop :=
  ∃ name, t.label? id = some (env.packageName, name) ∧ env.scope.ReachesSelf name

/-- Which references to declared types are made: with as many arguments as the type has parameters,
or without arguments to a type that is reached from its own constraints. -/
def Env.counts (env : Env) (t : Table) : Ty.Allowed where
  named id count := id < t.size ∧ (count = env.arity t id ∨ count = 0 ∧ env.ReachesSelf t id)
  param _ := True

theorem Ty.Proper.places {env : Env} {t : Table} {type : Ty} (h : type.Proper (env.counts t)) :
    type.Proper t.places :=
  Ty.Proper.mono (A := env.counts t) (B := t.places) (fun _ _ hid => hid.1) (fun _ _ => trivial) h

/-- References that are made once may be made later on. -/
theorem Env.counts_later {env : Env} {p q : Progress} (h : p.Later q) {id count : Nat}
    (hid : (env.counts p.table).named id count) : (env.counts q.table).named id count := by
  refine ⟨Nat.lt_of_lt_of_le hid.1 h.size, ?_⟩
  rw [env.arity_of_later h hid.1, Env.ReachesSelf, h.labels id hid.1]
  exact hid.2

/-- What resolving needs of the invariant of a run in which the type parameters of the types at
the places `unset` are not set, and the names that are used satisfy `Q`. -/
structure Env.Keeps (env : Env) (unset : List Nat) (Q : String → Prop) (I : Progress → Prop) :
    Prop where
  define : ∀ p (f : FuncDef), f.scope = .interface → I p →
    f.signature.Proper (env.counts p.table) → I (p.define (.func f))
  isType : ∀ p, I p → ∀ name type, env.typeOf? p name = some type →
    env.scope.isType name = true
  proper : ∀ p, I p → ∀ name type, env.typeOf? p name = some type →
    (∃ id, type = .named id [] ∧ id < p.table.size) ∨ type.Proper (env.counts p.table)
  reaches : ∀ p, I p → ∀ name, Q name → ∀ id ∈ unset, env.typeOf? p name = some (.named id []) →
    env.ReachesSelf p.table id
  size : ∀ p, I p → 2 ≤ p.table.size
  noParams : ∀ p, I p → ∀ id ∈ unset, p.table.typeParams id = []
  arity : ∀ p, I p → ∀ id < p.table.size, id ∉ unset →
    (p.table.typeParams id).length = env.arity p.table id

section

variable {env : Env} {enter : EnterType} {params : List String} {unset : List Nat}
  {I : Progress → Prop} {Q : String → Prop}
  (hI : env.Keeps unset Q I)
  (henter : ∀ name : Piece, Q name.text →
    Yields I (fun type q => env.typeOf? q name.text = some type) (enter name))
include hI henter

/-! ## Names -/

omit henter in
theorem Env.Keeps.lt_size {p : Progress} (hp : I p) {name : String} {id : Nat} {args : List Ty}
    (h : env.typeOf? p name = some (.named id args)) : id < p.table.size := by
  rcases hI.proper p hp name _ h with ⟨id', hid', hsize⟩ | hproper
  · cases hid'
    exact hsize
  · exact hproper.1.1

omit hI in
theorem Ty.ofName_yields {name : Piece} (hname : params.contains name.text = false → Q name.text) :
    Yields I (fun type q => Ty.ofName? env (env.typeOf? q) params name.text = some type)
      (Ty.ofName env enter params name) := by
  unfold Ty.ofName Ty.ofName?
  by_cases hparam : params.contains name.text = true
  · simp only [hparam, if_true]
    exact .pure fun _ _ _ _ => rfl
  simp only [hparam, Bool.false_eq_true, if_false]
  cases hlookup : env.scope.lookup name.text with
  | some entry =>
    cases entry with
    | type spec => exact henter name (hname (by simpa using hparam))
    | _ => exact .fail
  | none =>
    cases Universe.type? name.text with
    | some type => exact .pure fun _ _ _ _ => rfl
    | none =>
      dsimp only
      split
      · exact .fail
      · cases env.scope.imports.dotImport? with
        | some path => exact .pure fun _ _ _ _ => rfl
        | none => exact .fail

omit henter in
/-- A use that passes the check of its type arguments fits from then on. -/
theorem Env.fits_of_count {p q : Progress} (hp : I p) (hq : p.Later q) {name : String} {type : Ty}
    (hparam : params.contains name = false)
    (hmeans : ∀ r, p.Later r → Ty.ofName? env (env.typeOf? r) params name = some type) {count : Nat}
    (hcount : ∀ id, type = .named id [] → (p.table.typeParams id).length = count) :
    env.Fits unset q (name, count) := by
  intro htype
  have hnow := hmeans p (.refl p)
  have hlater := hmeans q hq
  rw [Ty.ofName?_eq_of_isType htype hparam] at hnow hlater
  refine ⟨type, hlater, fun id hnamed => ?_⟩
  have hsize : id < p.table.size := hI.lt_size hp (hnamed ▸ hnow)
  rw [env.arity_of_later hq hsize, ← hcount id hnamed]
  refine ⟨fun hunset => ?_, hI.arity p hp id hsize⟩
  simp only [hI.noParams p hp id hunset, List.length_nil]

theorem Ty.ofBareName_yields {name : Piece}
    (hname : params.contains name.text = false → Q name.text) :
    Yields I (fun type q => Ty.ofName? env (env.typeOf? q) params name.text = some type ∧
        (params.contains name.text = false → env.Fits unset q (name.text, 0)))
      (Ty.ofBareName env enter params name) := by
  refine (Ty.ofName_yields henter hname).bind fun type => ?_
  intro p result p' hp hrun
  -- the check only looks at the progress, and only a type without arguments is checked
  have hkept : result = type ∧ p' = p ∧
      ∀ id, type = .named id [] → (p.table.typeParams id).length = 0 := by
    cases type with
    | named id args =>
      obtain ⟨_, _, hget, hrun⟩ := bind_eq_ok_iff.mp hrun
      obtain ⟨rfl, rfl⟩ := get_eq_ok_iff.mp hget
      split at hrun
      · exact absurd hrun fail_ne_ok
      · next hcheck =>
        obtain ⟨rfl, rfl⟩ := pure_eq_ok_iff.mp hrun
        refine ⟨rfl, rfl, fun id' hid' => ?_⟩
        cases hid'
        simpa using hcheck
    | _ =>
      obtain ⟨rfl, rfl⟩ := pure_eq_ok_iff.mp hrun
      exact ⟨rfl, rfl, fun _ h => by cases h⟩
  obtain ⟨rfl, rfl, hcount⟩ := hkept
  exact ⟨hp, .refl _, fun q hq => ⟨hp.2 q hq, fun hparam =>
    Env.fits_of_count hI hp.1 hq hparam hp.2 hcount⟩⟩

theorem Ty.ofGenericName_yields {name : Piece} {args : List Ty} (hargs : args ≠ [])
    (hname : params.contains name.text = false → Q name.text) :
    Yields I (fun type q =>
        Ty.ofGenericName? env (env.typeOf? q) params name.text args = some type ∧
          (params.contains name.text = false → env.Fits unset q (name.text, args.length)))
      (Ty.ofGenericName env enter params name args) := by
  refine (Ty.ofName_yields henter hname).bind fun type => ?_
  intro p result p' hp hrun
  by_cases hnamed : ∃ id, type = .named id []
  · obtain ⟨id, rfl⟩ := hnamed
    obtain ⟨_, _, hget, hrun⟩ := bind_eq_ok_iff.mp hrun
    obtain ⟨rfl, rfl⟩ := get_eq_ok_iff.mp hget
    split at hrun
    · next hcount =>
      obtain ⟨rfl, rfl⟩ := pure_eq_ok_iff.mp hrun
      -- a predeclared type has no type parameters, so it fails the check
      have htype : env.scope.isType name.text = true := by
        by_contra hnot
        have hid := Ty.le_comparableId_of_ofName? (by simpa using hnot) (hp.2 _ (.refl _))
        have harity : (p.table.typeParams id).length = 0 := by
          have hsize := hI.size p hp.1
          have hzero : env.arity p.table id = 0 := if_pos hid
          by_cases hunset : id ∈ unset
          · rw [hI.noParams p hp.1 id hunset]
            rfl
          · exact (hI.arity p hp.1 id (Nat.lt_of_le_of_lt hid hsize) hunset).trans hzero
        rw [harity] at hcount
        exact hargs (List.length_eq_zero_iff.mp hcount.symm)
      refine ⟨hp, .refl _, fun q hq => ⟨?_, fun hparam => ?_⟩⟩
      · rw [Ty.ofGenericName?, hp.2 q hq]
        exact if_pos htype
      · refine Env.fits_of_count hI hp.1 hq hparam hp.2 fun id' hid' => ?_
        cases hid'
        exact hcount
    · exact absurd hrun fail_ne_ok
  · have hrun : (if env.scope.isAlias name.text then pure type
        else env.fail name.position (.typeArgumentCount name.text 0 args.length) : Resolve Ty) p =
          .ok (result, p') := by
      dsimp only at hrun
      split at hrun
      · exact absurd ⟨_, rfl⟩ hnamed
      · exact hrun
    split at hrun
    · next halias =>
      obtain ⟨rfl, rfl⟩ := pure_eq_ok_iff.mp hrun
      refine ⟨hp, .refl _, fun q hq => ⟨?_, fun hparam => ?_⟩⟩
      · rw [Ty.ofGenericName?, hp.2 q hq, Option.bind_some]
        split
        · exact absurd ⟨_, rfl⟩ hnamed
        · exact if_pos halias
      · exact Env.fits_of_count hI hp.1 hq hparam hp.2 fun id hid => absurd ⟨id, hid⟩ hnamed
    · exact absurd hrun fail_ne_ok

/-- What a name with type arguments means, once it is known what these mean. -/
theorem TypeName.resolve_yields {S : Progress → Prop} {args : List Ty}
    (hargs : ∀ p, I p → S p → Ty.AllProper p.table.places args) (name : TypeName)
    (hname : ∀ u ∈ name.uses params args.length, Q u.1) :
    Yields (fun p => I p ∧ ∀ q, p.Later q → S q)
      (env.Reads unset (fun t m => name.meaning? env t m params args)
        (name.uses params args.length))
      (name.resolve env enter params args) := by
  cases name with
  | qualified package name =>
    intro p type p' hp hrun
    simp only [resolve, Ty.ofQualifiedName] at hrun
    cases hentry : env.scope.imports.lookup package.text with
    | none =>
      rw [hentry] at hrun
      exact absurd hrun fail_ne_ok
    | some entry =>
      rw [hentry] at hrun
      obtain ⟨_, _, hget, hrun⟩ := bind_eq_ok_iff.mp hrun
      obtain ⟨rfl, rfl⟩ := get_eq_ok_iff.mp hget
      obtain ⟨rfl, rfl⟩ := pure_eq_ok_iff.mp hrun
      refine ⟨hp, .refl _, fun q hq => ⟨?_, fun _ hu => by cases hu⟩⟩
      simp only [meaning?, hentry, Option.map_some]
      have hsize : errorId < _ := Nat.lt_of_succ_lt (hI.size _ hp.1)
      rw [hq.withArguments hsize (hargs _ hp.1 (hp.2 _ (.refl _)))]
  | plain name =>
    have huse : params.contains name.text = false → Q name.text := fun hparam =>
      hname (name.text, args.length) (by simpa [uses] using hparam)
    have hfits : ∀ {q : Progress},
        (params.contains name.text = false → env.Fits unset q (name.text, args.length)) →
          ∀ u ∈ (plain name).uses params args.length, env.Fits unset q u := by
      intro q h u hu
      rw [uses] at hu
      split at hu
      · cases hu
      · next hparam =>
        obtain rfl := List.mem_singleton.mp hu
        exact h (by simpa using hparam)
    by_cases hempty : args.isEmpty = true
    · simp only [resolve, meaning?, hempty, if_true]
      intro p type p' hp hrun
      obtain ⟨hI', hext, hS⟩ := (Ty.ofBareName_yields hI henter huse).given p type p' hp hrun
      rw [List.isEmpty_iff] at hempty
      subst hempty
      exact ⟨hI', hext, fun q hq => ⟨(hS q hq).1, hfits (hS q hq).2⟩⟩
    · simp only [resolve, meaning?, hempty, Bool.false_eq_true, if_false]
      intro p type p' hp hrun
      rw [List.isEmpty_iff] at hempty
      obtain ⟨hI', hext, hS⟩ :=
        (Ty.ofGenericName_yields hI henter hempty huse).given p type p' hp hrun
      exact ⟨hI', hext, fun q hq => ⟨(hS q hq).1, hfits (hS q hq).2⟩⟩

/-! ## Expressions -/

omit hI henter in
theorem Env.Reads.map {α β : Type} (f : α → β) {x : Resolve α} {mx : Table → Meanings → Option α}
    {us : List TypeUse} (hx : Yields I (env.Reads unset mx us) x) :
    Yields I (env.Reads unset (fun t m => do return f (← mx t m)) us) (do return f (← x)) := by
  refine hx.bind fun a => .pure fun p hp q hq => ?_
  obtain ⟨hmeaning, hfits⟩ := hp.2 q hq
  exact ⟨by simp [hmeaning], hfits⟩

omit hI henter in
theorem Env.Reads.of_map {α β : Type} {f : α → β} (hf : ∀ a b, f a = f b → a = b) {x : Resolve α}
    {mx : Table → Meanings → Option α} {us : List TypeUse}
    (hx : Yields I (env.Reads unset (fun t m => do return f (← mx t m)) us)
      (do return f (← x))) : Yields I (env.Reads unset mx us) x := by
  intro p a p' hp hrun
  obtain ⟨hp', hext, hread⟩ := hx p (f a) p' hp
    (bind_eq_ok_iff.mpr ⟨a, p', hrun, pure_eq_ok_iff.mpr ⟨rfl, rfl⟩⟩)
  refine ⟨hp', hext, fun q hq => ⟨?_, (hread q hq).fits⟩⟩
  obtain ⟨b, hb, hfb⟩ := Option.bind_eq_some_iff.mp (hread q hq).meaning
  rw [hb, hf b a (Option.some.inj hfb)]

omit hI henter in
theorem Env.Reads.map₂ {α β γ : Type} (f : α → β → γ) {x : Resolve α} {y : Resolve β}
    {mx : Table → Meanings → Option α} {my : Table → Meanings → Option β} {us vs : List TypeUse}
    (hx : Yields I (env.Reads unset mx us) x) (hy : Yields I (env.Reads unset my vs) y) :
    Yields I (env.Reads unset (fun t m => do return f (← mx t m) (← my t m)) (us ++ vs))
      (do return f (← x) (← y)) := by
  refine hx.bind fun a => hy.given.bind fun b => .pure fun p ⟨⟨_, ha⟩, hb⟩ q hq => ?_
  obtain ⟨hxmeaning, hxfits⟩ := ha q hq
  obtain ⟨hymeaning, hyfits⟩ := hb q hq
  exact ⟨by simp [hxmeaning, hymeaning], List.forall_mem_append.mpr ⟨hxfits, hyfits⟩⟩

/-! ## References -/

omit henter in
/-- What names mean makes references that are allowed, apart from types themselves. -/
theorem Env.Keeps.proper_names {p : Progress} (hp : I p) :
    (env.counts p.table).named errorId 0 ∧ (env.counts p.table).named comparableId 0 ∧
      ∀ name type, env.typeOf? p name = some type →
        (∃ id, type = .named id []) ∨ type.Proper (env.counts p.table) := by
  have hsize := hI.size p hp
  refine ⟨⟨Nat.lt_of_succ_lt hsize, Or.inl rfl⟩, ⟨hsize, Or.inl rfl⟩, fun name type htype => ?_⟩
  exact (hI.proper p hp name type htype).imp_left fun ⟨id, hid, _⟩ => ⟨id, hid⟩

omit henter in
/-- Uses that fit make references that are allowed. -/
theorem Env.Keeps.allows {p : Progress} (hp : I p) {uses : List TypeUse}
    (huses : ∀ u ∈ uses, Q u.1) (hfits : ∀ u ∈ uses, env.Fits unset p u) :
    Meanings.Allows (env.typeOf? p) (env.counts p.table) uses := by
  obtain ⟨-, -, hnames⟩ := hI.proper_names hp
  refine .of_names hnames fun u hu id hid => ?_
  obtain ⟨type, htype, hcount⟩ := hfits u hu (hI.isType p hp _ _ hid)
  obtain ⟨hunset, hset⟩ := hcount id (Option.some.inj (htype.symm.trans hid))
  refine ⟨hI.lt_size hp hid, ?_⟩
  by_cases hmem : id ∈ unset
  · exact Or.inr ⟨hunset hmem, hI.reaches p hp u.1 (huses u hu) id hmem hid⟩
  · exact Or.inl (hset hmem)

omit henter in
/-- What an expression means makes references that are allowed. -/
theorem Env.Keeps.counts_meaning {p : Progress} (hp : I p) {e : TypeExpr}
    (huses : ∀ u ∈ e.uses params, Q u.1) {type : Ty}
    (h : env.Reads unset (fun t m => e.meaning? env t m params) (e.uses params) type p) :
    type.Proper (env.counts p.table) := by
  obtain ⟨herror, hcomparable, -⟩ := hI.proper_names hp
  exact TypeExpr.proper_of_meaning? herror hcomparable (fun _ _ => trivial) e
    (hI.allows hp huses h.fits) h.meaning

omit henter in
/-- What a signature means makes references that are allowed. -/
theorem Env.Keeps.counts_signature {p : Progress} (hp : I p) {e : SignatureExpr}
    (huses : ∀ u ∈ e.uses params, Q u.1) {sig : Signature}
    (h : env.Reads unset (fun t m => e.meaning? env t m params) (e.uses params) sig p) :
    sig.Proper (env.counts p.table) := by
  obtain ⟨herror, hcomparable, -⟩ := hI.proper_names hp
  exact SignatureExpr.proper_of_meaning? herror hcomparable (fun _ _ => trivial) e
    (hI.allows hp huses h.fits) h.meaning

omit henter in
/-- What the constraints of type parameters mean makes references that are allowed. -/
theorem Env.Keeps.counts_typeParams {p : Progress} (hp : I p) {decls : List TypeParamDecl}
    (huses : ∀ u ∈ TypeParamDecl.allUses params decls, Q u.1) {found : List TypeParam}
    (h : env.Reads unset (fun t m => TypeParamDecl.meanings? env t m params decls)
      (TypeParamDecl.allUses params decls) found p) :
    ∀ param ∈ found, param.constraint.Proper (env.counts p.table) := by
  obtain ⟨herror, hcomparable, -⟩ := hI.proper_names hp
  exact TypeParamDecl.proper_of_meanings? herror hcomparable (fun _ _ => trivial)
    (hI.allows hp huses h.fits) h.meaning

omit henter in
/-- What names mean can be shown by the table. -/
theorem Env.Keeps.allows_places {p : Progress} (hp : I p) (uses : List TypeUse) :
    Meanings.Allows (env.typeOf? p) p.table.places uses := by
  refine .of_names (fun name type htype => ?_) fun u _ id hid => hI.lt_size hp hid
  exact (hI.proper p hp name type htype).imp (fun ⟨id, hid, _⟩ => ⟨id, hid⟩) Ty.Proper.places

omit henter in
/-- What an expression means can be shown by the table. -/
theorem Env.Keeps.proper_meaning {p : Progress} (hp : I p) {e : TypeExpr} {type : Ty}
    (h : e.meaning? env p.table (env.typeOf? p) params = some type) :
    type.Proper p.table.places := by
  have hsize := hI.size p hp
  exact TypeExpr.proper_of_meaning? (Nat.lt_of_succ_lt hsize) hsize (fun _ _ => trivial) e
    (hI.allows_places hp _) h

omit henter in
/-- What type arguments mean can be shown by the table. -/
theorem Env.Keeps.allProper_args {p : Progress} (hp : I p) {args : List TypeArg} {types : List Ty}
    (h : TypeArg.meanings? env p.table (env.typeOf? p) params args = some types) :
    Ty.AllProper p.table.places types := by
  have hsize := hI.size p hp
  exact TypeArg.allProper_of_meanings? (Nat.lt_of_succ_lt hsize) hsize (fun _ _ => trivial) args
    (hI.allows_places hp _) h

/-! ## Expressions that are resolved -/

/-- A name with type arguments has the meaning that is returned. -/
theorem TypeName.resolve_args_yields (name : TypeName) {args : List TypeArg}
    (hargs : Yields I (env.Reads unset (fun t m => TypeArg.meanings? env t m params args)
      (TypeArg.allUses params args)) (TypeArg.resolveAll env enter params args))
    (hname : ∀ u ∈ name.uses params args.length, Q u.1) :
    Yields I (env.Reads unset
        (fun t m => do name.meaning? env t m params (← TypeArg.meanings? env t m params args))
        (TypeArg.allUses params args ++ name.uses params args.length))
      (do name.resolve env enter params (← TypeArg.resolveAll env enter params args)) := by
  intro p type p' hp hrun
  obtain ⟨types, p₁, hrun₁, hrun₂⟩ := bind_eq_ok_iff.mp hrun
  obtain ⟨hp₁, hext₁, hread₁⟩ := hargs p types p₁ hp hrun₁
  have hlength : types.length = args.length :=
    TypeArg.length_meanings? (hread₁ p₁ (.refl p₁)).meaning
  rw [← hlength] at hname ⊢
  obtain ⟨⟨hp', hread⟩, hext, hread₂⟩ := TypeName.resolve_yields hI henter
    (fun q hq h => hI.allProper_args hq h.meaning) name hname p₁ type p' ⟨hp₁, hread₁⟩ hrun₂
  refine ⟨hp', hext₁.trans hext, fun q hq => ⟨?_, ?_⟩⟩
  · simp [(hread q hq).meaning, (hread₂ q hq).meaning]
  · exact List.forall_mem_append.mpr ⟨(hread q hq).fits, (hread₂ q hq).fits⟩

-- each lemma of the block has the assumptions for the others, which the linter does not see
set_option linter.unusedSectionVars false in
mutual

/-- A type expression that is resolved has the meaning that is returned. -/
theorem TypeExpr.resolve_yields : ∀ e : TypeExpr, (∀ u ∈ e.uses params, Q u.1) →
    Yields I (env.Reads unset (fun t m => e.meaning? env t m params) (e.uses params))
      (e.resolve env enter params)
  | .named name args, hQ => by
    obtain ⟨hargs, hname⟩ := List.forall_mem_append.mp hQ
    exact TypeName.resolve_args_yields hI henter name (TypeArg.resolveAll_yields args hargs) hname
  | .pointer elem, hQ => Env.Reads.map Ty.pointer (TypeExpr.resolve_yields elem hQ)
  | .slice elem, hQ => Env.Reads.map Ty.slice (TypeExpr.resolve_yields elem hQ)
  | .array length elem, hQ =>
    Env.Reads.map (Ty.array (length.arrayLen env.scope)) (TypeExpr.resolve_yields elem hQ)
  | .map key value, hQ => by
    obtain ⟨hkey, hvalue⟩ := List.forall_mem_append.mp hQ
    exact Env.Reads.map₂ Ty.map (TypeExpr.resolve_yields key hkey)
      (TypeExpr.resolve_yields value hvalue)
  | .chan dir elem, hQ => Env.Reads.map (Ty.chan dir) (TypeExpr.resolve_yields elem hQ)
  | .func sig, hQ => Env.Reads.map Ty.func (SignatureExpr.resolve_yields sig hQ)
  | .struct fields, hQ => Env.Reads.map Ty.struct (FieldDecl.resolveAll_yields fields hQ)
  | .interface elems, hQ =>
    Env.Reads.map (fun found : List ResolvedElem => Ty.interface
      (.ofElems (found.filterMap Sum.getLeft?) (found.filterMap Sum.getRight?)))
      (InterfaceElem.resolveAll_yields elems hQ)
  | .group inner, hQ => TypeExpr.resolve_yields inner hQ
  | .tilde inner, hQ =>
    Env.Reads.map (fun type => Ty.union [⟨true, type⟩]) (TypeExpr.resolve_yields inner hQ)
termination_by structural e => e

theorem TypeExpr.resolveTerms_yields : ∀ terms : List TypeExpr,
    (∀ u ∈ TypeExpr.allUses params terms, Q u.1) →
      Yields I (env.Reads unset (fun t m => TypeExpr.termMeanings? env t m params terms)
        (TypeExpr.allUses params terms)) (TypeExpr.resolveTerms env enter params terms)
  | [], hQ => .pure fun _ _ _ _ => ⟨rfl, fun _ hu => by cases hu⟩
  | term :: terms, hQ => by
    obtain ⟨hfirst, hrest⟩ := List.forall_mem_append.mp hQ
    have hterm := TypeExpr.resolve_yields term hfirst
    have hterms := TypeExpr.resolveTerms_yields terms hrest
    cases term
    case tilde inner =>
      -- as a type of its own the term is a union, which tells what stands behind the tilde
      have hinner : Yields I (env.Reads unset (fun t m => inner.meaning? env t m params)
          (inner.uses params)) (inner.resolve env enter params) :=
        Env.Reads.of_map (f := fun type => Ty.union [⟨true, type⟩]) (by simp [Ty.union]) hterm
      exact Env.Reads.map₂ (fun type terms => (⟨true, type⟩ : Term) :: terms) hinner hterms
    all_goals exact Env.Reads.map₂ (fun type terms => (⟨false, type⟩ : Term) :: terms) hterm hterms
termination_by structural terms => terms

theorem TypeArg.resolveAll_yields : ∀ args : List TypeArg,
    (∀ u ∈ TypeArg.allUses params args, Q u.1) →
      Yields I (env.Reads unset (fun t m => TypeArg.meanings? env t m params args)
        (TypeArg.allUses params args)) (TypeArg.resolveAll env enter params args)
  | [], hQ => .pure fun _ _ _ _ => ⟨rfl, fun _ hu => by cases hu⟩
  | ⟨_, terms⟩ :: args, hQ => by
    obtain ⟨hterms, hargs⟩ := List.forall_mem_append.mp hQ
    exact Env.Reads.map₂ (fun terms types => Ty.ofTerms terms :: types)
      (TypeExpr.resolveTerms_yields terms hterms) (TypeArg.resolveAll_yields args hargs)
termination_by structural args => args

theorem SignatureExpr.resolve_yields : ∀ sig : SignatureExpr, (∀ u ∈ sig.uses params, Q u.1) →
    Yields I (env.Reads unset (fun t m => sig.meaning? env t m params) (sig.uses params))
      (sig.resolve env enter params)
  | ⟨decls, results⟩, hQ => by
    obtain ⟨hdecls, hresults⟩ := List.forall_mem_append.mp hQ
    exact Env.Reads.map₂ (fun vars results =>
        (⟨none, [], vars, results, decls.any ParamDecl.variadic⟩ : Signature))
      (ParamDecl.resolveAll_yields decls hdecls) (ResultExpr.resolve_yields results hresults)
termination_by structural sig => sig

theorem ResultExpr.resolve_yields : ∀ results : ResultExpr, (∀ u ∈ results.uses params, Q u.1) →
    Yields I (env.Reads unset (fun t m => results.meaning? env t m params) (results.uses params))
      (results.resolve env enter params)
  | .list decls, hQ => ParamDecl.resolveAll_yields decls hQ
  | .single type, hQ =>
    Env.Reads.map (fun type => [(⟨"", type⟩ : Var)]) (TypeExpr.resolve_yields type hQ)
termination_by structural results => results

theorem ParamDecl.resolveAll_yields : ∀ decls : List ParamDecl,
    (∀ u ∈ ParamDecl.allUses params decls, Q u.1) →
      Yields I (env.Reads unset (fun t m => ParamDecl.meanings? env t m params decls)
        (ParamDecl.allUses params decls)) (ParamDecl.resolveAll env enter params decls)
  | [], hQ => .pure fun _ _ _ _ => ⟨rfl, fun _ hu => by cases hu⟩
  | ⟨names, type, variadic⟩ :: decls, hQ => by
    obtain ⟨htype, hdecls⟩ := List.forall_mem_append.mp hQ
    exact Env.Reads.map₂ (fun type vars =>
        Var.ofNames names (if variadic then .slice type else type) ++ vars)
      (TypeExpr.resolve_yields type htype) (ParamDecl.resolveAll_yields decls hdecls)
termination_by structural decls => decls

theorem FieldDecl.resolveAll_yields : ∀ decls : List FieldDecl,
    (∀ u ∈ FieldDecl.allUses params decls, Q u.1) →
      Yields I (env.Reads unset (fun t m => FieldDecl.meanings? env t m params decls)
        (FieldDecl.allUses params decls)) (FieldDecl.resolveAll env enter params decls)
  | [], hQ => .pure fun _ _ _ _ => ⟨rfl, fun _ hu => by cases hu⟩
  | .named names type tag :: decls, hQ => by
    obtain ⟨htype, hdecls⟩ := List.forall_mem_append.mp hQ
    exact Env.Reads.map₂ (fun type fields =>
        Field.ofNames names type (tag.map Text.StringLiteral.unquote) ++ fields)
      (TypeExpr.resolve_yields type htype) (FieldDecl.resolveAll_yields decls hdecls)
  | .embedded pointer name args tag :: decls, hQ => by
    obtain ⟨hfield, hdecls⟩ := List.forall_mem_append.mp hQ
    obtain ⟨hargs, hname⟩ := List.forall_mem_append.mp hfield
    have hembedded := Env.Reads.map₂ (fun type fields =>
        (⟨name.unqualified, if pointer then .pointer type else type, true,
          tag.map Text.StringLiteral.unquote⟩ : Field) :: fields)
      (TypeName.resolve_args_yields hI henter name (TypeArg.resolveAll_yields args hargs) hname)
      (FieldDecl.resolveAll_yields decls hdecls)
    simpa only [FieldDecl.meanings?, FieldDecl.allUses, FieldDecl.resolveAll, bind_assoc]
      using hembedded
termination_by structural decls => decls

theorem InterfaceElem.resolveAll_yields : ∀ elems : List InterfaceElem,
    (∀ u ∈ InterfaceElem.allUses params elems, Q u.1) →
      Yields I (env.Reads unset (fun t m => InterfaceElem.meanings? env t m params elems)
        (InterfaceElem.allUses params elems)) (InterfaceElem.resolveAll env enter params elems)
  | [], hQ => .pure fun _ _ _ _ => ⟨rfl, fun _ hu => by cases hu⟩
  | .method name sig :: elems, hQ => by
    obtain ⟨huses, helems⟩ := List.forall_mem_append.mp hQ
    refine (SignatureExpr.resolve_yields sig huses).bind fun sig =>
      (Yields.define rfl fun p ⟨hp, hsig⟩ => ⟨hI.define p _ rfl hp
          (hI.counts_signature hp huses (hsig p (.refl p))), fun q hq =>
            hsig q ((p.later_define _).trans hq)⟩).bind fun _ =>
        (InterfaceElem.resolveAll_yields elems helems).given.given.bind fun found =>
          .pure fun p ⟨⟨⟨_, hsig⟩, _⟩, hfound⟩ q hq => ?_
    obtain ⟨hs, hsfits⟩ := hsig q hq
    obtain ⟨hf, hffits⟩ := hfound q hq
    exact ⟨by simp [InterfaceElem.meanings?, hs, hf], List.forall_mem_append.mpr ⟨hsfits, hffits⟩⟩
  | .union terms :: elems, hQ => by
    obtain ⟨hterms, helems⟩ := List.forall_mem_append.mp hQ
    exact Env.Reads.map₂ (fun terms found => (.inr (.ofTerms terms) :: found : List ResolvedElem))
      (TypeExpr.resolveTerms_yields terms hterms) (InterfaceElem.resolveAll_yields elems helems)
termination_by structural elems => elems

end

/-! ## Type parameters -/

/-- Declarations of type parameters that are resolved have the meaning that is returned. -/
theorem TypeParamDecl.resolveAll_yields (decls : List TypeParamDecl)
    (hQ : ∀ u ∈ TypeParamDecl.allUses params decls, Q u.1) :
    Yields I (env.Reads unset (fun t m => TypeParamDecl.meanings? env t m params decls)
      (TypeParamDecl.allUses params decls)) (TypeParamDecl.resolveAll env enter params decls) := by
  induction decls with
  | nil => exact .pure fun _ _ _ _ => ⟨rfl, fun _ hu => by cases hu⟩
  | cons decl decls ih =>
    obtain ⟨hconstraint, hdecls⟩ := List.forall_mem_append.mp hQ
    exact Env.Reads.map₂ (fun terms found =>
        decl.names.map (fun name => (⟨name, Ty.ofTerms terms⟩ : TypeParam)) ++ found)
      (TypeExpr.resolveTerms_yields hI henter decl.constraint hconstraint) (ih hdecls)

end

end GoSignatures
