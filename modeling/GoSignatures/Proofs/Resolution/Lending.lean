import GoSignatures.Proofs.Resolution.Functions
import GoSignatures.Ty.Equality

/-!
# Underlying types that are lent

A type that is defined as an instance of another has the underlying type of that instance. If the
other type is known when the declaration is reached, its underlying type is taken over at once,
under the type arguments. If not, the type waits, and then it receives the underlying type as it is
stored: the type arguments are lost.

* `Env.definition?` — what a type is defined as
* `SourceFile.LendsInstances` — types have the underlying types of the instances that they are
  defined as
* `SourceFile.lendsInstances_iff` — they do exactly if the type arguments of those that wait make no
  difference
-/

namespace GoSignatures

variable {env : Env} {p q : Progress} {t : Table}

/-- What the declaration of the type at a place defines it as. -/
def Env.definition? (env : Env) (p : Progress) (id : Nat) : Option Ty :=
  (p.entered.find? fun e => e.id == id).bind fun e =>
    match env.scope.lookup e.name.text with
    | some (.type spec) => spec.type.meaning? env p.table (env.typeOf? p) spec.params
    | _ => none

/-! ## After settling -/

namespace Env.Consistent

/-- When no type waits any more, every type has an underlying type. -/
theorem underlying?_isSome (h : env.Consistent [] [] p) (hs : p.table.Settles t p.pending [])
    {id : Nat} (hid : id < t.size) : ∃ type, t.underlying? id = some type := by
  rw [hs.size] at hid
  by_cases hpredeclared : id ≤ comparableId
  · obtain ⟨iface, hiface⟩ := h.underlying?_predeclared hpredeclared
    exact ⟨_, hs.known id _ hiface⟩
  · obtain ⟨e, he, rfl⟩ := h.exists_entered (Nat.lt_of_not_le hpredeclared) hid
    obtain ⟨type, -, ⟨known, hknown, -⟩ | ⟨target, args, -, -, hwaits⟩⟩ := h.right e he (by simp)
    · exact ⟨known, hs.known _ _ hknown⟩
    · obtain ⟨known, hknown, -⟩ := hs.settled _ hwaits (by simp)
      exact ⟨known, hknown⟩

/-- A type has the underlying type of its right-hand side, unless it waited. -/
theorem underlying?_of_right (h : env.Consistent [] [] p) (hs : p.table.Settles t p.pending [])
    {e : EnteredType} (he : e ∈ p.entered) {type : Ty} (hright : env.RightMeans p e type) :
    t.underlying? e.id = some (t.underlying type) ∨
      ∃ target args, type = .named target args ∧ (e.id, target) ∈ p.pending ∧
        t.underlying? e.id = t.underlying? target := by
  obtain ⟨type', hright', hlent⟩ := h.right e he (by simp)
  cases hright.unique hright'
  rcases hlent with ⟨known, hknown, hlasts⟩ | ⟨target, args, htype, -, hwaits⟩
  · refine Or.inl ?_
    rw [hs.known _ _ hknown]
    exact congrArg some (hlasts _ (Progress.later_of_settles hs [])).symm
  · obtain ⟨known, hself, htarget⟩ := hs.settled _ hwaits (by simp)
    exact Or.inr ⟨target, args, htype, hwaits, hself.trans htarget.symm⟩

/-- A type that is defined as an instance has its underlying type, unless it waited. -/
theorem underlying?_of_definition? (h : env.Consistent [] [] p)
    (hs : p.table.Settles t p.pending []) {id target : Nat} {args : List Ty}
    (hdefined : env.definition? { p with table := t, pending := [] } id
      = some (.named target args)) :
    t.underlying? id = t.instance? target args ∨
      (id, target) ∈ p.pending ∧ t.underlying? id = t.underlying? target := by
  obtain ⟨e, hfind, hmeaning⟩ := Option.bind_eq_some_iff.mp hdefined
  have he : e ∈ p.entered := List.mem_of_find?_eq_some hfind
  obtain rfl : e.id = id := by simpa using List.find?_some hfind
  obtain ⟨type, hright, -⟩ := h.right e he (by simp)
  have hreads := hright
  obtain ⟨spec, hspec, hreads⟩ := hreads
  rw [hspec] at hmeaning
  obtain rfl : type = .named target args := Option.some.inj
    ((hreads _ (Progress.later_of_settles hs [])).meaning.symm.trans hmeaning)
  rcases h.underlying?_of_right hs he hright with hstored | ⟨target', args', htype, hwaits, hstored⟩
  · refine Or.inl ?_
    have hsize : target < t.size := by
      have hproper := keeps.proper_meaning h (hreads p (.refl p)).meaning
      rw [hs.size]
      exact hproper.1
    obtain ⟨lender, hlender⟩ := h.underlying?_isSome hs hsize
    rw [hstored]
    simp [Table.underlying, Table.instance?, hlender]
  · cases htype
    exact Or.inr ⟨hwaits, hstored⟩

end Env.Consistent

/-! ## The exact condition -/

namespace SourceFile

/-- In a file that is accepted, a type that is defined as an instance of another has its underlying
type, type arguments included. -/
def LendsInstances (file : SourceFile) (config : Config) : Prop :=
  ∀ result, file.resolve config = .ok result → ∀ env p, file.settleTypes config = .ok (env, p) →
    ∀ id target args, env.definition? p id = some (.named target args) →
      result.table.underlying? id = result.table.instance? target args

/-- Types have the underlying types of the instances that they are defined as if and only if, for
those that wait, replacing the type parameters by the arguments changes nothing. -/
theorem lendsInstances_iff (file : SourceFile) (config : Config) :
    file.LendsInstances config ↔
      ∀ result, file.resolve config = .ok result →
        ∀ env p, file.enterTypes config = .ok (env, p) → ∀ id target, (id, target) ∈ p.pending →
          ∀ args, env.definition? { p with table := result.table, pending := [] } id
              = some (.named target args) →
            result.table.instance? target args = result.table.underlying? target := by
  constructor
  · intro h result hresolve env p henter id target hwaits args hdefined
    obtain ⟨env', q, -, -, hsettle, -, -, -, -, htable, -⟩ := resolve_ok hresolve
    obtain ⟨p', henter', hsettles, hq⟩ := settleTypes_ok hsettle
    cases henter'.symm.trans henter
    rw [htable] at hdefined ⊢
    obtain ⟨known, hself, hlender⟩ := hsettles.settled _ hwaits (by simp)
    have hlent := h result hresolve env q hsettle id target args (hq ▸ hdefined)
    rw [htable] at hlent
    rw [← hlent, hself, hlender]
  · intro h result hresolve env q hsettle id target args hdefined
    obtain ⟨env', q', -, -, hsettle', -, -, -, -, htable, -⟩ := resolve_ok hresolve
    cases hsettle'.symm.trans hsettle
    obtain ⟨p, henter, hsettles, hq⟩ := settleTypes_ok hsettle
    rw [hq] at hdefined
    rw [htable]
    rcases (enterTypes_ok henter).consistent.underlying?_of_definition? hsettles hdefined with
      hknown | ⟨hwaits, hstored⟩
    · exact hknown
    · have hsame := h result hresolve env p henter id target hwaits args (htable ▸ hdefined)
      rw [htable] at hsame
      exact hstored.trans hsame.symm

/-! ## A type that is reached from the one it is defined as -/

/-- The file `type N[T any] struct { d *D; x T }; type D N[int]`. -/
def ofWaitingInstance : SourceFile where
  path := "a.go"
  packageName := "p"
  declarations :=
    [.type ⟨⟨"N", ⟨16, 3, 6⟩⟩, false, [⟨["T"], [.named (.plain ⟨"any", ⟨20, 3, 10⟩⟩) []]⟩],
        .struct [
          .named ["d"] (.pointer (.named (.plain ⟨"D", ⟨36, 3, 26⟩⟩) [])) none,
          .named ["x"] (.named (.plain ⟨"T", ⟨41, 3, 31⟩⟩) []) none]⟩,
      .type ⟨⟨"D", ⟨50, 4, 6⟩⟩, false, [],
        .named (.plain ⟨"N", ⟨52, 4, 8⟩⟩) [⟨"int", [.named (.plain ⟨"int", ⟨54, 4, 10⟩⟩) []]⟩]⟩]

/-- The type `D` is defined as `N[int]`, but its field `x` has the type `T`. -/
theorem not_lendsInstances_ofWaitingInstance :
    ¬ ofWaitingInstance.LendsInstances {} ∧
      ∃ result, ofWaitingInstance.resolve {} = .ok result ∧
        result.table.underlying? 3 = some (.struct [⟨"d", .pointer (.named 3 []), false, none⟩,
          ⟨"x", .param "T", false, none⟩]) := by
  have hsettles : (ofWaitingInstance.settleTypes {}).toOption.map (fun settled =>
      settled.1.definition? settled.2 3) = some (some (.named 2 [.basic .int])) := by
    decide +kernel
  have hresolves : (ofWaitingInstance.resolve {}).toOption.map (fun result =>
      (result.table.underlying? 3, result.table.instance? 2 [.basic .int])) =
        some (some (.struct [⟨"d", .pointer (.named 3 []), false, none⟩,
            ⟨"x", .param "T", false, none⟩]),
          some (.struct [⟨"d", .pointer (.named 3 []), false, none⟩,
            ⟨"x", .basic .int, false, none⟩])) := by
    decide +kernel
  obtain ⟨⟨env, p⟩, hsettle, hdefined⟩ := Option.map_eq_some_iff.mp hsettles
  obtain ⟨result, hresolve, hresult⟩ := Option.map_eq_some_iff.mp hresolves
  obtain ⟨hstored, hinstance⟩ := Prod.mk.injEq .. ▸ hresult
  rw [Except.toOption_eq_some_iff] at hsettle hresolve
  refine ⟨fun h => ?_, result, hresolve, hstored⟩
  have hsame := h result hresolve env p hsettle 3 2 _ hdefined
  rw [hstored, hinstance] at hsame
  simp at hsame

end SourceFile

end GoSignatures
