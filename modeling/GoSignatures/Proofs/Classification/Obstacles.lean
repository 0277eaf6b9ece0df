import GoSignatures.Classification.Support
import Mathlib.Data.List.Basic

/-!
# The obstacles of a signature

A signature is plain when it is that of a function without receiver, type parameters and variadic
part, all of whose types may stand where they do: a type whose underlying type is basic anywhere,
the error contract as a result. Of any other signature, the failing checks are listed, each once
and in a fixed order.

* `Table.Allows`, `Signature.Plain` — what may stand in a supported signature
* `Obstacle.Blocks` — a check fails
* `Obstacle.Before` — the order of the checks
* `Signature.isSupported_iff` — the supported signatures are the plain ones
* `Signature.mem_obstacles`, `Signature.pairwise_obstacles` — the failing checks, in order
-/

namespace GoSignatures

/-- A type may stand at a place: its underlying type is basic, or it is the error contract and
stands as a result. -/
def Table.Allows (t : Table) (type : Ty) : Place → Prop
  | .parameter => ∃ kind, t.underlying type = .basic kind
  | .result => (∃ kind, t.underlying type = .basic kind) ∨ t.hasErrorContract type = true

/-- A signature of a function whose types all may stand where they do. -/
structure Signature.Plain (t : Table) (sig : Signature) : Prop where
  receiver : sig.receiver = none
  typeParams : sig.typeParams = []
  variadic : sig.variadic = false
  params : ∀ v ∈ sig.params, t.Allows v.type .parameter
  results : ∀ v ∈ sig.results, t.Allows v.type .result

/-- A check of a signature fails. -/
def Obstacle.Blocks (t : Table) (sig : Signature) : Obstacle → Prop
  | .receiver => sig.receiver ≠ none
  | .typeParameters => sig.typeParams ≠ []
  | .variadic => sig.variadic = true
  | .parameter i => ∃ v, sig.params[i]? = some v ∧ ¬ t.Allows v.type .parameter
  | .result i => ∃ v, sig.results[i]? = some v ∧ ¬ t.Allows v.type .result

/-- The number of a check, in the order in which the checks are made. -/
def Obstacle.stage : Obstacle → Nat
  | .receiver => 0
  | .typeParameters => 1
  | .variadic => 2
  | .parameter _ => 3
  | .result _ => 4

/-- The index at which a check fails; checks of the whole signature have none. -/
def Obstacle.index : Obstacle → Nat
  | .parameter i => i
  | .result i => i
  | _ => 0

/-- The order of the checks: by their kind, and those of one kind by the index. -/
def Obstacle.Before (o o' : Obstacle) : Prop :=
  o.stage < o'.stage ∨ o.stage = o'.stage ∧ o.index < o'.index

variable {t : Table} {sig : Signature}

/-! ## Types at their places -/

theorem Ty.isBasic_iff {type : Ty} : type.isBasic = true ↔ ∃ kind, type = .basic kind := by
  cases type <;> simp [Ty.isBasic]

theorem Table.represents_iff {place : Place} {type : Ty} :
    t.represents place type = true ↔ t.Allows type place := by
  cases place <;> simp [Table.represents, Table.Allows, Ty.isBasic_iff]

theorem Table.mem_unrepresented {place : Place} {i : Nat} : ∀ {vars : List Var} {start : Nat},
    i ∈ t.unrepresented place start vars ↔
      ∃ j v, i = start + j ∧ vars[j]? = some v ∧ ¬ t.Allows v.type place
  | [], start => by simp [Table.unrepresented]
  | v :: vs, start => by
    rw [Table.unrepresented, List.mem_append, mem_unrepresented]
    constructor
    · rintro (hi | ⟨j, w, rfl, hw, hblocked⟩)
      · split at hi
        · cases hi
        · next hv =>
          rw [List.mem_singleton] at hi
          exact ⟨0, v, hi, rfl, by rwa [← Table.represents_iff]⟩
      · exact ⟨j + 1, w, by omega, hw, hblocked⟩
    · rintro ⟨j | j, w, rfl, hw, hblocked⟩
      · cases hw
        rw [← Table.represents_iff] at hblocked
        exact Or.inl (by simp [hblocked])
      · exact Or.inr ⟨j, w, by omega, hw, hblocked⟩

theorem Table.pairwise_unrepresented {place : Place} : ∀ (vars : List Var) (start : Nat),
    (t.unrepresented place start vars).Pairwise (· < ·)
  | [], _ => List.Pairwise.nil
  | v :: vs, start => by
    rw [Table.unrepresented]
    split
    · exact pairwise_unrepresented vs (start + 1)
    · refine List.pairwise_cons.mpr ⟨fun i hi => ?_, pairwise_unrepresented vs (start + 1)⟩
      obtain ⟨j, w, rfl, -, -⟩ := Table.mem_unrepresented.mp hi
      omega

/-! ## The failing checks -/

theorem Signature.mem_obstacles {o : Obstacle} : o ∈ sig.obstacles t ↔ o.Blocks t sig := by
  simp only [Signature.obstacles, List.mem_append, List.mem_map, Table.mem_unrepresented]
  cases o <;> simp [Obstacle.Blocks, Option.isSome_iff_ne_none]

/-- Two parts of a list of obstacles are in order if the checks of one precede those of the
other. -/
theorem Obstacle.pairwise_append {l l' : List Obstacle} (n : Nat)
    (hl : l.Pairwise Obstacle.Before) (hl' : l'.Pairwise Obstacle.Before)
    (hbelow : ∀ o ∈ l, o.stage < n) (habove : ∀ o ∈ l', n ≤ o.stage) :
    (l ++ l').Pairwise Obstacle.Before := by
  refine List.pairwise_append.mpr ⟨hl, hl', fun o ho o' ho' => Or.inl ?_⟩
  have hlt := hbelow o ho
  have hle := habove o' ho'
  omega

/-- No check is listed twice, and the checks are listed in their order. -/
theorem Signature.pairwise_obstacles : (sig.obstacles t).Pairwise Obstacle.Before := by
  have hparams : ((t.unrepresented .parameter 0 sig.params).map Obstacle.parameter).Pairwise
      Obstacle.Before :=
    List.pairwise_map.mpr ((Table.pairwise_unrepresented _ _).imp fun hlt => Or.inr ⟨rfl, hlt⟩)
  have hresults : ((t.unrepresented .result 0 sig.results).map Obstacle.result).Pairwise
      Obstacle.Before :=
    List.pairwise_map.mpr ((Table.pairwise_unrepresented _ _).imp fun hlt => Or.inr ⟨rfl, hlt⟩)
  have hfirst : ((if sig.receiver.isSome then [Obstacle.receiver] else []) ++
      (if sig.typeParams.isEmpty then [] else [Obstacle.typeParameters]) ++
      (if sig.variadic then [Obstacle.variadic] else [])).Pairwise Obstacle.Before ∧
      ∀ o ∈ (if sig.receiver.isSome then [Obstacle.receiver] else []) ++
        (if sig.typeParams.isEmpty then [] else [Obstacle.typeParameters]) ++
        (if sig.variadic then [Obstacle.variadic] else []), o.stage < 3 := by
    split_ifs <;> simp [Obstacle.Before, Obstacle.stage]
  rw [Signature.obstacles]
  refine Obstacle.pairwise_append 4 (Obstacle.pairwise_append 3 hfirst.1 hparams hfirst.2 ?_)
    hresults ?_ ?_
  · simp [Obstacle.stage]
  · intro o ho
    rcases List.mem_append.mp ho with ho | ho
    · have hlt := hfirst.2 o ho
      omega
    · obtain ⟨i, -, rfl⟩ := List.mem_map.mp ho
      simp [Obstacle.stage]
  · simp [Obstacle.stage]

/-! ## Plain signatures -/

theorem Signature.plain_iff_forall : sig.Plain t ↔ ∀ o : Obstacle, ¬ o.Blocks t sig := by
  constructor
  · rintro ⟨hreceiver, htypeParams, hvariadic, hparams, hresults⟩ (_ | _ | _ | i | i) hblocks
    · exact hblocks hreceiver
    · exact hblocks htypeParams
    · exact Bool.false_ne_true (hvariadic.symm.trans hblocks)
    · obtain ⟨v, hv, hblocked⟩ := hblocks
      exact hblocked (hparams v (List.mem_of_getElem? hv))
    · obtain ⟨v, hv, hblocked⟩ := hblocks
      exact hblocked (hresults v (List.mem_of_getElem? hv))
  · intro h
    refine ⟨not_not.mp (h .receiver), not_not.mp (h .typeParameters),
      Bool.eq_false_iff.mpr (h .variadic), fun v hv => ?_, fun v hv => ?_⟩
    · obtain ⟨i, hi⟩ := List.getElem?_of_mem hv
      exact not_not.mp fun hblocked => h (.parameter i) ⟨v, hi, hblocked⟩
    · obtain ⟨i, hi⟩ := List.getElem?_of_mem hv
      exact not_not.mp fun hblocked => h (.result i) ⟨v, hi, hblocked⟩

/-- The supported signatures are the plain ones. -/
theorem Signature.isSupported_iff : sig.isSupported t = true ↔ sig.Plain t := by
  rw [Signature.isSupported, List.isEmpty_iff, List.eq_nil_iff_forall_not_mem,
    Signature.plain_iff_forall]
  exact forall_congr' fun o => not_congr Signature.mem_obstacles

end GoSignatures
