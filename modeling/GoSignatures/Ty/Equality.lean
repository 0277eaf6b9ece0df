import GoSignatures.Ty.Basic

/-!
# Equality of types

Types are compared structurally: same constructor, same names, same order. The comparison is
given by a function for each member of the family, and decides equality.

* `Ty.beq` — the comparison
* `Ty.beq_iff` — it decides equality
-/

namespace GoSignatures

mutual

/-- Structural comparison of types. -/
def Ty.beq : Ty → Ty → Bool
  | .basic j, .basic k => j == k
  | .named i as, .named j bs => i == j && Ty.beqs as bs
  | .imported p n u, .imported q m v => p == q && n == m && Ty.beqOpt u v
  | .param n, .param m => n == m
  | .pointer s, .pointer t => s.beq t
  | .slice s, .slice t => s.beq t
  | .array l s, .array m t => l == m && s.beq t
  | .map k s, .map l t => k.beq l && s.beq t
  | .chan d s, .chan e t => d == e && s.beq t
  | .func f, .func g => f.beq g
  | .struct fs, .struct gs => Field.beqs fs gs
  | .interface i, .interface j => i.beq j
  | .invalid, .invalid => true
  | _, _ => false

/-- Comparison of lists of types. -/
def Ty.beqs : List Ty → List Ty → Bool
  | [], [] => true
  | s :: ss, t :: ts => s.beq t && Ty.beqs ss ts
  | _, _ => false

/-- Comparison of optional types. -/
def Ty.beqOpt : Option Ty → Option Ty → Bool
  | none, none => true
  | some s, some t => s.beq t
  | _, _ => false

/-- Comparison of variables. -/
def Var.beq : Var → Var → Bool
  | ⟨n, s⟩, ⟨m, t⟩ => n == m && s.beq t

/-- Comparison of lists of variables. -/
def Var.beqs : List Var → List Var → Bool
  | [], [] => true
  | v :: vs, w :: ws => v.beq w && Var.beqs vs ws
  | _, _ => false

/-- Comparison of optional variables. -/
def Var.beqOpt : Option Var → Option Var → Bool
  | none, none => true
  | some v, some w => v.beq w
  | _, _ => false

/-- Comparison of lists of type parameters. -/
def TypeParam.beqs : List TypeParam → List TypeParam → Bool
  | [], [] => true
  | ⟨n, s⟩ :: ps, ⟨m, t⟩ :: qs => n == m && s.beq t && TypeParam.beqs ps qs
  | _, _ => false

/-- Comparison of signatures. -/
def Signature.beq : Signature → Signature → Bool
  | ⟨r, ps, as, bs, v⟩, ⟨r', ps', as', bs', v'⟩ =>
    Var.beqOpt r r' && TypeParam.beqs ps ps' && Var.beqs as as' && Var.beqs bs bs' && v == v'

/-- Comparison of lists of fields. -/
def Field.beqs : List Field → List Field → Bool
  | [], [] => true
  | ⟨n, s, e, g⟩ :: fs, ⟨n', s', e', g'⟩ :: fs' =>
    n == n' && s.beq s' && e == e' && g == g' && Field.beqs fs fs'
  | _, _ => false

/-- Comparison of lists of methods. -/
def Method.beqs : List Method → List Method → Bool
  | [], [] => true
  | ⟨n, s⟩ :: ms, ⟨n', s'⟩ :: ms' => n == n' && s.beq s' && Method.beqs ms ms'
  | _, _ => false

/-- Comparison of lists of terms. -/
def Term.beqs : List Term → List Term → Bool
  | [], [] => true
  | ⟨b, s⟩ :: ts, ⟨b', s'⟩ :: ts' => b == b' && s.beq s' && Term.beqs ts ts'
  | _, _ => false

/-- Comparison of lists of embedded elements. -/
def Embedded.beqs : List Embedded → List Embedded → Bool
  | [], [] => true
  | .type s :: es, .type t :: es' => s.beq t && Embedded.beqs es es'
  | .union ss :: es, .union ts :: es' => Term.beqs ss ts && Embedded.beqs es es'
  | _, _ => false

/-- Comparison of interfaces. -/
def Interface.beq : Interface → Interface → Bool
  | ⟨ms, es, c⟩, ⟨ms', es', c'⟩ => Method.beqs ms ms' && Embedded.beqs es es' && c == c'

end

mutual

/-- Comparing decides equality, in each member of the family. One case for each constructor. -/
theorem Ty.beq_iff : ∀ s t : Ty, s.beq t = true ↔ s = t
  | .basic j, t => by cases t <;> simp [Ty.beq]
  | .named i as, t => by cases t <;> simp [Ty.beq, Ty.beqs_iff as]
  | .imported p n u, t => by cases t <;> simp [Ty.beq, Ty.beqOpt_iff u, and_assoc]
  | .param n, t => by cases t <;> simp [Ty.beq]
  | .pointer s, t => by cases t <;> simp [Ty.beq, Ty.beq_iff s]
  | .slice s, t => by cases t <;> simp [Ty.beq, Ty.beq_iff s]
  | .array l s, t => by cases t <;> simp [Ty.beq, Ty.beq_iff s]
  | .map k s, t => by cases t <;> simp [Ty.beq, Ty.beq_iff k, Ty.beq_iff s]
  | .chan d s, t => by cases t <;> simp [Ty.beq, Ty.beq_iff s]
  | .func f, t => by cases t <;> simp [Ty.beq, Signature.beq_iff f]
  | .struct fs, t => by cases t <;> simp [Ty.beq, Field.beqs_iff fs]
  | .interface i, t => by cases t <;> simp [Ty.beq, Interface.beq_iff i]
  | .invalid, t => by cases t <;> simp [Ty.beq]
termination_by structural s => s

theorem Ty.beqs_iff : ∀ ss ts : List Ty, Ty.beqs ss ts = true ↔ ss = ts
  | [], ts => by cases ts <;> simp [Ty.beqs]
  | s :: ss, ts => by cases ts <;> simp [Ty.beqs, Ty.beq_iff s, Ty.beqs_iff ss]
termination_by structural s => s

theorem Ty.beqOpt_iff : ∀ s t : Option Ty, Ty.beqOpt s t = true ↔ s = t
  | none, t => by cases t <;> simp [Ty.beqOpt]
  | some s, t => by cases t <;> simp [Ty.beqOpt, Ty.beq_iff s]
termination_by structural s => s

theorem Var.beq_iff : ∀ v w : Var, v.beq w = true ↔ v = w
  | ⟨n, s⟩, ⟨m, t⟩ => by simp [Var.beq, Ty.beq_iff s]
termination_by structural s => s

theorem Var.beqs_iff : ∀ vs ws : List Var, Var.beqs vs ws = true ↔ vs = ws
  | [], ws => by cases ws <;> simp [Var.beqs]
  | v :: vs, ws => by cases ws <;> simp [Var.beqs, Var.beq_iff v, Var.beqs_iff vs]
termination_by structural s => s

theorem Var.beqOpt_iff : ∀ v w : Option Var, Var.beqOpt v w = true ↔ v = w
  | none, w => by cases w <;> simp [Var.beqOpt]
  | some v, w => by cases w <;> simp [Var.beqOpt, Var.beq_iff v]
termination_by structural s => s

theorem TypeParam.beqs_iff : ∀ ps qs : List TypeParam, TypeParam.beqs ps qs = true ↔ ps = qs
  | [], qs => by cases qs <;> simp [TypeParam.beqs]
  | ⟨n, s⟩ :: ps, qs => by
    rcases qs with _ | ⟨⟨m, t⟩, qs⟩ <;> simp [TypeParam.beqs, Ty.beq_iff s, TypeParam.beqs_iff ps]
termination_by structural s => s

theorem Signature.beq_iff : ∀ f g : Signature, f.beq g = true ↔ f = g
  | ⟨r, ps, as, bs, v⟩, ⟨r', ps', as', bs', v'⟩ => by
    simp [Signature.beq, Var.beqOpt_iff r, TypeParam.beqs_iff ps, Var.beqs_iff as,
      Var.beqs_iff bs, and_assoc]
termination_by structural s => s

theorem Field.beqs_iff : ∀ fs gs : List Field, Field.beqs fs gs = true ↔ fs = gs
  | [], gs => by cases gs <;> simp [Field.beqs]
  | ⟨n, s, e, g⟩ :: fs, gs => by
    rcases gs with _ | ⟨⟨n', s', e', g'⟩, gs⟩ <;>
      simp [Field.beqs, Ty.beq_iff s, Field.beqs_iff fs, and_assoc]
termination_by structural s => s

theorem Method.beqs_iff : ∀ ms ns : List Method, Method.beqs ms ns = true ↔ ms = ns
  | [], ns => by cases ns <;> simp [Method.beqs]
  | ⟨n, s⟩ :: ms, ns => by
    rcases ns with _ | ⟨⟨n', s'⟩, ns⟩ <;> simp [Method.beqs, Signature.beq_iff s, Method.beqs_iff ms]
termination_by structural s => s

theorem Term.beqs_iff : ∀ ss ts : List Term, Term.beqs ss ts = true ↔ ss = ts
  | [], ts => by cases ts <;> simp [Term.beqs]
  | ⟨b, s⟩ :: ss, ts => by
    rcases ts with _ | ⟨⟨b', t⟩, ts⟩ <;> simp [Term.beqs, Ty.beq_iff s, Term.beqs_iff ss]
termination_by structural s => s

theorem Embedded.beqs_iff : ∀ es fs : List Embedded, Embedded.beqs es fs = true ↔ es = fs
  | [], fs => by cases fs <;> simp [Embedded.beqs]
  | .type s :: es, fs => by
    rcases fs with _ | ⟨_ | _, fs⟩ <;> simp [Embedded.beqs, Ty.beq_iff s, Embedded.beqs_iff es]
  | .union ss :: es, fs => by
    rcases fs with _ | ⟨_ | _, fs⟩ <;> simp [Embedded.beqs, Term.beqs_iff ss, Embedded.beqs_iff es]
termination_by structural s => s

theorem Interface.beq_iff : ∀ i j : Interface, i.beq j = true ↔ i = j
  | ⟨ms, es, c⟩, ⟨ms', es', c'⟩ => by
    simp [Interface.beq, Method.beqs_iff ms, Embedded.beqs_iff es, and_assoc]
termination_by structural s => s

end

instance : DecidableEq Ty := fun s t => decidable_of_iff _ (Ty.beq_iff s t)

instance : DecidableEq Signature := fun f g => decidable_of_iff _ (Signature.beq_iff f g)

end GoSignatures
