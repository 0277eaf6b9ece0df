import GoSignatures.Proofs.Outcome
import GoSignatures.Proofs.Text.Unsigned
import GoSignatures.Resolution.TypeExpr

/-!
# What an integer literal denotes

A literal is a decimal numeral that does not start with a zero, a zero alone, or the mark of a radix
and digits; the mark of octal numerals may be a mere zero. Underscores may stand between digits and
behind a mark. Evaluating a literal takes the underscores away and lowers the letters, which leaves
the usual digits of its value, so that the value comes out in every form, if it is below 2^64.

* `IntLiteral.Denotes` — the literals and their values
* `IntLiteral.value?_of_denotes` — a literal is evaluated to its value
* `Expr.arrayLen_of_spells` — and so is an array length that it spells
* `IntLiteral.evaluates` — literals of one value make the same array types with the same text
-/

namespace GoSignatures

namespace Text

namespace IntLiteral

/-! ## Literals -/

/-- Digits of a radix with single underscores between some of them, and their values. -/
inductive Digits (radix : Nat) : List Char → List Nat → Prop where
  | last {c : Char} {d : Nat} (h : IsDigit radix c d) : Digits radix [c] [d]
  | cons {c : Char} {d : Nat} {cs : List Char} {ds : List Nat} (h : IsDigit radix c d)
      (hmore : Digits radix cs ds) : Digits radix (c :: cs) (d :: ds)
  | parted {c : Char} {d : Nat} {cs : List Char} {ds : List Nat} (h : IsDigit radix c d)
      (hmore : Digits radix cs ds) : Digits radix (c :: '_' :: cs) (d :: ds)

/-- The marks in front of the digits, with the radix that they announce. -/
def marks : List (List Char × Nat) :=
  [(['0', 'x'], 16), (['0', 'X'], 16), (['0', 'o'], 8), (['0', 'O'], 8), (['0', 'b'], 2),
    (['0', 'B'], 2), (['0'], 8)]

/-- The integer literals and their values. Of digits the first is the most significant. -/
inductive Denotes : List Char → Nat → Prop where
  | zero : Denotes ['0'] 0
  | decimal {cs : List Char} {d : Nat} {ds : List Nat} (h : Digits 10 cs (d :: ds)) (hd : d ≠ 0) :
      Denotes cs (Nat.ofDigits 10 (d :: ds).reverse)
  | marked {mark cs : List Char} {radix : Nat} {ds : List Nat} (hmark : (mark, radix) ∈ marks)
      (h : Digits radix cs ds) : Denotes (mark ++ cs) (Nat.ofDigits radix ds.reverse)
  | markedParted {mark cs : List Char} {radix : Nat} {ds : List Nat}
      (hmark : (mark, radix) ∈ marks) (h : Digits radix cs ds) :
      Denotes (mark ++ '_' :: cs) (Nat.ofDigits radix ds.reverse)

namespace Digits

variable {radix : Nat} {cs : List Char} {ds : List Nat}

theorem ne_nil (h : Digits radix cs ds) : ds ≠ [] := by
  cases h <;> exact List.cons_ne_nil _ _

theorem lt (h : Digits radix cs ds) : ∀ d ∈ ds, d < radix := by
  induction h with
  | last h => exact List.forall_mem_singleton.mpr h.1
  | cons h _ ih => exact List.forall_mem_cons.mpr ⟨h.1, ih⟩
  | parted h _ ih => exact List.forall_mem_cons.mpr ⟨h.1, ih⟩

end Digits

/-! ## Evaluating a literal -/

/-- A literal without underscores and in lower case. -/
def plain (cs : List Char) : List Char :=
  (cs.filter (· != '_')).map Char.toLower

theorem plain_append (cs cs' : List Char) : plain (cs ++ cs') = plain cs ++ plain cs' := by
  rw [plain, List.filter_append, List.map_append]
  rfl

theorem plain_underscore (cs : List Char) : plain ('_' :: cs) = plain cs := rfl

/-- In plain form, digits are the usual ones. -/
theorem Digits.plain_eq {radix : Nat} (hradix : radix ≤ 16) {cs : List Char} {ds : List Nat}
    (h : Digits radix cs ds) : plain cs = ds.map Nat.digitChar := by
  have hcons : ∀ {c : Char} {d : Nat} (cs : List Char), IsDigit radix c d →
      plain (c :: cs) = Nat.digitChar d :: plain cs := by
    intro c d cs hdigit
    obtain ⟨hlower, hne⟩ := hdigit.toLower hradix
    rw [plain, List.filter_cons_of_pos (by simpa using hne), List.map_cons, hlower]
    rfl
  induction h with
  | last h => exact hcons [] h
  | cons h _ ih => rw [hcons _ h, ih, List.map_cons]
  | parted h _ ih => rw [hcons _ h, plain_underscore, ih, List.map_cons]

/-- In plain form, the marks announce their radix. -/
theorem split_mark {mark : List Char} {radix : Nat} (hmark : (mark, radix) ∈ marks)
    {ds : List Nat} (hne : ds ≠ []) (hds : ∀ d ∈ ds, d < radix) :
    radix ≤ 16 ∧ split (plain mark ++ ds.map Nat.digitChar) = (radix, ds.map Nat.digitChar) := by
  obtain ⟨d, ds, rfl⟩ := List.exists_cons_of_ne_nil hne
  have hd : d < radix := hds d List.mem_cons_self
  simp only [marks, List.mem_cons, List.not_mem_nil, or_false, Prod.mk.injEq] at hmark
  rcases hmark with ⟨rfl, rfl⟩ | ⟨rfl, rfl⟩ | ⟨rfl, rfl⟩ | ⟨rfl, rfl⟩ | ⟨rfl, rfl⟩ | ⟨rfl, rfl⟩ |
    ⟨rfl, rfl⟩
  case inr.inr.inr.inr.inr.inr =>
    -- no octal digit is taken for the letter of a mark
    refine ⟨by omega, ?_⟩
    interval_cases d <;> rfl
  all_goals exact ⟨by omega, rfl⟩

theorem split_decimal {d : Nat} {ds : List Nat} (hd : d < 10) (hne : d ≠ 0) :
    split ((d :: ds).map Nat.digitChar) = (10, (d :: ds).map Nat.digitChar) := by
  interval_cases d
  case «0» => exact absurd rfl hne
  all_goals rfl

/-- Whatever form a literal has, in plain form it comes down to the usual digits of its value. -/
theorem Denotes.split_plain {cs : List Char} {n : Nat} (h : Denotes cs n) :
    ∃ radix ds, radix ≤ 16 ∧ ds ≠ [] ∧ (∀ d ∈ ds, d < radix) ∧
      split (plain cs) = (radix, ds.map Nat.digitChar) ∧ Nat.ofDigits radix ds.reverse = n := by
  cases h with
  | zero => exact ⟨10, [0], by omega, List.cons_ne_nil _ _, by simp, rfl, rfl⟩
  | @decimal cs d ds h hd =>
    refine ⟨10, d :: ds, by omega, h.ne_nil, h.lt, ?_, rfl⟩
    rw [h.plain_eq (by omega)]
    exact split_decimal (h.lt d List.mem_cons_self) hd
  | @marked mark cs radix ds hmark h =>
    obtain ⟨hradix, hsplit⟩ := split_mark hmark h.ne_nil h.lt
    refine ⟨radix, ds, hradix, h.ne_nil, h.lt, ?_, rfl⟩
    rw [plain_append, h.plain_eq hradix, hsplit]
  | @markedParted mark cs radix ds hmark h =>
    obtain ⟨hradix, hsplit⟩ := split_mark hmark h.ne_nil h.lt
    refine ⟨radix, ds, hradix, h.ne_nil, h.lt, ?_, rfl⟩
    rw [plain_append, plain_underscore, h.plain_eq hradix, hsplit]

/-- A literal is evaluated to its value, if that is below the limit. -/
theorem value?_of_denotes {literal : String} {n : Nat} (h : Denotes literal.toList n) :
    value? literal = if n < 2 ^ 64 then some n else none := by
  obtain ⟨radix, ds, hradix, hne, hds, hsplit, rfl⟩ := h.split_plain
  show Unsigned.read (split (plain literal.toList)).1 (split (plain literal.toList)).2 = _
  rw [hsplit]
  exact Unsigned.read_map_digitChar hradix hne hds

end IntLiteral

end Text

/-! ## Array types -/

/-- An expression is an integer literal in a scope, or a constant that is given by one. -/
inductive Expr.Spells (scope : FileScope) (literal : String) : Expr → Prop where
  | int : Spells scope literal (.int literal)
  | constant {name : String} (h : scope.lookup name = some (.const (some (.int literal)))) :
      Spells scope literal (.name name)
  | group {inner : Expr} (h : Spells scope literal inner) : Spells scope literal (.group inner)

theorem Expr.arrayLen_of_spells {scope : FileScope} {literal : String} {n : Nat}
    (hvalue : Text.IntLiteral.value? literal = some n) {e : Expr} (h : e.Spells scope literal) :
    e.arrayLen scope = .known n := by
  induction h with
  | int => simp [arrayLen, hvalue]
  | constant h => simp [arrayLen, h, hvalue]
  | group _ ih => rw [arrayLen, ih]

/-- The text of an array type shows its length in decimal. -/
theorem Ty.render_array (table : Table) (n : Nat) (elem : Ty) :
    (Ty.array (.known n) elem).render table = "[" ++ toString n ++ "]" ++ elem.render table := by
  apply String.toList_injective
  simp [render, Ty.chars, ArrayLen.chars, Nat.repr, toString]

namespace Text.IntLiteral

/-- An integer literal is evaluated to its value if that is below 2^64, and to nothing otherwise. So
array types are the same, down to their text, when their lengths are spelled by literals of one such
value. -/
theorem evaluates {literal : String} {n : Nat} (h : Denotes literal.toList n) :
    value? literal = (if n < 2 ^ 64 then some n else none) ∧
      ∀ literal', Denotes literal'.toList n → n < 2 ^ 64 →
        ∀ (env : Env) (enter : EnterType) (params : List String) (length length' : Expr)
          (elem : TypeExpr), length.Spells env.scope literal → length'.Spells env.scope literal' →
          (TypeExpr.array length elem).resolve env enter params =
            (TypeExpr.array length' elem).resolve env enter params ∧
          ∀ p type p', (TypeExpr.array length elem).resolve env enter params p = .ok (type, p') →
            ∃ type', type = .array (.known n) type' ∧
              ∀ table, type.render table = "[" ++ toString n ++ "]" ++ type'.render table := by
  refine ⟨value?_of_denotes h, fun literal' h' hn env enter params length length' elem hlength
    hlength' => ?_⟩
  have hknown : length.arrayLen env.scope = .known n :=
    Expr.arrayLen_of_spells (by rw [value?_of_denotes h, if_pos hn]) hlength
  have hknown' : length'.arrayLen env.scope = .known n :=
    Expr.arrayLen_of_spells (by rw [value?_of_denotes h', if_pos hn]) hlength'
  constructor
  · rw [TypeExpr.resolve, TypeExpr.resolve, hknown, hknown']
  · intro p type p' hresolve
    rw [TypeExpr.resolve, hknown, Resolve.bind_eq_ok_iff] at hresolve
    obtain ⟨type', p₁, -, hpure⟩ := hresolve
    obtain ⟨rfl, -⟩ := Resolve.pure_eq_ok_iff.mp hpure
    exact ⟨type', rfl, fun table => Ty.render_array table n type'⟩

/-- The surroundings of `const N = 0_37`. -/
def envOfConstant : Env where
  path := "a.go"
  packageName := "p"
  config := {}
  scope := ⟨.empty, [("N", .const (some (.int "0_37")))]⟩

/-- `[0X_1f]*int` and `[(N)]*int` are one type where `N` is `0_37`. -/
theorem evaluates_ofRadices : Denotes "0X_1f".toList 31 ∧ value? "0X_1f" = some 31 ∧
    Denotes "0_37".toList 31 ∧
      ∀ enter elem, (TypeExpr.array (.int "0X_1f") elem).resolve envOfConstant enter [] =
        (TypeExpr.array (.group (.name "N")) elem).resolve envOfConstant enter [] := by
  have hdigit : ∀ {radix d : Nat} {c : Char}, d < radix → c = Nat.digitChar d →
      IsDigit radix c d := fun hd hc => ⟨hd, .inl hc⟩
  have hhex : Denotes "0X_1f".toList 31 :=
    @Denotes.markedParted ['0', 'X'] ['1', 'f'] 16 [1, 15] (by decide)
      (.cons (hdigit (by decide) rfl) (.last (hdigit (by decide) rfl)))
  have hoctal : Denotes "0_37".toList 31 :=
    @Denotes.markedParted ['0'] ['3', '7'] 8 [3, 7] (by decide)
      (.cons (hdigit (by decide) rfl) (.last (hdigit (by decide) rfl)))
  obtain ⟨hvalue, harrays⟩ := evaluates hhex
  refine ⟨hhex, hvalue, hoctal, fun enter elem => ?_⟩
  exact (harrays "0_37" hoctal (by decide) envOfConstant enter [] _ _ elem .int
    (.group (.constant rfl))).1

end Text.IntLiteral

end GoSignatures
