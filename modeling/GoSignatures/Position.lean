/-!
# Positions in a source text

A `Position` is a byte offset from 0 together with the line and the column from 1 that a
diagnostic shows; columns count bytes. A `Piece` is a stretch of source text that knows where
it starts.

* `Position.advance` — the position after one character
* `Position.le` — textual order: offset, then line, then column
-/

namespace GoSignatures

/-- A place in a source text. -/
structure Position where
  /-- Bytes before the place. -/
  offset : Nat := 0
  /-- Line, counted from 1. -/
  line : Nat := 0
  /-- Column in bytes, counted from 1. -/
  column : Nat := 0
deriving DecidableEq, Repr, Inhabited

namespace Position

/-- Where a text starts. -/
def start : Position := ⟨0, 1, 1⟩

/-- The position after the character `c`. A line feed opens the next line. -/
def advance (p : Position) (c : Char) : Position :=
  if c = '\n' then ⟨p.offset + 1, p.line + 1, 1⟩
  else ⟨p.offset + c.utf8Size, p.line, p.column + c.utf8Size⟩

/-- The position after all of `cs`. -/
def advanceAll (p : Position) (cs : List Char) : Position :=
  cs.foldl advance p

/-- Textual order: by offset, then line, then column. -/
def le (p q : Position) : Bool :=
  p.offset < q.offset ||
    (p.offset == q.offset &&
      (p.line < q.line || (p.line == q.line && p.column ≤ q.column)))

/-- The form in which a diagnostic shows a position. -/
def render (p : Position) : String :=
  s!"{p.line}:{p.column}"

theorem le_refl (p : Position) : p.le p = true := by
  simp [le]

theorem le_total (p q : Position) : (p.le q || q.le p) = true := by
  simp only [le, Bool.or_eq_true, Bool.and_eq_true, decide_eq_true_eq, beq_iff_eq]
  omega

theorem le_trans {p q r : Position} (hpq : p.le q = true) (hqr : q.le r = true) :
    p.le r = true := by
  simp only [le, Bool.or_eq_true, Bool.and_eq_true, decide_eq_true_eq, beq_iff_eq] at *
  omega

theorem le_antisymm {p q : Position} (hpq : p.le q = true) (hqp : q.le p = true) : p = q := by
  cases p
  cases q
  simp only [le, Bool.or_eq_true, Bool.and_eq_true, decide_eq_true_eq, beq_iff_eq, mk.injEq] at *
  omega

end Position

/-- A stretch of source text and where it starts. -/
structure Piece where
  text : String
  position : Position
deriving DecidableEq, Repr, Inhabited

end GoSignatures
