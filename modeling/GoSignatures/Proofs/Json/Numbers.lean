import GoSignatures.Json.Reader
import Mathlib.Data.List.TakeWhile

/-!
# The numbers of a document

A number is a sign, a whole part, a fraction and an exponent, of which the whole part has to be
there. It is read as long as it goes on, so what follows it must not begin like more of it.

* `Json.IsNumber` — the spellings of numbers
* `Json.readNumber_append`, `Json.isNumber_of_readNumber` — these are what is read
-/

namespace GoSignatures.Json

/-! ## Spellings -/

/-- One or more decimal digits. -/
def IsDigits (ds : List Char) : Prop :=
  ds ≠ [] ∧ ∀ d ∈ ds, d.isDigit = true

/-- The whole part of a number: a zero, or digits that do not start with one. -/
inductive IsWhole : List Char → Prop where
  | zero : IsWhole ['0']
  | digits {d : Char} {ds : List Char} (h : IsDigits (d :: ds)) (hd : d ≠ '0') : IsWhole (d :: ds)

/-- The fraction of a number, which may be missing. -/
inductive IsFraction : List Char → Prop where
  | missing : IsFraction []
  | digits {ds : List Char} (h : IsDigits ds) : IsFraction ('.' :: ds)

/-- The exponent of a number, which may be missing. -/
inductive IsExponent : List Char → Prop where
  | missing : IsExponent []
  | digits {e : Char} {sign ds : List Char} (he : e = 'e' ∨ e = 'E')
      (hsign : sign ∈ [[], ['+'], ['-']]) (h : IsDigits ds) : IsExponent (e :: sign ++ ds)

/-- The spellings of numbers. -/
inductive IsNumber : List Char → Prop where
  | mk {sign whole fraction exponent : List Char} (hsign : sign ∈ [[], ['-']])
      (hwhole : IsWhole whole) (hfraction : IsFraction fraction) (hexponent : IsExponent exponent) :
      IsNumber (sign ++ (whole ++ fraction ++ exponent))

/-- No number goes on with the first character. -/
def Stops (cs : List Char) : Prop :=
  ∀ c ∈ cs.head?, c.isDigit = false ∧ c ≠ '.' ∧ c ≠ 'e' ∧ c ≠ 'E'

section Numbers

variable {ds cs rest : List Char}

/-- Each part is read as long as it goes on. -/
theorem readDigits_append (h : IsDigits ds) (hrest : ∀ c ∈ rest.head?, c.isDigit = false) :
    readDigits (ds ++ rest) = some (ds, rest) := by
  have htake : rest.takeWhile Char.isDigit = [] := by
    cases rest with
    | nil => rfl
    | cons c rest => exact List.takeWhile_cons_of_neg (by simp [hrest c rfl])
  have hdrop : rest.dropWhile Char.isDigit = rest := by
    cases rest with
    | nil => rfl
    | cons c rest => exact List.dropWhile_cons_of_neg (by simp [hrest c rfl])
  rw [readDigits, List.takeWhile_append_of_pos h.2, htake, List.append_nil,
    List.dropWhile_append_of_pos h.2, hdrop]
  cases ds with
  | nil => exact absurd rfl h.1
  | cons => rfl

/-- What is read is a spelling of the part. -/
theorem isDigits_of_readDigits (h : readDigits cs = some (ds, rest)) :
    IsDigits ds ∧ cs = ds ++ rest := by
  rw [readDigits] at h
  split at h
  · cases h
  · next hne =>
    cases h
    exact ⟨⟨hne, fun d hd => List.mem_takeWhile_imp (x := d) hd⟩,
      List.takeWhile_append_dropWhile.symm⟩

theorem readWhole_append {whole : List Char} (h : IsWhole whole)
    (hrest : ∀ c ∈ rest.head?, c.isDigit = false) :
    readWhole (whole ++ rest) = some (whole, rest) := by
  cases h with
  | zero => rfl
  | digits h hd =>
    rw [List.cons_append, readWhole.eq_2 _ fun _ heq => hd (List.cons.inj heq).1]
    exact readDigits_append h hrest

theorem isWhole_of_readWhole {whole : List Char} (h : readWhole cs = some (whole, rest)) :
    IsWhole whole ∧ cs = whole ++ rest := by
  rw [readWhole.eq_def] at h
  split at h
  · cases h
    exact ⟨.zero, rfl⟩
  · next hzero =>
    obtain ⟨hdigits, rfl⟩ := isDigits_of_readDigits h
    cases whole with
    | nil => exact absurd rfl hdigits.1
    | cons d ds => exact ⟨.digits hdigits fun hd => hzero (ds ++ rest) (by rw [hd]; rfl), rfl⟩

theorem readFraction_append {fraction : List Char} (h : IsFraction fraction)
    (hrest : ∀ c ∈ rest.head?, c.isDigit = false ∧ c ≠ '.') :
    readFraction (fraction ++ rest) = some (fraction, rest) := by
  cases h with
  | missing =>
    refine readFraction.eq_2 rest fun cs heq => ?_
    exact (hrest '.' (by rw [heq]; rfl)).2 rfl
  | digits h =>
    rw [List.cons_append, readFraction, readDigits_append h fun c hc => (hrest c hc).1]
    rfl

theorem isFraction_of_readFraction {fraction : List Char}
    (h : readFraction cs = some (fraction, rest)) :
    IsFraction fraction ∧ cs = fraction ++ rest := by
  rw [readFraction.eq_def] at h
  split at h
  · obtain ⟨⟨ds, rest⟩, hds, h⟩ := Option.map_eq_some_iff.mp h
    cases h
    obtain ⟨hdigits, rfl⟩ := isDigits_of_readDigits hds
    exact ⟨.digits hdigits, rfl⟩
  · cases h
    exact ⟨.missing, rfl⟩

theorem readSign_append {sign : List Char} (h : sign ∈ [[], ['+'], ['-']]) (hds : IsDigits ds) :
    readSign (sign ++ (ds ++ rest)) = (sign, ds ++ rest) := by
  simp only [List.mem_cons, List.not_mem_nil, or_false] at h
  rcases h with rfl | rfl | rfl
  · obtain ⟨hne, hdigit⟩ := hds
    obtain ⟨d, ds, rfl⟩ := List.exists_cons_of_ne_nil hne
    have hd := hdigit d List.mem_cons_self
    refine readSign.eq_3 _ (fun _ heq => ?_) fun _ heq => ?_
    · rw [(List.cons.inj heq).1] at hd
      cases hd
    · rw [(List.cons.inj heq).1] at hd
      cases hd
  · rfl
  · rfl

theorem sign_of_readSign {sign : List Char} (h : readSign cs = (sign, rest)) :
    sign ∈ [[], ['+'], ['-']] ∧ cs = sign ++ rest := by
  rw [readSign.eq_def] at h
  split at h <;> cases h
  · exact ⟨by decide, rfl⟩
  · exact ⟨by decide, rfl⟩
  · exact ⟨by decide, rfl⟩

/-- What follows must begin neither with more digits nor with an exponent. -/
theorem readExponent_append {exponent : List Char} (h : IsExponent exponent) (hrest : Stops rest) :
    readExponent (exponent ++ rest) = some (exponent, rest) := by
  cases h with
  | missing =>
    rw [List.nil_append]
    cases rest with
    | nil => rfl
    | cons c rest =>
      obtain ⟨-, -, he⟩ := hrest c rfl
      rw [readExponent, if_neg (not_or.mpr he)]
  | digits he hsign h =>
    rw [List.cons_append, List.cons_append, readExponent, if_pos he, List.append_assoc,
      readSign_append hsign h]
    dsimp only
    rw [readDigits_append h fun c hc => (hrest c hc).1]
    rfl

theorem isExponent_of_readExponent {exponent : List Char}
    (h : readExponent cs = some (exponent, rest)) :
    IsExponent exponent ∧ cs = exponent ++ rest := by
  rw [readExponent.eq_def] at h
  split at h
  · next e cs =>
    split at h
    · next he =>
      obtain ⟨sign, tail, hread⟩ : ∃ sign tail, readSign cs = (sign, tail) := ⟨_, _, rfl⟩
      rw [hread] at h
      obtain ⟨⟨ds, rest⟩, hds, h⟩ := Option.map_eq_some_iff.mp h
      cases h
      obtain ⟨hsign, rfl⟩ := sign_of_readSign hread
      obtain ⟨hdigits, rfl⟩ := isDigits_of_readDigits hds
      exact ⟨.digits he hsign hdigits, by simp⟩
    · cases h
      exact ⟨.missing, rfl⟩
  · cases h
    exact ⟨.missing, rfl⟩

theorem IsExponent.head {exponent : List Char} (h : IsExponent exponent) (hrest : Stops rest) :
    ∀ c ∈ (exponent ++ rest).head?, c.isDigit = false ∧ c ≠ '.' := by
  cases h with
  | missing => exact fun c hc => ⟨(hrest c hc).1, (hrest c hc).2.1⟩
  | digits he hsign h =>
    intro c hc
    cases hc
    rcases he with rfl | rfl <;> decide

/-- No digit follows a whole part, since a fraction begins with a point. -/
theorem IsFraction.head {fraction : List Char} (h : IsFraction fraction)
    (hrest : ∀ c ∈ rest.head?, c.isDigit = false ∧ c ≠ '.') :
    ∀ c ∈ (fraction ++ rest).head?, c.isDigit = false := by
  cases h with
  | missing => exact fun c hc => (hrest c hc).1
  | digits h =>
    intro c hc
    cases hc
    rfl

theorem readMagnitude_append {whole fraction exponent : List Char} (hwhole : IsWhole whole)
    (hfraction : IsFraction fraction) (hexponent : IsExponent exponent) (hrest : Stops rest) :
    readMagnitude (whole ++ fraction ++ exponent ++ rest) =
      some (whole ++ fraction ++ exponent, rest) := by
  rw [readMagnitude, List.append_assoc, List.append_assoc,
    readWhole_append hwhole (hfraction.head (hexponent.head hrest))]
  show (readFraction (fraction ++ (exponent ++ rest)) >>= _) = _
  rw [readFraction_append hfraction (hexponent.head hrest)]
  show (readExponent (exponent ++ rest) >>= _) = _
  rw [readExponent_append hexponent hrest]
  rfl

theorem IsWhole.head {whole : List Char} (h : IsWhole whole) :
    ∃ d ds, whole = d :: ds ∧ d.isDigit = true := by
  cases h with
  | zero => exact ⟨_, _, rfl, rfl⟩
  | digits h _ => exact ⟨_, _, rfl, h.2 _ List.mem_cons_self⟩

/-- A number is read if what follows it does not go on with it. -/
theorem readNumber_append {number : List Char} (h : IsNumber number) (hrest : Stops rest) :
    readNumber (number ++ rest) = some (number, rest) := by
  obtain ⟨hsign, hwhole, hfraction, hexponent⟩ := h
  have hmagnitude := readMagnitude_append hwhole hfraction hexponent hrest
  simp only [List.mem_cons, List.not_mem_nil, or_false] at hsign
  rcases hsign with rfl | rfl
  · obtain ⟨d, ds, rfl, hd⟩ := hwhole.head
    rw [List.nil_append, readNumber.eq_2 _ fun _ heq => ?_]
    · exact hmagnitude
    · rw [(List.cons.inj heq).1] at hd
      cases hd
  · rw [List.singleton_append, List.cons_append, readNumber, hmagnitude]
    rfl

/-- With a sign or without, a magnitude makes a number. -/
theorem isNumber_of_readMagnitude {magnitude : List Char} (sign : List Char)
    (hsign : sign ∈ [[], ['-']]) (h : readMagnitude cs = some (magnitude, rest)) :
    IsNumber (sign ++ magnitude) ∧ cs = magnitude ++ rest := by
  obtain ⟨⟨whole, cs₁⟩, hwhole, h⟩ := Option.bind_eq_some_iff.mp h
  obtain ⟨⟨fraction, cs₂⟩, hfraction, h⟩ := Option.bind_eq_some_iff.mp h
  obtain ⟨⟨exponent, cs₃⟩, hexponent, h⟩ := Option.bind_eq_some_iff.mp h
  cases h
  obtain ⟨hw, rfl⟩ := isWhole_of_readWhole hwhole
  obtain ⟨hf, rfl⟩ := isFraction_of_readFraction hfraction
  obtain ⟨he, rfl⟩ := isExponent_of_readExponent hexponent
  exact ⟨.mk hsign hw hf he, by simp⟩

/-- Whatever is read as a number is one. -/
theorem isNumber_of_readNumber {number : List Char} (h : readNumber cs = some (number, rest)) :
    IsNumber number ∧ cs = number ++ rest := by
  rw [readNumber.eq_def] at h
  split at h
  · obtain ⟨⟨magnitude, rest⟩, hmagnitude, h⟩ := Option.map_eq_some_iff.mp h
    cases h
    obtain ⟨hnumber, rfl⟩ := isNumber_of_readMagnitude ['-'] (by decide) hmagnitude
    exact ⟨hnumber, rfl⟩
  · exact isNumber_of_readMagnitude [] (by decide) h

end Numbers

end GoSignatures.Json
