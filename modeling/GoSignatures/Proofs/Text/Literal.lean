import GoSignatures.Proofs.Outcome
import GoSignatures.Proofs.Text.Bytes
import GoSignatures.Resolution.Declaration
import GoSignatures.Text.Unsigned
import GoSignatures.Ty.Equality
import GoSignatures.Ty.Printer

/-!
# What a string literal denotes

A raw literal denotes the text between its backquotes, without the carriage returns. An interpreted
literal denotes bytes: those of its characters, and for each escape the byte or the character that
it stands for. Taking the quotes away yields what is denoted if there is nothing to interpret, and
only then: every escape is longer than what it stands for.

* `StringLiteral.value?` — the bytes that a literal denotes, if it is one
* `StringLiteral.Plain` — nothing in a literal has to be interpreted
* `StringLiteral.unquote_spec` — the text without the quotes is the value of the plain literals, and
  of no others; plain literals of the same value make the same fields and imports
-/

namespace GoSignatures.Text.StringLiteral

/-! ## The value of a literal -/

/-- The escapes that are a single letter, and the bytes they stand for. -/
def letters : List (Char × UInt8) :=
  [('a', 7), ('b', 8), ('t', 9), ('n', 10), ('v', 11), ('f', 12), ('r', 13), ('"', 34), ('\\', 92)]

/-- The number that the first `count` characters denote, if they are digits of the radix. -/
def digits? (radix count : Nat) (cs : List Char) : Option Nat :=
  if (cs.take count).length = count then
    ((cs.take count).mapM (Unsigned.digitOf radix)).map (Unsigned.ofDigits radix)
  else none

/-- The bytes of the character with a number, if there is one. -/
def scalar? (n : Nat) : Option (List UInt8) :=
  if n.isValidChar then some (String.utf8EncodeChar (Char.ofNat n)) else none

/-- The byte with a number, if there is one. -/
def byte? (n : Nat) : Option (List UInt8) :=
  if n < 256 then some [UInt8.ofNat n] else none

/-- What the number of an escape stands for, and how many characters the escape has. -/
def numbered? (radix count size : Nat) (meaning? : Nat → Option (List UInt8)) (cs : List Char) :
    Option (List UInt8 × Nat) :=
  ((digits? radix count cs).bind meaning?).map (·, size)

/-- What the escape behind a backslash stands for, and how many characters it has there. -/
def escape? : List Char → Option (List UInt8 × Nat)
  | 'x' :: cs => numbered? 16 2 3 byte? cs
  | 'u' :: cs => numbered? 16 4 5 scalar? cs
  | 'U' :: cs => numbered? 16 8 9 scalar? cs
  | c :: cs =>
    match letters.lookup c with
    | some byte => some ([byte], 1)
    | none => numbered? 8 3 3 byte? (c :: cs)
  | [] => none

/-- The bytes that the text between double quotes denotes. The first `skip` characters belong to an
escape that is read already. -/
def denoted? : Nat → List Char → Option (List UInt8)
  | _, [] => some []
  | skip + 1, _ :: cs => denoted? skip cs
  | 0, c :: cs =>
    if c = '\\' then (escape? cs).bind fun (bytes, n) => (denoted? n cs).map (bytes ++ ·)
    else if c = '"' ∨ c = '\n' then none
    else (denoted? 0 cs).map (String.utf8EncodeChar c ++ ·)

/-- The bytes of characters. -/
def encoded (cs : List Char) : List UInt8 :=
  cs.flatMap String.utf8EncodeChar

/-- The bytes that the text between backquotes denotes. -/
def rawDenoted? (cs : List Char) : Option (List UInt8) :=
  if '\x60' ∈ cs then none else some (encoded (cs.filter (· != '\r')))

/-- The bytes that a string literal denotes. -/
def value? (literal : String) : Option (List UInt8) :=
  ((between? '"' literal.toList).bind (denoted? 0)).or
    ((between? '\x60' literal.toList).bind rawDenoted?)

/-- Nothing in a literal has to be interpreted: an interpreted one has no escapes, a raw one no
carriage returns. -/
def Plain (literal : String) : Prop :=
  match literal.toList with
  | '"' :: cs => '\\' ∉ cs
  | cs => '\r' ∉ cs

example : value? "\"\\x66mt\\u00e9\\101\"" = some (utf8 "fmtéA") := by decide +kernel

/-! ## Between the quotes -/

theorem between?_eq_some {quote : Char} {cs body : List Char} (h : between? quote cs = some body) :
    cs = quote :: (body ++ [quote]) := by
  cases cs with
  | nil => cases h
  | cons c cs =>
    rw [between?] at h
    split at h
    · next hquotes =>
      obtain ⟨rfl, hlast⟩ := hquotes
      obtain ⟨front, rfl⟩ := List.getLast?_eq_some_iff.mp hlast
      rw [List.dropLast_concat] at h
      cases h
      rfl
    · cases h

theorem between?_quoted (quote : Char) (body : List Char) :
    between? quote (quote :: (body ++ [quote])) = some body := by
  rw [between?, if_pos ⟨rfl, List.getLast?_concat⟩, List.dropLast_concat]

/-- Between characters that are no white space, nothing is cut off. -/
theorem trim_quoted {quote : Char} (hquote : isSpace quote = false) (body : List Char) :
    trim (quote :: (body ++ [quote])) = quote :: (body ++ [quote]) := by
  have hreverse : (quote :: (body ++ [quote])).reverse = quote :: (quote :: body).reverse := by
    simp
  rw [trim, List.dropWhile_cons_of_neg (by simp [hquote]), hreverse,
    List.dropWhile_cons_of_neg (by simp [hquote]), ← hreverse, List.reverse_reverse]

/-- Which text a literal has between its quotes, by its form. -/
theorem cases_of_value? {literal : String} {v : List UInt8} (h : value? literal = some v) :
    ∃ body, utf8 (unquote literal) = encoded body ∧
      ((literal.toList = '"' :: (body ++ ['"']) ∧ denoted? 0 body = some v) ∨
        (literal.toList = '\x60' :: (body ++ ['\x60']) ∧ rawDenoted? body = some v)) := by
  have hunquote : ∀ body, unquote literal = String.ofList body →
      utf8 (unquote literal) = encoded body := by
    intro body hbody
    rw [hbody, utf8_eq_flatMap, String.toList_ofList, encoded]
  rcases Option.or_eq_some_iff.mp h with hvalue | ⟨-, hvalue⟩
  · obtain ⟨body, hbody, hdenoted⟩ := Option.bind_eq_some_iff.mp hvalue
    have hliteral := between?_eq_some hbody
    refine ⟨body, hunquote body ?_, .inl ⟨hliteral, hdenoted⟩⟩
    rw [unquote, hliteral, trim_quoted rfl, between?_quoted]
    rfl
  · obtain ⟨body, hbody, hdenoted⟩ := Option.bind_eq_some_iff.mp hvalue
    have hliteral := between?_eq_some hbody
    refine ⟨body, hunquote body ?_, .inr ⟨hliteral, hdenoted⟩⟩
    have hnone : between? '"' ('\x60' :: (body ++ ['\x60'])) = none := by
      rw [between?, if_neg (by simp)]
    rw [unquote, hliteral, trim_quoted rfl, hnone, between?_quoted]
    rfl

/-! ## Escapes are longer than what they stand for -/

theorem length_le_encoded (cs : List Char) : cs.length ≤ (encoded cs).length := by
  induction cs with
  | nil => exact Nat.le_refl 0
  | cons c cs ih =>
    have hpos : 0 < (String.utf8EncodeChar c).length :=
      List.length_pos_iff.mpr String.utf8EncodeChar_ne_nil
    rw [encoded, List.flatMap_cons, List.length_append, List.length_cons]
    exact Nat.add_comm .. ▸ Nat.add_le_add hpos ih

theorem le_length_of_digits? {radix count n : Nat} {cs : List Char}
    (h : digits? radix count cs = some n) : count ≤ cs.length := by
  rw [digits?] at h
  split at h
  · next htake =>
    rw [List.length_take] at htake
    omega
  · cases h

theorem length_byte? {n : Nat} {bytes : List UInt8} (h : byte? n = some bytes) :
    bytes.length ≤ 1 := by
  rw [byte?] at h
  split at h <;> cases h
  exact Nat.le_refl 1

theorem length_scalar? {n : Nat} {bytes : List UInt8} (h : scalar? n = some bytes) :
    bytes.length ≤ 4 := by
  rw [scalar?] at h
  split at h <;> cases h
  rw [String.length_utf8EncodeChar]
  exact Char.utf8Size_le_four _

theorem length_numbered? {radix count size bound n : Nat} {cs : List Char} {bytes : List UInt8}
    {meaning? : Nat → Option (List UInt8)}
    (hmeaning : ∀ {m bytes}, meaning? m = some bytes → bytes.length ≤ bound) (hsize : bound ≤ size)
    (h : numbered? radix count size meaning? cs = some (bytes, n)) :
    bytes.length ≤ n ∧ n = size ∧ count ≤ cs.length := by
  obtain ⟨bytes', hbytes, heq⟩ := Option.map_eq_some_iff.mp h
  obtain ⟨m, hdigits, hm⟩ := Option.bind_eq_some_iff.mp hbytes
  cases heq
  exact ⟨(hmeaning hm).trans hsize, rfl, le_length_of_digits? hdigits⟩

/-- The characters of an escape are there, and are no fewer than the bytes it stands for. -/
theorem length_escape? {cs : List Char} {bytes : List UInt8} {n : Nat}
    (h : escape? cs = some (bytes, n)) : bytes.length ≤ n ∧ n ≤ cs.length := by
  unfold escape? at h
  split at h
  · obtain ⟨hbytes, hn, hcount⟩ := length_numbered? length_byte? (by decide) h
    exact ⟨hbytes, hn ▸ Nat.succ_le_succ hcount⟩
  · obtain ⟨hbytes, hn, hcount⟩ := length_numbered? length_scalar? (by decide) h
    exact ⟨hbytes, hn ▸ Nat.succ_le_succ hcount⟩
  · obtain ⟨hbytes, hn, hcount⟩ := length_numbered? length_scalar? (by decide) h
    exact ⟨hbytes, hn ▸ Nat.succ_le_succ hcount⟩
  · split at h
    · cases h
      exact ⟨Nat.le_refl 1, Nat.succ_le_succ (Nat.zero_le _)⟩
    · obtain ⟨hbytes, hn, hcount⟩ := length_numbered? length_byte? (by decide) h
      exact ⟨hbytes, hn ▸ hcount⟩
  · cases h

/-- Without escapes the text denotes its own bytes; each escape makes what is denoted shorter. -/
theorem length_denoted? : ∀ {skip : Nat} {cs : List Char} {v : List UInt8},
    denoted? skip cs = some v →
      (encoded (cs.drop skip) = v ∧ '\\' ∉ cs.drop skip) ∨
        v.length < (encoded (cs.drop skip)).length ∧ '\\' ∈ cs.drop skip
  | skip, [], v, h => by
    rw [denoted?] at h
    cases h
    rw [List.drop_nil]
    exact .inl ⟨rfl, List.not_mem_nil⟩
  | skip + 1, _ :: cs, v, h => @length_denoted? skip cs v h
  | 0, c :: cs, v, h => by
    rw [denoted?] at h
    rw [List.drop_zero]
    split at h
    · next hbackslash =>
      subst hbackslash
      obtain ⟨⟨bytes, n⟩, hescape, hrest⟩ := Option.bind_eq_some_iff.mp h
      obtain ⟨w, hw, rfl⟩ := Option.map_eq_some_iff.mp hrest
      obtain ⟨hbytes, hn⟩ := length_escape? hescape
      have hdenoted : w.length ≤ (encoded (cs.drop n)).length := by
        rcases length_denoted? hw with ⟨heq, -⟩ | ⟨hlt, -⟩
        · exact Nat.le_of_eq (heq ▸ rfl)
        · exact Nat.le_of_lt hlt
      have htake : n ≤ (encoded (cs.take n)).length := by
        have hlength := length_le_encoded (cs.take n)
        rw [List.length_take] at hlength
        omega
      have hsplit : encoded cs = encoded (cs.take n) ++ encoded (cs.drop n) := by
        rw [encoded, encoded, encoded, ← List.flatMap_append, List.take_append_drop]
      refine .inr ⟨?_, List.mem_cons_self⟩
      show (bytes ++ w).length < ([92] ++ encoded cs).length
      rw [hsplit]
      simp only [List.length_append, List.length_cons, List.length_nil]
      omega
    · next hbackslash =>
      split at h
      · cases h
      · obtain ⟨w, hw, rfl⟩ := Option.map_eq_some_iff.mp h
        rw [encoded, List.flatMap_cons, List.mem_cons, or_iff_right (Ne.symm hbackslash)]
        rcases length_denoted? hw with ⟨heq, hnone⟩ | ⟨hlt, hmem⟩
        · exact .inl ⟨congrArg (String.utf8EncodeChar c ++ ·) heq, hnone⟩
        · refine .inr ⟨?_, hmem⟩
          rw [List.length_append, List.length_append]
          exact Nat.add_lt_add_left hlt _
termination_by structural _ cs => cs

/-! ## Taking the quotes away -/

/-- Taking the quotes away yields what a literal denotes if and only if the literal is plain. -/
theorem utf8_unquote_iff {literal : String} {v : List UInt8} (h : value? literal = some v) :
    utf8 (unquote literal) = v ↔ Plain literal := by
  obtain ⟨body, hutf8, ⟨hliteral, hdenoted⟩ | ⟨hliteral, hdenoted⟩⟩ := cases_of_value? h
  · have hplain : Plain literal ↔ '\\' ∉ body := by
      rw [Plain, hliteral]
      simp
    rw [hutf8, hplain]
    rcases length_denoted? hdenoted with ⟨heq, hnone⟩ | ⟨hlt, hmem⟩
    · exact iff_of_true heq hnone
    · exact iff_of_false (fun heq => Nat.lt_irrefl _ (heq ▸ hlt)) (not_not_intro hmem)
  · have hplain : Plain literal ↔ '\r' ∉ body := by
      rw [Plain, hliteral]
      simp
    rw [rawDenoted?] at hdenoted
    split at hdenoted
    · cases hdenoted
    · cases hdenoted
      have hfilter : body.filter (· != '\r') = body ↔ '\r' ∉ body := by
        rw [List.filter_eq_self]
        exact ⟨fun hall hmem => absurd (hall _ hmem) (by decide),
          fun hnone c hc => bne_iff_ne.mpr fun heq => hnone (heq ▸ hc)⟩
      rw [hutf8, hplain, ← hfilter, eq_comm]
      exact ⟨flatMap_utf8EncodeChar_injective, congrArg encoded⟩

/-- Plain literals of the same value have the same text without their quotes. -/
theorem unquote_congr {left right : String} {v : List UInt8} (hleft : value? left = some v)
    (hright : value? right = some v) (hplainLeft : Plain left) (hplainRight : Plain right) :
    unquote left = unquote right :=
  utf8_injective (((utf8_unquote_iff hleft).mpr hplainLeft).trans
    ((utf8_unquote_iff hright).mpr hplainRight).symm)

/-- Taking the quotes away yields the value of each plain literal and of no other. So fields with
plain tags of the same value are the same, and imports of plain paths of the same value. -/
theorem unquote_spec {literal : String} {v : List UInt8} (hvalue : value? literal = some v) :
    (utf8 (unquote literal) = v ↔ Plain literal) ∧
    ∀ other, value? other = some v → Plain literal → Plain other →
      (∀ env enter params names type rest,
        FieldDecl.resolveAll env enter params (.named names type (some literal) :: rest) =
          FieldDecl.resolveAll env enter params (.named names type (some other) :: rest)) ∧
      (∀ env enter params pointer name args rest,
        FieldDecl.resolveAll env enter params
            (.embedded pointer name args (some literal) :: rest) =
          FieldDecl.resolveAll env enter params
            (.embedded pointer name args (some other) :: rest)) ∧
      ∀ path scope position name,
        FileScope.addImport path scope ⟨position, name, literal⟩ =
          FileScope.addImport path scope ⟨position, name, other⟩ := by
  refine ⟨utf8_unquote_iff hvalue, fun other hother hplain hplainOther => ?_⟩
  have heq := unquote_congr hvalue hother hplain hplainOther
  refine ⟨fun env enter params names type rest => ?_,
    fun env enter params pointer name args rest => ?_, fun path scope position name => ?_⟩
  · rw [FieldDecl.resolveAll, FieldDecl.resolveAll, Option.map_some, Option.map_some, heq]
  · rw [FieldDecl.resolveAll, FieldDecl.resolveAll, Option.map_some, Option.map_some, heq]
  · rw [FileScope.addImport, FileScope.addImport, heq]

/-- A raw tag and an interpreted one without escapes. -/
theorem unquote_spec_ofKeys :
    value? "`json`" = some (utf8 "json") ∧ value? "\"json\"" = some (utf8 "json") ∧
      Plain "`json`" ∧ Plain "\"json\"" ∧ utf8 (unquote "`json`") = utf8 "json" ∧
      ∀ env enter params names type rest,
        FieldDecl.resolveAll env enter params (.named names type (some "`json`") :: rest) =
          FieldDecl.resolveAll env enter params
            (.named names type (some "\"json\"") :: rest) := by
  have hraw : value? "`json`" = some (utf8 "json") := by decide +kernel
  have hquoted : value? "\"json\"" = some (utf8 "json") := by decide +kernel
  have hplainRaw : Plain "`json`" := by
    show '\r' ∉ "`json`".toList
    decide
  have hplainQuoted : Plain "\"json\"" := by
    show '\\' ∉ "json\"".toList
    decide
  exact ⟨hraw, hquoted, hplainRaw, hplainQuoted, (unquote_spec hraw).1.mpr hplainRaw,
    ((unquote_spec hraw).2 _ hquoted hplainRaw hplainQuoted).1⟩

end GoSignatures.Text.StringLiteral

namespace GoSignatures.SourceFile

/-- The file `type S struct { a int }` with a tag behind the field. -/
def ofTag (tag : String) : SourceFile where
  path := "a.go"
  packageName := "p"
  declarations :=
    [.type ⟨⟨"S", ⟨16, 3, 6⟩⟩, false, [],
      .struct [.named ["a"] (.named (.plain ⟨"int", ⟨29, 3, 19⟩⟩) []) (some tag)]⟩]

/-- How the type is shown whose field has the given tag. -/
theorem render_ofTag {tag shown : String} (text : String)
    (htype : ((ofTag tag).resolve {}).toOption.map (fun result =>
      result.table.underlying (.named 2 [])) =
        some (.struct [⟨"a", .basic .int, false, some text⟩]))
    (hshown : ∀ t, (Ty.struct [⟨"a", .basic .int, false, some text⟩]).render t = shown) :
    ((ofTag tag).resolve {}).toOption.map (fun result =>
      (result.table.underlying (.named 2 [])).render result.table) = some shown := by
  obtain ⟨result, hresult, hunderlying⟩ := Option.map_eq_some_iff.mp htype
  rw [hresult, Option.map_some, hunderlying, hshown]

/-- The tag `json:"x"` written with escapes is not the tag that is written without, and the two
types are shown differently. -/
theorem not_unquotes_ofEscapedTag :
    let raw := "`json:\"x\"`"
    let escaped := "\"json:\\\"x\\\"\""
    Text.StringLiteral.value? raw = some (utf8 "json:\"x\"") ∧
      Text.StringLiteral.value? escaped = some (utf8 "json:\"x\"") ∧
      utf8 (Text.StringLiteral.unquote escaped) ≠ utf8 "json:\"x\"" ∧
      ((ofTag raw).resolve {}).toOption.map (fun result =>
        (result.table.underlying (.named 2 [])).render result.table) =
          some "struct\x7ba int \"json:\\\"x\\\"\"\x7d" ∧
      ((ofTag escaped).resolve {}).toOption.map (fun result =>
        (result.table.underlying (.named 2 [])).render result.table) =
          some "struct\x7ba int \"json:\\\\\\\"x\\\\\\\"\"\x7d" := by
  refine ⟨by decide +kernel, by decide +kernel, by decide +kernel, ?_, ?_⟩
  · exact render_ofTag "json:\"x\"" (by decide +kernel) fun t => by cbv
  · exact render_ofTag "json:\\\"x\\\"" (by decide +kernel) fun t => by cbv

end GoSignatures.SourceFile
