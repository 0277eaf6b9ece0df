import GoSignatures.Proofs.Scope.Collecting
import Mathlib.Data.List.Induction

/-!
# Imports over a whole history

Imports are entered by calls, one after the other, beginning without any. What a call is answered
depends on the calls before it that were answered with `added`, and the imports hold just what those
have entered: a named one under its name, each name once, and the path of a dot import behind the
earlier ones.

* `Imports.after`, `Imports.answers` — the imports after calls, and what these are answered
* `Imports.enter_cases` — all that a call can do
* `Imports.named_after`, `Imports.dots_after` — what the imports hold after calls
* `Imports.recounts` — answers and imports, told from the history of calls
-/

namespace GoSignatures

/-- A call that enters an import. -/
structure ImportCall where
  givenName : Option String
  path : String
  position : Position
deriving DecidableEq, Repr

namespace ImportCall

/-- The name under which a call enters its import, if that is neither blank nor a dot. -/
def name? (call : ImportCall) : Option String :=
  if call.givenName = some "_" ∨ call.givenName = some "." then none
  else some (Imports.effectiveName call.givenName call.path)

/-- What is found under the name of a call. -/
def entry (call : ImportCall) : ImportEntry := ⟨call.path, call.position⟩

/-- The name of a call with what is found under it. -/
def named? (call : ImportCall) : Option (String × ImportEntry) :=
  call.name?.map (·, call.entry)

/-- Whether a call imports into the file scope itself. -/
def isDot (call : ImportCall) : Bool :=
  call.givenName == some "."

end ImportCall

/-- The call that enters an import of a file. -/
def ImportSpec.call (spec : ImportSpec) : ImportCall :=
  ⟨spec.givenName, Text.StringLiteral.unquote spec.path, spec.position⟩

namespace Imports

/-! ## Histories -/

/-- Answers a call. -/
def enter (imports : Imports) (call : ImportCall) : ImportOutcome × Imports :=
  imports.add call.givenName call.path call.position

/-- What calls are answered, one after the other. -/
def answersFrom (imports : Imports) : List ImportCall → List ImportOutcome
  | [] => []
  | call :: calls => (imports.enter call).1 :: answersFrom (imports.enter call).2 calls

/-- What calls are answered that begin without any import. -/
def answers (calls : List ImportCall) : List ImportOutcome :=
  answersFrom empty calls

/-- The imports after calls that begin without any. -/
def after (calls : List ImportCall) : Imports :=
  calls.foldl (fun imports call => (imports.enter call).2) empty

/-- What a call is answered behind others. -/
def answer (before : List ImportCall) (call : ImportCall) : ImportOutcome :=
  ((after before).enter call).1

/-- The calls that are answered with `added`. -/
def added (calls : List ImportCall) : List ImportCall :=
  ((calls.zip (answers calls)).filter (·.2 == .added)).map Prod.fst

/-- The answers and the imports are what the history of calls makes them. -/
structure Recounts (calls : List ImportCall) : Prop where
  /-- A call is refused just when it has a name under which an earlier one was added. -/
  duplicate_iff : ∀ before call rest, calls = before ++ call :: rest →
    (answer before call = .duplicate ↔
      ∃ name, call.name? = some name ∧ ∃ earlier ∈ added before, earlier.name? = some name)
  ignored_iff : ∀ before call rest, calls = before ++ call :: rest →
    (answer before call = .ignored ↔ call.givenName = some "_")
  /-- Only what is added changes the imports. -/
  unchanged : ∀ before call rest, calls = before ++ call :: rest →
    answer before call ≠ .added → after (before ++ [call]) = after before
  /-- Under a name stands the import that was added under it. -/
  lookup_iff : ∀ name entry, (after calls).lookup name = some entry ↔
    ∃ call ∈ added calls, call.name? = some name ∧ call.entry = entry
  /-- There is one such import at most. -/
  once : ((added calls).filterMap ImportCall.name?).Nodup
  dotImport? : (after calls).dotImport? = (calls.find? ImportCall.isDot).map ImportCall.path
  size : (after calls).size = (answers calls).count .added
  isEmpty_iff : (after calls).isEmpty = true ↔ ImportOutcome.added ∉ answers calls

/-! ## One call -/

/-- All that a call can do: a blank one is ignored, a dot import is added, and a named one is added
unless its name is taken. -/
theorem enter_cases (imports : Imports) (call : ImportCall) :
    (call.givenName = some "_" ∧ call.name? = none ∧ call.isDot = false ∧
      imports.enter call = (.ignored, imports)) ∨
    (call.name? = none ∧ call.isDot = true ∧
      imports.enter call = (.added, { imports with dots := imports.dots ++ [call.path] })) ∨
    ∃ name, call.givenName ≠ some "_" ∧ call.name? = some name ∧ call.isDot = false ∧
      ((name ∈ imports.named.map Prod.fst ∧ imports.enter call = (.duplicate, imports)) ∨
        (name ∉ imports.named.map Prod.fst ∧ imports.enter call =
          (.added, { imports with named := imports.named ++ [(name, call.entry)] }))) := by
  have htaken_iff : ∀ name, (imports.lookup name).isSome = true ↔
      name ∈ imports.named.map Prod.fst := by
    intro name
    rw [Option.isSome_iff_ne_none, Ne, lookup_eq_none_iff, not_not]
  unfold enter add ImportCall.name? ImportCall.isDot
  by_cases hblank : call.givenName = some "_"
  · exact .inl (by simp [hblank])
  by_cases hdot : call.givenName = some "."
  · exact .inr (.inl (by simp [hdot]))
  refine .inr (.inr ⟨effectiveName call.givenName call.path, hblank, by simp [hblank, hdot],
    by simpa using hdot, ?_⟩)
  rw [if_neg hblank, if_neg hdot]
  by_cases htaken : effectiveName call.givenName call.path ∈ imports.named.map Prod.fst
  · exact .inl ⟨htaken, if_pos ((htaken_iff _).mpr htaken)⟩
  · exact .inr ⟨htaken, if_neg fun h => htaken ((htaken_iff _).mp h)⟩

/-! ## One more call -/

section Snoc

variable (calls : List ImportCall) (call : ImportCall)

theorem after_snoc : after (calls ++ [call]) = ((after calls).enter call).2 := by
  rw [after, List.foldl_append]
  rfl

theorem answersFrom_append (imports : Imports) (before rest : List ImportCall) :
    answersFrom imports (before ++ rest) = answersFrom imports before ++
      answersFrom (before.foldl (fun imports call => (imports.enter call).2) imports) rest := by
  induction before generalizing imports with
  | nil => rfl
  | cons call before ih =>
    rw [List.cons_append, answersFrom, ih]
    rfl

theorem answers_snoc : answers (calls ++ [call]) = answers calls ++ [answer calls call] :=
  answersFrom_append empty calls [call]

theorem length_answers : (answers calls).length = calls.length := by
  induction calls using List.reverseRecOn with
  | nil => rfl
  | append_singleton calls call ih => simp [answers_snoc, ih]

theorem added_snoc : added (calls ++ [call]) =
    added calls ++ if answer calls call = .added then [call] else [] := by
  rw [added, answers_snoc, List.zip_append (length_answers calls).symm, List.filter_append,
    List.map_append, added]
  cases answer calls call <;> rfl

end Snoc

/-! ## All calls -/

/-- The named imports are those of the calls that were added. -/
theorem named_after (calls : List ImportCall) :
    (after calls).named = (added calls).filterMap ImportCall.named? := by
  induction calls using List.reverseRecOn with
  | nil => rfl
  | append_singleton calls call ih =>
    rw [after_snoc, added_snoc, List.filterMap_append, ← ih, answer]
    rcases enter_cases (after calls) call with ⟨-, -, -, h⟩ | ⟨hname, -, h⟩ |
      ⟨name, -, hname, -, ⟨-, h⟩ | ⟨-, h⟩⟩
    · simp [h]
    · simp [h, ImportCall.named?, hname]
    · simp [h]
    · simp [h, ImportCall.named?, hname]

/-- The dot imports are those of the calls, all of which are added. -/
theorem dots_after (calls : List ImportCall) :
    (after calls).dots = (calls.filter ImportCall.isDot).map ImportCall.path := by
  induction calls using List.reverseRecOn with
  | nil => rfl
  | append_singleton calls call ih =>
    rw [after_snoc, List.filter_append, List.map_append, ← ih]
    rcases enter_cases (after calls) call with ⟨-, -, hdot, h⟩ | ⟨-, hdot, h⟩ |
      ⟨_, -, -, hdot, ⟨-, h⟩ | ⟨-, h⟩⟩ <;> simp [h, hdot]

theorem size_after (calls : List ImportCall) :
    (after calls).size = (answers calls).count .added := by
  induction calls using List.reverseRecOn with
  | nil => rfl
  | append_singleton calls call ih =>
    rw [after_snoc, answers_snoc, List.count_append, ← ih, answer, size, size]
    rcases enter_cases (after calls) call with ⟨-, -, -, h⟩ | ⟨-, -, h⟩ |
      ⟨_, -, -, -, ⟨-, h⟩ | ⟨-, h⟩⟩ <;> simp [h] <;> omega

/-- The names of the named imports are those under which calls were added. -/
theorem map_fst_named_after (calls : List ImportCall) :
    (after calls).named.map Prod.fst = (added calls).filterMap ImportCall.name? := by
  rw [named_after, List.map_filterMap]
  refine congrArg (List.filterMap · _) (funext fun call => ?_)
  rw [ImportCall.named?, Option.map_map]
  exact Option.map_id'

/-- No two calls are added under one name. -/
theorem nodup_names_added (calls : List ImportCall) :
    ((added calls).filterMap ImportCall.name?).Nodup := by
  induction calls using List.reverseRecOn with
  | nil => exact List.nodup_nil
  | append_singleton calls call ih =>
    rw [added_snoc, List.filterMap_append, answer]
    rcases enter_cases (after calls) call with ⟨-, -, -, h⟩ | ⟨hname, -, h⟩ |
      ⟨name, -, hname, -, ⟨-, h⟩ | ⟨hfree, h⟩⟩
    · simpa [h] using ih
    · simpa [h, hname] using ih
    · simpa [h] using ih
    · rw [map_fst_named_after] at hfree
      rw [h, if_pos rfl, List.filterMap_cons_some hname]
      exact ih.append (List.nodup_singleton name) (List.disjoint_singleton.mpr hfree)

theorem mem_named_added_iff {calls : List ImportCall} {name : String} {entry : ImportEntry} :
    (name, entry) ∈ (added calls).filterMap ImportCall.named? ↔
      ∃ call ∈ added calls, call.name? = some name ∧ call.entry = entry := by
  simp [List.mem_filterMap, ImportCall.named?]

/-- The imports of a file are entered by such calls. -/
theorem ofDeclarations_eq_after (ds : List Declaration) :
    ofDeclarations ds = after ((Declaration.importSpecs ds).map ImportSpec.call) := by
  rw [ofDeclarations, after, List.foldl_map]
  rfl

/-- Whatever calls enter imports one after the other, beginning without any, their answers and the
imports are what the history of calls makes them. -/
theorem recounts (calls : List ImportCall) : Recounts calls where
  duplicate_iff before call _ _ := by
    rw [answer]
    rcases enter_cases (after before) call with ⟨-, hname, -, h⟩ | ⟨hname, -, h⟩ |
      ⟨name, -, hname, -, hcase⟩
    · simp [h, hname]
    · simp [h, hname]
    · rw [map_fst_named_after, List.mem_filterMap] at hcase
      rcases hcase with ⟨htaken, h⟩ | ⟨hfree, h⟩
      · simpa [h, hname] using htaken
      · simpa [h, hname] using hfree
  ignored_iff before call _ _ := by
    rw [answer]
    rcases enter_cases (after before) call with ⟨hblank, -, -, h⟩ | ⟨-, hdot, h⟩ |
      ⟨_, hblank, -, -, hcase⟩
    · simp [h, hblank]
    · rw [ImportCall.isDot, beq_iff_eq] at hdot
      simp [h, hdot]
    · rcases hcase with ⟨-, h⟩ | ⟨-, h⟩ <;> simp [h, hblank]
  unchanged before call _ _ hanswer := by
    rw [after_snoc]
    rw [answer] at hanswer
    rcases enter_cases (after before) call with ⟨-, -, -, h⟩ | ⟨-, -, h⟩ |
      ⟨_, -, -, -, ⟨-, h⟩ | ⟨-, h⟩⟩
    · rw [h]
    · exact absurd (congrArg Prod.fst h) hanswer
    · rw [h]
    · exact absurd (congrArg Prod.fst h) hanswer
  lookup_iff name entry := by
    have hnodup : ((after calls).named.map Prod.fst).Nodup := by
      rw [map_fst_named_after]
      exact nodup_names_added calls
    rw [lookup, lookup_eq_some_iff_mem hnodup, named_after, mem_named_added_iff]
  once := nodup_names_added calls
  dotImport? := by
    rw [Imports.dotImport?, dots_after, List.head?_map, List.head?_filter]
  size := size_after calls
  isEmpty_iff := by
    rw [isEmpty, size_after, beq_iff_eq, List.count_eq_zero]

-- two paths imply the name `rand`, and the second needs another one
example : answers [⟨some "_", "embed", ⟨0, 1, 1⟩⟩, ⟨none, "math/rand", ⟨1, 2, 1⟩⟩,
    ⟨none, "crypto/rand", ⟨2, 3, 1⟩⟩, ⟨some "crand", "crypto/rand", ⟨3, 4, 1⟩⟩] =
      [.ignored, .added, .duplicate, .added] := by
  decide +kernel

end Imports

end GoSignatures
