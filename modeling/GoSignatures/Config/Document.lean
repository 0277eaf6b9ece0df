import GoSignatures.Config.Basic
import GoSignatures.Toml.Reader

/-!
# Configuration documents

A configuration is written as a TOML document with a section `analysis`. Whatever is left out has
its default, and unknown keys are passed over.

* `Config.ofToml?` — the configuration that a document tells
* `Config.read?` — the same for the text of a document
-/

namespace GoSignatures.Config

/-- The underlying kinds that a table of imported types tells. -/
def externalTypesOf? (v : Toml) : Option (List (String × String)) := do
  (← v.asTable?).mapM fun entry => do return (entry.1, ← entry.2.asString?)

/-- What an optional field tells, or a default if it is missing. -/
def optional {α : Type} (read? : Toml → Option α) (default : α) : Option Toml → Option α
  | some v => read? v
  | none => some default

/-- The configuration that the section `analysis` tells. -/
def ofSection? (v : Toml) : Option Config :=
  match v.record? ["max_file_size", "external_types"] with
  | some [size, types] => do
    return ⟨← optional (fun v => v.asNat?.map some) none size, ← optional externalTypesOf? [] types⟩
  | _ => none

/-- The configuration that a document tells. -/
def ofToml? (v : Toml) : Option Config :=
  match v.record? ["analysis"] with
  | some [analysis] => optional ofSection? {} analysis
  | _ => none

/-- The configuration that the text of a document tells. -/
def read? (text : String) : Option Config :=
  (Toml.read? text).bind ofToml?

end GoSignatures.Config
