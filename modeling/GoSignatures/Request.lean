import GoSignatures.Json.Reader

/-!
# Requests

A request document lists the files to analyze and, for each, the functions that are wanted; no
names mean all functions. The list of names has two spellings of its field name.

* `Batch.ofJson?` — the batch that a value tells
* `Batch.read?` — the batch that a document tells
-/

namespace GoSignatures

/-- One file to analyze and the functions wanted from it. -/
structure Request where
  filePath : String
  functionNames : List String
deriving DecidableEq, Repr

/-- The files to analyze, in order. -/
structure Batch where
  targets : List Request
deriving DecidableEq, Repr

/-- The fields of a request. -/
def Request.fields : List Json.FieldNames :=
  [["filePath"], ["selectedFunctionsNames", "selectedFunctionNames"]]

/-- The names in an optional field; a missing field means none. -/
def Request.names? : Option Json → Option (List String)
  | some names => names.asList? Json.asString?
  | none => some []

/-- The request that a value tells. -/
def Request.ofJson? (v : Json) : Option Request :=
  match v.record? Request.fields with
  | some [some path, names] => do return ⟨← path.asString?, ← Request.names? names⟩
  | _ => none

/-- The batch that a value tells. -/
def Batch.ofJson? (v : Json) : Option Batch :=
  match v.record? [["targets"]] with
  | some [some targets] => do return ⟨← targets.asList? Request.ofJson?⟩
  | _ => none

/-- The batch that a document tells. -/
def Batch.read? (document : String) : Option Batch :=
  (Json.read? document).bind Batch.ofJson?

end GoSignatures
