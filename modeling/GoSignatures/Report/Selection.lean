import GoSignatures.Classification.Support
import GoSignatures.Definition
import GoSignatures.Report.Basic

/-!
# Selecting functions

A request names the functions it wants; an empty request wants all that are declared at file
level. Of several functions of one name the first is taken. What was selected is parted into
supported and unsupported functions.

* `FuncDef.firsts` — the first function of each wanted name
* `ResolvedFile.select` — the selection for a request
* `Selection.assemble` — the report, in its fixed order
-/

namespace GoSignatures

/-- What a request selects from a file. -/
structure Selection where
  parsed : List FunctionReport
  notSupported : List String
  notFound : List String
deriving DecidableEq, Repr

/-- The first function of each wanted name, in order. -/
def FuncDef.firsts : List String → List FuncDef → List FuncDef
  | _, [] => []
  | wanted, f :: fs =>
    if wanted.contains f.name then f :: firsts (wanted.filter (· != f.name)) fs
    else firsts wanted fs

/-- The functions that a request selects, in definition order. -/
def ResolvedFile.selected (file : ResolvedFile) (requested : List String) : List FuncDef :=
  if requested.isEmpty then file.functions else FuncDef.firsts requested file.functions

/-- What is reported about a function. -/
def FuncDef.report (t : Table) (f : FuncDef) : FunctionReport where
  name := f.name
  parameters := f.signature.params.map fun p => ⟨p.name, t.simplify p.type⟩
  resultTypes := f.signature.results.map fun r => t.simplify r.type
  position := f.position

/-- The selection for a request. Each name that no function bears is listed once. -/
def ResolvedFile.select (file : ResolvedFile) (requested : List String) : Selection :=
  let chosen := file.selected requested
  let supported := fun f : FuncDef => f.signature.isSupported file.table
  { parsed := (chosen.filter supported).map (FuncDef.report file.table)
    notSupported := (chosen.filter fun f => !supported f).map FuncDef.name
    notFound := requested.eraseDups.filter fun name => !chosen.any (·.name == name) }

/-- The report on a selection: functions by position, names in the order of their bytes. -/
def Selection.assemble (path package : String) (s : Selection) : FileReport where
  filePath := path
  packageName := package
  parsedFunctions := s.parsed.mergeSort fun f g => f.position.le g.position
  notSupportedFunctionsNames := s.notSupported.mergeSort
  notFoundFunctionsNames := s.notFound.mergeSort

/-- The report on a file for a request. -/
def ResolvedFile.report (file : ResolvedFile) (path : String) (requested : List String) :
    FileReport :=
  (file.select requested).assemble path file.packageName

end GoSignatures
