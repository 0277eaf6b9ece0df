import GoSignatures.Position
import GoSignatures.Classification.Representable

/-!
# Reports

What is told about the functions of a file: the simplified signatures of the supported ones, the
names of the unsupported ones, and the names that no function bears.
-/

namespace GoSignatures

/-- A parameter of a reported function. -/
structure Parameter where
  name : String
  type : SimplifiedType
deriving DecidableEq, Repr

/-- A supported function. Its position orders the report and is not part of its text. -/
structure FunctionReport where
  name : String
  parameters : List Parameter
  resultTypes : List SimplifiedType
  position : Position := {}
deriving DecidableEq, Repr

/-- The report on one file. -/
structure FileReport where
  filePath : String
  packageName : String
  parsedFunctions : List FunctionReport
  notSupportedFunctionsNames : List String
  notFoundFunctionsNames : List String
deriving DecidableEq, Repr

/-- The reports on the files of a batch, in request order. -/
structure BatchReport where
  results : List FileReport
deriving DecidableEq, Repr

/-- The report without positions, which is what its text tells. -/
def FunctionReport.withoutPosition (f : FunctionReport) : FunctionReport :=
  { f with position := {} }

/-- The report without positions. -/
def FileReport.withoutPositions (r : FileReport) : FileReport :=
  { r with parsedFunctions := r.parsedFunctions.map FunctionReport.withoutPosition }

/-- The report without positions. -/
def BatchReport.withoutPositions (r : BatchReport) : BatchReport :=
  ⟨r.results.map FileReport.withoutPositions⟩

end GoSignatures
