import GoSignatures.Json.Printer
import GoSignatures.Json.Reader
import GoSignatures.Report.Basic

/-!
# The text of a report

A batch report is written as a JSON document with a fixed order of fields, and read back from one.
The positions of functions are not part of the document.

* `BatchReport.toJson`, `BatchReport.render` — writing
* `BatchReport.ofJson?`, `BatchReport.read?` — reading
-/

namespace GoSignatures

/-- A list of texts as a value. -/
def Json.ofStrings (texts : List String) : Json :=
  .array (texts.map Json.text)

/-- The value of a described type. -/
def SimplifiedType.toJson (t : SimplifiedType) : Json :=
  .record [("name", .text t.name), ("implementsError", .bool t.implementsError)]

/-- The value of a parameter. -/
def Parameter.toJson (p : Parameter) : Json :=
  .record [("name", .text p.name), ("type", p.type.toJson)]

/-- The value of a reported function. -/
def FunctionReport.toJson (f : FunctionReport) : Json :=
  .record [("name", .text f.name), ("parameters", .array (f.parameters.map Parameter.toJson)),
    ("resultTypes", .array (f.resultTypes.map SimplifiedType.toJson))]

/-- The value of a file report. -/
def FileReport.toJson (r : FileReport) : Json :=
  .record [("filePath", .text r.filePath), ("packageName", .text r.packageName),
    ("parsedFunctions", .array (r.parsedFunctions.map FunctionReport.toJson)),
    ("notSupportedFunctionsNames", .ofStrings r.notSupportedFunctionsNames),
    ("notFoundFunctionsNames", .ofStrings r.notFoundFunctionsNames)]

/-- The value of a batch report. -/
def BatchReport.toJson (r : BatchReport) : Json :=
  .record [("results", .array (r.results.map FileReport.toJson))]

/-- The document of a file report. -/
def FileReport.render (r : FileReport) : String := r.toJson.render

/-- The document of a batch report. -/
def BatchReport.render (r : BatchReport) : String := r.toJson.render

/-- The described type that a value tells. -/
def SimplifiedType.ofJson? (v : Json) : Option SimplifiedType :=
  match v.record? [["name"], ["implementsError"]] with
  | some [some name, some implementsError] => do
    return ⟨← name.asString?, ← implementsError.asBool?⟩
  | _ => none

/-- The parameter that a value tells. -/
def Parameter.ofJson? (v : Json) : Option Parameter :=
  match v.record? [["name"], ["type"]] with
  | some [some name, some type] => do
    return ⟨← name.asString?, ← SimplifiedType.ofJson? type⟩
  | _ => none

/-- The reported function that a value tells. -/
def FunctionReport.ofJson? (v : Json) : Option FunctionReport :=
  match v.record? [["name"], ["parameters"], ["resultTypes"]] with
  | some [some name, some parameters, some resultTypes] => do
    return {
      name := ← name.asString?
      parameters := ← parameters.asList? Parameter.ofJson?
      resultTypes := ← resultTypes.asList? SimplifiedType.ofJson? }
  | _ => none

/-- The file report that a value tells. -/
def FileReport.ofJson? (v : Json) : Option FileReport :=
  match v.record? [["filePath"], ["packageName"], ["parsedFunctions"],
    ["notSupportedFunctionsNames"], ["notFoundFunctionsNames"]] with
  | some [some path, some package, some parsed, some notSupported, some notFound] => do
    return {
      filePath := ← path.asString?
      packageName := ← package.asString?
      parsedFunctions := ← parsed.asList? FunctionReport.ofJson?
      notSupportedFunctionsNames := ← notSupported.asList? Json.asString?
      notFoundFunctionsNames := ← notFound.asList? Json.asString? }
  | _ => none

/-- The batch report that a value tells. -/
def BatchReport.ofJson? (v : Json) : Option BatchReport :=
  match v.record? [["results"]] with
  | some [some results] => do return ⟨← results.asList? FileReport.ofJson?⟩
  | _ => none

/-- The batch report that a document tells. -/
def BatchReport.read? (document : String) : Option BatchReport :=
  (Json.read? document).bind BatchReport.ofJson?

end GoSignatures
