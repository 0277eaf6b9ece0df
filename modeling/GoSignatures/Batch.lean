import GoSignatures.Config.Basic
import GoSignatures.Host
import GoSignatures.Libraries
import GoSignatures.Report.Document
import GoSignatures.Report.Selection
import GoSignatures.Request
import GoSignatures.Resolution.Declaration
import GoSignatures.Source.Reading

/-!
# Analyzing files

A batch is analyzed file by file, in order, and its first error ends it. Only if all files are
analyzed is a report written. What happens is logged.

* `Request.analyzeBytes`, `Request.analyzeText` — the report on the content of a file, and on a
  text as if it were read from the file; nothing is logged
* `Request.analyze`, `Request.analyzeSource` — the same for a file and a text, with a log
* `Batch.analyze` — the reports on all files of a batch
* `Batch.run` — from a request document to a report document
-/

namespace GoSignatures

/-- The report on the content of a file. -/
def Request.analyzeBytes (request : Request) (config : Config) (bytes : ByteArray) :
    Except BatchError FileReport := do
  let file ← (SourceFile.ofBytes request.filePath bytes).mapError .parse
  let resolved ← (file.resolve config).mapError .resolve
  return resolved.report request.filePath request.functionNames

/-- The report on a text, as if it were read from the file. -/
def Request.analyzeText (request : Request) (config : Config) (text : String) :
    Except BatchError FileReport := do
  let file ← (SourceFile.read request.filePath text).mapError .parse
  let resolved ← (file.resolve config).mapError .resolve
  return resolved.report request.filePath request.functionNames

/-- The selected functions whose signatures are not supported, in definition order. -/
def ResolvedFile.unsupported (file : ResolvedFile) (requested : List String) : List FuncDef :=
  (file.selected requested).filter fun f => !f.signature.isSupported file.table

variable {m : Type → Type} [Monad m]

/-- Ends with an error unless there is an answer. -/
def orFail {α ε : Type} (wrap : ε → BatchError) (answer : m (Except ε α)) :
    ExceptT BatchError m α :=
  ExceptT.mk do return (← answer).mapError wrap

namespace Request

/-- The report on a file that has been read. -/
def analyzeFile (host : Host m) (config : Config) (request : Request) (file : SourceFile) :
    ExceptT BatchError m FileReport := do
  match file.resolve config with
  | .error e =>
    host.log (.resolutionFailed request.filePath e)
    throw (.resolve e)
  | .ok resolved =>
    host.log (.declarationsResolved file.path resolved.definitions.length resolved.table.size)
    (resolved.unsupported request.functionNames).forM fun f =>
      host.log (.unsupportedSignature f.name (f.signature.obstacles resolved.table))
    let report := resolved.report request.filePath request.functionNames
    host.log (.fileAnalyzed request.filePath report.packageName report.parsedFunctions.length
      report.notSupportedFunctionsNames.length report.notFoundFunctionsNames.length)
    return report

/-- The report on a file. A file above the size limit is not read. -/
def analyze (host : Host m) (config : Config) (request : Request) :
    ExceptT BatchError m FileReport := do
  let path := request.filePath
  let size ← orFail (.io ∘ .read path) (host.size path)
  let max := config.effectiveMaxFileSize
  if max < size then throw (.io (.fileTooLarge path size max))
  let bytes ← orFail (.io ∘ .read path) (host.read path)
  let file ← orFail .parse (pure (SourceFile.ofBytes path bytes))
  request.analyzeFile host config file

/-- The report on a text, as if it were read from the file. -/
def analyzeSource (host : Host m) (config : Config) (request : Request) (text : String) :
    ExceptT BatchError m FileReport := do
  let file ← orFail .parse (pure (SourceFile.read request.filePath text))
  request.analyzeFile host config file

end Request

namespace Batch

/-- The reports on all files of a batch. -/
def analyze (host : Host m) (config : Config) (batch : Batch) :
    ExceptT BatchError m BatchReport := do
  host.log (.batchStarted batch.targets.length)
  return ⟨← batch.targets.mapM (Request.analyze host config)⟩

/-- The batch in a request document. -/
def ofText (path text : String) (libraries : Libraries := .plain) : Except BatchError Batch :=
  match read? text with
  | some batch => .ok batch
  | none => .error (.request (.malformed path (libraries.requestDetail text)))

/-- Reads the request document at `targets`, analyzes its batch and writes the report document to
`results`. -/
def run (host : Host m) (config : Config) (targets results : String)
    (libraries : Libraries := .plain) : ExceptT BatchError m BatchReport := do
  let text ← orFail (.io ∘ .read targets) (host.readText targets)
  let batch ← orFail id (pure (ofText targets text libraries))
  let report ← batch.analyze host config
  orFail (.io ∘ .write results) (host.write results report.render)
  host.log (.reportWritten results report.results.length)
  return report

end Batch

end GoSignatures
