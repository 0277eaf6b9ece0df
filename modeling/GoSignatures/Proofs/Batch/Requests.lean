import GoSignatures.Files.Tree
import GoSignatures.Proofs.Files.Performing

/-!
# A batch is its requests one by one

Analyzing a request looks at files and changes none, so the requests of a batch are answered each
for itself, in one and the same state, until the first fails. A file that can be read is answered by
its size if that is above the limit, and by its text otherwise.

* `Request.analysis` — what comes of a file that is read, with the events
* `Request.outcome_analyze` — what comes of a request
* `Request.answer`, `Batch.answer` — what is answered in a state of a file system
* `Batch.OneByOne` — a batch is answered as its requests are
-/

namespace GoSignatures

variable {σ : Type} {fs : FileSystem σ} {s : σ} {config : Config}

/-! ## One request -/

namespace Request

variable {request : Request} {content : ByteArray} {text : String}

/-- What is logged about a file whose declarations are resolved. -/
def events (request : Request) (file : SourceFile) (resolved : ResolvedFile) : List LogEvent :=
  let report := resolved.report request.filePath request.functionNames
  .declarationsResolved file.path resolved.definitions.length resolved.table.size ::
    (resolved.unsupported request.functionNames).map (fun f =>
      .unsupportedSignature f.name (f.signature.obstacles resolved.table)) ++
    [.fileAnalyzed request.filePath report.packageName report.parsedFunctions.length
      report.notSupportedFunctionsNames.length report.notFoundFunctionsNames.length]

/-- What comes of a file that is read, with the events. -/
def analysis (request : Request) (config : Config) :
    Except ParseError SourceFile → Except BatchError FileReport × List LogEvent
  | .error e => (.error (.parse e), [])
  | .ok file =>
    match file.resolve config with
    | .error e => (.error (.resolve e), [.resolutionFailed request.filePath e])
    | .ok resolved =>
      (.ok (resolved.report request.filePath request.functionNames), request.events file resolved)

theorem outcome_analyzeFile (file : SourceFile) :
    outcome (request.analyzeFile fs.recorder config file).run s =
      ⟨(request.analysis config (.ok file)).1, s, (request.analysis config (.ok file)).2⟩ := by
  rw [analyzeFile, analysis]
  cases file.resolve config with
  | error e =>
    dsimp only
    rw [outcome_bind_ok (fs.outcome_log _)]
    rfl
  | ok resolved =>
    dsimp only
    rw [outcome_bind_ok (fs.outcome_log _), outcome_bind_ok (fs.outcome_logAll _ _),
      outcome_bind_ok (fs.outcome_log _)]
    rfl

/-- What comes of a file, once it is read. -/
theorem outcome_bind_analyzeFile (file : Except ParseError SourceFile) :
    outcome (orFail .parse (pure file) >>= request.analyzeFile fs.recorder config).run s =
      ⟨(request.analysis config file).1, s, (request.analysis config file).2⟩ := by
  have horFail := outcome_orFail (outcome_pure (s := s) file) .parse
  cases file with
  | error e =>
    rw [outcome_bind_error horFail]
    rfl
  | ok file =>
    rw [outcome_bind_ok horFail, outcome_analyzeFile]
    rfl

theorem outcome_analyzeSource : outcome (request.analyzeSource fs.recorder config text).run s =
    ⟨(request.analysis config (SourceFile.read request.filePath text)).1, s,
      (request.analysis config (SourceFile.read request.filePath text)).2⟩ :=
  outcome_bind_analyzeFile _

/-- What comes of a request: its file is looked at, its size is compared and it is read, before
anything is made of its content. -/
theorem outcome_analyze : outcome (request.analyze fs.recorder config).run s =
    match fs.size s request.filePath with
    | .error cause => ⟨.error (.io (.read request.filePath cause)), s, []⟩
    | .ok size =>
      if config.effectiveMaxFileSize < size then
        ⟨.error (.io (.fileTooLarge request.filePath size config.effectiveMaxFileSize)), s, []⟩
      else
        match fs.read s request.filePath with
        | .error cause => ⟨.error (.io (.read request.filePath cause)), s, []⟩
        | .ok content =>
          ⟨(request.analysis config (SourceFile.ofBytes request.filePath content)).1, s,
            (request.analysis config (SourceFile.ofBytes request.filePath content)).2⟩ := by
  have hsize := outcome_orFail (fs.outcome_size (s := s) request.filePath)
    (.io ∘ .read request.filePath)
  have hread := outcome_orFail (fs.outcome_read (s := s) request.filePath)
    (.io ∘ .read request.filePath)
  rw [analyze]
  cases hfound : fs.size s request.filePath with
  | error cause =>
    rw [hfound] at hsize
    exact outcome_bind_error hsize
  | ok size =>
    rw [hfound] at hsize
    rw [outcome_bind_ok hsize, Outcome.after_nil]
    dsimp only
    split
    · rfl
    · cases hcontent : fs.read s request.filePath with
      | error cause =>
        rw [hcontent] at hread
        exact outcome_bind_error hread
      | ok content =>
        rw [hcontent] at hread
        exact (outcome_bind_ok hread).trans (outcome_bind_analyzeFile _)

/-- The answer to a request in a state of a file system. -/
def answer (request : Request) (fs : FileSystem σ) (config : Config) (s : σ) :
    Except BatchError FileReport :=
  (outcome (request.analyze fs.recorder config).run s).answer

theorem keepsState_analyze (request : Request) :
    KeepsState (request.analyze fs.recorder config).run := fun s => by
  rw [outcome_analyze]
  split
  · rfl
  · split
    · rfl
    · split <;> rfl

theorem outcome_analyze_of_lt {size : Nat} (hsize : fs.size s request.filePath = .ok size)
    (hlt : config.effectiveMaxFileSize < size) :
    outcome (request.analyze fs.recorder config).run s =
      ⟨.error (.io (.fileTooLarge request.filePath size config.effectiveMaxFileSize)), s, []⟩ := by
  rw [outcome_analyze, hsize]
  dsimp only
  rw [if_pos hlt]

/-- A file within the limit is answered by its text. -/
theorem outcome_analyze_of_le (hsize : fs.size s request.filePath = .ok content.size)
    (hread : fs.read s request.filePath = .ok content)
    (hle : content.size ≤ config.effectiveMaxFileSize)
    (htext : String.fromUTF8? content = some text) :
    outcome (request.analyze fs.recorder config).run s =
      outcome (request.analyzeSource fs.recorder config text).run s := by
  have hfile : SourceFile.ofBytes request.filePath content =
      SourceFile.read request.filePath text := by rw [SourceFile.ofBytes, htext]
  rw [outcome_analyze, hsize]
  dsimp only
  rw [if_neg (Nat.not_lt.mpr hle), hread]
  dsimp only
  rw [hfile, outcome_analyzeSource]

/-- With a log or without one, a text is answered alike. -/
theorem answer_analyzeSource :
    (outcome (request.analyzeSource fs.recorder config text).run s).answer =
      request.analyzeText config text := by
  rw [outcome_analyzeSource, analyzeText]
  cases SourceFile.read request.filePath text with
  | error e => rfl
  | ok file =>
    rw [analysis, Except.mapError, Except.ok_bind]
    cases file.resolve config <;> rfl

/-- A report is on the file that was asked for. -/
theorem filePath_of_answer {r : FileReport} (h : request.answer fs config s = .ok r) :
    r.filePath = request.filePath := by
  rw [answer, outcome_analyze] at h
  split at h
  · cases h
  split at h
  · cases h
  split at h
  · cases h
  rw [analysis.eq_def] at h
  split at h
  · cases h
  split at h
  · cases h
  · cases h
    rfl

end Request

/-! ## All requests -/

namespace Batch

variable {batch : Batch}

/-- The answer to a batch in a state of a file system. -/
def answer (batch : Batch) (fs : FileSystem σ) (config : Config) (s : σ) :
    Except BatchError BatchReport :=
  (outcome (batch.analyze fs.recorder config).run s).answer

/-- What comes of a batch is what comes of its requests. -/
theorem outcome_analyze : outcome (batch.analyze fs.recorder config).run s =
    let o := outcome (batch.targets.mapM (Request.analyze fs.recorder config)).run s
    ⟨o.answer.map .mk, s, .batchStarted batch.targets.length :: o.events⟩ := by
  obtain ⟨hstate, -⟩ := outcome_mapM (f := Request.analyze fs.recorder config) (s := s)
    Request.keepsState_analyze batch.targets
  rw [analyze, outcome_bind_ok (fs.outcome_log _)]
  rcases h : outcome (batch.targets.mapM (Request.analyze fs.recorder config)).run s with
    ⟨e | results, s', events⟩
  · rw [h] at hstate
    obtain rfl : s' = s := hstate
    rw [outcome_bind_error h]
    rfl
  · rw [h] at hstate
    obtain rfl : s' = s := hstate
    rw [outcome_bind_ok h]
    exact congrArg (Outcome.mk _ _) (congrArg (_ :: ·) (List.append_nil events))

theorem keepsState_analyze (batch : Batch) :
    KeepsState (batch.analyze fs.recorder config).run := fun s => by
  rw [outcome_analyze]

theorem answer_eq : batch.answer fs config s = (do
    return ⟨← batch.targets.mapM fun request => request.answer fs config s⟩) := by
  obtain ⟨-, hanswer⟩ := outcome_mapM (f := Request.analyze fs.recorder config) (s := s)
    Request.keepsState_analyze batch.targets
  rw [answer, outcome_analyze]
  dsimp only
  rw [hanswer]
  show _ = (batch.targets.mapM fun request =>
    (outcome (request.analyze fs.recorder config).run s).answer) >>= _
  cases batch.targets.mapM fun request =>
    (outcome (request.analyze fs.recorder config).run s).answer <;> rfl

theorem answer_eq_ok_iff {report : BatchReport} : batch.answer fs config s = .ok report ↔
    List.Forall₂ (fun request r => request.answer fs config s = .ok r) batch.targets
      report.results := by
  rw [answer_eq, Except.bind_eq_ok_iff, ← Except.mapM_eq_ok_iff]
  constructor
  · rintro ⟨results, hresults, h⟩
    cases h
    exact hresults
  · exact fun h => ⟨report.results, h, rfl⟩

theorem answer_eq_error_iff {e : BatchError} : batch.answer fs config s = .error e ↔
    ∃ before request after, batch.targets = before ++ request :: after ∧
      (∀ q ∈ before, ∃ r, q.answer fs config s = .ok r) ∧
      request.answer fs config s = .error e := by
  rw [answer_eq, Except.bind_eq_error_iff, ← Except.mapM_eq_error_iff]
  constructor
  · rintro (h | ⟨_, _, h⟩)
    · exact h
    · cases h
  · exact .inl

/-- A batch is answered in a state as its requests are: it succeeds if all of them do, and then has
their reports in their order; otherwise it has the error of the first that fails. -/
structure OneByOne (batch : Batch) (fs : FileSystem σ) (config : Config) (s : σ) : Prop where
  unchanged : (outcome (batch.analyze fs.recorder config).run s).state = s
  succeeds : (∃ report, batch.answer fs config s = .ok report) ↔
    ∀ request ∈ batch.targets, ∃ r, request.answer fs config s = .ok r
  results : ∀ report, batch.answer fs config s = .ok report →
    report.results.length = batch.targets.length ∧
      ∀ i (h : i < batch.targets.length) (h' : i < report.results.length),
        batch.targets[i].answer fs config s = .ok report.results[i]
  fails : ∀ e, batch.answer fs config s = .error e ↔
    ∃ before request after, batch.targets = before ++ request :: after ∧
      (∀ q ∈ before, ∃ r, q.answer fs config s = .ok r) ∧ request.answer fs config s = .error e

theorem oneByOne (batch : Batch) (fs : FileSystem σ) (config : Config) (s : σ) :
    batch.OneByOne fs config s where
  unchanged := keepsState_analyze batch s
  succeeds := by
    constructor
    · rintro ⟨report, h⟩ request hmem
      have hresults := answer_eq_ok_iff.mp h
      obtain ⟨i, hi, rfl⟩ := List.getElem_of_mem hmem
      exact ⟨_, hresults.get hi (hresults.length_eq ▸ hi)⟩
    · intro h
      cases hanswer : batch.answer fs config s with
      | ok report => exact ⟨report, rfl⟩
      | error e =>
        obtain ⟨before, request, after, htargets, -, hfail⟩ := answer_eq_error_iff.mp hanswer
        obtain ⟨r, hr⟩ := h request (by simp [htargets])
        rw [hfail] at hr
        cases hr
  results := fun report h => by
    have hresults := answer_eq_ok_iff.mp h
    exact ⟨hresults.length_eq.symm, fun i h h' => hresults.get h h'⟩
  fails := fun _ => answer_eq_error_iff

/-- In every state of a file system, a batch is answered as its requests are, one by one. A file
that can be read and has the size of its content is answered as its text is, with the same events,
if it is within the size limit and in UTF-8; and of a file above the limit the size is told,
whatever its content. -/
theorem answers_spec (fs : FileSystem σ) (s : σ) (config : Config) :
    (∀ batch : Batch, batch.OneByOne fs config s) ∧ ∀ request : Request,
      (∀ content text, fs.size s request.filePath = .ok content.size →
        fs.read s request.filePath = .ok content → content.size ≤ config.effectiveMaxFileSize →
        String.fromUTF8? content = some text →
          request.answer fs config s = request.analyzeText config text ∧
          outcome (request.analyze fs.recorder config).run s =
            outcome (request.analyzeSource fs.recorder config text).run s) ∧
      ∀ size, fs.size s request.filePath = .ok size → config.effectiveMaxFileSize < size →
        request.answer fs config s =
          .error (.io (.fileTooLarge request.filePath size config.effectiveMaxFileSize)) := by
  refine ⟨fun batch => batch.oneByOne fs config s, fun request => ⟨?_, ?_⟩⟩
  · intro content text hsize hread hle htext
    have hsame := Request.outcome_analyze_of_le hsize hread hle htext
    refine ⟨?_, hsame⟩
    rw [Request.answer, hsame, Request.answer_analyzeSource]
  · intro size hsize hlt
    rw [Request.answer, Request.outcome_analyze_of_lt hsize hlt]

/-- A tree with two files, one beside the working directory. -/
def ofTwoFiles : FileTree where
  files := [(["work", "a.go"], "package a\nfunc F(n int)".toUTF8),
    (["src", "b.go"], "package b\nfunc G(n, m int) (k int)".toUTF8)]
  directories := [["src"]]
  workingDirectory := ["work"]

/-- The first of two files is within the limit of 30 bytes, the second is not. -/
theorem answers_spec_ofTwoFiles :
    ofTwoFiles.size "/work/a.go" = .ok "package a\nfunc F(n int)".toUTF8.size ∧
      ofTwoFiles.read "/work/a.go" = .ok "package a\nfunc F(n int)".toUTF8 ∧
      "package a\nfunc F(n int)".toUTF8.size ≤ 30 ∧
      String.fromUTF8? "package a\nfunc F(n int)".toUTF8 = some "package a\nfunc F(n int)" ∧
      Request.answer ⟨"/work/a.go", []⟩ FileTree.fileSystem { maxFileSize := some 30 } ofTwoFiles =
        Request.analyzeText ⟨"/work/a.go", []⟩ { maxFileSize := some 30 }
          "package a\nfunc F(n int)" ∧
      ofTwoFiles.size "../src/./b.go" = .ok 34 ∧
      Request.answer ⟨"../src/./b.go", []⟩ FileTree.fileSystem { maxFileSize := some 30 }
        ofTwoFiles = .error (.io (.fileTooLarge "../src/./b.go" 34 30)) ∧
      Batch.OneByOne ⟨[⟨"/work/a.go", []⟩, ⟨"../src/./b.go", []⟩]⟩ FileTree.fileSystem
        { maxFileSize := some 30 } ofTwoFiles := by
  have hsize : ofTwoFiles.size "/work/a.go" = .ok "package a\nfunc F(n int)".toUTF8.size := by
    decide +kernel
  have hread : ofTwoFiles.read "/work/a.go" = .ok "package a\nfunc F(n int)".toUTF8 := by
    decide +kernel
  have hle : "package a\nfunc F(n int)".toUTF8.size ≤ 30 := by decide +kernel
  have htext : String.fromUTF8? "package a\nfunc F(n int)".toUTF8 =
      some "package a\nfunc F(n int)" := by decide +kernel
  have hsize' : ofTwoFiles.size "../src/./b.go" = .ok 34 := by decide +kernel
  obtain ⟨hbatch, hanswer⟩ :=
    answers_spec FileTree.fileSystem ofTwoFiles { maxFileSize := some 30 }
  exact ⟨hsize, hread, hle, htext, ((hanswer ⟨"/work/a.go", []⟩).1 _ _ hsize hread hle htext).1,
    hsize', (hanswer ⟨"../src/./b.go", []⟩).2 34 hsize' (by decide), hbatch _⟩

end Batch

end GoSignatures
