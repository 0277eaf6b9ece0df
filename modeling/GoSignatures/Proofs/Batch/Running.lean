import GoSignatures.CommandLine
import GoSignatures.Proofs.Batch.Logging
import GoSignatures.Proofs.Config.Loading
import GoSignatures.Proofs.Diagnostics
import GoSignatures.Proofs.Files.Writing
import GoSignatures.Proofs.Report.Document

/-!
# A run is all or nothing

Everything that can fail is done before the one write of a run, and looks at files only. So a run
that fails leaves all files as they were, at whatever step it fails, and a run that succeeds has
changed the report document and nothing else. Standard error tells of a run what the log filter
shows and, if it fails, its error.

* `Batch.outcome_run` — what a run comes to
* `Batch.Done`, `Batch.Shows` — what a run that succeeds has done, and what is shown of one that
  fails
* `CommandLine.Ends` — how the program ends
* `Batch.allOrNothing` — the result
-/

namespace GoSignatures

variable {σ : Type} {fs : FileSystem σ} {s s' : σ} {libraries : Libraries} {config : Config}
  {targets results : String} {report : BatchReport}

/-! ## Runs -/

namespace Batch

/-- What writing a report document comes to. -/
theorem outcome_writeReport (report : BatchReport) : outcome (do
      orFail (.io ∘ .write results) (fs.recorder.write results report.render)
      fs.recorder.log (.reportWritten results report.results.length)
      return report : ExceptT BatchError (Recorded σ) BatchReport).run s =
    match fs.write s results report.render with
    | .error cause => ⟨.error (.io (.write results cause)), s, []⟩
    | .ok s' => ⟨.ok report, s', [.reportWritten results report.results.length]⟩ := by
  have hwrite := fs.outcome_write (s := s) results report.render
  cases hwritten : fs.write s results report.render with
  | error cause =>
    rw [hwritten] at hwrite
    exact outcome_bind_error (outcome_orFail hwrite (.io ∘ .write results))
  | ok s' =>
    rw [hwritten] at hwrite
    rw [outcome_bind_ok (outcome_orFail hwrite (.io ∘ .write results)),
      outcome_bind_ok (fs.outcome_log _)]
    rfl

/-- What a run comes to: all that may fail comes before the write. -/
theorem outcome_run : outcome (run fs.recorder config targets results libraries).run s =
    match fs.text s targets with
    | .error cause => ⟨.error (.io (.read targets cause)), s, []⟩
    | .ok text =>
      match ofText targets text libraries with
      | .error e => ⟨.error e, s, []⟩
      | .ok batch =>
        let events := (outcome (batch.analyze fs.recorder config).run s).events
        match batch.answer fs config s with
        | .error e => ⟨.error e, s, events⟩
        | .ok report =>
          match fs.write s results report.render with
          | .error cause => ⟨.error (.io (.write results cause)), s, events⟩
          | .ok s' =>
            ⟨.ok report, s', events ++ [.reportWritten results report.results.length]⟩ := by
  have hread := outcome_orFail (fs.outcome_readText (s := s) targets) (.io ∘ .read targets)
  rw [run]
  cases htext : fs.text s targets with
  | error cause =>
    rw [htext] at hread
    exact outcome_bind_error hread
  | ok text =>
    rw [htext] at hread
    rw [outcome_bind_ok hread, Outcome.after_nil]
    have hdecode := outcome_orFail (outcome_pure (s := s) (ofText targets text libraries)) id
    dsimp only
    cases hbatch : ofText targets text libraries with
    | error e =>
      rw [hbatch] at hdecode
      exact outcome_bind_error hdecode
    | ok batch =>
      rw [hbatch] at hdecode
      rw [outcome_bind_ok hdecode, Outcome.after_nil]
      have hstate : (outcome (batch.analyze fs.recorder config).run s).state = s :=
        batch.keepsState_analyze s
      dsimp only [answer]
      rcases hanalyze : outcome (batch.analyze fs.recorder config).run s with
        ⟨e | report, s₁, events⟩
      · rw [hanalyze] at hstate
        obtain rfl : s₁ = s := hstate
        exact outcome_bind_error hanalyze
      · rw [hanalyze] at hstate
        obtain rfl : s₁ = s := hstate
        rw [outcome_bind_ok hanalyze, outcome_writeReport]
        dsimp only
        cases fs.write s₁ results report.render with
        | error cause => exact congrArg (Outcome.mk _ _) (List.append_nil events)
        | ok s' => rfl

/-- What a run that succeeds has done: the request document told a batch, every request of it has
its report, in order, and writing the report document, which is read back as the report, is all that
became of the files. By default the log shows how the batch is begun and that the report is
written. -/
structure Done (fs : FileSystem σ) (config : Config) (s s' : σ) (targets results : String)
    (report : BatchReport) (events : List LogEvent) : Prop where
  answered : ∃ text batch, fs.text s targets = .ok text ∧ read? text = some batch ∧
    List.Forall₂ (fun request r => request.answer fs config s = .ok r ∧
      r.filePath = request.filePath) batch.targets report.results
  written : fs.write s results report.render = .ok s'
  decodes : BatchReport.read? report.render = some report.withoutPositions
  shown : LogFilter.shown .standard events =
    [.batchStarted report.results.length, .reportWritten results report.results.length]

/-- What is shown by default of a run that fails: nothing if its request document is to blame, and
otherwise that the batch is begun, followed by what its files tell. -/
inductive Shows (e : BatchError) (shown : List LogEvent) : Prop where
  | unread (h : shown = []) (hcause : ∀ cause, e ≠ .resolve cause)
  | begun {targets : Nat} {told : List LogEvent} (h : shown = .batchStarted targets :: told)
      (htold : Tells (.error e : Except BatchError BatchReport) told)

theorem done_of_run {events : List LogEvent}
    (h : outcome (run fs.recorder config targets results libraries).run s =
      ⟨.ok report, s', events⟩) : Done fs config s s' targets results report events := by
  rw [outcome_run] at h
  cases htext : fs.text s targets with
  | error cause =>
    rw [htext] at h
    cases h
  | ok text =>
    rw [htext] at h
    dsimp only at h
    rw [ofText] at h
    cases hread : read? text with
    | none =>
      rw [hread] at h
      cases h
    | some batch =>
      rw [hread] at h
      dsimp only at h
      obtain ⟨told, htold, hshown⟩ := batch.tells_analyze fs config s
      cases hanswer : batch.answer fs config s with
      | error e =>
        rw [hanswer] at h
        cases h
      | ok answered =>
        rw [hanswer] at h htold
        dsimp only at h
        cases hwrite : fs.write s results answered.render with
        | error cause =>
          rw [hwrite] at h
          cases h
        | ok written =>
          rw [hwrite] at h
          cases h
          have hresults := answer_eq_ok_iff.mp hanswer
          refine ⟨⟨text, batch, htext, hread, ?_⟩, hwrite, report.read?_render, ?_⟩
          · exact hresults.imp fun _ _ hr => ⟨hr, Request.filePath_of_answer hr⟩
          · rw [LogFilter.shown_append, hshown, htold.eq_nil, hresults.length_eq]
            exact congrArg (_ :: ·) (LogFilter.shown_standard_cons _ [])

/-- Nothing has become of the files by the time that a run fails. -/
theorem fails_of_run {e : BatchError} {events : List LogEvent}
    (h : outcome (run fs.recorder config targets results libraries).run s =
      ⟨.error e, s', events⟩) : s' = s ∧ Shows e (LogFilter.shown .standard events) := by
  rw [outcome_run] at h
  split at h
  · cases h
    exact ⟨rfl, .unread rfl nofun⟩
  · next text _ =>
    split at h
    · next hbatch =>
      cases h
      refine ⟨rfl, .unread rfl fun cause he => ?_⟩
      rw [ofText] at hbatch
      split at hbatch
      · cases hbatch
      · cases hbatch
        cases he
    · next batch _ =>
      obtain ⟨told, htold, hshown⟩ := batch.tells_analyze fs config s
      dsimp only at h
      split at h
      · next hanswer =>
        cases h
        rw [hanswer] at htold
        exact ⟨rfl, .begun hshown htold.error⟩
      · next hanswer =>
        rw [hanswer] at htold
        rw [htold.eq_nil] at hshown
        split at h
        · cases h
          exact ⟨rfl, .begun hshown (.refused nofun)⟩
        · cases h

end Batch

/-! ## The program -/

namespace CommandLine

/-- The lines of the events that a filter shows. -/
def logLines (filter : LogFilter) (line : LogEvent → String) (events : List LogEvent) : String :=
  String.join ((filter.shown events).map line)

/-- What stands on standard error at the end: the lines of the log, in some layout, and behind them
the diagnostic. -/
def standardError (filter : LogFilter) (line : LogEvent → String) (o : Outcome σ Ending) : String :=
  logLines filter line o.events ++ o.answer.diagnostic.getD ""

/-- The configuration in force for some settings. -/
def configuration (fs : FileSystem σ) (libraries : Libraries) (s : σ) (environment : Option String)
    (settings : Settings) : Except ConfigError Config :=
  Config.loaded fs libraries s "." settings.config environment settings.maxFileSize

/-- Why the program fails: the configuration is not accepted, or the run with it fails. -/
inductive Fails (fs : FileSystem σ) (libraries : Libraries) (s : σ) (environment : Option String)
    (settings : Settings) : BatchError → Prop where
  | misconfigured {e : ConfigError}
      (h : configuration fs libraries s environment settings = .error e) :
      Fails fs libraries s environment settings (.config e)
  | run {config : Config} {e : BatchError}
      (hconfig : configuration fs libraries s environment settings = .ok config)
      (hrun : (outcome (Batch.run fs.recorder config settings.targets settings.results
        libraries).run s).answer = .error e) :
      Fails fs libraries s environment settings e

/-- How the program ends that is to run a batch, as its outcome shows it. Either the run succeeds:
then the status is 0, and standard error has the lines of the log alone, which are two by default
and none if the log is off. Or it fails: then the status is 1, all files are as they were, and
behind the log stands the diagnostic, which is one line unless a text in its message is broken. -/
inductive Ends (fs : FileSystem σ) (libraries : Libraries) (s : σ) (environment : Option String)
    (settings : Settings) (o : Outcome σ Ending) : Prop where
  | done {config : Config} {report : BatchReport} {events : List LogEvent}
      (hconfig : configuration fs libraries s environment settings = .ok config)
      (hrun : outcome (Batch.run fs.recorder config settings.targets settings.results
        libraries).run s = ⟨.ok report, o.state, events⟩)
      (status : o.answer.status = 0) (output : o.answer.output = "")
      (error : ∀ filter line, standardError filter line o = logLines filter line o.events)
      (shown : LogFilter.shown .standard o.events = [.batchStarted report.results.length,
        .reportWritten settings.results report.results.length])
      (silent : ∀ line, standardError .off line o = "")
  | failed {e : BatchError} (hfails : Fails fs libraries s environment settings e)
      (unchanged : o.state = s) (status : o.answer.status = 1) (output : o.answer.output = "")
      (error : ∀ filter line, standardError filter line o = logLines filter line o.events ++ e.line)
      (shown : Batch.Shows e (LogFilter.shown .standard o.events))
      (silent : ∀ line, standardError .off line o = e.line)
      (oneLine : IsLine e.line ↔ ∀ text ∈ e.texts, '\n' ∉ text.toList)

theorem logLines_off (line : LogEvent → String) (events : List LogEvent) :
    logLines .off line events = "" := by
  have hshown : LogFilter.off.shown events = [] := List.filter_false events
  rw [logLines, hshown]
  rfl

theorem shown_load (answer : Except ConfigError Config) :
    LogFilter.shown .standard (Config.events answer) = [] := by
  cases answer with
  | error e => rfl
  | ok config => exact LogFilter.shown_standard_cons _ []

/-- What it comes to to load the configuration and run the batch. -/
theorem outcome_perform {environment : Option String} {settings : Settings} :
    outcome (perform fs.recorder environment settings libraries).run s =
      let loaded := Config.events (configuration fs libraries s environment settings)
      match configuration fs libraries s environment settings with
      | .error e => ⟨.error (.config e), s, loaded⟩
      | .ok config =>
        let o := outcome (Batch.run fs.recorder config settings.targets settings.results
          libraries).run s
        match o.answer with
        | .error e => ⟨.error e, o.state, loaded ++ o.events⟩
        | .ok report =>
          ⟨.ok report, o.state, loaded ++ (o.events ++ [.finished report.results.length])⟩
    := by
  have hload : outcome (Config.load fs.recorder "." settings.config environment
      settings.maxFileSize libraries) s =
      ⟨configuration fs libraries s environment settings, s,
        Config.events (configuration fs libraries s environment settings)⟩ := Config.outcome_load
  rw [perform]
  cases hconfig : configuration fs libraries s environment settings with
  | error e =>
    rw [hconfig] at hload
    exact outcome_bind_error (outcome_orFail hload .config)
  | ok config =>
    rw [hconfig] at hload
    rw [outcome_bind_ok (outcome_orFail hload .config)]
    dsimp only
    rcases hrun : outcome (Batch.run fs.recorder config settings.targets settings.results
      libraries).run s with ⟨e | report, s', events⟩
    · rw [outcome_bind_error hrun]
      rfl
    · rw [outcome_bind_ok hrun, outcome_bind_ok (fs.outcome_log _)]
      rfl

theorem outcome_execute {environment : Option String} {args : List String} {settings : Settings}
    (hread : read args = .run settings) :
    outcome (execute fs.recorder environment args libraries) s =
      let o := outcome (perform fs.recorder environment settings libraries).run s
      match o.answer with
      | .ok _ => ⟨⟨0, "", some ""⟩, o.state, o.events⟩
      | .error e => ⟨⟨1, "", some e.line⟩, o.state, o.events⟩ := by
  rw [execute, hread]
  dsimp only
  rcases h : outcome (perform fs.recorder environment settings libraries).run s with
    ⟨e | report, s', events⟩
  all_goals
    rw [outcome_bind h]
    exact congrArg (Outcome.mk _ _) (List.append_nil events)

theorem ends_execute {environment : Option String} {args : List String} {settings : Settings}
    (hread : read args = .run settings) :
    Ends fs libraries s environment settings
      (outcome (execute fs.recorder environment args libraries) s) := by
  rw [outcome_execute hread, outcome_perform]
  cases hconfig : configuration fs libraries s environment settings with
  | error e =>
    dsimp only
    refine .failed (.misconfigured hconfig) rfl rfl rfl (fun _ _ => rfl) ?_ (fun line => ?_)
      BatchError.isLine_line_iff
    · exact .unread (shown_load (.error e)) nofun
    · rw [standardError, logLines_off]
      rfl
  | ok config =>
    have hload := shown_load (.ok config)
    dsimp only
    rcases hrun : outcome (Batch.run fs.recorder config settings.targets settings.results
      libraries).run s with ⟨e | report, s', events⟩
    · obtain ⟨rfl, hshows⟩ := Batch.fails_of_run hrun
      refine .failed (.run hconfig (congrArg Outcome.answer hrun)) rfl rfl rfl (fun _ _ => rfl) ?_
        (fun line => ?_) BatchError.isLine_line_iff
      · dsimp only
        rw [LogFilter.shown_append, hload]
        exact hshows
      · rw [standardError, logLines_off]
        rfl
    · have hdone := Batch.done_of_run hrun
      refine .done hconfig hrun rfl rfl (fun _ _ => String.append_empty) ?_ (fun line => ?_)
      · dsimp only
        have hfinished : LogFilter.shown .standard [.finished report.results.length] = [] :=
          LogFilter.shown_standard_cons _ []
        rw [LogFilter.shown_append, LogFilter.shown_append, hload, hdone.shown, hfinished]
        rfl
      · rw [standardError, logLines_off]
        rfl

end CommandLine

/-- In every state of a file system, a run that succeeds has written the report document and done
nothing else, and a run that fails has done nothing at all; on a file tree, writing changes the one
file at the end of its path. The program ends accordingly. -/
theorem Batch.allOrNothing (fs : FileSystem σ) (libraries : Libraries) (s : σ) :
    (∀ config targets results report s' events,
      outcome (run fs.recorder config targets results libraries).run s =
        ⟨.ok report, s', events⟩ → Done fs config s s' targets results report events) ∧
      (∀ config targets results e s' events,
        outcome (run fs.recorder config targets results libraries).run s =
          ⟨.error e, s', events⟩ → s' = s ∧ Shows e (LogFilter.shown .standard events)) ∧
      (∀ (t t' : FileTree) path text, t.write path text = .ok t' → t.Rewritten t' path text) ∧
      ∀ environment args settings, CommandLine.read args = .run settings →
        CommandLine.Ends fs libraries s environment settings
          (outcome (CommandLine.execute fs.recorder environment args libraries) s) :=
  ⟨fun _ _ _ _ _ _ => done_of_run, fun _ _ _ _ _ _ => fails_of_run,
    fun _ _ _ _ => FileTree.rewritten_of_write, fun _ _ _ => CommandLine.ends_execute⟩

/-- A request document in the working directory, and the file beside it that it is about. -/
def FileTree.ofRequest : FileTree where
  files := [
    (["work", "t.json"], "\x7b\"targets\": [\x7b\"filePath\": \"/src/a.go\"\x7d]\x7d".toUTF8),
    (["src", "a.go"], "package a\nfunc F(n int)".toUTF8)]
  directories := [["src"]]
  workingDirectory := ["work"]

open FileTree CommandLine in
/-- The report document takes the place of the file. With a limit of 5 bytes the run fails. -/
theorem Batch.allOrNothing_ofRequest :
    (∃ report t' events,
      outcome (run fileSystem.recorder {} "t.json" "../src/a.go").run ofRequest =
        ⟨.ok report, t', events⟩ ∧
      Done fileSystem {} ofRequest t' "t.json" "../src/a.go" report events ∧
      ofRequest.Rewritten t' "../src/a.go" report.render) ∧
    (∃ e t' events,
      outcome (run fileSystem.recorder { maxFileSize := some 5 } "t.json" "/b.json").run ofRequest =
        ⟨.error e, t', events⟩ ∧ t' = ofRequest) ∧
    CommandLine.read ["--targets", "t.json", "--results=/src/a.go"] =
      .run ⟨"t.json", "/src/a.go", none, none⟩ ∧
    CommandLine.Ends fileSystem .plain ofRequest none ⟨"t.json", "/src/a.go", none, none⟩
      (outcome (execute fileSystem.recorder none ["--targets", "t.json", "--results=/src/a.go"])
        ofRequest) := by
  obtain ⟨hdone, hfail, hwrite, hend⟩ := allOrNothing fileSystem .plain ofRequest
  have hok : (outcome (run fileSystem.recorder {} "t.json" "../src/a.go").run
      ofRequest).answer.toOption.isSome = true := by decide +kernel
  have herror : (outcome (run fileSystem.recorder { maxFileSize := some 5 } "t.json" "/b.json").run
      ofRequest).answer.toOption.isNone = true := by decide +kernel
  have hread : CommandLine.read ["--targets", "t.json", "--results=/src/a.go"] =
      .run ⟨"t.json", "/src/a.go", none, none⟩ := by decide +kernel
  refine ⟨?_, ?_, hread, hend none _ _ hread⟩
  · rcases h : outcome (run fileSystem.recorder {} "t.json" "../src/a.go").run ofRequest with
      ⟨e | report, t', events⟩
    · rw [h] at hok
      cases hok
    · have hdone := hdone _ _ _ _ _ _ h
      exact ⟨report, t', events, rfl, hdone, hwrite _ _ _ _ hdone.written⟩
  · rcases h : outcome (run fileSystem.recorder { maxFileSize := some 5 } "t.json" "/b.json").run
      ofRequest with ⟨e | report, t', events⟩
    · exact ⟨e, t', events, rfl, (hfail _ _ _ _ _ _ h).1⟩
    · rw [h] at herror
      cases herror

open FileTree CommandLine in
/-- A run that succeeds is not silent by default, and a path may break the line of an error. -/
theorem CommandLine.standardError_ofRequest :
    (let o := outcome (execute fileSystem.recorder none
      ["--targets", "t.json", "--results", "r.json"]) ofRequest
    o.answer.status = 0 ∧ standardError .standard LogEvent.line o =
      "INFO gosig_analysis::batch::runner: analyzing batch\n" ++
        "INFO gosig_analysis::batch::runner: report written\n") ∧
    let o := outcome (execute fileSystem.recorder none
      ["--targets", "a\nb.json", "--results", "r.json"]) ofRequest
    o.answer.status = 1 ∧ standardError .off LogEvent.line o = "[IO_ERROR] I/O error: " ++
      "Failed to read a\nb.json: No such file or directory (os error 2)\n" ∧
      ¬ IsLine (standardError .off LogEvent.line o) := by
  have hline : ¬ IsLine (BatchError.io (.read "a\nb.json" .notFound)).line := by
    rw [BatchError.isLine_line_iff]
    decide +kernel
  have herror : standardError .off LogEvent.line (outcome (execute fileSystem.recorder none
      ["--targets", "a\nb.json", "--results", "r.json"]) ofRequest) =
      (BatchError.io (.read "a\nb.json" .notFound)).line := by decide +kernel
  refine ⟨⟨by decide +kernel, by decide +kernel⟩, by decide +kernel, by decide +kernel, ?_⟩
  rw [herror]
  exact hline

end GoSignatures
