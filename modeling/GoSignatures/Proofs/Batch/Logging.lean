import GoSignatures.Proofs.Batch.Requests

/-!
# What is shown of a batch

By default the log shows what comes from the program and is worth an `info`. Of the analysis of
files this is nothing, unless it ends because the declarations of a file cannot be resolved.

* `LogFilter.shown` — the events that a filter shows
* `Tells` — what is shown of analyzing files
* `Batch.tells_analyze` — what is shown of a batch
-/

namespace GoSignatures

variable {σ : Type} {config : Config}

/-! ## Filters -/

theorem LogDirective.concerns_gosig (event : LogEvent) (level : Option LogLevel) :
    LogDirective.concerns ⟨"gosig", level⟩ event = true := by
  cases event <;> simp only [concerns, LogEvent.target] <;> decide +kernel

/-- The standard filter looks at the level alone, as all events come from the program. -/
theorem LogFilter.standard_eq (event : LogEvent) :
    standard event = decide (event.level.rank ≤ LogLevel.info.rank) := by
  simp [standard, ofDirectives, LogDirective.concerns_gosig, LogDirective.shows]

/-- The events that a filter shows. -/
def LogFilter.shown (filter : LogFilter) (events : List LogEvent) : List LogEvent :=
  events.filter filter

@[simp] theorem LogFilter.shown_append (filter : LogFilter) (events events' : List LogEvent) :
    filter.shown (events ++ events') = filter.shown events ++ filter.shown events' :=
  List.filter_append ..

theorem LogFilter.shown_standard_cons (event : LogEvent) (events : List LogEvent) :
    shown standard (event :: events) =
      (if event.level.rank ≤ LogLevel.info.rank then [event] else []) ++ shown standard events := by
  rw [shown, List.filter_cons, standard_eq]
  split <;> simp_all [shown]

/-! ## Analyzing files -/

/-- What is shown of analyzing files: nothing, unless it ends because declarations cannot be
resolved. -/
inductive Tells {α : Type} : Except BatchError α → List LogEvent → Prop where
  | ok (a : α) : Tells (.ok a) []
  | unresolved (path : String) (e : ResolveError) :
      Tells (.error (.resolve e)) [.resolutionFailed path e]
  | refused {e : BatchError} (h : ∀ cause, e ≠ .resolve cause) : Tells (.error e) []

namespace Tells

variable {α β : Type} {e : BatchError} {events : List LogEvent}

/-- Where there is an answer nothing is shown. -/
theorem eq_nil {a : α} (h : Tells (.ok a) events) : events = [] := by
  cases h
  rfl

/-- What a failure tells does not depend on what was wanted. -/
theorem error (h : Tells (.error e : Except BatchError α) events) :
    Tells (.error e : Except BatchError β) events := by
  cases h with
  | unresolved path e => exact .unresolved path e
  | refused hcause => exact .refused hcause

end Tells

namespace Request

variable {request : Request}

/-- What is logged of a file that was analyzed is worth a `debug` at most. -/
theorem shown_events (file : SourceFile) (resolved : ResolvedFile) :
    LogFilter.shown .standard (request.events file resolved) = [] := by
  refine List.filter_eq_nil_iff.mpr fun event hmem => ?_
  simp only [events, List.cons_append, List.mem_cons, List.mem_append, List.mem_map,
    List.not_mem_nil, or_false] at hmem
  rw [LogFilter.standard_eq]
  rcases hmem with rfl | ⟨f, -, rfl⟩ | rfl <;> simp [LogEvent.level, LogLevel.rank]

theorem tells_analysis (file : Except ParseError SourceFile) :
    Tells (request.analysis config file).1
      (LogFilter.shown .standard (request.analysis config file).2) := by
  cases file with
  | error e => exact .refused nofun
  | ok file =>
    rw [analysis]
    cases file.resolve config with
    | error e =>
      have hshown : LogFilter.shown .standard [.resolutionFailed request.filePath e] =
          [.resolutionFailed request.filePath e] := LogFilter.shown_standard_cons _ []
      dsimp only
      rw [hshown]
      exact .unresolved request.filePath e
    | ok resolved =>
      dsimp only
      rw [shown_events]
      exact .ok _

theorem tells_analyze (fs : FileSystem σ) (config : Config) (s : σ) :
    Tells (outcome (request.analyze fs.recorder config).run s).answer (LogFilter.shown .standard
      (outcome (request.analyze fs.recorder config).run s).events) := by
  rw [outcome_analyze]
  cases fs.size s request.filePath with
  | error cause => exact .refused nofun
  | ok size =>
    dsimp only
    split
    · exact .refused nofun
    · cases fs.read s request.filePath with
      | error cause => exact .refused nofun
      | ok content => exact tells_analysis _

end Request

namespace Batch

/-- Of several files, the first that fails ends the batch, and only it may be shown. -/
theorem tells_mapM (fs : FileSystem σ) (config : Config) (s : σ) (requests : List Request) :
    Tells (outcome (requests.mapM (Request.analyze fs.recorder config)).run s).answer
      (LogFilter.shown .standard
        (outcome (requests.mapM (Request.analyze fs.recorder config)).run s).events) := by
  induction requests with
  | nil => exact .ok []
  | cons request requests ih =>
    have hhead := request.tells_analyze fs config s
    have hstate : (outcome (request.analyze fs.recorder config).run s).state = s :=
      request.keepsState_analyze s
    rw [List.mapM_cons]
    rcases h : outcome (request.analyze fs.recorder config).run s with ⟨e | r, s', events⟩
    · rw [h] at hhead
      rw [outcome_bind_error h]
      exact hhead.error
    · rw [h] at hhead hstate
      obtain rfl : s' = s := hstate
      rw [outcome_bind_ok h]
      rcases htail : outcome (requests.mapM (Request.analyze fs.recorder config)).run s' with
        ⟨e | rs, s'', events'⟩
      all_goals
        rw [htail] at ih
        have hshown : LogFilter.shown .standard (events ++ events') =
            LogFilter.shown .standard events' := by
          rw [LogFilter.shown_append, hhead.eq_nil, List.nil_append]
      · rw [outcome_bind_error htail, Outcome.after_mk, hshown]
        exact ih.error
      · rw [outcome_bind_ok htail]
        show Tells _ (LogFilter.shown .standard (events ++ (events' ++ [])))
        rw [List.append_nil, hshown, ih.eq_nil]
        exact .ok _

/-- Behind the event that a batch is begun, what is shown of it is what its files tell. -/
theorem tells_analyze (batch : Batch) (fs : FileSystem σ) (config : Config) (s : σ) :
    ∃ shown, Tells (batch.answer fs config s) shown ∧
      LogFilter.shown .standard (outcome (batch.analyze fs.recorder config).run s).events =
        .batchStarted batch.targets.length :: shown := by
  have hrequests := tells_mapM fs config s batch.targets
  rw [answer, outcome_analyze]
  dsimp only
  rcases h : outcome (batch.targets.mapM (Request.analyze fs.recorder config)).run s with
    ⟨e | results, s', events⟩
  all_goals rw [h] at hrequests
  · exact ⟨_, hrequests.error, LogFilter.shown_standard_cons _ _⟩
  · refine ⟨[], .ok _, ?_⟩
    rw [← hrequests.eq_nil]
    exact LogFilter.shown_standard_cons _ _

end Batch

end GoSignatures
