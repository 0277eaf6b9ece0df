import GoSignatures.Classification.Support
import GoSignatures.Error

/-!
# The log

What is noteworthy about a run is logged while it goes on. An event has a level and comes from some
part of the program, and a filter shows events by these two.

* `LogEvent` — what is logged
* `LogFilter.standard` — the filter if no other is asked for
* `LogFilter.read?` — the filter that directives tell
-/

namespace GoSignatures

/-! ## Events -/

/-- How noteworthy an event is, from the gravest on. -/
inductive LogLevel where
  | error
  | warning
  | info
  | debug
  | trace
deriving DecidableEq, Repr

namespace LogLevel

/-- The name of a level. -/
def name : LogLevel → String
  | error => "ERROR"
  | warning => "WARN"
  | info => "INFO"
  | debug => "DEBUG"
  | trace => "TRACE"

/-- The place of a level; the gravest has the lowest. -/
def rank : LogLevel → Nat
  | error => 1
  | warning => 2
  | info => 3
  | debug => 4
  | trace => 5

/-- All levels, in order. -/
def all : List LogLevel := [error, warning, info, debug, trace]

end LogLevel

/-- What is logged, with the values that are shown beside it. -/
inductive LogEvent where
  | configurationLoaded (maxFileSize externalTypes : Nat)
  | batchStarted (targets : Nat)
  | declarationsResolved (path : String) (definitions namedTypes : Nat)
  | resolutionFailed (path : String) (e : ResolveError)
  | unsupportedSignature (function : String) (obstacles : List Obstacle)
  | fileAnalyzed (path packageName : String) (parsed notSupported notFound : Nat)
  | reportWritten (results : String) (files : Nat)
  | finished (files : Nat)
deriving DecidableEq, Repr

namespace LogEvent

/-- The level of an event. -/
def level : LogEvent → LogLevel
  | configurationLoaded .. => .debug
  | batchStarted .. => .info
  | declarationsResolved .. => .debug
  | resolutionFailed .. => .warning
  | unsupportedSignature .. => .debug
  | fileAnalyzed .. => .debug
  | reportWritten .. => .info
  | finished .. => .debug

/-- The part of the program that an event comes from. -/
def target : LogEvent → String
  | configurationLoaded .. => "gosig_core::config::gosig_config"
  | batchStarted .. => "gosig_analysis::batch::runner"
  | declarationsResolved .. => "gosig_analysis::resolver"
  | resolutionFailed .. => "gosig_analysis::batch::runner"
  | unsupportedSignature .. => "gosig_analysis::selection::selector"
  | fileAnalyzed .. => "gosig_analysis::batch::runner"
  | reportWritten .. => "gosig_analysis::batch::runner"
  | finished .. => "gosig"

/-- The wording of an event. -/
def message : LogEvent → String
  | configurationLoaded .. => "configuration loaded"
  | batchStarted .. => "analyzing batch"
  | declarationsResolved .. => "resolved declarations"
  | resolutionFailed .. => "type resolution failed"
  | unsupportedSignature .. => "unsupported signature"
  | fileAnalyzed .. => "file analyzed"
  | reportWritten .. => "report written"
  | finished .. => "done"

/-- The line of an event, without its time and its values. -/
def line (event : LogEvent) : String :=
  event.level.name ++ " " ++ event.target ++ ": " ++ event.message ++ "\n"

end LogEvent

/-! ## Filters -/

/-- Which events are shown. -/
abbrev LogFilter := LogEvent → Bool

/-- How much is shown of what comes from some part of the program. -/
structure LogDirective where
  /-- How the name of the part begins. -/
  target : String
  /-- The last level that is shown, if any is. -/
  level : Option LogLevel
deriving DecidableEq, Repr

namespace LogDirective

/-- The level that a word tells, by its name in any case or by its rank. -/
def level? (word : String) : Option (Option LogLevel) :=
  if word.toUpper == "OFF" || word == "0" then some none
  else
    (LogLevel.all.find? fun l => l.name == word.toUpper || toString l.rank == word).map some

/-- The directive that a text tells: a level, a target, or both with an equals sign between. -/
def read? (text : String) : Option LogDirective :=
  match text.splitOn "=" with
  | [word] =>
    match level? word with
    | some level => some ⟨"", level⟩
    | none => some ⟨word, some .trace⟩
  | [target, word] => (level? word).map fun level => ⟨target, level⟩
  | _ => none

/-- Whether a directive is about an event. -/
def concerns (d : LogDirective) (event : LogEvent) : Bool :=
  d.target.toList.isPrefixOf event.target.toList

/-- Whether a directive shows an event that it is about. -/
def shows (d : LogDirective) (event : LogEvent) : Bool :=
  d.level.any fun level => event.level.rank ≤ level.rank

end LogDirective

namespace LogFilter

/-- The filter of some directives. The one with the longest target decides, and of several with the
same target the last. -/
def ofDirectives (directives : List LogDirective) : LogFilter := fun event =>
  let longest := (directives.filter (·.concerns event)).foldl (fun found d =>
    if found.any fun f => d.target.length < f.target.length then found else some d) none
  longest.any (·.shows event)

/-- The filter if no other is asked for: the program is shown from `info` up. -/
def standard : LogFilter :=
  ofDirectives [⟨"gosig", some .info⟩]

/-- The filter that shows nothing. -/
def off : LogFilter := fun _ => false

/-- The filter that a text tells by its directives, with commas between. If there are none, nothing
is shown. -/
def read? (text : String) : Option LogFilter :=
  (((text.splitOn ",").filter (· != "")).mapM LogDirective.read?).map ofDirectives

/-- The filter in force under a setting. What cannot be read is passed over. -/
def ofSetting (setting : Option String) : LogFilter :=
  (setting.bind read?).getD standard

end LogFilter

end GoSignatures
