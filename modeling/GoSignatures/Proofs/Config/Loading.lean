import GoSignatures.Config.Loading
import GoSignatures.Proofs.Files.Performing

/-!
# Loading from a file system

Loading a configuration looks at one file at most and changes none. What is in force is what that
file tells, with the other layers put on it, once it is checked.

* `Config.inFile` — what the file tells
* `Config.loaded`, `Config.loaded_eq` — what is in force
* `Config.outcome_load` — what loading comes to
-/

namespace GoSignatures.Config

variable {σ : Type} {fs : FileSystem σ} {s : σ} {libraries : Libraries} {root : String}
  {named environment : Option String} {override : Option Nat}

/-- The configuration that the file tells which is named, or found in the root directory. -/
def inFile (fs : FileSystem σ) (libraries : Libraries) (s : σ) (root : String)
    (named : Option String) : Except ConfigError Config :=
  let path := named.getD (joinPath root fileName)
  match fs.size s path, fs.text s path with
  | .error _, _ => if named.isSome then .error (.fileNotFound path) else .ok {}
  | .ok _, .ok text => decoded path text libraries
  | .ok _, .error _ => .error (.fileNotFound path)

theorem outcome_findFile : outcome (findFile fs.recorder.toFileAccess root named libraries) s =
    ⟨inFile fs libraries s root named, s, []⟩ := by
  rw [findFile, inFile, outcome_bind (fs.outcome_isThere _), Outcome.after_nil]
  cases fs.size s (named.getD (joinPath root fileName)) with
  | error cause => cases named <;> rfl
  | ok size =>
    show outcome (readFile fs.recorder.toFileAccess _ libraries) s = _
    rw [readFile, outcome_bind (fs.outcome_readText _), Outcome.after_nil]
    cases fs.text s (named.getD (joinPath root fileName)) <;> rfl

/-- The configuration in force in a state of a file system. -/
def loaded (fs : FileSystem σ) (libraries : Libraries) (s : σ) (root : String)
    (named environment : Option String) (override : Option Nat) : Except ConfigError Config :=
  (outcome (load fs.recorder root named environment override libraries) s).answer

/-- What is logged of a configuration, if there is one in force. -/
def events : Except ConfigError Config → List LogEvent
  | .ok config => [.configurationLoaded config.effectiveMaxFileSize config.externalTypes.length]
  | .error _ => []

/-- Loading comes to what the layers make of the file. -/
theorem outcome_load_eq :
    outcome (load fs.recorder root named environment override libraries) s =
      let answer := inFile fs libraries s root named >>= fun file =>
        (file.layered environment override).checked libraries
      ⟨answer, s, events answer⟩ := by
  rw [load, outcome_bind outcome_findFile, Outcome.after_nil]
  cases inFile fs libraries s root named with
  | error e => rfl
  | ok file =>
    dsimp only
    rw [Except.ok_bind, checked]
    cases (file.layered environment override).check libraries <;> rfl

theorem loaded_eq : loaded fs libraries s root named environment override =
    inFile fs libraries s root named >>= fun file =>
      (file.layered environment override).checked libraries := by
  rw [loaded, outcome_load_eq]

theorem outcome_load : outcome (load fs.recorder root named environment override libraries) s =
    ⟨loaded fs libraries s root named environment override, s,
      events (loaded fs libraries s root named environment override)⟩ := by
  rw [loaded_eq, outcome_load_eq]

end GoSignatures.Config
