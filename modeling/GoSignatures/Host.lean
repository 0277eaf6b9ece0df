import GoSignatures.Files.Access
import GoSignatures.Log

/-!
# The host of a run

What a run asks of the system around it: operations on files, and to take down what it logs. The
program has it from the system itself. Where a run is to be looked at as a function, it has it from
a `FileSystem`, whose states are values.

* `Host` — what is asked, over any monad
* `FileSystem` — what the operations on files answer in every state
* `FileSystem.host` — a file system as a host
-/

namespace GoSignatures

/-- What a run asks of the system around it. -/
structure Host (m : Type → Type) extends FileAccess m where
  /-- Takes down an event. -/
  log : LogEvent → m Unit

/-- A file system with its states. To look at a file leaves the state as it is, and so does to write
one where that fails. -/
structure FileSystem (σ : Type) where
  size : σ → String → Except IoCause Nat
  read : σ → String → Except IoCause ByteArray
  /-- The state after a text is made the content of a file. -/
  write : σ → String → String → Except IoCause σ

namespace FileSystem

variable {σ : Type} {m : Type → Type} [Monad m] [MonadStateOf σ m]

/-- The operations on the files of a file system, as steps on its state. -/
def access (fs : FileSystem σ) : FileAccess m where
  size path := do return fs.size (← getThe σ) path
  read path := do return fs.read (← getThe σ) path
  write path text := do
    match fs.write (← getThe σ) path text with
    | .ok s =>
      set s
      return .ok ()
    | .error cause => return .error cause

/-- A file system as the host of a run, with a log. -/
def host (fs : FileSystem σ) (log : LogEvent → m Unit) : Host m where
  toFileAccess := fs.access
  log := log

end FileSystem

end GoSignatures
