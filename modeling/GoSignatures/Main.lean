import GoSignatures.CommandLine

/-!
# The program

Performs the operations on files by the system, shows on standard error what is logged, and does the
rest as `GoSignatures.CommandLine` says. Of a log line its time and the values of the event are left
out, and filters are not asked for spans.
-/

namespace GoSignatures

/-- Why the system refused an operation. Some operations negate the number of the reason. -/
def IoCause.ofError : IO.Error → IoCause
  | .noFileOrDirectory .. => .notFound
  | e@(.inappropriateType _ number _) =>
    if number == 21 || -number == 21 then .isDirectory
    else if number == 20 || -number == 20 then .notDirectory
    else .other (toString e)
  | e => .other (toString e)

/-- The answer of an operation, or why it was refused. -/
def attempt {α : Type} (path : String) (operation : IO α) : IO (Except IoCause α) := do
  if path.contains '\x00' then return .error .nulInPath
  try
    return .ok (← operation)
  catch e =>
    return .error (.ofError e)

/-- The size that the system keeps of what is at a path, which is not read for it. -/
def byteSize (path : String) : IO Nat := do
  let place : IO.FS.DirEntry := ⟨⟨path⟩, ""⟩
  return (← place.root.metadata).byteSize.toNat

/-- The system as the host of a run, which shows the events that a filter lets through. -/
def systemHost (filter : LogFilter) : Host IO where
  size path := attempt path (byteSize path)
  read path := attempt path (IO.FS.readBinFile path)
  write path text := attempt path (IO.FS.writeFile path text)
  log event := if filter event then IO.eprint event.line else return ()

end GoSignatures

open GoSignatures

def main (args : List String) : IO UInt32 := do
  let environment ← IO.getEnv "GOSIG_MAX_FILE_SIZE"
  let filter := LogFilter.ofSetting (← IO.getEnv "GOSIG_LOG")
  let ending ← CommandLine.execute (systemHost filter) environment args
  IO.print ending.output
  match ending.diagnostic with
  | some text => IO.eprint text
  | none => IO.eprint CommandLine.helpText
  return UInt32.ofNat ending.status
