import GoSignatures.Error

/-!
# Access to files

The three operations on files that an analysis needs, over any monad, and what is made of them.
-/

namespace GoSignatures

/-- Operations on files, which are found by their path. -/
structure FileAccess (m : Type → Type) where
  /-- The size of a file in bytes. A directory has a size too, though it cannot be read. -/
  size : String → m (Except IoCause Nat)
  /-- The content of a file. -/
  read : String → m (Except IoCause ByteArray)
  /-- Makes a text the content of a file, which is created if it is missing. -/
  write : String → String → m (Except IoCause Unit)

namespace FileAccess

variable {m : Type → Type} [Monad m]

/-- Whether there is anything at a path. -/
def isThere (files : FileAccess m) (path : String) : m Bool := do
  match ← files.size path with
  | .ok _ => return true
  | .error _ => return false

/-- The content of a file as a text in UTF-8. -/
def readText (files : FileAccess m) (path : String) : m (Except IoCause String) := do
  match ← files.read path with
  | .error cause => return .error cause
  | .ok bytes =>
    match String.fromUTF8? bytes with
    | some text => return .ok text
    | none => return .error .invalidText

end FileAccess

end GoSignatures
