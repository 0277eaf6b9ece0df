import GoSignatures.Host

/-!
# File trees

Files and directories below a root, as a value. A path is walked step by step, from the root if it
begins with a slash and from the working directory otherwise: blank steps and single points stay,
double points go up, and every step needs a directory to start from. Above the root is the root.
There are no links in a tree, and nothing in it is forbidden.

* `FileTree.locate` — what a path leads to
* `FileTree.read`, `FileTree.write` — the operations on files
* `FileTree.fileSystem` — the file system of all trees
* `FileTree.access` — the operations as steps on a tree, where nothing is logged
-/

namespace GoSignatures

/-- A place in a tree: the names on the way to it from the root. -/
abbrev FilePlace := List String

/-- Files and directories below a root, with a working directory. -/
structure FileTree where
  files : List (FilePlace × ByteArray)
  directories : List FilePlace
  workingDirectory : FilePlace := []

namespace FileTree

/-- The tree without files, where the root is the working directory. -/
def empty : FileTree := ⟨[], [], []⟩

/-! ## Contents -/

/-- Whether a place is a directory. The working directory is one, and so are those above it. -/
def isDirectory (t : FileTree) (place : FilePlace) : Bool :=
  place.isPrefixOf t.workingDirectory || t.directories.contains place

/-- The content of the file at a place. -/
def file? (t : FileTree) (place : FilePlace) : Option ByteArray :=
  t.files.lookup place

/-- The directories on the way to a place. -/
def parents (place : FilePlace) : List FilePlace :=
  (List.range (place.length - 1)).map fun n => place.take (n + 1)

/-- The tree with the directories on the way to a place. -/
def withParents (t : FileTree) (place : FilePlace) : FileTree :=
  { t with directories := (parents place).filter (!t.directories.contains ·) ++ t.directories }

/-- The tree with a content put at a place. -/
def put (t : FileTree) (place : FilePlace) (content : ByteArray) : FileTree :=
  { t with files := (place, content) :: t.files.filter fun f => f.1 != place }

/-- The tree with a file added, and the directories on the way to it. -/
def addFile (t : FileTree) (place : FilePlace) (content : ByteArray) : FileTree :=
  (t.withParents place).put place content

/-- The tree with a directory added, and the directories on the way to it. -/
def addDirectory (t : FileTree) (place : FilePlace) : FileTree :=
  { t.withParents place with directories := place :: (t.withParents place).directories }

/-! ## Paths -/

/-- What a path leads to. -/
inductive Located where
  | file (place : FilePlace) (content : ByteArray)
  | directory
  /-- Nothing, in a directory that is there. The path may end as those of directories do. -/
  | vacant (place : FilePlace) (asDirectory : Bool)

/-- The steps of a path. -/
def steps (path : String) : List String :=
  (path.toList.splitOn '/').map String.ofList

/-- Goes the steps of a path from a place. -/
def walk (t : FileTree) (place : FilePlace) : List String → Except IoCause Located
  | [] =>
    match t.file? place with
    | some content => .ok (.file place content)
    | none => .ok .directory
  | step :: path =>
    if !t.isDirectory place then .error .notDirectory
    else if step == "" || step == "." then t.walk place path
    else if step == ".." then t.walk place.dropLast path
    else
      let next := place ++ [step]
      if t.isDirectory next || (t.file? next).isSome then t.walk next path
      else if path.all (· == "") then .ok (.vacant next !path.isEmpty)
      else .error .notFound

/-- What a path leads to. -/
def locate (t : FileTree) (path : String) : Except IoCause Located :=
  if path.isEmpty then .error .notFound
  else if path.toList.contains '\x00' then .error .nulInPath
  else t.walk (if path.startsWith "/" then [] else t.workingDirectory) (steps path)

/-! ## Operations -/

/-- The size that a directory is said to have. -/
def directorySize : Nat := 4096

/-- The size of what a path leads to. -/
def size (t : FileTree) (path : String) : Except IoCause Nat := do
  match ← t.locate path with
  | .file _ content => return content.size
  | .directory => return directorySize
  | .vacant _ _ => throw .notFound

/-- The content of the file that a path leads to. -/
def read (t : FileTree) (path : String) : Except IoCause ByteArray := do
  match ← t.locate path with
  | .file _ content => return content
  | .directory => throw .isDirectory
  | .vacant _ _ => throw .notFound

/-- The tree after a text is written to the file that a path leads to. -/
def write (t : FileTree) (path text : String) : Except IoCause FileTree := do
  match ← t.locate path with
  | .file place _ => return t.put place text.toUTF8
  | .directory => throw .isDirectory
  | .vacant place asDirectory =>
    if asDirectory then throw .isDirectory else return t.put place text.toUTF8

/-- The file system whose states are the trees. -/
def fileSystem : FileSystem FileTree := ⟨size, read, write⟩

/-- The operations as steps on a tree. Nothing is logged. -/
def access : Host (StateM FileTree) :=
  fileSystem.host fun _ => pure ()

end FileTree

end GoSignatures
