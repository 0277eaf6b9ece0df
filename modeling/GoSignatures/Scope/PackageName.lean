/-!
# The package name that an import path implies

When an import gives no name, the last element of its path names the package. A major version as
last element is passed over, a version after `.v`, a leading `go-` and a trailing `-go` are
dropped, and hyphens and dots become underscores.

* `PackageName.splitLast` — the last element of a path and what stands before it
* `PackageName.base` — the element that names the package
* `PackageName.ofPath` — the implied name
-/

namespace GoSignatures.PackageName

/-- The last element of a path, and the path before its slash if there is one. -/
def splitLast (path : List Char) : List Char × Option (List Char) :=
  let backwards := path.reverse
  ((backwards.takeWhile (· != '/')).reverse,
    match backwards.dropWhile (· != '/') with
    | [] => none
    | _ :: before => some before.reverse)

/-- Whether an element is `v` and digits. -/
def isMajorVersion : List Char → Bool
  | 'v' :: digits => !digits.isEmpty && digits.all Char.isDigit
  | _ => false

/-- The element that names the package: the last, or the one before a major version. -/
def base (path : List Char) : List Char :=
  match splitLast path with
  | (last, some before) => if isMajorVersion last then (splitLast before).1 else last
  | (last, none) => last

/-- The element without `.v` and digits at its end. -/
def dropVersion (element : List Char) : List Char :=
  let backwards := element.reverse
  match backwards.takeWhile Char.isDigit, backwards.dropWhile Char.isDigit with
  | _ :: _, 'v' :: '.' :: before => before.reverse
  | _, _ => element

/-- The element without a leading `go-`. -/
def dropLeading : List Char → List Char
  | 'g' :: 'o' :: '-' :: rest => rest
  | element => element

/-- The element without a trailing `-go`. -/
def dropTrailing (element : List Char) : List Char :=
  match element.reverse with
  | 'o' :: 'g' :: '-' :: before => before.reverse
  | _ => element

/-- A character of the name: hyphens and dots become underscores. -/
def nameChar (c : Char) : Char :=
  if c = '-' ∨ c = '.' then '_' else c

/-- The characters of the implied name. -/
def chars (path : List Char) : List Char :=
  (dropTrailing (dropLeading (dropVersion (base path)))).map nameChar

/-- The package name that an import path implies. -/
def ofPath (path : String) : String :=
  String.ofList (chars path.toList)

end GoSignatures.PackageName
