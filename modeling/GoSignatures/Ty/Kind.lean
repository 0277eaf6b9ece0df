/-!
# Basic kinds

The predeclared scalar kinds. `byte` and `rune` are kept apart from `uint8` and `int32`, so that
a kind is shown the way it was written; `Kind.canonical` folds them when identity is asked for.

* `Kind.name`, `Kind.ofName?` — the text of a kind and back
* `Kind.identical` — identity of kinds
-/

namespace GoSignatures

/-- A basic kind. -/
inductive Kind where
  | bool
  | int
  | int8
  | int16
  | int32
  | int64
  | uint
  | uint8
  | uint16
  | uint32
  | uint64
  | uintptr
  | float32
  | float64
  | complex64
  | complex128
  | string
  | unsafePointer
  | byte
  | rune
deriving DecidableEq, Repr, Inhabited

namespace Kind

/-- The kinds that have a predeclared name. -/
def predeclared : List Kind :=
  [bool, int, int8, int16, int32, int64, uint, uint8, uint16, uint32, uint64, uintptr,
    float32, float64, complex64, complex128, string, byte, rune]

/-- The text of a kind. -/
def name : Kind → String
  | bool => "bool"
  | int => "int"
  | int8 => "int8"
  | int16 => "int16"
  | int32 => "int32"
  | int64 => "int64"
  | uint => "uint"
  | uint8 => "uint8"
  | uint16 => "uint16"
  | uint32 => "uint32"
  | uint64 => "uint64"
  | uintptr => "uintptr"
  | float32 => "float32"
  | float64 => "float64"
  | complex64 => "complex64"
  | complex128 => "complex128"
  | string => "string"
  | unsafePointer => "unsafe.Pointer"
  | byte => "byte"
  | rune => "rune"

/-- The kind that a predeclared name denotes. The unsafe pointer has none: it is reached through
its package only. -/
def ofName? (s : String) : Option Kind :=
  predeclared.find? fun k => k.name == s

/-- The kind after folding `byte` into `uint8` and `rune` into `int32`. -/
def canonical : Kind → Kind
  | byte => uint8
  | rune => int32
  | k => k

/-- Identity of kinds: `byte` is `uint8`, `rune` is `int32`. -/
def identical (j k : Kind) : Bool :=
  j.canonical == k.canonical

theorem name_injective {j k : Kind} (h : j.name = k.name) : j = k := by
  cases j <;> cases k <;> simp_all [name]

theorem canonical_canonical (k : Kind) : k.canonical.canonical = k.canonical := by
  cases k <;> rfl

theorem identical_iff {j k : Kind} : j.identical k = true ↔ j.canonical = k.canonical := by
  simp [identical]

end Kind

end GoSignatures
