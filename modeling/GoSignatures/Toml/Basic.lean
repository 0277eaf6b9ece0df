/-!
# TOML values

Values as they are read from a document. Of numbers with a fraction and of dates only the kind is
kept.

* `Toml` — the values
* `Toml.asString?`, `Toml.asTable?` — a value of an expected shape
-/

namespace GoSignatures

/-- A TOML value. -/
inductive Toml where
  | string (text : String)
  | integer (n : Int)
  | float
  | boolean (b : Bool)
  | date
  | array (items : List Toml)
  /-- A table, each key once. -/
  | table (entries : List (String × Toml))

namespace Toml

/-- The text of a string. -/
def asString? : Toml → Option String
  | string text => some text
  | _ => none

/-- The key under which a date is found when it is taken for a table. -/
def dateKey : String := "$__toml_private_datetime"

/-- The entries of a table. A date counts as a table with one entry. -/
def asTable? : Toml → Option (List (String × Toml))
  | table entries => some entries
  | date => some [(dateKey, string "")]
  | _ => none

/-- The number that a non-negative integer denotes. -/
def asNat? : Toml → Option Nat
  | integer (.ofNat n) => some n
  | _ => none

/-- The fields of a record in the order of `names`: a table, in which other keys are passed over,
or an array of the first fields. -/
def record? (names : List String) : Toml → Option (List (Option Toml))
  | array items =>
    some ((items.take names.length).map some ++ List.replicate (names.length - items.length) none)
  | v => v.asTable?.map fun entries => names.map fun name => entries.lookup name

end Toml

end GoSignatures
