/-!
# JSON values

Values as they are read from a document. Numbers keep their spelling. A string may be written
with an escaped surrogate that has no partner; it then has no text, and it can be skipped but not
used.

* `Json` — the values
* `Json.asString?`, `Json.asBool?`, `Json.asList?` — a value of an expected shape
* `Json.record?` — the fields of a record
-/

namespace GoSignatures

/-- A JSON value. -/
inductive Json where
  | null
  | bool (b : Bool)
  /-- A number as it is spelled. -/
  | number (spelling : List Char)
  /-- A string; it has no text if a surrogate in it has no partner. -/
  | string (text : Option String)
  | array (items : List Json)
  | object (members : List (Option String × Json))

namespace Json

/-- A string with the given text. -/
def text (s : String) : Json := .string (some s)

/-- An object with the given readable names. -/
def record (members : List (String × Json)) : Json :=
  .object (members.map fun m => (some m.1, m.2))

/-- The text of a string. -/
def asString? : Json → Option String
  | .string text => text
  | _ => none

/-- The truth value of a literal. -/
def asBool? : Json → Option Bool
  | .bool b => some b
  | _ => none

/-- The items of an array, each of an expected shape. -/
def asList? {α : Type} (item? : Json → Option α) : Json → Option (List α)
  | .array items => items.mapM item?
  | _ => none

/-- The names under which a field may be written. -/
abbrev FieldNames := List String

/-- The value of a field among the members of an object: none if it is missing, no answer if it
is there twice. -/
def field? (members : List (Option String × Json)) (names : FieldNames) : Option (Option Json) :=
  match members.filter fun m => m.1.any names.contains with
  | [] => some none
  | [m] => some (some m.2)
  | _ => none

/-- The fields of a record, in the order of `fields`. A record is an object, in which unknown
names are passed over and known ones stand once, or an array of the first fields in order. -/
def record? (fields : List FieldNames) : Json → Option (List (Option Json))
  | .object members =>
    if members.all fun m => m.1.isSome then fields.mapM (field? members) else none
  | .array items =>
    if items.length ≤ fields.length then
      some (items.map some ++ List.replicate (fields.length - items.length) none)
    else none
  | _ => none

end Json

end GoSignatures
