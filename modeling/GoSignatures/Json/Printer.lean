import GoSignatures.Json.Basic

/-!
# The text of a JSON value

A value is written over several lines, two blanks deeper in every array and object; an empty array
or object stays on its line. In strings the quote, the backslash and the controls are escaped and
all else stands for itself.

* `Json.Text.encodeChar` — one character of a string
* `Json.chars` — the characters of a value
* `Json.render` — the text of a value
-/

namespace GoSignatures.Json

namespace Text

/-- A control by its number: four hexadecimal digits in lower case. -/
def encodeNumber (n : Nat) : List Char :=
  ['\\', 'u', '0', '0', Nat.digitChar (n / 16), Nat.digitChar (n % 16)]

/-- One character of a string. -/
def encodeChar (c : Char) : List Char :=
  match c with
  | '"' => ['\\', '"']
  | '\\' => ['\\', '\\']
  | '\x08' => ['\\', 'b']
  | '\x0c' => ['\\', 'f']
  | '\n' => ['\\', 'n']
  | '\r' => ['\\', 'r']
  | '\t' => ['\\', 't']
  | c => if c.toNat < 32 then encodeNumber c.toNat else [c]

/-- The characters of a string, with its quotes. -/
def encode (s : String) : List Char :=
  '"' :: s.toList.flatMap encodeChar ++ ['"']

end Text

/-- A line feed and the blanks of a depth. -/
def newLine (depth : Nat) : List Char :=
  '\n' :: List.replicate (2 * depth) ' '

mutual

/-- The characters of a value that stands at a depth. -/
def chars (depth : Nat) : Json → List Char
  | .null => "null".toList
  | .bool true => "true".toList
  | .bool false => "false".toList
  | .number spelling => spelling
  | .string text => Text.encode (text.getD "")
  | .array [] => ['[', ']']
  | .array (item :: items) =>
    '[' :: newLine (depth + 1) ++ item.chars (depth + 1) ++ itemChars (depth + 1) items ++
      newLine depth ++ [']']
  | .object [] => ['{', '}']
  | .object (⟨name, value⟩ :: members) =>
    '{' :: newLine (depth + 1) ++ Text.encode (name.getD "") ++ ':' :: ' ' ::
      value.chars (depth + 1) ++ memberChars (depth + 1) members ++ newLine depth ++ ['}']

/-- The characters of further items, each after a comma. -/
def itemChars (depth : Nat) : List Json → List Char
  | [] => []
  | item :: items => ',' :: newLine depth ++ item.chars depth ++ itemChars depth items

/-- The characters of further members, each after a comma. -/
def memberChars (depth : Nat) : List (Option String × Json) → List Char
  | [] => []
  | ⟨name, value⟩ :: members =>
    ',' :: newLine depth ++ Text.encode (name.getD "") ++ ':' :: ' ' :: value.chars depth ++
      memberChars depth members

end

/-- The text of a value. -/
def render (v : Json) : String :=
  String.ofList (v.chars 0)

end GoSignatures.Json
