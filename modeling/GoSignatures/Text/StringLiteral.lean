import GoSignatures.Text.Blank

/-!
# String literals

The text between the quotes of a string literal, be they double quotes or backquotes. Escapes are
left as they are written.

* `StringLiteral.between?` — the text between two equal quotes
* `StringLiteral.unquote` — a literal without its quotes
-/

namespace GoSignatures.Text.StringLiteral

/-- The characters between a `quote` at the start and a second one at the end. -/
def between? (quote : Char) : List Char → Option (List Char)
  | c :: cs => if c = quote ∧ cs.getLast? = some quote then some cs.dropLast else none
  | [] => none

/-- A literal without surrounding white space and without its quotes. -/
def unquote (literal : String) : String :=
  let cs := trim literal.toList
  String.ofList (((between? '"' cs).or (between? '\x60' cs)).getD cs)

end GoSignatures.Text.StringLiteral
