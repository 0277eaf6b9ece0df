import GoSignatures.Text.Quoted
import GoSignatures.Ty.Table

/-!
# The canonical text of a type

`Ty.render` shows a type the way declarations are conventionally shown: `[]int`,
`map[string]bool`, `func(a int) (string, error)`, `struct{X int; y string}`,
`interface{Error() string}`, `<-chan int`. A declared type is shown with its package, a
predeclared one without.

Everything is written as lists of characters; parts of a sequence are joined by a separator.

* `Ty.chars` — the characters of a type
* `Ty.render` — the text of a type
-/

namespace GoSignatures

/-- Parts joined by a separator. -/
def joined (separator : String) (parts : List (List Char)) : List Char :=
  separator.toList.intercalate parts

/-- The characters of the declared name at a place, with its package in front. -/
def Table.nameChars (t : Table) (id : Nat) : List Char :=
  match t.get? id with
  | some entry =>
    (if entry.package.isEmpty then [] else entry.package.toList ++ ['.']) ++ entry.name.toList
  | none => []

/-- The characters of an array length. -/
def ArrayLen.chars : ArrayLen → List Char
  | .known n => Nat.toDigits 10 n
  | .expr text => text.toList

/-- A name followed by a blank, or nothing when there is no name. -/
def labelChars (name : String) : List Char :=
  if name.isEmpty then [] else name.toList ++ [' ']

/-- Whether a type is a channel that can only be received from. -/
def Ty.isRecvChan : Ty → Bool
  | .chan .recv _ => true
  | _ => false

/-- A blank and the quoted tag, or nothing when there is no tag. -/
def tagChars : Option String → List Char
  | some tag => ' ' :: (Text.Quoted.encode tag).toList
  | none => []

mutual

/-- The characters of a type. -/
def Ty.chars (t : Table) : Ty → List Char
  | .basic kind => kind.name.toList
  | .named id args =>
    t.nameChars id ++
      if args.isEmpty then [] else '[' :: joined ", " (Ty.parts t args) ++ [']']
  | .imported path name _ => path.toList ++ '.' :: name.toList
  | .param name => name.toList
  | .pointer elem => '*' :: elem.chars t
  | .slice elem => '[' :: ']' :: elem.chars t
  | .array len elem => '[' :: len.chars ++ ']' :: elem.chars t
  | .map key value => "map[".toList ++ key.chars t ++ ']' :: value.chars t
  | .chan .both elem =>
    "chan ".toList ++ if elem.isRecvChan then '(' :: elem.chars t ++ [')'] else elem.chars t
  | .chan .send elem => "chan<- ".toList ++ elem.chars t
  | .chan .recv elem => "<-chan ".toList ++ elem.chars t
  | .func sig => "func".toList ++ sig.chars t
  | .struct fields => "struct\x7b".toList ++ joined "; " (Field.parts t fields) ++ ['}']
  | .interface iface => iface.chars t
  | .invalid => "invalid type".toList

/-- The characters of each type of a list. -/
def Ty.parts (t : Table) : List Ty → List (List Char)
  | [] => []
  | type :: types => type.chars t :: Ty.parts t types

/-- The characters of each variable of a list. The last one of a variadic list shows its element
type after three dots. -/
def Var.parts (t : Table) (variadic : Bool) : List Var → List (List Char)
  | [] => []
  | [⟨name, .slice elem⟩] =>
    [labelChars name ++ (if variadic then "...".toList else "[]".toList) ++ elem.chars t]
  | ⟨name, type⟩ :: vars => (labelChars name ++ type.chars t) :: Var.parts t variadic vars

/-- The characters of parameters and results. A single result without a name stands bare. -/
def Signature.chars (t : Table) : Signature → List Char
  | ⟨_, _, params, results, variadic⟩ =>
    '(' :: joined ", " (Var.parts t variadic params) ++ ')' :: Var.resultChars t results

/-- The characters of a result list, with a blank in front. -/
def Var.resultChars (t : Table) : List Var → List Char
  | [] => []
  | [⟨name, type⟩] =>
    if name.isEmpty then ' ' :: type.chars t
    else ' ' :: '(' :: labelChars name ++ type.chars t ++ [')']
  | results => ' ' :: '(' :: joined ", " (Var.parts t false results) ++ [')']

/-- The characters of each field of a list. An embedded field shows its type alone. -/
def Field.parts (t : Table) : List Field → List (List Char)
  | [] => []
  | ⟨name, type, embedded, tag⟩ :: fields =>
    ((if embedded then [] else name.toList ++ [' ']) ++ type.chars t ++ tagChars tag) ::
      Field.parts t fields

/-- The characters of each method of a list. -/
def Method.parts (t : Table) : List Method → List (List Char)
  | [] => []
  | ⟨name, sig⟩ :: methods => (name.toList ++ sig.chars t) :: Method.parts t methods

/-- The characters of each term of a list. -/
def Term.parts (t : Table) : List Term → List (List Char)
  | [] => []
  | ⟨tilde, type⟩ :: terms =>
    ((if tilde then ['~'] else []) ++ type.chars t) :: Term.parts t terms

/-- The characters of each embedded element of a list. -/
def Embedded.parts (t : Table) : List Embedded → List (List Char)
  | [] => []
  | .type type :: embeddeds => type.chars t :: Embedded.parts t embeddeds
  | .union terms :: embeddeds => joined " | " (Term.parts t terms) :: Embedded.parts t embeddeds

/-- The characters of an interface type. -/
def Interface.chars (t : Table) : Interface → List Char
  | ⟨methods, embeddeds, comparable⟩ =>
    "interface\x7b".toList ++
      joined "; " ((if comparable then ["comparable".toList] else []) ++
        Method.parts t methods ++ Embedded.parts t embeddeds) ++ ['}']

end

/-- The canonical text of a type. -/
def Ty.render (t : Table) (type : Ty) : String :=
  String.ofList (type.chars t)

end GoSignatures
