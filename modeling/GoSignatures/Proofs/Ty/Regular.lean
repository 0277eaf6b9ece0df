import Mathlib.Data.List.Nodup
import GoSignatures.Proofs.Text.Quoting
import GoSignatures.Proofs.Ty.Parts
import GoSignatures.Text.Identifier

/-!
# Regular types

A regular type is one that can be written down: it is made of what has a text of its own, and its
names are names. How its text begins shows which form it has, and nothing that may follow it makes
its text look like something else.

* `Ty.Regular` — types made of kinds, declared types and the formers, with proper names
* `Ty.form`, `Form.ofText` — how a type is formed, and how a text begins
* `Ty.Regular.form_ofText` — the text of a regular type begins as the type is formed
* `Ty.Regular.after_name` — what stands behind a name in the text of a type
-/

namespace GoSignatures

/-! ## Names -/

/-- The keywords of the language. -/
def keywords : List String :=
  ["break", "case", "chan", "const", "continue", "default", "defer", "else", "fallthrough", "for",
    "func", "go", "goto", "if", "import", "interface", "map", "package", "range", "return",
    "select", "struct", "switch", "type", "var"]

/-- The characters that names are made of: letters, digits, underscores and all outside ASCII. -/
def isNameChar (c : Char) : Bool :=
  c.isAlphanum || c == '_' || 128 ≤ c.toNat

/-- A text that can stand as a name. -/
structure IsName (name : String) : Prop where
  nonempty : name ≠ ""
  chars : name.toList.all isNameChar = true
  notKeyword : name ∉ keywords

theorem isNameChar_of_isPart {c : Char} (h : Text.Identifier.isPart c = true) :
    isNameChar c = true := by
  simp only [Text.Identifier.isPart, Text.Identifier.isStart, Bool.or_eq_true,
    Bool.and_eq_true] at h
  simp only [isNameChar, Char.isAlphanum, Bool.or_eq_true]
  rcases h with (((halpha | hline) | ⟨hwide, -⟩) | hdigit) | ⟨hwide, -⟩
  · exact .inl (.inl (.inl halpha))
  · exact .inl (.inr hline)
  · exact .inr hwide
  · exact .inl (.inl (.inr hdigit))
  · exact .inr hwide

/-- Every identifier that is not a keyword is a name. -/
theorem isName_of_isPart {name : String} (hne : name ≠ "")
    (hchars : ∀ c ∈ name.toList, Text.Identifier.isPart c = true) (hkeyword : name ∉ keywords) :
    IsName name :=
  ⟨hne, List.all_eq_true.mpr fun c hc => isNameChar_of_isPart (hchars c hc), hkeyword⟩

theorem IsName.opens {name : String} (h : IsName name) : Opens isNameChar name.toList := by
  obtain ⟨c, cs, hname⟩ := List.exists_cons_of_ne_nil fun hnil =>
    h.nonempty (String.toList_eq_nil_iff.mp hnil)
  exact ⟨c, cs, hname, List.all_eq_true.mp h.chars c (hname ▸ List.mem_cons_self)⟩

/-! ## Regular types -/

/-- A table that shows its entries apart: each has its own name and package. Only predeclared types
have no package, and the package of the unsafe pointer is not used. -/
structure Table.Regular (t : Table) : Prop where
  distinct : (t.entries.map fun entry => (entry.package, entry.name)).Nodup
  predeclared : ∀ entry ∈ t.entries, entry.package = "" →
    entry.name = "error" ∨ entry.name = "comparable"
  declared : ∀ entry ∈ t.entries, entry.package ≠ "" →
    IsName entry.package ∧ entry.package ≠ "unsafe" ∧ IsName entry.name

/-- A signature without receiver and type parameters, in which a variable is named by a name or not
at all. It is variadic only if the last parameter holds a slice. -/
structure Signature.Regular (sig : Signature) : Prop where
  receiver : sig.receiver = none
  typeParams : sig.typeParams = []
  names : ∀ v ∈ sig.params ++ sig.results, v.name = "" ∨ IsName v.name
  variadic : sig.variadic = true → ∃ name elem, sig.params.getLast? = some ⟨name, .slice elem⟩

/-- A union has terms; one that has only one has a tilde there. -/
def Embedded.Regular : Embedded → Prop
  | .type _ => True
  | .union terms => terms ≠ [] ∧ ∀ term, terms = [term] → term.tilde = true

/-- A type made of basic kinds, declared types and the formers. Lengths are known, fields and
methods have names, signatures and unions are regular, and no interface is the predeclared
`comparable`. -/
inductive Ty.Regular (t : Table) : Ty → Prop where
  | basic (kind : Kind) : Regular t (.basic kind)
  | named {id args} (hid : id < t.size) (hargs : ∀ arg ∈ args, Regular t arg) :
      Regular t (.named id args)
  | pointer {elem} (helem : Regular t elem) : Regular t (.pointer elem)
  | slice {elem} (helem : Regular t elem) : Regular t (.slice elem)
  | array {n elem} (helem : Regular t elem) : Regular t (.array (.known n) elem)
  | map {key value} (hkey : Regular t key) (hvalue : Regular t value) : Regular t (.map key value)
  | chan {dir elem} (helem : Regular t elem) : Regular t (.chan dir elem)
  | func {sig} (hsig : sig.Regular) (hvars : ∀ v ∈ sig.params ++ sig.results, Regular t v.type) :
      Regular t (.func sig)
  | struct {fields} (hnames : ∀ field ∈ fields, field.embedded = false → IsName field.name)
      (htypes : ∀ field ∈ fields, Regular t field.type) : Regular t (.struct fields)
  | interface {methods embeddeds}
      (hmethods : ∀ m ∈ methods, IsName m.name ∧ m.signature.Regular)
      (hvars : ∀ m ∈ methods, ∀ v ∈ m.signature.params ++ m.signature.results, Regular t v.type)
      (hembeddeds : ∀ e ∈ embeddeds, e.Regular)
      (hterms : ∀ e ∈ embeddeds, ∀ term ∈ e.terms, Regular t term.type) :
      Regular t (.interface ⟨methods, embeddeds, false⟩)

/-! ## What may follow -/

/-- What may follow the text of a type. -/
inductive Ends : List Char → Prop where
  | nil : Ends []
  | close {c} (hc : c ∈ [',', ')', ']', '}', ';']) (r : List Char) : Ends (c :: r)
  | tag (r : List Char) : Ends (' ' :: '"' :: r)
  | bar (r : List Char) : Ends (' ' :: '|' :: r)

/-- What may follow a field or an element: the next one, or the end of the list. -/
def Stops (r : List Char) : Prop :=
  StartsWith ';' r ∨ StartsWith '}' r

theorem Stops.ends {r : List Char} (h : Stops r) : Ends r := by
  obtain ⟨r', rfl⟩ | ⟨r', rfl⟩ := h <;> exact .close (by decide) r'

/-- The characters that the text of a type begins with. -/
def isTypeStart (c : Char) : Bool :=
  isNameChar c || c == '*' || c == '[' || c == '<'

/-- The characters of names with a package. -/
def isPathChar (c : Char) : Bool :=
  isNameChar c || c == '.'

theorem isPathChar_of_isNameChar {c : Char} (h : isNameChar c = true) : isPathChar c = true := by
  rw [isPathChar, h, Bool.true_or]

theorem isTypeStart_of_isNameChar {c : Char} (h : isNameChar c = true) : isTypeStart c = true := by
  simp [isTypeStart, h]

theorem Ends.head {r : List Char} (h : Ends r) : ∀ c ∈ r.head?, isPathChar c = false ∧ c ≠ '[' := by
  cases h with
  | nil => nofun
  | @close c hc r =>
    rintro _ ⟨⟩
    simp only [List.mem_cons, List.not_mem_nil, or_false] at hc
    rcases hc with rfl | rfl | rfl | rfl | rfl <;> decide
  | tag r | bar r =>
    rintro _ ⟨⟩
    decide

/-- No type follows a type behind a blank. -/
theorem Ends.not_isTypeStart {c : Char} {r : List Char} (h : Ends (' ' :: c :: r)) :
    isTypeStart c = false ∧ c ≠ '(' ∧ c ≠ '.' := by
  cases h with
  | close hc => exact absurd hc (by decide)
  | tag | bar => decide

/-! ## Names of kinds and declared types -/

/-- The text of a kind or a declared type, as far as its arguments. -/
structure IsPath (path : List Char) : Prop where
  opens : Opens isNameChar path
  chars : path.all isPathChar = true
  notKeyword : ∀ keyword ∈ keywords, path ≠ keyword.toList

theorem Kind.isPath_name (kind : Kind) : IsPath kind.name.toList := by
  cases kind <;> exact ⟨⟨_, _, rfl, by decide⟩, by decide, by decide⟩

theorem Kind.eq_unsafePointer_of_dot {kind : Kind} (h : '.' ∈ kind.name.toList) :
    kind = .unsafePointer := by
  cases kind <;> first | rfl | exact absurd h (by decide)

theorem IsName.all_isPathChar {name : String} (h : IsName name) :
    name.toList.all isPathChar = true :=
  List.all_eq_true.mpr fun c hc => isPathChar_of_isNameChar (List.all_eq_true.mp h.chars c hc)

theorem IsName.isPath {name : String} (h : IsName name) : IsPath name.toList where
  opens := h.opens
  chars := h.all_isPathChar
  notKeyword _ hkeyword heq := h.notKeyword (String.toList_inj.mp heq ▸ hkeyword)

theorem dot_not_mem_keyword : ∀ keyword ∈ keywords, '.' ∉ keyword.toList := by
  decide

/-- A name behind the name of a package. -/
theorem IsName.isPath_append {package name : String} (hpackage : IsName package)
    (hname : IsName name) : IsPath (package.toList ++ '.' :: name.toList) where
  opens := hpackage.opens.append _
  chars := by
    rw [List.all_append, List.all_cons, hpackage.all_isPathChar, hname.all_isPathChar]
    rfl
  notKeyword keyword hkeyword heq :=
    dot_not_mem_keyword keyword hkeyword (heq ▸ List.mem_append_right _ List.mem_cons_self)

namespace Table.Regular

variable {t : Table} (ht : t.Regular)
include ht

/-- A declared type is shown by its name alone if it is predeclared, else with its package. -/
theorem nameChars_cases {id : Nat} (hid : id < t.size) :
    ∃ entry, t.get? id = some entry ∧
      ((entry.package = "" ∧ (entry.name = "error" ∨ entry.name = "comparable") ∧
          t.nameChars id = entry.name.toList) ∨
        (IsName entry.package ∧ entry.package ≠ "unsafe" ∧ IsName entry.name ∧
          t.nameChars id = entry.package.toList ++ '.' :: entry.name.toList)) := by
  have hget : t.get? id = some t.entries[id] := List.getElem?_eq_getElem hid
  have hmem : t.entries[id] ∈ t.entries := List.getElem_mem hid
  refine ⟨_, hget, ?_⟩
  rw [nameChars, hget]
  by_cases hpackage : t.entries[id].package = ""
  · exact .inl ⟨hpackage, ht.predeclared _ hmem hpackage, by simp [hpackage]⟩
  · obtain ⟨hname, hunsafe, hentry⟩ := ht.declared _ hmem hpackage
    exact .inr ⟨hname, hunsafe, hentry, by simp [hpackage]⟩

theorem isPath_nameChars {id : Nat} (hid : id < t.size) : IsPath (t.nameChars id) := by
  obtain ⟨entry, -, ⟨-, hname, hchars⟩ | ⟨hpackage, -, hname, hchars⟩⟩ := ht.nameChars_cases hid
  · rw [hchars]
    rcases hname with hname | hname <;> rw [hname] <;>
      exact ⟨⟨_, _, rfl, by decide⟩, by decide, by decide⟩
  · rw [hchars]
    exact hpackage.isPath_append hname

/-- The text of a declared type is not that of a kind. -/
theorem nameChars_ne_kind {id : Nat} (hid : id < t.size) (kind : Kind) :
    t.nameChars id ≠ kind.name.toList := by
  obtain ⟨entry, -, ⟨-, hname, hchars⟩ | ⟨hpackage, hunsafe, -, hchars⟩⟩ := ht.nameChars_cases hid
  · rw [hchars]
    rcases hname with hname | hname <;> rw [hname] <;> cases kind <;> decide
  · intro heq
    rw [hchars] at heq
    -- only the unsafe pointer has a dot in its name
    obtain rfl : kind = .unsafePointer := kind.eq_unsafePointer_of_dot
      (heq ▸ List.mem_append_right _ List.mem_cons_self)
    have hunsafe' : "unsafe".toList.all isNameChar = true := by decide
    have hdot : ∀ c ∈ ".Pointer".toList.head?, isNameChar c = false := by
      rintro c ⟨⟩
      decide
    obtain ⟨hpackages, -⟩ := eq_of_append_eq hpackage.chars (by rintro c ⟨⟩; decide) hunsafe' hdot
      heq
    exact hunsafe (String.toList_inj.mp hpackages)

theorem eq_of_get? {id id' : Nat} {entry entry' : NamedType} (h : t.get? id = some entry)
    (h' : t.get? id' = some entry') (hpackage : entry.package = entry'.package)
    (hname : entry.name = entry'.name) : id = id' := by
  obtain ⟨hid, hentry⟩ := List.getElem?_eq_some_iff.mp h
  obtain ⟨hid', hentry'⟩ := List.getElem?_eq_some_iff.mp h'
  rw [← List.length_map (fun entry => (entry.package, entry.name))] at hid hid'
  have hshown : (t.entries.map fun entry => (entry.package, entry.name))[id] =
      (t.entries.map fun entry => (entry.package, entry.name))[id'] := by
    rw [List.getElem_map, List.getElem_map, hentry, hentry', hpackage, hname]
  exact ht.distinct.getElem_inj_iff.mp hshown

/-- A declared type is told by its text. -/
theorem nameChars_injective {id id' : Nat} (hid : id < t.size) (hid' : id' < t.size)
    (h : t.nameChars id = t.nameChars id') : id = id' := by
  have hdot : ∀ name : String, name = "error" ∨ name = "comparable" → '.' ∉ name.toList := by
    rintro name (rfl | rfl) <;> decide
  obtain ⟨entry, hget, hcases⟩ := ht.nameChars_cases hid
  obtain ⟨entry', hget', hcases'⟩ := ht.nameChars_cases hid'
  rcases hcases with ⟨hpackage, hname, hchars⟩ | ⟨hpackage, -, -, hchars⟩ <;>
    rcases hcases' with ⟨hpackage', hname', hchars'⟩ | ⟨hpackage', -, -, hchars'⟩ <;>
    rw [hchars, hchars'] at h
  · exact ht.eq_of_get? hget hget' (hpackage.trans hpackage'.symm) (String.toList_inj.mp h)
  · exact absurd (h ▸ List.mem_append_right _ List.mem_cons_self) (hdot _ hname)
  · exact absurd (h ▸ List.mem_append_right _ List.mem_cons_self) (hdot _ hname')
  · obtain ⟨hpackages, hrest⟩ := eq_of_append_eq hpackage.chars (by rintro c ⟨⟩; decide)
      hpackage'.chars (by rintro c ⟨⟩; decide) h
    exact ht.eq_of_get? hget hget' (String.toList_inj.mp hpackages)
      (String.toList_inj.mp (List.cons.inj hrest).2)

end Table.Regular

/-! ## Forms -/

/-- How a type is formed. The texts of types of different forms begin differently. -/
inductive Form where
  | path (chars : List Char)
  | pointer
  | slice
  | array
  | map
  | chan (dir : ChanDir)
  | func
  | struct
  | interface

/-- The form of a type; that of one without a text of its own is not used. -/
def Ty.form (t : Table) : Ty → Form
  | .basic kind => .path kind.name.toList
  | .named id _ => .path (t.nameChars id)
  | .pointer _ => .pointer
  | .slice _ => .slice
  | .array .. => .array
  | .map .. => .map
  | .chan dir _ => .chan dir
  | .func _ => .func
  | .struct _ => .struct
  | .interface _ => .interface
  | .imported .. | .param _ | .invalid => .path []

/-- The form that a text shows that begins with a word. -/
def Form.ofWord (word rest : List Char) : Form :=
  if word = "map".toList then .map
  else if word = "chan".toList then
    if rest.head? = some '<' then .chan .send else .chan .both
  else if word = "func".toList then .func
  else if word = "struct".toList then .struct
  else if word = "interface".toList then .interface
  else .path word

/-- The form that a text shows. -/
def Form.ofText (text : List Char) : Form :=
  match text.takeWhile isPathChar, text.dropWhile isPathChar with
  | [], '*' :: _ => .pointer
  | [], '[' :: ']' :: _ => .slice
  | [], '[' :: _ => .array
  | [], _ => .chan .recv
  | word, rest => ofWord word rest

theorem Form.ofText_path {path r : List Char} (h : IsPath path)
    (hr : ∀ c ∈ r.head?, isPathChar c = false) : ofText (path ++ r) = .path path := by
  have htake := takeWhile_append_of_stop h.chars hr
  have hsplit := List.takeWhile_append_dropWhile (p := isPathChar) (l := path ++ r)
  rw [htake] at hsplit
  obtain ⟨c, cs, hpath, -⟩ := h.opens
  have hword : ofText (path ++ r) = ofWord path r := by
    rw [ofText, htake, List.append_cancel_left hsplit, hpath]
  have hne := h.notKeyword
  rw [hword, ofWord, if_neg (hne "map" (by decide)), if_neg (hne "chan" (by decide)),
    if_neg (hne "func" (by decide)), if_neg (hne "struct" (by decide)),
    if_neg (hne "interface" (by decide))]

theorem Form.ofText_array (n : Nat) (r : List Char) :
    ofText ('[' :: (Nat.toDigits 10 n ++ r)) = .array := by
  obtain ⟨c, cs, hdigits⟩ := List.exists_cons_of_length_pos (@Nat.length_toDigits_pos 10 n)
  have hdigit : Text.isHexDigit c = true :=
    List.all_eq_true.mp (Text.all_isHexDigit_toDigits (by decide) (by decide) n) c
      (hdigits ▸ List.mem_cons_self)
  have hbracket : c ≠ ']' := by
    rintro rfl
    exact absurd hdigit (by decide)
  have hword : ('[' :: c :: (cs ++ r)).takeWhile isPathChar = [] := rfl
  have hrest : ('[' :: c :: (cs ++ r)).dropWhile isPathChar = '[' :: c :: (cs ++ r) := rfl
  rw [hdigits, List.cons_append, ofText, hword, hrest]
  split
  case h_3 => rfl
  all_goals simp_all

namespace Ty.Regular

variable {t : Table} (ht : t.Regular) {type : Ty} (h : type.Regular t)
include ht h

/-- The text of a regular type shows its form. -/
theorem form_ofText {r : List Char} (hr : Ends r) :
    Form.ofText (type.chars t ++ r) = type.form t := by
  cases h with
  | basic kind =>
    rw [Ty.chars]
    exact Form.ofText_path kind.isPath_name fun c hc => (hr.head c hc).1
  | @named id args hid _ =>
    rw [Ty.chars, List.append_assoc]
    refine Form.ofText_path (ht.isPath_nameChars hid) fun c hc => ?_
    cases args with
    | nil => exact (hr.head c hc).1
    | cons arg args =>
      obtain rfl : '[' = c := Option.some.inj hc
      decide
  -- from here on the text begins with fixed characters that show the form
  | pointer => rw [Ty.chars]; rfl
  | slice => rw [Ty.chars]; rfl
  | @array n =>
    rw [Ty.chars, ArrayLen.chars, List.cons_append, List.cons_append, List.append_assoc]
    exact Form.ofText_array n _
  | map => rw [Ty.chars]; rfl
  | @chan dir => cases dir <;> rw [Ty.chars] <;> rfl
  | @func sig =>
    cases sig
    rw [Ty.chars, Signature.chars]
    rfl
  | struct => rw [Ty.chars]; rfl
  | interface => rw [Ty.chars, Interface.chars]; rfl

theorem opens : Opens isTypeStart (type.chars t) := by
  cases h with
  | basic kind =>
    rw [Ty.chars]
    exact kind.isPath_name.opens.imp isTypeStart_of_isNameChar
  | named hid _ =>
    rw [Ty.chars]
    exact ((ht.isPath_nameChars hid).opens.imp isTypeStart_of_isNameChar).append _
  | @chan dir => cases dir <;> rw [Ty.chars] <;> exact ⟨_, _, rfl, by decide⟩
  | interface => rw [Ty.chars, Interface.chars]; exact ⟨_, _, rfl, by decide⟩
  | _ => rw [Ty.chars]; exact ⟨_, _, rfl, by decide⟩

/-- A name at the beginning of the text of a regular type is followed by the package's dot, by
arguments or by what follows the text. -/
theorem after_name {name : String} (hname : IsName name) {c : Char} {rest r : List Char}
    (hr : Ends r) (hc : isPathChar c = false)
    (heq : type.chars t ++ r = name.toList ++ c :: rest) : c = '[' ∨ c :: rest = r := by
  have hform : type.form t = .path name.toList := by
    rw [← form_ofText ht h hr, heq]
    exact Form.ofText_path hname.isPath (by rintro _ ⟨⟩; exact hc)
  cases h with
  | basic kind =>
    rw [Ty.chars, Form.path.inj hform] at heq
    exact .inr (List.append_cancel_left heq).symm
  | @named id args hid _ =>
    rw [Ty.chars, Form.path.inj hform, List.append_assoc] at heq
    have hrest := List.append_cancel_left heq
    cases args with
    | nil => exact .inr hrest.symm
    | cons arg args => exact .inl (List.cons.inj hrest).1.symm
  | _ => cases hform

end Ty.Regular

end GoSignatures
