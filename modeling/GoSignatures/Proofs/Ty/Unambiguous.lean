import GoSignatures.Proofs.Ty.Telling

/-!
# Types with the same text

The text of a regular type tells the type, but for the names of its embedded fields: its form shows
at the beginning, and each of its parts is told by its own text and by what follows. A field is told
from an embedded one as a named variable from one without a name, a method from an embedded type by
the parenthesis behind its name.

* `Field.script`, `Term.script`, `Element.script` — how the parts of structs and interfaces show
* `Ty.Regular.tells` — the text of a regular type tells it
* `Ty.render_eq_iff` — regular types with the same text are the same, but for the names of embedded
  fields
-/

namespace GoSignatures

/-! ## Fields -/

/-- A field whose type is regular, and that has a name unless it is embedded. -/
structure Field.Regular (t : Table) (field : Field) : Prop where
  name : field.embedded = false → IsName field.name
  type : field.type.Regular t

/-- Fields. -/
def Field.script (t : Table) : Script Field Field where
  chars := Field.chars t
  view := Field.anonymize
  Shown := Field.Regular t
  Follows := Stops

theorem Field.Regular.label {t : Table} {field : Field} (h : field.Regular t) :
    (field.embedded = true ∧ field.label = "") ∨
      (field.embedded = false ∧ IsName field.label) := by
  rw [Field.label]
  cases hembedded : field.embedded with
  | true => exact .inl ⟨rfl, rfl⟩
  | false => exact .inr ⟨rfl, h.name hembedded⟩

theorem Field.Regular.chars_append {t : Table} {field : Field} (h : field.Regular t)
    (r : List Char) : field.chars t ++ r =
      labelChars field.label ++ (field.type.chars t ++ (tagChars field.tag ++ r)) := by
  rw [Field.chars_eq t fun hembedded => (h.name hembedded).nonempty, List.append_assoc,
    List.append_assoc]

theorem Stops.tag {r : List Char} (h : Stops r) (tag : Option String) :
    Ends (tagChars tag ++ r) := by
  cases tag with
  | none => exact h.ends
  | some tag =>
    rw [tagChars, Text.Quoted.encode, String.toList_ofList]
    exact .tag _

/-- The tag of a field is told. -/
theorem tagChars_tells {tag tag' : Option String} {r r' : List Char} (hr : Stops r)
    (hr' : Stops r') (heq : tagChars tag ++ r = tagChars tag' ++ r') : tag = tag' ∧ r = r' := by
  have hblank : ∀ {r}, Stops r → ∀ tag r', r ≠ tagChars (some tag) ++ r' := by
    rintro r (⟨s, rfl⟩ | ⟨s, rfl⟩) tag r' heq <;> cases heq
  cases tag <;> cases tag'
  · exact ⟨rfl, heq⟩
  · exact absurd heq (hblank hr _ r')
  · exact absurd heq.symm (hblank hr' _ r)
  · obtain ⟨htag, hrest⟩ := Text.Quoted.encode_tells (List.cons.inj heq).2
    exact ⟨congrArg some htag, hrest⟩

section

variable {t : Table} (ht : t.Regular)
include ht

/-- A field is told if its type is: an embedded one has no name before it. -/
theorem Field.script_tells {field : Field} (h : field.Regular t)
    (htells : (Ty.script t).Tells field.type) : (Field.script t).Tells field := by
  intro field' h' r r' hr hr' heq
  change field.chars t ++ r = field'.chars t ++ r' at heq
  rw [h.chars_append, h'.chars_append] at heq
  have hends := Stops.tag hr field.tag
  have hends' := Stops.tag hr' field'.tag
  obtain ⟨hlabel, hrest⟩ := labelChars_tells (h.label.imp And.right And.right)
    (h'.label.imp And.right And.right) (h.type.isBare ht hends) (h'.type.isBare ht hends') heq
  obtain ⟨htype, hrest⟩ := htells h'.type hends hends' hrest
  obtain ⟨htag, hend⟩ := tagChars_tells hr hr' hrest
  have hembedded : field.embedded = field'.embedded := by
    rcases h.label with ⟨he, hl⟩ | ⟨he, hl⟩ <;> rcases h'.label with ⟨he', hl'⟩ | ⟨he', hl'⟩
    · rw [he, he']
    · exact absurd (hlabel.symm.trans hl) hl'.nonempty
    · exact absurd (hlabel.trans hl') hl.nonempty
    · rw [he, he']
  refine ⟨?_, hend⟩
  change (⟨field.label, field.type.anonymize, field.embedded, field.tag⟩ : Field) =
    ⟨field'.label, field'.type.anonymize, field'.embedded, field'.tag⟩
  rw [hlabel, show field.type.anonymize = field'.type.anonymize from htype, hembedded, htag]

theorem Field.Regular.opens {field : Field} (h : field.Regular t) :
    Opens isTypeStart (field.chars t) := by
  rw [← List.append_nil (field.chars t), h.chars_append]
  rcases h.label with ⟨-, hlabel⟩ | ⟨-, hlabel⟩
  · rw [hlabel]
    exact (h.type.opens ht).append _
  · rw [labelChars, if_neg (by simpa using hlabel.nonempty), List.append_assoc]
    exact (hlabel.opens.append _).imp isTypeStart_of_isNameChar

theorem Field.script_separates : (Field.script t).Separates "; " (StartsWith '}') where
  between r := .inl ⟨_, rfl⟩
  after h := .inr h
  not_first h r := ((h.opens ht).append r).not_startsWith (by decide)
  not_next _ _ := by
    rintro ⟨r, hr⟩
    cases hr

end

/-! ## Terms -/

/-- Terms. -/
def Term.script (t : Table) : Script Term Term where
  chars := Term.chars t
  view := Term.anonymize
  Shown term := term.type.Regular t
  Follows := Ends

/-- The characters that the text of a term begins with. -/
def isTermStart (c : Char) : Bool :=
  isTypeStart c || c == '~'

section

variable {t : Table} (ht : t.Regular)
include ht

theorem Term.opens {term : Term} (h : term.type.Regular t) : Opens isTermStart (term.chars t) := by
  obtain ⟨tilde, type⟩ := term
  cases tilde with
  | true => exact ⟨_, _, rfl, by decide⟩
  | false => exact (h.opens ht).imp fun hc => by rw [isTermStart, hc, Bool.true_or]

/-- A term is told if its type is, since no type begins with a tilde. -/
theorem Term.script_tells {term : Term} (h : term.type.Regular t)
    (htells : (Ty.script t).Tells term.type) : (Term.script t).Tells term := by
  intro term' h' r r' hr hr' heq
  change term.chars t ++ r = term'.chars t ++ r' at heq
  change term.anonymize = term'.anonymize ∧ r = r'
  obtain ⟨tilde, type⟩ := term
  obtain ⟨tilde', type'⟩ := term'
  have htilde : ∀ {type : Ty}, type.Regular t → ∀ r r', type.chars t ++ r ≠ '~' :: r' :=
    fun htype r r' heq => htype.not_startsWith ht (by decide) r ⟨r', heq⟩
  have htype : type.chars t ++ r = type'.chars t ++ r' →
      type.anonymize = type'.anonymize ∧ r = r' := htells h' hr hr'
  cases tilde <;> cases tilde'
  · obtain ⟨hview, hrest⟩ := htype heq
    exact ⟨by rw [Term.anonymize, Term.anonymize, hview], hrest⟩
  · exact absurd heq (htilde h r _)
  · exact absurd heq.symm (htilde h' r' _)
  · obtain ⟨hview, hrest⟩ := htype (List.cons.inj heq).2
    exact ⟨by rw [Term.anonymize, Term.anonymize, hview], hrest⟩

theorem Term.script_separates : (Term.script t).Separates " | " Stops where
  between r := .bar _
  after h := h.ends
  not_first h r := by
    rintro (hstop | hstop) <;>
      exact ((Term.opens ht h).append r).not_startsWith (by decide) hstop
  not_next _ _ := by
    rintro (⟨r, hr⟩ | ⟨r, hr⟩) <;> cases hr

end

/-! ## Elements of interfaces -/

/-- An element of an interface: a method or something embedded. -/
abbrev Element := Method ⊕ Embedded

namespace Element

/-- The characters of an element. -/
def chars (t : Table) : Element → List Char
  | .inl m => m.chars t
  | .inr e => e.chars t

/-- The element with anonymized types. -/
def anonymize : Element → Element
  | .inl m => .inl m.anonymize
  | .inr e => .inr e.anonymize

/-- An element with a proper name and regular types. -/
def Regular (t : Table) : Element → Prop
  | .inl m => IsName m.name ∧ (Signature.script t).Shown m.signature
  | .inr e => e.Regular ∧ ∀ term ∈ e.terms, term.type.Regular t

/-- Elements. -/
def script (t : Table) : Script Element Element where
  chars := chars t
  view := anonymize
  Shown := Regular t
  Follows := Stops

end Element

theorem Method.chars_eq (t : Table) (m : Method) :
    ∃ cs, m.chars t = m.name.toList ++ '(' :: cs := by
  obtain ⟨name, receiver, typeParams, params, results, variadic⟩ := m
  exact ⟨_, by rw [Method.chars, Signature.chars]; rfl⟩

theorem Embedded.Regular.exists_cons {e : Embedded} (h : e.Regular) :
    ∃ term terms, e.terms = term :: terms := by
  cases e with
  | type u => exact ⟨_, _, rfl⟩
  | union terms => exact List.exists_cons_of_ne_nil h.1

/-- An embedded type is not a union of one term, since that has a tilde. -/
theorem Embedded.Regular.anonymize_eq {e e' : Embedded} (h : e.Regular) (h' : e'.Regular)
    (heq : e.terms.map Term.anonymize = e'.terms.map Term.anonymize) :
    e.anonymize = e'.anonymize := by
  have hunion : ∀ {u : Ty} {terms : List Term}, (Embedded.union terms).Regular →
      terms.map Term.anonymize ≠ [⟨false, u⟩] := by
    intro u terms hterms heq
    obtain ⟨⟨tilde, type⟩, rfl, hterm⟩ := List.map_eq_singleton_iff.mp heq
    obtain rfl : tilde = true := hterms.2 _ rfl
    cases hterm
  cases e <;> cases e'
  · obtain ⟨-, htype⟩ := Term.mk.inj (List.singleton_inj.mp heq)
    rw [Embedded.anonymize, Embedded.anonymize, htype]
  · exact absurd heq.symm (hunion h')
  · exact absurd heq (hunion h)
  · exact congrArg Embedded.union heq

section

variable {t : Table} (ht : t.Regular)
include ht

theorem Embedded.opens {e : Embedded} (h : Element.Regular t (.inr e)) :
    Opens isTermStart (e.chars t) := by
  obtain ⟨term, terms, hcons⟩ := h.1.exists_cons
  rw [Embedded.chars, hcons, List.map_cons, joined_cons]
  exact (Term.opens ht (h.2 term (hcons ▸ List.mem_cons_self))).append _

/-- No embedded element looks like a method. -/
theorem Embedded.chars_ne_method {e : Embedded} (h : Element.Regular t (.inr e)) {name : String}
    (hname : IsName name) {r : List Char} (hr : Stops r) (cs : List Char) :
    e.chars t ++ r ≠ name.toList ++ '(' :: cs := by
  intro heq
  obtain ⟨⟨tilde, type⟩, terms, hcons⟩ := h.1.exists_cons
  have hchars : e.chars t ++ r = (Term.mk tilde type).chars t ++
      ((Term.script t).nextChars " | " terms ++ r) := by
    rw [Embedded.chars, hcons]
    exact @Script.list_chars_cons_append _ _ (Term.script t) " | " Stops _ terms r
  have hends : Ends ((Term.script t).nextChars " | " terms ++ r) :=
    (Term.script_separates ht).follows terms hr
  have htype : type.Regular t := h.2 ⟨tilde, type⟩ (hcons ▸ List.mem_cons_self)
  rw [hchars] at heq
  cases tilde with
  | true =>
    exact (hname.opens.append _).not_startsWith (by decide : isNameChar '~' = false)
      ⟨_, heq.symm⟩
  | false =>
    rcases htype.after_name ht hname hends (by decide) heq with hbracket | hrest
    · exact absurd hbracket (by decide)
    · rw [← hrest] at hends
      cases hends with
      | close hc => exact absurd hc (by decide)

theorem Embedded.tells {e e' : Embedded} (h : Element.Regular t (.inr e))
    (h' : Element.Regular t (.inr e')) (htells : ∀ term ∈ e.terms, (Ty.script t).Tells term.type)
    {r r' : List Char} (hr : Stops r) (hr' : Stops r') (heq : e.chars t ++ r = e'.chars t ++ r') :
    e.anonymize = e'.anonymize ∧ r = r' := by
  obtain ⟨hview, hrest⟩ := Script.list_tells (Term.script_separates ht) h.2
    (fun term hterm => Term.script_tells ht (h.2 term hterm) (htells term hterm)) h'.2 hr hr' heq
  exact ⟨h.1.anonymize_eq h'.1 hview, hrest⟩

/-- A method is told by its name and by the types of its parameters and results. -/
theorem Method.tells {m m' : Method} (h : Element.Regular t (.inl m))
    (h' : Element.Regular t (.inl m'))
    (htells : ∀ v ∈ m.signature.params ++ m.signature.results, (Ty.script t).Tells v.type)
    {r r' : List Char} (hr : Stops r) (hr' : Stops r') (heq : m.chars t ++ r = m'.chars t ++ r') :
    m.anonymize = m'.anonymize ∧ r = r' := by
  have hparen : ∀ (m : Method) r, ∀ c ∈ (m.signature.chars t ++ r).head?, isNameChar c = false := by
    rintro ⟨name, receiver, typeParams, params, results, variadic⟩ r c hc
    rw [Signature.chars] at hc
    obtain rfl : '(' = c := Option.some.inj hc
    decide
  rw [Method.chars, Method.chars, List.append_assoc, List.append_assoc] at heq
  obtain ⟨hname, hrest⟩ := eq_of_append_eq h.1.chars (hparen m r) h'.1.chars (hparen m' r') heq
  obtain ⟨hsig, hend⟩ := Signature.script_tells ht h.2 htells h'.2 hr.ends hr'.ends hrest
  refine ⟨?_, hend⟩
  rw [Method.anonymize, Method.anonymize, String.toList_inj.mp hname,
    show m.signature.anonymize = m'.signature.anonymize from hsig]

end

/-- The texts of the types that stand in an element tell them. -/
def Element.PartsTell (t : Table) : Element → Prop
  | .inl m => ∀ v ∈ m.signature.params ++ m.signature.results, (Ty.script t).Tells v.type
  | .inr e => ∀ term ∈ e.terms, (Ty.script t).Tells term.type

section

variable {t : Table} (ht : t.Regular)
include ht

/-- An element is told by its parts, and a method from an embedded type. -/
theorem Element.script_tells {e : Element} (h : e.Regular t) (htells : e.PartsTell t) :
    (Element.script t).Tells e := by
  intro e' h' r r' hr hr' heq
  change e.chars t ++ r = e'.chars t ++ r' at heq
  change e.anonymize = e'.anonymize ∧ r = r'
  rcases e with m | e <;> rcases e' with m' | e'
  · obtain ⟨hview, hrest⟩ := Method.tells ht h h' htells hr hr' heq
    exact ⟨congrArg Sum.inl hview, hrest⟩
  · obtain ⟨cs, hchars⟩ := m.chars_eq t
    rw [Element.chars, hchars, List.append_assoc] at heq
    exact absurd heq.symm (Embedded.chars_ne_method ht h' h.1 hr' _)
  · obtain ⟨cs, hchars⟩ := m'.chars_eq t
    rw [Element.chars, Element.chars, hchars, List.append_assoc] at heq
    exact absurd heq (Embedded.chars_ne_method ht h h'.1 hr _)
  · obtain ⟨hview, hrest⟩ := Embedded.tells ht h h' htells hr hr' heq
    exact ⟨congrArg Sum.inr hview, hrest⟩

theorem Element.opens {e : Element} (h : e.Regular t) : Opens isTermStart (e.chars t) := by
  rcases e with m | e
  · exact (h.1.opens.append _).imp fun hc => by
      rw [isTermStart, isTypeStart_of_isNameChar hc, Bool.true_or]
  · exact Embedded.opens ht h

theorem Element.script_separates : (Element.script t).Separates "; " (StartsWith '}') where
  between r := .inl ⟨_, rfl⟩
  after h := .inr h
  not_first h r := ((Element.opens ht h).append r).not_startsWith (by decide)
  not_next _ _ := by
    rintro ⟨r, hr⟩
    cases hr

end

/-! ## Interfaces -/

/-- The elements of an interface, its methods first. -/
def Interface.elements (iface : Interface) : List Element :=
  iface.methods.map .inl ++ iface.embeddeds.map .inr

theorem Interface.chars_eq (t : Table) (methods : List Method) (embeddeds : List Embedded) :
    (Interface.mk methods embeddeds false).chars t = "interface\x7b".toList ++
      (joined "; " ((Interface.mk methods embeddeds false).elements.map (Element.chars t)) ++
        ['}']) := by
  rw [Interface.chars, Method.parts_eq_map, Embedded.parts_eq_map, Interface.elements,
    List.map_append, List.map_map, List.map_map, List.append_assoc]
  rfl

theorem Interface.forall_elements {P : Element → Prop} {methods : List Method}
    {embeddeds : List Embedded} {comparable : Bool} (hmethods : ∀ m ∈ methods, P (.inl m))
    (hembeddeds : ∀ e ∈ embeddeds, P (.inr e)) :
    ∀ e ∈ (Interface.mk methods embeddeds comparable).elements, P e := by
  intro e he
  rcases List.mem_append.mp he with he | he <;> obtain ⟨part, hpart, rfl⟩ := List.mem_map.mp he
  · exact hmethods part hpart
  · exact hembeddeds part hpart

/-- Methods and embedded elements are told apart. -/
theorem Interface.anonymize_eq {methods methods' : List Method}
    {embeddeds embeddeds' : List Embedded} {comparable : Bool}
    (h : (Interface.mk methods embeddeds comparable).elements.map Element.anonymize =
      (Interface.mk methods' embeddeds' comparable).elements.map Element.anonymize) :
    (Interface.mk methods embeddeds comparable).anonymize =
      (Interface.mk methods' embeddeds' comparable).anonymize := by
  have hleft : ∀ i : Interface, (i.elements.map Element.anonymize).filterMap Sum.getLeft? =
      i.methods.map Method.anonymize := by
    simp [Interface.elements, Element.anonymize, List.filterMap_map, Function.comp_def]
  have hright : ∀ i : Interface, (i.elements.map Element.anonymize).filterMap Sum.getRight? =
      i.embeddeds.map Embedded.anonymize := by
    simp [Interface.elements, Element.anonymize, List.filterMap_map, Function.comp_def]
  have hmethods : methods.map Method.anonymize = methods'.map Method.anonymize := by
    rw [← hleft ⟨methods, embeddeds, comparable⟩, h, hleft]
  have hembeddeds : embeddeds.map Embedded.anonymize = embeddeds'.map Embedded.anonymize := by
    rw [← hright ⟨methods, embeddeds, comparable⟩, h, hright]
  rw [Interface.anonymize, Interface.anonymize, Method.anonymizes_eq_map,
    Method.anonymizes_eq_map, Embedded.anonymizes_eq_map, Embedded.anonymizes_eq_map, hmethods,
    hembeddeds]

/-! ## Types -/

section

variable {t : Table} (ht : t.Regular)
include ht

/-- An element is told with parentheses around it, or without. -/
theorem Ty.chan_tells {dir : ChanDir} {elem elem' : Ty} (helem : elem.Regular t)
    (helem' : elem'.Regular t) (htells : (Ty.script t).Tells elem) {r r' : List Char}
    (hr : Ends r) (hr' : Ends r')
    (heq : (Ty.chan dir elem).chars t ++ r = (Ty.chan dir elem').chars t ++ r') :
    elem.anonymize = elem'.anonymize ∧ r = r' := by
  cases dir with
  | send =>
    rw [Ty.chars, Ty.chars, List.append_assoc, List.append_assoc] at heq
    exact htells helem' hr hr' (List.append_cancel_left heq)
  | recv =>
    rw [Ty.chars, Ty.chars, List.append_assoc, List.append_assoc] at heq
    exact htells helem' hr hr' (List.append_cancel_left heq)
  | both =>
    have hparen : ∀ {elem : Ty}, elem.Regular t → ∀ r r', elem.chars t ++ r ≠ '(' :: r' :=
      fun helem r r' heq => helem.not_startsWith ht (by decide) r ⟨r', heq⟩
    rw [Ty.chars, Ty.chars, List.append_assoc, List.append_assoc] at heq
    replace heq := List.append_cancel_left heq
    -- a parenthesis shows whether the elements are channels to receive from
    cases hrecv : elem.isRecvChan <;> cases hrecv' : elem'.isRecvChan <;>
      rw [hrecv, hrecv'] at heq
    · exact htells helem' hr hr' heq
    · exact absurd heq (hparen helem r _)
    · exact absurd heq.symm (hparen helem' r' _)
    · replace heq : '(' :: elem.chars t ++ [')'] ++ r = '(' :: elem'.chars t ++ [')'] ++ r' := heq
      rw [List.append_assoc, List.append_assoc] at heq
      obtain ⟨htype, hrest⟩ := htells helem' (.close (by decide) r) (.close (by decide) r')
        (List.cons.inj heq).2
      exact ⟨htype, (List.cons.inj hrest).2⟩

/-- The name at a place shows first. Behind it, each argument is told. -/
theorem Ty.named_tells {id : Nat} {args args' : List Ty} (hargs : ∀ arg ∈ args, arg.Regular t)
    (hargs' : ∀ arg ∈ args', arg.Regular t) (htells : ∀ arg ∈ args, (Ty.script t).Tells arg)
    {r r' : List Char} (hr : Ends r) (hr' : Ends r')
    (heq : (Ty.named id args).chars t ++ r = (Ty.named id args').chars t ++ r') :
    args.map Ty.anonymize = args'.map Ty.anonymize ∧ r = r' := by
  have hbracket : ∀ {r}, Ends r → ∀ r', r ≠ '[' :: r' :=
    fun hr r' heq => (hr.head '[' (by rw [heq]; rfl)).2 rfl
  rw [Ty.chars, Ty.chars, List.append_assoc, List.append_assoc] at heq
  replace heq := List.append_cancel_left heq
  cases args with
  | nil =>
    cases args' with
    | nil => exact ⟨rfl, heq⟩
    | cons arg' args' => exact absurd heq (hbracket hr _)
  | cons arg args =>
    cases args' with
    | nil => exact absurd heq.symm (hbracket hr' _)
    | cons arg' args' =>
      replace heq : '[' :: joined ", " (Ty.parts t (arg :: args)) ++ [']'] ++ r =
        '[' :: joined ", " (Ty.parts t (arg' :: args')) ++ [']'] ++ r' := heq
      rw [Ty.parts_eq_map, Ty.parts_eq_map, List.append_assoc, List.append_assoc] at heq
      obtain ⟨hview, hrest⟩ := Script.list_tells (Ty.script_separates ht) hargs htells hargs'
        ⟨r, rfl⟩ ⟨r', rfl⟩ (List.cons.inj heq).2
      exact ⟨hview, (List.cons.inj hrest).2⟩

theorem Ty.struct_tells {fields fields' : List Field} (h : ∀ field ∈ fields, field.Regular t)
    (h' : ∀ field ∈ fields', field.Regular t)
    (htells : ∀ field ∈ fields, (Ty.script t).Tells field.type) {r r' : List Char}
    (heq : (Ty.struct fields).chars t ++ r = (Ty.struct fields').chars t ++ r') :
    fields.map Field.anonymize = fields'.map Field.anonymize ∧ r = r' := by
  rw [Ty.chars, Ty.chars, Field.parts_eq_map, Field.parts_eq_map, List.append_assoc,
    List.append_assoc, List.append_assoc, List.append_assoc] at heq
  obtain ⟨hview, hrest⟩ := Script.list_tells (Field.script_separates ht) h
    (fun field hfield => Field.script_tells ht (h field hfield) (htells field hfield)) h'
    ⟨r, rfl⟩ ⟨r', rfl⟩ (List.append_cancel_left heq)
  exact ⟨hview, (List.cons.inj hrest).2⟩

theorem Interface.tells {methods methods' : List Method} {embeddeds embeddeds' : List Embedded}
    (h : ∀ e ∈ (Interface.mk methods embeddeds false).elements, e.Regular t)
    (h' : ∀ e ∈ (Interface.mk methods' embeddeds' false).elements, e.Regular t)
    (htells : ∀ e ∈ (Interface.mk methods embeddeds false).elements, e.PartsTell t)
    {r r' : List Char} (heq : (Interface.mk methods embeddeds false).chars t ++ r =
      (Interface.mk methods' embeddeds' false).chars t ++ r') :
    (Interface.mk methods embeddeds false).anonymize =
      (Interface.mk methods' embeddeds' false).anonymize ∧ r = r' := by
  rw [Interface.chars_eq, Interface.chars_eq, List.append_assoc, List.append_assoc,
    List.append_assoc, List.append_assoc] at heq
  obtain ⟨hview, hrest⟩ := Script.list_tells (Element.script_separates ht) h
    (fun e he => Element.script_tells ht (h e he) (htells e he)) h' ⟨r, rfl⟩ ⟨r', rfl⟩
    (List.append_cancel_left heq)
  exact ⟨Interface.anonymize_eq hview, (List.cons.inj hrest).2⟩

/-- A type is told if it is told from the types of its own form. -/
theorem Ty.Regular.tells_of_form {type : Ty} (h : type.Regular t)
    (hform : ∀ ⦃type' : Ty⦄, type'.Regular t → type.form t = type'.form t →
      ∀ ⦃r r'⦄, Ends r → Ends r' → type.chars t ++ r = type'.chars t ++ r' →
        type.anonymize = type'.anonymize ∧ r = r') :
    (Ty.script t).Tells type :=
  fun _ h' _ _ hr hr' heq => hform h' (h.form_eq ht h' hr hr' heq) hr hr' heq

/-- The text of a regular type tells it. -/
theorem Ty.Regular.tells {type : Ty} (h : type.Regular t) : (Ty.script t).Tells type := by
  -- the form of the other type is known, so it has the same constructor
  induction h with
  | basic kind =>
    refine (Ty.Regular.basic kind).tells_of_form ht fun type' h' hform r r' hr hr' heq => ?_
    cases h' with
    | basic kind' =>
      obtain rfl := Kind.name_injective (String.toList_inj.mp (Form.path.inj hform))
      exact ⟨rfl, List.append_cancel_left heq⟩
    | named hid' _ => exact absurd (Form.path.inj hform).symm (ht.nameChars_ne_kind hid' kind)
    | _ => cases hform
  | @named id args hid hargs ih =>
    refine (Ty.Regular.named hid hargs).tells_of_form ht fun type' h' hform r r' hr hr' heq => ?_
    cases h' with
    | basic kind' => exact absurd (Form.path.inj hform) (ht.nameChars_ne_kind hid kind')
    | named hid' hargs' =>
      obtain rfl := ht.nameChars_injective hid hid' (Form.path.inj hform)
      obtain ⟨hview, hrest⟩ := Ty.named_tells ht hargs hargs' ih hr hr' heq
      rw [Ty.anonymize, Ty.anonymize, Ty.anonymizes_eq_map, Ty.anonymizes_eq_map, hview]
      exact ⟨rfl, hrest⟩
    | _ => cases hform
  | @pointer elem helem ih =>
    refine (Ty.Regular.pointer helem).tells_of_form ht fun type' h' hform r r' hr hr' heq => ?_
    cases h' with
    | pointer helem' =>
      rw [Ty.chars, Ty.chars] at heq
      obtain ⟨hview, hrest⟩ := ih helem' hr hr' (List.cons.inj heq).2
      exact ⟨congrArg Ty.pointer hview, hrest⟩
    | _ => cases hform
  | @slice elem helem ih =>
    refine (Ty.Regular.slice helem).tells_of_form ht fun type' h' hform r r' hr hr' heq => ?_
    cases h' with
    | slice helem' =>
      rw [Ty.chars, Ty.chars] at heq
      obtain ⟨hview, hrest⟩ := ih helem' hr hr' (List.cons.inj (List.cons.inj heq).2).2
      exact ⟨congrArg Ty.slice hview, hrest⟩
    | _ => cases hform
  | @array n elem helem ih =>
    refine (Ty.Regular.array helem).tells_of_form ht fun type' h' hform r r' hr hr' heq => ?_
    cases h' with
    | @array n' elem' helem' =>
      rw [Ty.chars, Ty.chars, ArrayLen.chars, ArrayLen.chars, List.cons_append, List.cons_append,
        List.append_assoc, List.append_assoc] at heq
      obtain ⟨rfl, hrest⟩ := Text.toDigits_tells (by decide) (by decide)
        (by rintro _ ⟨⟩; decide) (by rintro _ ⟨⟩; decide) (List.cons.inj heq).2
      obtain ⟨hview, hend⟩ := ih helem' hr hr' (List.cons.inj hrest).2
      exact ⟨congrArg (Ty.array (.known n)) hview, hend⟩
    | _ => cases hform
  | @map key value hkey hvalue ihkey ihvalue =>
    refine (Ty.Regular.map hkey hvalue).tells_of_form ht fun type' h' hform r r' hr hr' heq => ?_
    cases h' with
    | @map key' value' hkey' hvalue' =>
      rw [Ty.chars, Ty.chars, List.append_assoc, List.append_assoc, List.append_assoc,
        List.append_assoc] at heq
      obtain ⟨hkeys, hrest⟩ := ihkey hkey' (.close (by decide) _) (.close (by decide) _)
        (List.append_cancel_left heq)
      obtain ⟨hvalues, hend⟩ := ihvalue hvalue' hr hr' (List.cons.inj hrest).2
      rw [Ty.anonymize, Ty.anonymize, show key.anonymize = key'.anonymize from hkeys,
        show value.anonymize = value'.anonymize from hvalues]
      exact ⟨rfl, hend⟩
    | _ => cases hform
  | @chan dir elem helem ih =>
    refine (Ty.Regular.chan helem).tells_of_form ht fun type' h' hform r r' hr hr' heq => ?_
    cases h' with
    | chan helem' =>
      obtain rfl := Form.chan.inj hform
      obtain ⟨hview, hrest⟩ := Ty.chan_tells ht helem helem' ih hr hr' heq
      exact ⟨congrArg (Ty.chan dir) hview, hrest⟩
    | _ => cases hform
  | @func sig hsig hvars ih =>
    refine (Ty.Regular.func hsig hvars).tells_of_form ht fun type' h' hform r r' hr hr' heq => ?_
    cases h' with
    | @func sig' hsig' hvars' =>
      rw [Ty.chars, Ty.chars, List.append_assoc, List.append_assoc] at heq
      obtain ⟨hview, hrest⟩ := Signature.script_tells ht ⟨hsig, hvars⟩ ih ⟨hsig', hvars'⟩ hr hr'
        (List.append_cancel_left heq)
      exact ⟨congrArg Ty.func hview, hrest⟩
    | _ => cases hform
  | @struct fields hnames htypes ih =>
    refine (Ty.Regular.struct hnames htypes).tells_of_form ht
      fun type' h' hform r r' hr hr' heq => ?_
    cases h' with
    | @struct fields' hnames' htypes' =>
      obtain ⟨hview, hrest⟩ := Ty.struct_tells ht
        (fun field hfield => ⟨hnames field hfield, htypes field hfield⟩)
        (fun field hfield => ⟨hnames' field hfield, htypes' field hfield⟩) ih heq
      rw [Ty.anonymize, Ty.anonymize, Field.anonymizes_eq_map, Field.anonymizes_eq_map, hview]
      exact ⟨rfl, hrest⟩
    | _ => cases hform
  | @interface methods embeddeds hmethods hvars hembeddeds hterms ihvars ihterms =>
    refine (Ty.Regular.interface hmethods hvars hembeddeds hterms).tells_of_form ht
      fun type' h' hform r r' hr hr' heq => ?_
    cases h' with
    | @interface methods' embeddeds' hmethods' hvars' hembeddeds' hterms' =>
      rw [Ty.chars, Ty.chars] at heq
      obtain ⟨hview, hrest⟩ := Interface.tells ht
        (Interface.forall_elements
          (fun m hm => ⟨(hmethods m hm).1, (hmethods m hm).2, hvars m hm⟩)
          fun e he => ⟨hembeddeds e he, hterms e he⟩)
        (Interface.forall_elements
          (fun m hm => ⟨(hmethods' m hm).1, (hmethods' m hm).2, hvars' m hm⟩)
          fun e he => ⟨hembeddeds' e he, hterms' e he⟩)
        (Interface.forall_elements ihvars ihterms) heq
      exact ⟨congrArg Ty.interface hview, hrest⟩
    | _ => cases hform

end

/-- Regular types have the same text if and only if they are the same, but for the names of embedded
fields. -/
theorem Ty.render_eq_iff {t : Table} (ht : t.Regular) {type type' : Ty} (h : type.Regular t)
    (h' : type'.Regular t) :
    type.render t = type'.render t ↔ type.anonymize = type'.anonymize := by
  rw [Ty.render, Ty.render, String.ofList_inj]
  constructor
  · intro heq
    have hchars : type.chars t ++ [] = type'.chars t ++ [] := by rw [heq]
    exact (h.tells ht h' .nil .nil hchars).1
  · intro heq
    rw [← Ty.chars_anonymize t type, heq, Ty.chars_anonymize]

/-- A table with the declared type `list.Node`. -/
def Table.ofNode : Table :=
  ⟨Table.initial.entries ++ [{ name := "Node", package := "list" }]⟩

/-- The type `struct { run func(args ...string) chan (<-chan error) "json:\"run\""; *list.Node }`,
with a name for its embedded field. -/
def Ty.ofNode (name : String) : Ty :=
  .struct [⟨"run", .func ⟨none, [], [⟨"args", .slice (.basic .string)⟩],
      [⟨"", .chan .both (.chan .recv .error)⟩], true⟩, false, some "json:\"run\""⟩,
    ⟨name, .pointer (.named 2 []), true, none⟩]

theorem Ty.render_eq_iff_ofNode :
    Table.ofNode.Regular ∧ (Ty.ofNode "Node").Regular Table.ofNode ∧
      (Ty.ofNode "").Regular Table.ofNode ∧
      (Ty.ofNode "Node").render Table.ofNode = (Ty.ofNode "").render Table.ofNode := by
  have hname : IsName "Node" ∧ IsName "list" ∧ IsName "run" ∧ IsName "args" := by
    refine ⟨?_, ?_, ?_, ?_⟩ <;> exact ⟨by decide, by decide, by decide⟩
  obtain ⟨hNode, hlist, hrun, hargs⟩ := hname
  have htable : Table.ofNode.Regular := by
    refine ⟨by decide, by decide, List.forall_mem_cons.mpr ⟨nofun, List.forall_mem_cons.mpr
      ⟨nofun, List.forall_mem_singleton.mpr fun _ => ⟨hlist, by decide, hNode⟩⟩⟩⟩
  have hfunc : (Ty.func ⟨none, [], [⟨"args", .slice (.basic .string)⟩],
      [⟨"", .chan .both (.chan .recv .error)⟩], true⟩).Regular Table.ofNode := by
    refine .func ⟨rfl, rfl, ?_, fun _ => ⟨_, _, rfl⟩⟩ ?_
    · exact List.forall_mem_cons.mpr ⟨.inr hargs, List.forall_mem_singleton.mpr (.inl rfl)⟩
    · exact List.forall_mem_cons.mpr ⟨.slice (.basic .string), List.forall_mem_singleton.mpr
        (.chan (.chan (.named (by decide) nofun)))⟩
  have hnode : ∀ name, (Ty.ofNode name).Regular Table.ofNode := by
    intro name
    refine .struct ?_ ?_
    · exact List.forall_mem_cons.mpr ⟨fun _ => hrun, List.forall_mem_singleton.mpr nofun⟩
    · exact List.forall_mem_cons.mpr ⟨hfunc, List.forall_mem_singleton.mpr
        (.pointer (.named (by decide) nofun))⟩
  exact ⟨htable, hnode "Node", hnode "",
    (Ty.render_eq_iff htable (hnode "Node") (hnode "")).mpr rfl⟩

end GoSignatures
