import GoSignatures.Proofs.Ty.Anonymous
import GoSignatures.Proofs.Ty.Regular

/-!
# What the text of a signature tells

The text of a variable tells its name and its type, and that of a signature its parameters and
results, if the types that stand in them are told. A name before a type is told from the type by
what stands behind it: no type follows a type behind a blank. Results are told from what follows in
the same way.

* `Ty.script`, `Var.script`, `Signature.script` — how types, variables and signatures are shown
* `labelChars_tells` — a name before a type is told
* `Signature.script_tells` — the text of a signature tells it if those of its types tell them
-/

namespace GoSignatures

/-- Types. -/
def Ty.script (t : Table) : Script Ty Ty where
  chars := Ty.chars t
  view := Ty.anonymize
  Shown := Ty.Regular t
  Follows := Ends

/-! ## Names before types -/

/-- The characters that the text of a variable without a name begins with. -/
def isBareStart (c : Char) : Bool :=
  isTypeStart c || c == '.'

theorem isBareStart_of_isTypeStart {c : Char} (h : isTypeStart c = true) :
    isBareStart c = true := by
  rw [isBareStart, h, Bool.true_or]

/-- A text that begins without a name before a type. -/
structure IsBare (text : List Char) : Prop where
  opens : Opens isBareStart text
  unlabelled : ∀ name cs, IsName name → Opens isBareStart cs → text ≠ name.toList ++ ' ' :: cs

/-- A name before a type is told. -/
theorem labelChars_tells {name name' : String} (hname : name = "" ∨ IsName name)
    (hname' : name' = "" ∨ IsName name') {x x' : List Char} (hx : IsBare x) (hx' : IsBare x')
    (h : labelChars name ++ x = labelChars name' ++ x') : name = name' ∧ x = x' := by
  have hlabel : ∀ {name : String}, IsName name → ∀ x,
      labelChars name ++ x = name.toList ++ ' ' :: x := by
    intro name hname x
    have hne : ¬ name.isEmpty = true := by simpa using hname.nonempty
    rw [labelChars, if_neg hne, List.append_assoc, List.singleton_append]
  rcases hname with rfl | hname <;> rcases hname' with rfl | hname'
  · exact ⟨rfl, h⟩
  -- if only one of them has a name, the bare text would begin with it
  · rw [hlabel hname'] at h
    exact absurd h (hx.unlabelled name' x' hname' hx'.opens)
  · rw [hlabel hname] at h
    exact absurd h.symm (hx'.unlabelled name x hname hx.opens)
  · rw [hlabel hname, hlabel hname'] at h
    obtain ⟨hchars, hrest⟩ := eq_of_append_eq hname.chars (by rintro _ ⟨⟩; decide) hname'.chars
      (by rintro _ ⟨⟩; decide) h
    exact ⟨String.toList_inj.mp hchars, (List.cons.inj hrest).2⟩

theorem isBare_dots (x : List Char) : IsBare ("...".toList ++ x) where
  opens := ⟨_, _, rfl, by decide⟩
  unlabelled name cs hname _ heq :=
    (hname.opens.append (' ' :: cs)).not_startsWith (by decide : isNameChar '.' = false)
      ⟨_, heq.symm⟩

section

variable {t : Table} (ht : t.Regular)
include ht

namespace Ty.Regular

/-- No name stands before the type in the text of a type. -/
theorem isBare {type : Ty} (h : type.Regular t) {r : List Char} (hr : Ends r) :
    IsBare (type.chars t ++ r) where
  opens := ((h.opens ht).imp isBareStart_of_isTypeStart).append r
  unlabelled name cs hname hcs heq := by
    rcases h.after_name ht hname hr (by decide) heq with hbracket | rfl
    · exact absurd hbracket (by decide)
    · obtain ⟨c, cs, rfl, hc⟩ := hcs
      obtain ⟨hstart, -, hdot⟩ := hr.not_isTypeStart
      rw [isBareStart, hstart, Bool.false_or, beq_iff_eq] at hc
      exact hdot hc

/-- The text of a type does not begin with what no type begins with. -/
theorem not_startsWith {type : Ty} (h : type.Regular t) {c : Char} (hc : isTypeStart c = false)
    (r : List Char) : ¬ StartsWith c (type.chars t ++ r) :=
  ((h.opens ht).append r).not_startsWith hc

/-- Types whose texts read alike have the same form. -/
theorem form_eq {type type' : Ty} (h : type.Regular t) (h' : type'.Regular t) {r r' : List Char}
    (hr : Ends r) (hr' : Ends r') (heq : type.chars t ++ r = type'.chars t ++ r') :
    type.form t = type'.form t := by
  rw [← h.form_ofText ht hr, heq, h'.form_ofText ht hr']

end Ty.Regular

/-- Behind a type another one follows, or the bracket that ends the list. -/
theorem Ty.script_separates : (Ty.script t).Separates ", " (StartsWith ']') where
  between r := .close (by decide) _
  after := by
    rintro _ ⟨r, rfl⟩
    exact .close (by decide) r
  not_first h := h.not_startsWith ht (by decide)
  not_next _ _ := by
    rintro ⟨r, hr⟩
    cases hr

end

/-! ## Variables -/

/-- A variable that is named by a name or not at all, and may be marked if it holds a slice. -/
structure Var.Regular (t : Table) (m : Bool × Var) : Prop where
  name : m.2.name = "" ∨ IsName m.2.name
  type : m.2.type.Regular t
  slice : m.1 = true → ∃ elem, m.2.type = .slice elem

/-- Variables that may be marked: then they show with dots. -/
def Var.script (t : Table) : Script (Bool × Var) (Bool × Var) where
  chars m := m.2.chars t m.1
  view m := (m.1, m.2.anonymize)
  Shown := Var.Regular t
  Follows := Ends

section

variable {t : Table} (ht : t.Regular)
include ht

theorem Var.Regular.isBare {m : Bool × Var} (h : Var.Regular t m) {r : List Char} (hr : Ends r) :
    IsBare (m.2.type.dottedChars t m.1 ++ r) := by
  obtain ⟨mark, name, type⟩ := m
  cases mark with
  | false =>
    rw [Ty.dottedChars_false]
    exact h.type.isBare ht hr
  | true =>
    obtain ⟨elem, rfl⟩ : ∃ elem, type = .slice elem := h.slice rfl
    rw [Ty.dottedChars, List.append_assoc]
    exact isBare_dots _

/-- The text of a variable begins with its name or without one. -/
theorem Var.Regular.opens {m : Bool × Var} (h : Var.Regular t m) :
    Opens isBareStart (m.2.chars t m.1) := by
  rcases h.name with hname | hname
  · rw [Var.chars, hname]
    have hbare := (h.isBare ht .nil).opens
    rwa [List.append_nil] at hbare
  · rw [Var.chars, labelChars, if_neg (by simpa using hname.nonempty), List.append_assoc]
    exact (hname.opens.append _).imp fun hc =>
      isBareStart_of_isTypeStart (isTypeStart_of_isNameChar hc)

/-- The type of a variable is told, and whether there are dots before it. -/
theorem Ty.dottedChars_tells {m m' : Bool × Var} (h : Var.Regular t m) (h' : Var.Regular t m')
    (htells : (Ty.script t).Tells m.2.type) {r r' : List Char} (hr : Ends r) (hr' : Ends r')
    (heq : m.2.type.dottedChars t m.1 ++ r = m'.2.type.dottedChars t m'.1 ++ r') :
    m.1 = m'.1 ∧ m.2.type.anonymize = m'.2.type.anonymize ∧ r = r' := by
  obtain ⟨mark, name, type⟩ := m
  obtain ⟨mark', name', type'⟩ := m'
  have hdots : ∀ {type : Ty}, type.Regular t → ∀ (elem : Ty) r r',
      (Ty.slice elem).dottedChars t true ++ r ≠ type.dottedChars t false ++ r' := by
    intro type htype elem r r' heq
    rw [Ty.dottedChars_false] at heq
    exact htype.not_startsWith ht (by decide : isTypeStart '.' = false) r' ⟨_, heq.symm⟩
  cases mark <;> cases mark'
  · rw [Ty.dottedChars_false, Ty.dottedChars_false] at heq
    obtain ⟨htype, hrest⟩ := htells h'.type hr hr' heq
    exact ⟨rfl, htype, hrest⟩
  · obtain ⟨elem, rfl⟩ : ∃ elem, type' = .slice elem := h'.slice rfl
    exact absurd heq.symm (hdots h.type elem r' r)
  · obtain ⟨elem, rfl⟩ : ∃ elem, type = .slice elem := h.slice rfl
    exact absurd heq (hdots h'.type elem r r')
  · obtain ⟨elem, rfl⟩ : ∃ elem, type = .slice elem := h.slice rfl
    obtain ⟨elem', rfl⟩ : ∃ elem, type' = .slice elem := h'.slice rfl
    rw [Ty.dottedChars, Ty.dottedChars, List.append_assoc, List.append_assoc] at heq
    -- what is given tells the slices, so the brackets are put back where the dots are
    have hslices : (Ty.slice elem).chars t ++ r = (Ty.slice elem').chars t ++ r' := by
      rw [Ty.chars, Ty.chars, List.cons_append, List.cons_append, List.cons_append,
        List.cons_append, List.append_cancel_left heq]
    obtain ⟨htype, hrest⟩ := htells h'.type hr hr' hslices
    exact ⟨rfl, htype, hrest⟩

theorem Var.script_tells {m : Bool × Var} (h : Var.Regular t m)
    (htells : (Ty.script t).Tells m.2.type) : (Var.script t).Tells m := by
  intro m' h' r r' hr hr' heq
  change m.2.chars t m.1 ++ r = m'.2.chars t m'.1 ++ r' at heq
  rw [Var.chars, Var.chars, List.append_assoc, List.append_assoc] at heq
  obtain ⟨hname, hrest⟩ := labelChars_tells h.name h'.name (h.isBare ht hr) (h'.isBare ht hr') heq
  obtain ⟨hmark, htype, hend⟩ := Ty.dottedChars_tells ht h h' htells hr hr' hrest
  refine ⟨?_, hend⟩
  change (m.1, (⟨m.2.name, m.2.type.anonymize⟩ : Var)) = (m'.1, ⟨m'.2.name, m'.2.type.anonymize⟩)
  rw [hmark, hname, htype]

theorem Var.script_separates : (Var.script t).Separates ", " (StartsWith ')') where
  between r := .close (by decide) _
  after := by
    rintro _ ⟨r, rfl⟩
    exact .close (by decide) r
  not_first h r := ((h.opens ht).append r).not_startsWith (by decide)
  not_next _ _ := by
    rintro ⟨r, hr⟩
    cases hr

theorem Var.list_tells {ms : List (Bool × Var)} (h : ∀ m ∈ ms, Var.Regular t m)
    (htells : ∀ m ∈ ms, (Ty.script t).Tells m.2.type) :
    ((Var.script t).list ", " (StartsWith ')')).Tells ms :=
  Script.list_tells (Var.script_separates ht) h fun m hm =>
    Var.script_tells ht (h m hm) (htells m hm)

/-- The variables between parentheses are told, and their marks. -/
theorem Var.parts_tell {b b' : Bool} {vars vars' : List Var}
    (h : ∀ m ∈ Var.marked b vars, Var.Regular t m) (h' : ∀ m ∈ Var.marked b' vars', Var.Regular t m)
    (htells : ∀ v ∈ vars, (Ty.script t).Tells v.type) {r r' : List Char}
    (heq : joined ", " (Var.parts t b vars) ++ ')' :: r =
      joined ", " (Var.parts t b' vars') ++ ')' :: r') :
    (Var.marked b vars).map (Var.script t).view = (Var.marked b' vars').map (Var.script t).view ∧
      r = r' := by
  rw [Var.parts_eq_map, Var.parts_eq_map] at heq
  obtain ⟨hview, hrest⟩ := Var.list_tells ht h (fun m hm => htells m.2 (Var.mem_of_mem_marked hm))
    h' ⟨r, rfl⟩ ⟨r', rfl⟩ heq
  exact ⟨hview, (List.cons.inj hrest).2⟩

end

/-- The variables that are viewed are the anonymized ones. -/
theorem Var.map_view_marked {t : Table} (b : Bool) (vars : List Var) :
    ((Var.marked b vars).map (Var.script t).view).map Prod.snd = vars.map Var.anonymize := by
  rw [List.map_map, ← Var.map_snd_marked b vars, List.map_map, Var.map_snd_marked]
  rfl

/-! ## Signatures -/

/-- How a result list is shown. -/
inductive ResultForm where
  | absent
  | bare
  | tuple

/-- How a text shows a result list. -/
def ResultForm.ofText : List Char → ResultForm
  | ' ' :: c :: _ => if c = '(' then .tuple else if isTypeStart c then .bare else .absent
  | _ => .absent

theorem Ends.resultForm {r : List Char} (h : Ends r) : ResultForm.ofText r = .absent := by
  cases h with
  | nil => rfl
  | @close c hc r =>
    have hblank : c ≠ ' ' := by
      rintro rfl
      exact absurd hc (by decide)
    cases r <;> simp [ResultForm.ofText, hblank]
  | tag r | bar r => rfl

/-- Result lists. -/
def Var.resultScript (t : Table) : Script (List Var) (List Var) where
  chars := Var.resultChars t
  view := List.map Var.anonymize
  Shown vars := ∀ m ∈ Var.marked false vars, Var.Regular t m
  Follows := Ends

/-- Signatures. -/
def Signature.script (t : Table) : Script Signature Signature where
  chars := Signature.chars t
  view := Signature.anonymize
  Shown sig := sig.Regular ∧ ∀ v ∈ sig.params ++ sig.results, v.type.Regular t
  Follows := Ends

section

variable {t : Table} (ht : t.Regular)
include ht

/-- The text of a result list shows how it is shown. -/
theorem Var.resultForm_cases {vars : List Var} (h : ∀ m ∈ Var.marked false vars, Var.Regular t m)
    {r : List Char} (hr : Ends r) :
    (vars = [] ∧ ResultForm.ofText (Var.resultChars t vars ++ r) = .absent) ∨
      (∃ type, vars = [⟨"", type⟩] ∧ type.Regular t ∧
        ResultForm.ofText (Var.resultChars t vars ++ r) = .bare) ∨
      (Var.resultChars t vars = ' ' :: '(' :: (joined ", " (Var.parts t false vars) ++ [')']) ∧
        ResultForm.ofText (Var.resultChars t vars ++ r) = .tuple) := by
  rcases Var.resultChars_cases t vars with rfl | ⟨type, rfl⟩ | htuple
  · refine .inl ⟨rfl, ?_⟩
    rw [Var.resultChars]
    exact hr.resultForm
  · have htype : type.Regular t := (h _ (List.mem_singleton_self _)).type
    obtain ⟨c, cs, hchars, hc⟩ := htype.opens ht
    have hparen : c ≠ '(' := by
      rintro rfl
      exact absurd hc (by decide)
    refine .inr (.inl ⟨type, rfl, htype, ?_⟩)
    rw [Var.resultChars_bare, hchars, List.cons_append, List.cons_append, ResultForm.ofText,
      if_neg hparen, if_pos hc]
  · refine .inr (.inr ⟨htuple, ?_⟩)
    rw [htuple]
    rfl

/-- Whether there are results is told, and whether they stand in parentheses. -/
theorem Var.resultScript_tells {vars : List Var} (h : ∀ m ∈ Var.marked false vars, Var.Regular t m)
    (htells : ∀ v ∈ vars, (Ty.script t).Tells v.type) : (Var.resultScript t).Tells vars := by
  intro vars' h' r r' hr hr' heq
  change Var.resultChars t vars ++ r = Var.resultChars t vars' ++ r' at heq
  change vars.map Var.anonymize = vars'.map Var.anonymize ∧ r = r'
  rcases Var.resultForm_cases ht h hr with
      ⟨rfl, hform⟩ | ⟨type, rfl, htype, hform⟩ | ⟨hvars, hform⟩ <;>
    rcases Var.resultForm_cases ht h' hr' with
      ⟨rfl, hform'⟩ | ⟨type', rfl, htype', hform'⟩ | ⟨hvars', hform'⟩ <;>
    rw [heq, hform'] at hform
  case inl.inl => exact ⟨rfl, by rwa [Var.resultChars] at heq⟩
  case inr.inl.inr.inl =>
    rw [Var.resultChars_bare, Var.resultChars_bare] at heq
    obtain ⟨hview, hrest⟩ := htells _ (List.mem_singleton_self _) htype' hr hr'
      (List.cons.inj heq).2
    replace hview : type.anonymize = type'.anonymize := hview
    rw [List.map_singleton, List.map_singleton, Var.anonymize, Var.anonymize, hview]
    exact ⟨rfl, hrest⟩
  case inr.inr.inr.inr =>
    rw [hvars, hvars'] at heq
    simp only [List.cons_append, List.append_assoc, List.cons.injEq, true_and,
      List.nil_append] at heq
    obtain ⟨hview, hrest⟩ := Var.parts_tell ht h h' htells heq
    replace hview := congrArg (List.map Prod.snd) hview
    rw [Var.map_view_marked, Var.map_view_marked] at hview
    exact ⟨hview, hrest⟩
  all_goals cases hform

omit ht in
theorem Signature.Regular.params_shown {sig : Signature} (h : sig.Regular)
    (hvars : ∀ v ∈ sig.params ++ sig.results, v.type.Regular t) :
    ∀ m ∈ Var.marked sig.variadic sig.params, Var.Regular t m := by
  rintro ⟨mark, v⟩ hm
  have hmem : v ∈ sig.params ++ sig.results :=
    List.mem_append_left _ (Var.mem_of_mem_marked hm)
  refine ⟨h.names v hmem, hvars v hmem, fun hmark => ?_⟩
  obtain rfl : mark = true := hmark
  obtain ⟨hvariadic, hlast⟩ := Var.getLast?_of_mem_marked hm
  obtain ⟨name, elem, hslice⟩ := h.variadic hvariadic
  rw [hlast] at hslice
  exact ⟨elem, by rw [Option.some.inj hslice]⟩

omit ht in
theorem Signature.Regular.results_shown {sig : Signature} (h : sig.Regular)
    (hvars : ∀ v ∈ sig.params ++ sig.results, v.type.Regular t) :
    ∀ m ∈ Var.marked false sig.results, Var.Regular t m := by
  rintro ⟨mark, v⟩ hm
  have hmem : v ∈ sig.params ++ sig.results :=
    List.mem_append_right _ (Var.mem_of_mem_marked hm)
  refine ⟨h.names v hmem, hvars v hmem, fun hmark => ?_⟩
  obtain rfl : mark = true := hmark
  cases (Var.getLast?_of_mem_marked hm).1

omit ht in
/-- Regular signatures whose parameters are told alike are both variadic, or neither is. -/
theorem Signature.Regular.variadic_of_view_eq {sig sig' : Signature} (h : sig.Regular)
    (hview : (Var.marked sig.variadic sig.params).map (Var.script t).view =
      (Var.marked sig'.variadic sig'.params).map (Var.script t).view)
    (hvariadic : sig.variadic = true) : sig'.variadic = true := by
  obtain ⟨name, elem, hlast⟩ := h.variadic hvariadic
  have hlasts := congrArg List.getLast? hview
  rw [List.getLast?_map, List.getLast?_map, Var.getLast?_marked, Var.getLast?_marked,
    hlast] at hlasts
  cases hlast' : sig'.params.getLast? with
  | none =>
    rw [hlast'] at hlasts
    cases hlasts
  | some v =>
    rw [hlast'] at hlasts
    have hmarks : sig.variadic = sig'.variadic := congrArg Prod.fst (Option.some.inj hlasts)
    rw [← hmarks, hvariadic]

theorem Signature.script_tells {sig : Signature} (h : (Signature.script t).Shown sig)
    (htells : ∀ v ∈ sig.params ++ sig.results, (Ty.script t).Tells v.type) :
    (Signature.script t).Tells sig := by
  intro sig' h' r r' hr hr' heq
  obtain ⟨hsig, hvars⟩ := h
  obtain ⟨hsig', hvars'⟩ := h'
  have hchars : ∀ (sig : Signature) r, sig.chars t ++ r =
      '(' :: (joined ", " (Var.parts t sig.variadic sig.params) ++
        ')' :: (Var.resultChars t sig.results ++ r)) := by
    rintro ⟨_, _, params, results, variadic⟩ r
    rw [Signature.chars]
    simp only [List.cons_append, List.append_assoc]
  change sig.chars t ++ r = sig'.chars t ++ r' at heq
  rw [hchars, hchars] at heq
  obtain ⟨hparams, hrest⟩ := Var.parts_tell ht (hsig.params_shown hvars)
    (hsig'.params_shown hvars') (fun v hv => htells v (List.mem_append_left _ hv))
    (List.cons.inj heq).2
  obtain ⟨hresults, hend⟩ := Var.resultScript_tells ht (hsig.results_shown hvars)
    (fun v hv => htells v (List.mem_append_right _ hv)) (hsig'.results_shown hvars') hr hr' hrest
  have hvariadic : sig.variadic = sig'.variadic := Bool.eq_iff_iff.mpr
    ⟨hsig.variadic_of_view_eq hparams, hsig'.variadic_of_view_eq hparams.symm⟩
  replace hparams := congrArg (List.map Prod.snd) hparams
  rw [Var.map_view_marked, Var.map_view_marked] at hparams
  refine ⟨?_, hend⟩
  change sig.anonymize = sig'.anonymize
  obtain ⟨receiver, typeParams, params, results, variadic⟩ := sig
  obtain ⟨receiver', typeParams', params', results', variadic'⟩ := sig'
  obtain ⟨rfl, rfl⟩ : receiver = none ∧ typeParams = [] := ⟨hsig.receiver, hsig.typeParams⟩
  obtain ⟨rfl, rfl⟩ : receiver' = none ∧ typeParams' = [] := ⟨hsig'.receiver, hsig'.typeParams⟩
  obtain rfl : variadic = variadic' := hvariadic
  replace hparams : params.map Var.anonymize = params'.map Var.anonymize := hparams
  replace hresults : results.map Var.anonymize = results'.map Var.anonymize := hresults
  rw [Signature.anonymize, Signature.anonymize, Var.anonymizes_eq_map, Var.anonymizes_eq_map,
    Var.anonymizes_eq_map, Var.anonymizes_eq_map, hparams, hresults]

end

end GoSignatures
