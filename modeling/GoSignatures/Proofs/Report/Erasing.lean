import GoSignatures.Proofs.Classification.Flattening
import GoSignatures.Proofs.Report.Describing
import GoSignatures.Proofs.Report.Document
import GoSignatures.Proofs.Ty.Erasing

/-!
# Reports on erased types

Which functions are supported, and how their types are described, can be told from types without
the lengths of arrays and the names of imported types. So the reports on two files tell the same if
the files have the same functions up to these, in the same order.

* `Table.methodSet?_erase`, `Table.hasErrorContract_erase` — method sets and the error contract
* `Signature.isSupported_erase`, `Table.simplify_erase` — what a report tells of types
* `ResolvedFile.Matches` — the same functions, up to places, lengths and foreign names
* `ResolvedFile.Matches.report` — the reports on both
-/

namespace GoSignatures

/-! ## Method sets -/

namespace Methods

/-- The methods found with their types erased. -/
def erase (s : Methods) : Methods :=
  { s with found := s.found.map Method.erase }

theorem erase_add (s : Methods) (ms : List Method) :
    (s.add ms).erase = s.erase.add (Method.erases ms) := by
  rw [Method.erases_eq_map]
  induction ms generalizing s with
  | nil => rfl
  | cons m ms ih =>
    have hnames : m.erase.name ∈ s.erase.found.map Method.name ↔
        m.name ∈ s.found.map Method.name := by
      rw [erase, List.map_map]
      rfl
    rw [List.map_cons, add_cons, add_cons]
    simp only [hnames]
    split
    · exact ih s
    · rw [ih]
      congr 1
      simp [erase]

section

variable {enter enter' : Enter} (henter : ∀ id args s,
  enter' id (Ty.erases args) (erase s) = (enter id args s).map erase)
include henter

-- each lemma of the block has the assumptions for the others, which the linter does not see
set_option linter.unusedSectionVars false in
mutual

theorem addInterface_erase : ∀ (i : Interface) (s : Methods),
    addInterface enter' i.erase s.erase = (addInterface enter i s).map erase
  | ⟨methods, embeddeds, comparable⟩, s => by
    rw [Interface.erase, addInterface, addInterface, ← erase_add]
    split
    · rfl
    · exact addEmbeddeds_erase embeddeds (s.add methods)
termination_by structural i => i

theorem addEmbeddeds_erase : ∀ (es : List Embedded) (s : Methods),
    addEmbeddeds enter' (Embedded.erases es) s.erase = (addEmbeddeds enter es s).map erase
  | [], _ => rfl
  | .type type :: es, s => by
    rw [Embedded.erases, addEmbeddeds, addEmbeddeds, addType_erase type s]
    cases addType enter type s with
    | none => rfl
    | some s₁ => exact addEmbeddeds_erase es s₁
  | .union _ :: _, _ => rfl
termination_by structural es => es

theorem addType_erase : ∀ (type : Ty) (s : Methods),
    addType enter' type.erase s.erase = (addType enter type s).map erase
  | .named id args, s => henter id args s
  | .interface iface, s => addInterface_erase iface s
  | .imported _ _ underlying, s => addKnown_erase underlying s
  | .basic _, _ | .param _, _ | .pointer _, _ | .slice _, _ | .array _ _, _ | .map _ _, _
  | .chan _ _, _ | .func _, _ | .struct _, _ | .invalid, _ => rfl
termination_by structural type => type

theorem addKnown_erase : ∀ (underlying : Option Ty) (s : Methods),
    addKnown enter' (Ty.eraseOpt underlying) s.erase = (addKnown enter underlying s).map erase
  | none, _ => rfl
  | some type, s => addType_erase type s
termination_by structural underlying => underlying

end

end

theorem addNamed_erase (t : Table) (depth id : Nat) (args : List Ty) (s : Methods) :
    addNamed t.erase depth id (Ty.erases args) s.erase =
      (addNamed t depth id args s).map erase := by
  induction depth generalizing id args s with
  | zero =>
    rw [addNamed, addNamed, erase]
    split <;> rfl
  | succ depth ih =>
    have hunderlying := t.underlying_erase (.named id args)
    rw [Ty.erase] at hunderlying
    rw [addNamed, addNamed, hunderlying, erase]
    split
    · rfl
    · cases t.underlying (.named id args) with
      | interface iface =>
        exact addInterface_erase ih iface { s with entered := id :: s.entered }
      | _ => rfl

end Methods

theorem Table.methodSet?_erase (t : Table) (i : Interface) :
    t.erase.methodSet? i.erase = (t.methodSet? i).map (List.map Method.erase) := by
  have hempty : Methods.empty.erase = .empty := rfl
  have hadd := Methods.addInterface_erase (Methods.addNamed_erase t t.size) i .empty
  rw [hempty] at hadd
  rw [methodSet?, methodSet?, size_erase, hadd, Option.map_map, Option.map_map]
  rfl

/-! ## Types of functions -/

theorem Var.isEmpty_erases (vs : List Var) : (Var.erases vs).isEmpty = vs.isEmpty := by
  rw [Var.erases_eq_map, List.isEmpty_map]

theorem Ty.isBasic_erase (type : Ty) : type.erase.isBasic = type.isBasic := by
  cases type <;> rfl

theorem Method.isError_erase (m : Method) : m.erase.isError = m.isError := by
  obtain ⟨name, ⟨receiver, typeParams, params, results, variadic⟩⟩ := m
  simp only [Method.isError, Method.erase, Signature.erase, Var.isEmpty_erases]
  congr 1
  rcases results with _ | ⟨⟨_, type⟩, _ | ⟨⟨_, _⟩, _⟩⟩
  · rfl
  · cases type <;> rfl
  · cases type <;> rfl

namespace Table

theorem hasErrorContract_erase (t : Table) (type : Ty) :
    t.erase.hasErrorContract type.erase = t.hasErrorContract type := by
  rw [hasErrorContract, hasErrorContract, underlying_erase]
  cases t.underlying type with
  | interface iface =>
    dsimp only [Ty.erase]
    rw [methodSet?_erase]
    rcases t.methodSet? iface with _ | _ | ⟨m, _ | _⟩
    · rfl
    · rfl
    · exact m.isError_erase
    · rfl
  | _ => rfl

theorem represents_erase (t : Table) (place : Place) (type : Ty) :
    t.erase.represents place type.erase = t.represents place type := by
  rw [represents, represents, hasErrorContract_erase, underlying_erase, Ty.isBasic_erase]

theorem unrepresented_erase (t : Table) (place : Place) (start : Nat) (vs : List Var) :
    t.erase.unrepresented place start (Var.erases vs) = t.unrepresented place start vs := by
  induction vs generalizing start with
  | nil => rfl
  | cons v vs ih =>
    cases v
    simp only [Var.erases, unrepresented, represents_erase, ih]

/-- The description of a type that may stand where it does can be told from what is left of it. -/
theorem simplify_erase {t : Table} {place : Place} {type : Ty} (h : t.Allows type place) :
    t.erase.simplify type.erase = t.simplify type := by
  have hbasic : ∀ kind, t.underlying type = .basic kind →
      t.erase.simplify type.erase = t.simplify type := by
    intro kind hkind
    rw [simplify, simplify, hasErrorContract_erase, underlying_erase, hkind, Ty.erase,
      Ty.render_basic, Ty.render_basic]
  cases place with
  | parameter =>
    obtain ⟨kind, hkind⟩ := h
    exact hbasic kind hkind
  | result =>
    rcases h with ⟨kind, hkind⟩ | hcontract
    · exact hbasic kind hkind
    · rw [simplify, simplify, hasErrorContract_erase, if_pos hcontract, if_pos hcontract]

end Table

/-- A signature is supported if what is left of it is. -/
theorem Signature.isSupported_erase (t : Table) (sig : Signature) :
    sig.erase.isSupported t.erase = sig.isSupported t := by
  have hreceiver : sig.erase.receiver.isSome = sig.receiver.isSome := by
    obtain ⟨_ | ⟨_, _⟩, typeParams, params, results, variadic⟩ := sig <;> rfl
  have htypeParams : sig.erase.typeParams.isEmpty = sig.typeParams.isEmpty := by
    cases sig
    rw [erase, TypeParam.erases_eq_map, List.isEmpty_map]
  have hvariadic : sig.erase.variadic = sig.variadic := by
    cases sig
    rfl
  have hvars : sig.erase.params = Var.erases sig.params ∧
      sig.erase.results = Var.erases sig.results := by
    cases sig
    exact ⟨rfl, rfl⟩
  simp only [isSupported, obstacles, hreceiver, htypeParams, hvariadic, hvars,
    Table.unrepresented_erase]

/-! ## Functions -/

/-- The function without its position, and with its types erased. -/
def FuncDef.erase (d : FuncDef) : FuncDef :=
  { d with signature := d.signature.erase, position := {} }

theorem FuncDef.name_eq_of_erase_eq {d d' : FuncDef} (h : d.erase = d'.erase) :
    d.name = d'.name := by
  show d.erase.name = d'.erase.name
  rw [h]

/-- What is told about a supported function can be told from what is left of it. -/
theorem FuncDef.report_erase {t : Table} {d : FuncDef} (h : d.signature.isSupported t = true) :
    d.erase.report t.erase = (d.report t).withoutPosition := by
  obtain ⟨-, -, -, hparams, hresults⟩ := Signature.isSupported_iff.mp h
  obtain ⟨name, ⟨receiver, typeParams, params, results, variadic⟩, position, scope⟩ := d
  have hparameters : (Var.erases params).map
      (fun p => (⟨p.name, t.erase.simplify p.type⟩ : Parameter)) =
        params.map fun p => ⟨p.name, t.simplify p.type⟩ := by
    rw [Var.erases_eq_map, List.map_map]
    exact List.map_congr_left fun v hv => by
      rw [Function.comp, Var.erase, Table.simplify_erase (hparams v hv)]
  have hresultTypes : (Var.erases results).map (fun r => t.erase.simplify r.type) =
      results.map fun r => t.simplify r.type := by
    rw [Var.erases_eq_map, List.map_map]
    exact List.map_congr_left fun v hv => by
      rw [Function.comp, Var.erase, Table.simplify_erase (hresults v hv)]
  simp only [FuncDef.report, erase, Signature.erase, FunctionReport.withoutPosition, hparameters,
    hresultTypes]

/-- The first functions of wanted names correspond where all functions do. -/
theorem FuncDef.forall₂_firsts {S : FuncDef → FuncDef → Prop}
    (hS : ∀ d d', S d d' → d.name = d'.name)
    {fs fs' : List FuncDef} (h : List.Forall₂ S fs fs') (wanted : List String) :
    List.Forall₂ S (firsts wanted fs) (firsts wanted fs') := by
  induction h generalizing wanted with
  | nil => exact .nil
  | cons hd hrest ih =>
    rw [firsts, firsts, ← hS _ _ hd]
    split
    · exact .cons hd (ih _)
    · exact ih wanted

/-! ## Reports -/

/-- Two files have the same functions up to positions, lengths of arrays and names of imported
types, and of any two functions the same one stands first in both files. -/
structure ResolvedFile.Matches (file file' : ResolvedFile) : Prop where
  packageName : file.packageName = file'.packageName
  table : file.table.erase = file'.table.erase
  functions : List.Forall₂ (fun d d' : FuncDef => d.erase = d'.erase) file.functions file'.functions
  order : ∀ d ∈ file.functions.zip file'.functions, ∀ e ∈ file.functions.zip file'.functions,
    d.1.position.le e.1.position = d.2.position.le e.2.position

namespace ResolvedFile.Matches

variable {file file' : ResolvedFile} (h : file.Matches file')
include h

/-- A function of the one file is the function of the other at the same place. -/
theorem erase_eq {d d' : FuncDef} (hd : (d, d') ∈ file.functions.zip file'.functions) :
    d.erase = d'.erase :=
  (List.forall₂_iff_zip.mp h.functions).2 hd

theorem selected (requested : List String) :
    List.Forall₂ (fun d d' => (d, d') ∈ file.functions.zip file'.functions)
      (file.selected requested) (file'.selected requested) := by
  have hall : List.Forall₂ (fun d d' => (d, d') ∈ file.functions.zip file'.functions)
      file.functions file'.functions :=
    List.forall₂_iff_zip.mpr ⟨(List.forall₂_iff_zip.mp h.functions).1, fun hmem => hmem⟩
  rw [ResolvedFile.selected, ResolvedFile.selected]
  split
  · exact hall
  · exact FuncDef.forall₂_firsts
      (fun _ _ hd => FuncDef.name_eq_of_erase_eq (h.erase_eq hd)) hall requested

theorem isSupported {d d' : FuncDef} (hd : (d, d') ∈ file.functions.zip file'.functions) :
    d.signature.isSupported file.table = d'.signature.isSupported file'.table := by
  have hsig : d.signature.erase = d'.signature.erase := by
    show d.erase.signature = d'.erase.signature
    rw [h.erase_eq hd]
  rw [← Signature.isSupported_erase, hsig, h.table, Signature.isSupported_erase]

theorem report_function {d d' : FuncDef} (hd : (d, d') ∈ file.functions.zip file'.functions)
    (hsupported : d.signature.isSupported file.table = true) :
    (d.report file.table).withoutPosition = (d'.report file'.table).withoutPosition := by
  rw [← FuncDef.report_erase hsupported, h.erase_eq hd, h.table,
    FuncDef.report_erase ((h.isSupported hd).symm.trans hsupported)]

theorem parsed (requested : List String) :
    (((file.select requested).parsed.mergeSort fun f g => f.position.le g.position).map
        FunctionReport.withoutPosition) =
      (((file'.select requested).parsed.mergeSort fun f g => f.position.le g.position).map
        FunctionReport.withoutPosition) := by
  have hsort : ∀ (t : Table) (ds : List FuncDef),
      (ds.map (FuncDef.report t)).mergeSort (fun f g => f.position.le g.position) =
        (ds.mergeSort fun d e => d.position.le e.position).map (FuncDef.report t) :=
    fun t _ => (List.map_mergeSort (f := FuncDef.report t) fun _ _ _ _ => rfl).symm
  have hsupported := forall₂_filter (h.selected requested) fun d d' hd => h.isSupported hd
  let le : FuncDef → FuncDef → Bool := fun d e => d.position.le e.position
  have hsorted := @forall₂_mergeSort _ _ _ _ _ hsupported le le
    fun d d' e e' hd he => h.order (d, d') hd.1 (e, e') he.1
  rw [select, select, hsort, hsort, List.map_map, List.map_map]
  exact map_eq_map_of_forall₂ hsorted fun d d' hd => h.report_function hd.1 hd.2

theorem notSupported (requested : List String) :
    (file.select requested).notSupported = (file'.select requested).notSupported := by
  have hunsupported := @forall₂_filter _ _ _ _ _ (h.selected requested)
    (fun d => !d.signature.isSupported file.table)
    (fun d => !d.signature.isSupported file'.table) fun d d' hd => by rw [h.isSupported hd]
  exact map_eq_map_of_forall₂ hunsupported
    fun d d' hd => FuncDef.name_eq_of_erase_eq (h.erase_eq hd.1)

theorem notFound (requested : List String) :
    (file.select requested).notFound = (file'.select requested).notFound := by
  have hnames : (file.selected requested).map FuncDef.name =
      (file'.selected requested).map FuncDef.name :=
    map_eq_map_of_forall₂ (h.selected requested)
      fun d d' hd => FuncDef.name_eq_of_erase_eq (h.erase_eq hd)
  have hany : ∀ (ds : List FuncDef) (name : String),
      ds.any (·.name == name) = (ds.map FuncDef.name).any (· == name) := by
    intro ds name
    rw [List.any_map]
    rfl
  simp only [select, hany, hnames]

/-- The reports on both files tell the same. -/
theorem report (path : String) (requested : List String) :
    (file.report path requested).withoutPositions =
      (file'.report path requested).withoutPositions := by
  simp only [ResolvedFile.report, Selection.assemble, FileReport.withoutPositions, h.packageName,
    h.parsed requested, h.notSupported requested, h.notFound requested]

/-- The reports on both files are written as the same document. -/
theorem render_report (path : String) (requested : List String) :
    (file.report path requested).render = (file'.report path requested).render := by
  rw [← FileReport.render_withoutPositions, h.report, FileReport.render_withoutPositions]

end ResolvedFile.Matches

end GoSignatures
