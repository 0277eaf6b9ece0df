import GoSignatures.Proofs.Classification.Flattening
import GoSignatures.Proofs.Ty.Copying
import GoSignatures.Report.Selection

/-!
# Reports on copies

A type is classified in a copy of a table as it is in the original. The copy may have more entries,
so declared types may nest deeper there while a method set is computed; but each is entered once
only, so this makes no difference. Two files have the same reports if the functions of the one are
copied into the other.

* `Table.Copied.methodSet?` — the method set of an interface
* `Table.Copied.isSupported` — whether a signature is supported
* `ResolvedFile.Copied` — the functions of a file are copied into another one
* `ResolvedFile.Copied.report` — the reports on both
-/

namespace GoSignatures

/-! ## Method sets -/

namespace Methods

/-- The methods found and the types entered with their places renumbered. -/
def rename (f : Nat → Nat) (s : Methods) : Methods :=
  ⟨s.found.map (Method.rename f), s.entered.map f⟩

theorem map_name_rename (f : Nat → Nat) (ms : List Method) :
    (ms.map (Method.rename f)).map Method.name = ms.map Method.name := by
  rw [List.map_map]
  rfl

/-- Methods are told apart by their names, which are kept. -/
theorem rename_add (f : Nat → Nat) (s : Methods) (ms : List Method) :
    (s.add ms).rename f = (s.rename f).add (Method.renames f ms) := by
  rw [Method.renames_eq_map]
  induction ms generalizing s with
  | nil => rfl
  | cons m ms ih =>
    have hnames : (m.rename f).name ∈ (s.rename f).found.map Method.name ↔
        m.name ∈ s.found.map Method.name := by
      rw [Methods.rename, map_name_rename]
      rfl
    rw [List.map_cons, add_cons, add_cons]
    simp only [hnames]
    split
    · exact ih s
    · rw [ih]
      congr 1
      simp [Methods.rename]

section

variable {f : Nat → Nat} {t : Table} {n : Nat} {enter enter' : Enter}
  (henter : ∀ id args s s', enter id args s = some s' →
    Gathers t (t.Leads (.named id args)) s s' ∧ id ∈ s'.entered)
  (hsame : ∀ id args s, t.unentered s.entered ≤ n →
    enter' (f id) (Ty.renames f args) (s.rename f) = (enter id args s).map (Methods.rename f))
include henter hsame

-- each lemma of the block has the assumptions for the others, which the linter does not see
set_option linter.unusedSectionVars false in
mutual

/-- The four lemmas follow the walk, given that both tables enter a declared type alike. -/
theorem addInterface_rename : ∀ (i : Interface) (s : Methods), t.unentered s.entered ≤ n →
    addInterface enter' (i.rename f) (s.rename f) = (addInterface enter i s).map (Methods.rename f)
  | ⟨methods, embeddeds, comparable⟩, s, hn => by
    rw [Interface.rename, addInterface, addInterface, ← rename_add]
    split
    · rfl
    · exact addEmbeddeds_rename embeddeds (s.add methods) hn
termination_by structural i => i

theorem addEmbeddeds_rename : ∀ (es : List Embedded) (s : Methods), t.unentered s.entered ≤ n →
    addEmbeddeds enter' (Embedded.renames f es) (s.rename f) =
      (addEmbeddeds enter es s).map (Methods.rename f)
  | [], _, _ => rfl
  | .type type :: es, s, hn => by
    rw [Embedded.renames, addEmbeddeds, addEmbeddeds, addType_rename type s hn]
    cases hfirst : addType enter type s with
    | none => rfl
    | some s₁ =>
      have hentered := (addType_gathers henter type s s₁ hfirst).1.entered
      exact addEmbeddeds_rename es s₁ (Nat.le_trans (Table.unentered_le_of_subset hentered) hn)
  | .union _ :: _, _, _ => rfl
termination_by structural es => es

theorem addType_rename : ∀ (type : Ty) (s : Methods), t.unentered s.entered ≤ n →
    addType enter' (type.rename f) (s.rename f) = (addType enter type s).map (Methods.rename f)
  | .named id args, s, hn => hsame id args s hn
  | .interface iface, s, hn => addInterface_rename iface s hn
  | .imported _ _ underlying, s, hn => addKnown_rename underlying s hn
  | .basic _, _, _ | .param _, _, _ | .pointer _, _, _ | .slice _, _, _ | .array _ _, _, _
  | .map _ _, _, _ | .chan _ _, _, _ | .func _, _, _ | .struct _, _, _ | .invalid, _, _ => rfl
termination_by structural type => type

theorem addKnown_rename : ∀ (underlying : Option Ty) (s : Methods), t.unentered s.entered ≤ n →
    addKnown enter' (Ty.renameOpt f underlying) (s.rename f) =
      (addKnown enter underlying s).map (Methods.rename f)
  | none, _, _ => rfl
  | some type, s, hn => addType_rename type s hn
termination_by structural underlying => underlying

end

end

end Methods

namespace Table.Copied

variable {f : Nat → Nat} {t t' : Table} (h : t.Copied f t')
include h

/-- The copy may go deeper. That makes no difference once the depth is enough for all that is not
entered. -/
theorem addNamed (depth depth' : Nat) (hle : depth ≤ depth') (id : Nat) (args : List Ty)
    (s : Methods) (hdepth : t.unentered s.entered ≤ depth) :
    Methods.addNamed t' depth' (f id) (Ty.renames f args) (s.rename f) =
      (Methods.addNamed t depth id args s).map (Methods.rename f) := by
  have hcontains : ∀ (s : Methods) (id : Nat),
      (s.rename f).entered.contains (f id) = s.entered.contains id := by
    intro s id
    rw [Bool.eq_iff_iff, List.contains_iff_mem, List.contains_iff_mem, Methods.rename, List.mem_map]
    exact ⟨fun ⟨i, hi, heq⟩ => h.injective i id heq ▸ hi, fun hmem => ⟨id, hmem, rfl⟩⟩
  have hunderlying : ∀ id args, t'.underlying (.named (f id) (Ty.renames f args)) =
      (t.underlying (.named id args)).rename f := fun id args => h.underlying (.named id args)
  induction depth generalizing depth' id args s with
  | zero =>
    cases depth' with
    | zero =>
      rw [Methods.addNamed, Methods.addNamed, hcontains]
      split <;> rfl
    | succ depth' =>
      rw [Methods.addNamed, Methods.addNamed, hcontains, hunderlying]
      split
      · rfl
      · next hnew =>
        -- all places have been entered, so this is none
        cases hstored : t.underlying (.named id args) with
        | interface iface =>
          have hlt := Table.unentered_cons_lt (Table.lt_size_of_underlying hstored)
            (by simpa using hnew)
          omega
        | _ => rfl
  | succ depth ih =>
    obtain ⟨depth', rfl⟩ : ∃ d, depth' = d + 1 := ⟨depth' - 1, by omega⟩
    rw [Methods.addNamed, Methods.addNamed, hcontains, hunderlying]
    split
    · rfl
    · next hnew =>
      cases hstored : t.underlying (.named id args) with
      | interface iface =>
        have hlt := Table.unentered_cons_lt (Table.lt_size_of_underlying hstored)
          (by simpa using hnew)
        exact Methods.addInterface_rename (Methods.addNamed_gathers depth)
          (fun id args s hs => ih depth' (Nat.le_of_succ_le_succ hle) id args s hs) iface
          { s with entered := id :: s.entered } (by dsimp only; omega)
      | _ => rfl

/-- An interface has the same methods in both tables, copied. -/
theorem methodSet? (i : Interface) :
    t'.methodSet? (i.rename f) = (t.methodSet? i).map (List.map (Method.rename f)) := by
  have hadd := Methods.addInterface_rename (Methods.addNamed_gathers t.size)
    (h.addNamed t.size t'.size h.size_le) i .empty (Nat.le_of_eq Table.unentered_nil)
  rw [Table.methodSet?, Table.methodSet?, Option.map_map]
  have hempty : Methods.empty.rename f = .empty := rfl
  rw [hempty] at hadd
  rw [hadd, Option.map_map]
  rfl

end Table.Copied

/-! ## Signatures -/

theorem Var.isEmpty_renames (f : Nat → Nat) (vs : List Var) :
    (Var.renames f vs).isEmpty = vs.isEmpty := by
  rw [Var.renames_eq_map, List.isEmpty_map]

theorem TypeParam.isEmpty_renames (f : Nat → Nat) (ps : List TypeParam) :
    (TypeParam.renames f ps).isEmpty = ps.isEmpty := by
  rw [TypeParam.renames_eq_map, List.isEmpty_map]

theorem Ty.isBasic_rename (f : Nat → Nat) (type : Ty) : (type.rename f).isBasic = type.isBasic := by
  cases type <;> rfl

theorem Method.isError_rename (f : Nat → Nat) (m : Method) : (m.rename f).isError = m.isError := by
  obtain ⟨name, ⟨receiver, typeParams, params, results, variadic⟩⟩ := m
  simp only [Method.isError, Method.rename, Signature.rename, Var.isEmpty_renames]
  congr 1
  rcases results with _ | ⟨⟨_, type⟩, _ | ⟨⟨_, _⟩, _⟩⟩
  · rfl
  · cases type <;> rfl
  · cases type <;> rfl

namespace Table.Copied

variable {f : Nat → Nat} {t t' : Table} (h : t.Copied f t')
include h

/-- Whether a type has the error contract depends on its method set only. -/
theorem hasErrorContract (type : Ty) :
    t'.hasErrorContract (type.rename f) = t.hasErrorContract type := by
  rw [Table.hasErrorContract, Table.hasErrorContract, h.underlying]
  cases t.underlying type with
  | interface iface =>
    dsimp only [Ty.rename]
    rw [h.methodSet?]
    match t.methodSet? iface with
    | none | some [] | some (_ :: _ :: _) => rfl
    | some [m] => exact m.isError_rename f
  | _ => rfl

theorem simplify (type : Ty) : t'.simplify (type.rename f) = t.simplify type := by
  rw [Table.simplify, Table.simplify, h.hasErrorContract, h.underlying, h.render]

theorem represents (place : Place) (type : Ty) :
    t'.represents place (type.rename f) = t.represents place type := by
  rw [Table.represents, Table.represents, h.hasErrorContract, h.underlying,
    Ty.isBasic_rename]

/-- The same obstacles are found, at the same places. -/
theorem unrepresented (place : Place) (start : Nat) (vs : List Var) :
    t'.unrepresented place start (Var.renames f vs) = t.unrepresented place start vs := by
  induction vs generalizing start with
  | nil => rfl
  | cons v vs ih =>
    cases v
    simp only [Var.renames, Table.unrepresented, h.represents, ih]

/-- A signature is supported in the copy as it is in the original. -/
theorem isSupported (sig : Signature) : (sig.rename f).isSupported t' = sig.isSupported t := by
  have hreceiver : (sig.rename f).receiver.isSome = sig.receiver.isSome := by
    obtain ⟨_ | ⟨_, _⟩, typeParams, params, results, variadic⟩ := sig <;> rfl
  have htypeParams : (sig.rename f).typeParams.isEmpty = sig.typeParams.isEmpty := by
    cases sig
    exact TypeParam.isEmpty_renames f _
  have hvariadic : (sig.rename f).variadic = sig.variadic := by
    cases sig
    rfl
  have hparams : t'.unrepresented .parameter 0 (sig.rename f).params =
      t.unrepresented .parameter 0 sig.params := by
    cases sig
    exact h.unrepresented _ _ _
  have hresults : t'.unrepresented .result 0 (sig.rename f).results =
      t.unrepresented .result 0 sig.results := by
    cases sig
    exact h.unrepresented _ _ _
  simp only [Signature.isSupported, Signature.obstacles, hreceiver, htypeParams, hvariadic, hparams,
    hresults]

end Table.Copied

/-! ## Reports -/

/-- The functions of a file stand in another one as well, with places in the table renumbered. -/
structure ResolvedFile.Copied (file : ResolvedFile) (f : Nat → Nat) (file' : ResolvedFile) :
    Prop where
  packageName : file'.packageName = file.packageName
  table : file.table.Copied f file'.table
  functions : file'.functions = file.functions.map (FuncDef.rename f)

theorem FuncDef.firsts_rename (f : Nat → Nat) (wanted : List String) (fs : List FuncDef) :
    FuncDef.firsts wanted (fs.map (FuncDef.rename f)) =
      (FuncDef.firsts wanted fs).map (FuncDef.rename f) := by
  induction fs generalizing wanted with
  | nil => rfl
  | cons d fs ih =>
    have hname : (d.rename f).name = d.name := rfl
    rw [List.map_cons, FuncDef.firsts, FuncDef.firsts, hname]
    split
    · rw [ih, List.map_cons]
    · exact ih wanted

namespace ResolvedFile.Copied

variable {file file' : ResolvedFile} {f : Nat → Nat} (h : file.Copied f file')
include h

/-- The first function of each name is selected in both files. -/
theorem selected (requested : List String) :
    file'.selected requested = (file.selected requested).map (FuncDef.rename f) := by
  rw [ResolvedFile.selected, ResolvedFile.selected, h.functions]
  split
  · rfl
  · exact FuncDef.firsts_rename f requested file.functions

theorem report_function (d : FuncDef) :
    FuncDef.report file'.table (d.rename f) = FuncDef.report file.table d := by
  have hparams : ∀ vs : List Var,
      (Var.renames f vs).map (fun p => (⟨p.name, file'.table.simplify p.type⟩ : Parameter)) =
        vs.map fun p => ⟨p.name, file.table.simplify p.type⟩ := by
    intro vs
    rw [Var.renames_eq_map, List.map_map]
    exact List.map_congr_left fun p _ => by
      simp only [Function.comp, Var.rename, h.table.simplify]
  have hresults : ∀ vs : List Var, (Var.renames f vs).map (fun r => file'.table.simplify r.type) =
      vs.map fun r => file.table.simplify r.type := by
    intro vs
    rw [Var.renames_eq_map, List.map_map]
    exact List.map_congr_left fun r _ => by
      simp only [Function.comp, Var.rename, h.table.simplify]
  obtain ⟨name, ⟨receiver, typeParams, params, results, variadic⟩, position, scope⟩ := d
  simp only [FuncDef.report, FuncDef.rename, Signature.rename, hparams, hresults]

/-- The reports on a file and on its copy are the same. -/
theorem report (path : String) (requested : List String) :
    file'.report path requested = file.report path requested := by
  have hsupported : ∀ d : FuncDef, (d.rename f).signature.isSupported file'.table =
      d.signature.isSupported file.table := fun d => h.table.isSupported d.signature
  have hselect : file'.select requested = file.select requested := by
    simp only [ResolvedFile.select, h.selected, List.filter_map, List.map_map, List.any_map,
      Function.comp_def, hsupported, h.report_function]
    rfl
  rw [ResolvedFile.report, ResolvedFile.report, hselect, h.packageName]

end ResolvedFile.Copied

end GoSignatures
