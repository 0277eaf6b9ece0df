import GoSignatures.Proofs.Resolution.Signing
import GoSignatures.Proofs.Ty.Parts

/-!
# Variadic signatures

A parameter is variadic if its type is written behind dots. A signature knows only whether it is
variadic: then its last parameter is shown with dots, if it holds a slice. That agrees with the
declaration where dots are written for the last parameter only. The grammar lets them stand
anywhere in a list, even in that of the results, and there it does not agree.

* `SignatureExpr.Trailing` — dots are written for the last parameter only
* `SignatureExpr.MarksDots` — a signature has its dots where they are written
* `SourceFile.marksDots_iff` — the signatures of a file have their dots where they are written if
  and only if they are trailing
-/

namespace GoSignatures

open Resolve

/-! ## Dots that are written -/

/-- Whether dots are written for a variable, for each variable of a parameter list. -/
def ParamDecl.marks (decls : List ParamDecl) : List Bool :=
  decls.flatMap fun decl => List.replicate (max 1 decl.names.length) decl.variadic

/-- The same for the results. -/
def ResultExpr.marks : ResultExpr → List Bool
  | .list decls => ParamDecl.marks decls
  | .single _ => [false]

/-- Dots are written for the last parameter only. -/
structure SignatureExpr.Trailing (e : SignatureExpr) : Prop where
  params : true ∉ (ParamDecl.marks e.params).dropLast
  results : true ∉ e.results.marks

/-- The characters of variables that are shown with dots wherever dots are written. -/
def Var.markedParts (t : Table) (marks : List Bool) (vars : List Var) : List (List Char) :=
  List.zipWith (Var.chars t) marks vars

/-- A signature has its dots where they are written: it is variadic if and only if the last
declaration of the parameters is written with dots. Then the last parameter is a slice, and no other
has dots. No result has dots, and the signature is shown with dots exactly where they are
written. -/
structure SignatureExpr.MarksDots (e : SignatureExpr) (sig : Signature) : Prop where
  variadic : sig.variadic = true ↔ ∃ decl, e.params.getLast? = some decl ∧ decl.variadic = true
  slice : sig.variadic = true → ∃ name elem, sig.params.getLast? = some ⟨name, .slice elem⟩
  alone : true ∉ (ParamDecl.marks e.params).dropLast
  results : true ∉ e.results.marks
  shown : ∀ t, Var.parts t sig.variadic sig.params =
      Var.markedParts t (ParamDecl.marks e.params) sig.params ∧
    Var.parts t false sig.results = Var.markedParts t e.results.marks sig.results

/-- Every signature that occurs in the file, if it is accepted, was written in it, apart from that
of the predeclared `error`, and it has its dots where they are written. -/
def SourceFile.MarksDots (file : SourceFile) (config : Config) : Prop :=
  ∀ result, file.resolve config = .ok result → ∀ sig ∈ result.signatures,
    (sig = Method.error.signature ∨ ∃ e, file.Writes config e sig) ∧
      ∀ e, file.Writes config e sig → e.MarksDots sig

/-! ## Marks -/

theorem ParamDecl.mem_marks {decls : List ParamDecl} {decl : ParamDecl} (h : decl ∈ decls) :
    decl.variadic ∈ marks decls := by
  refine List.mem_flatMap.mpr ⟨decl, h, List.mem_replicate.mpr ⟨?_, rfl⟩⟩
  omega

theorem ParamDecl.marks_concat (front : List ParamDecl) (decl : ParamDecl) :
    marks (front ++ [decl]) =
      (marks front ++ List.replicate (max 1 decl.names.length - 1) decl.variadic) ++
        [decl.variadic] := by
  have hlength : max 1 decl.names.length = max 1 decl.names.length - 1 + 1 := by omega
  rw [marks, List.flatMap_append, List.flatMap_singleton, hlength, List.replicate_succ',
    List.append_assoc]
  rfl

theorem ParamDecl.getLast?_marks (decls : List ParamDecl) :
    (marks decls).getLast? = decls.getLast?.map ParamDecl.variadic := by
  rcases List.eq_nil_or_concat decls with rfl | ⟨front, decl, rfl⟩
  · rfl
  · rw [List.concat_eq_append, marks_concat, List.getLast?_concat, List.getLast?_concat,
      Option.map_some]

/-- Where dots are written for the last variable only, there are dots if that one has them. -/
theorem ParamDecl.any_variadic_iff {decls : List ParamDecl} (h : true ∉ (marks decls).dropLast) :
    decls.any ParamDecl.variadic = true ↔ (marks decls).getLast? = some true := by
  rcases List.eq_nil_or_concat decls with rfl | ⟨front, decl, rfl⟩
  · simp [marks]
  · rw [List.concat_eq_append] at h ⊢
    rw [marks_concat, List.dropLast_concat, List.mem_append, not_or] at h
    have hfront : front.any ParamDecl.variadic = false := by
      rw [List.any_eq_false]
      exact fun other hother hdots => h.1 (hdots ▸ mem_marks hother)
    rw [marks_concat, List.getLast?_concat, List.any_append, hfront]
    simp

/-! ## Signatures and what is written -/

/-- A variable for which dots are written holds a slice. -/
def Var.Fits (mark : Bool) (v : Var) : Prop :=
  mark = true → ∃ elem, v.type = .slice elem

/-- A signature has the variables of what is written, and it is variadic if dots are written
anywhere in the parameters. -/
structure SignatureExpr.Fits (e : SignatureExpr) (sig : Signature) : Prop where
  variadic : sig.variadic = e.params.any ParamDecl.variadic
  params : List.Forall₂ Var.Fits (ParamDecl.marks e.params) sig.params
  results : List.Forall₂ Var.Fits e.results.marks sig.results

theorem Var.Fits.subst {mark : Bool} {v : Var} (h : Var.Fits mark v) (bind : Binding) :
    Var.Fits mark (v.subst bind) := by
  intro hmark
  obtain ⟨elem, helem⟩ := h hmark
  obtain ⟨name, type⟩ := v
  obtain rfl : type = .slice elem := helem
  exact ⟨elem.subst bind, rfl⟩

theorem Var.forall₂_fits_substs {marks : List Bool} {vars : List Var}
    (h : List.Forall₂ Var.Fits marks vars) (bind : Binding) :
    List.Forall₂ Var.Fits marks (Var.substs bind vars) := by
  rw [Var.substs_eq_map, List.forall₂_map_right_iff]
  exact h.imp fun _ _ hfits => hfits.subst bind

theorem Var.forall₂_fits_ofNames (names : List String) (variadic : Bool) (type : Ty) :
    List.Forall₂ Var.Fits (List.replicate (max 1 names.length) variadic)
      (Var.ofNames names (if variadic then .slice type else type)) := by
  have hfits : ∀ name, Var.Fits variadic ⟨name, if variadic then .slice type else type⟩ := by
    rintro name rfl
    exact ⟨type, rfl⟩
  rw [Var.ofNames]
  cases names with
  | nil => exact .cons (hfits "") .nil
  | cons first names =>
    have hlength : max 1 (first :: names).length = (first :: names).length := by
      rw [List.length_cons]
      omega
    rw [hlength, if_neg (by simp), List.forall₂_map_right_iff]
    refine List.forall₂_iff_get.mpr ⟨List.length_replicate, fun i hi _ => ?_⟩
    rw [List.get_eq_getElem, List.getElem_replicate]
    exact hfits _

theorem ParamDecl.fits_of_resolveAll {env : Env} {enter : EnterType} {params : List String}
    {decls : List ParamDecl} {p q : Progress} {vars : List Var}
    (h : ParamDecl.resolveAll env enter params decls p = .ok (vars, q)) :
    List.Forall₂ Var.Fits (marks decls) vars := by
  induction decls generalizing p q vars with
  | nil =>
    obtain ⟨rfl, rfl⟩ := pure_eq_ok_iff.mp h
    exact .nil
  | cons decl decls ih =>
    obtain ⟨names, type, variadic⟩ := decl
    obtain ⟨found, p₁, -, hrest⟩ := bind_eq_ok_iff.mp h
    obtain ⟨rest, p₂, hdecls, hreturn⟩ := bind_eq_ok_iff.mp hrest
    obtain ⟨rfl, rfl⟩ := pure_eq_ok_iff.mp hreturn
    exact List.rel_append (Var.forall₂_fits_ofNames names variadic found) (ih hdecls)

theorem ResultExpr.fits_of_resolve {env : Env} {enter : EnterType} {params : List String}
    {results : ResultExpr} {p q : Progress} {vars : List Var}
    (h : results.resolve env enter params p = .ok (vars, q)) :
    List.Forall₂ Var.Fits results.marks vars := by
  cases results with
  | list decls => exact ParamDecl.fits_of_resolveAll h
  | single type =>
    obtain ⟨found, p₁, -, hreturn⟩ := bind_eq_ok_iff.mp h
    obtain ⟨rfl, rfl⟩ := pure_eq_ok_iff.mp hreturn
    exact .cons nofun .nil

/-- Whatever a written signature becomes has its variables. -/
theorem SignatureExpr.Becomes.fits {env : Env} {e : SignatureExpr} {sig : Signature}
    (h : e.Becomes env sig) : e.Fits sig := by
  induction h with
  | resolved hrun =>
    obtain ⟨decls, results⟩ := e
    obtain ⟨vars, p₁, hparams, hrest⟩ := bind_eq_ok_iff.mp hrun
    obtain ⟨found, p₂, hresults, hreturn⟩ := bind_eq_ok_iff.mp hrest
    obtain ⟨rfl, rfl⟩ := pure_eq_ok_iff.mp hreturn
    exact ⟨rfl, ParamDecl.fits_of_resolveAll hparams, ResultExpr.fits_of_resolve hresults⟩
  | completed receiver typeParams h ih => exact ⟨ih.variadic, ih.params, ih.results⟩
  | @instantiated bind sig h ih =>
    obtain ⟨receiver, typeParams, params, results, variadic⟩ := sig
    exact ⟨ih.variadic, Var.forall₂_fits_substs ih.params bind,
      Var.forall₂_fits_substs ih.results bind⟩

/-! ## Dots that are shown -/

/-- Dots are shown for the last variable; where they are written for it alone, they are shown where
they are written. -/
theorem Var.parts_eq_markedParts (t : Table) {marks : List Bool} {vars : List Var}
    (hfits : List.Forall₂ Var.Fits marks vars) (hmarks : true ∉ marks.dropLast) :
    Var.parts t (decide (marks.getLast? = some true)) vars = Var.markedParts t marks vars := by
  induction hfits with
  | nil => rw [Var.parts, Var.markedParts, List.zipWith_nil_left]
  | @cons mark v marks vars _ hrest ih =>
    cases hrest with
    | nil =>
      have hlast : decide ([mark].getLast? = some true) = mark := by cases mark <;> rfl
      rw [Var.parts_singleton, hlast, Var.markedParts, List.zipWith_cons_cons,
        List.zipWith_nil_left]
    | @cons next w marks vars =>
      rw [List.dropLast_cons_cons, List.mem_cons, not_or] at hmarks
      obtain rfl : mark = false := by simpa using Ne.symm hmarks.1
      rw [Var.parts_cons_eq, List.getLast?_cons_cons, ih hmarks.2]
      rfl

/-- What is written becomes signatures with the dots where they are written if and only if these are
written for the last parameter only. -/
theorem SignatureExpr.Fits.marksDots_iff_trailing {e : SignatureExpr} {sig : Signature}
    (h : e.Fits sig) :
    e.MarksDots sig ↔ e.Trailing := by
  refine ⟨fun hmarks => ⟨hmarks.alone, hmarks.results⟩, fun htrailing => ?_⟩
  have hlast : sig.variadic = true ↔ (ParamDecl.marks e.params).getLast? = some true := by
    rw [h.variadic, ParamDecl.any_variadic_iff htrailing.params]
  refine ⟨?_, fun hvariadic => ?_, htrailing.params, htrailing.results, fun t => ⟨?_, ?_⟩⟩
  · rw [hlast, ParamDecl.getLast?_marks, Option.map_eq_some_iff]
  · -- the last variable is the one for which the last dots are written
    obtain ⟨front, hmarks⟩ := List.getLast?_eq_some_iff.mp (hlast.mp hvariadic)
    have hparams := List.forall₂_reverse_iff.mpr h.params
    rw [hmarks, List.reverse_append, List.reverse_singleton, List.singleton_append] at hparams
    obtain ⟨⟨name, type⟩, vars, hfits, -, hreverse⟩ := List.forall₂_cons_left_iff.mp hparams
    obtain ⟨elem, rfl⟩ := hfits rfl
    refine ⟨name, elem, ?_⟩
    rw [← List.head?_reverse, hreverse, List.head?_cons]
  · have hvariadic : sig.variadic =
        decide ((ParamDecl.marks e.params).getLast? = some true) := by
      rw [Bool.eq_iff_iff, hlast, decide_eq_true_eq]
    rw [hvariadic]
    exact Var.parts_eq_markedParts t h.params htrailing.params
  · have hnone : decide (e.results.marks.getLast? = some true) = false :=
      decide_eq_false fun hlast => htrailing.results (List.mem_of_getLast? hlast)
    rw [← hnone]
    exact Var.parts_eq_markedParts t h.results
      fun hmem => htrailing.results (List.dropLast_subset _ hmem)

namespace SourceFile

/-- The signatures of a file have their dots where they are written if and only if in all that
become one of them dots are written for the last parameter only. -/
theorem marksDots_iff (file : SourceFile) (config : Config) :
    file.MarksDots config ↔
      ∀ result, file.resolve config = .ok result → ∀ sig ∈ result.signatures,
        ∀ e, file.Writes config e sig → e.Trailing := by
  constructor
  · intro hmarks result hresolve sig hsig e hwrites
    have hdots := (hmarks result hresolve sig hsig).2 e hwrites
    exact ⟨hdots.alone, hdots.results⟩
  · intro htrailing result hresolve sig hsig
    refine ⟨writes_of_resolve hresolve sig hsig, fun e hwrites => ?_⟩
    have hwritten := htrailing result hresolve sig hsig e hwrites
    obtain ⟨-, scope, -, hbecomes⟩ := hwrites
    exact hbecomes.fits.marksDots_iff_trailing.mpr hwritten

/-! ## Dots before the last parameter -/

/-- The parameters `(a ...int, b string)`. -/
def earlyDots : SignatureExpr :=
  ⟨[⟨["a"], .named (.plain ⟨"int", ⟨23, 3, 13⟩⟩) [], true⟩,
      ⟨["b"], .named (.plain ⟨"string", ⟨30, 3, 20⟩⟩) [], false⟩], .list []⟩

/-- The file `func F(a ...int, b string) {}`. -/
def ofEarlyDots : SourceFile where
  path := "a.go"
  packageName := "p"
  declarations := [.func ⟨⟨"F", ⟨16, 3, 6⟩⟩, [], earlyDots⟩]

/-- The signature of `F` is variadic, but its last parameter is written without dots. -/
theorem not_marksDots_ofEarlyDots :
    ¬ ofEarlyDots.MarksDots {} ∧
      ∃ result, ofEarlyDots.resolve {} = .ok result ∧
        result.functions.map FuncDef.signature =
          [⟨none, [], [⟨"a", .slice (.basic .int)⟩, ⟨"b", .basic .string⟩], [], true⟩] := by
  have hfunctions : (ofEarlyDots.resolve {}).toOption.map (fun result =>
      result.functions.map FuncDef.signature) =
        some [⟨none, [], [⟨"a", .slice (.basic .int)⟩, ⟨"b", .basic .string⟩], [], true⟩] := by
    decide +kernel
  obtain ⟨result, hresolve, hsigs⟩ := Option.map_eq_some_iff.mp hfunctions
  rw [Except.toOption_eq_some_iff] at hresolve
  refine ⟨fun hmarks => ?_, result, hresolve, hsigs⟩
  obtain ⟨f, hf, hsig⟩ := List.map_eq_singleton_iff.mp hsigs
  have hmem : f.signature ∈ result.signatures := by
    refine List.mem_append_right _ (List.mem_flatMap.mpr ⟨.func f, ?_, ?_⟩)
    · have hfunc : f ∈ result.definitions.filterMap Definition.func? :=
        List.mem_of_mem_filter (hf ▸ List.mem_singleton_self f)
      obtain ⟨d, hd, hfunc⟩ := List.mem_filterMap.mp hfunc
      cases d <;> cases hfunc
      exact hd
    · exact f.signature.mem_signatures_self
  obtain ⟨hwritten, hdots⟩ := hmarks result hresolve f.signature hmem
  have hvariadic : f.signature.variadic = true := by rw [hsig]
  rcases hwritten with herror | ⟨e, hwrites⟩
  · rw [herror] at hvariadic
    cases hvariadic
  · obtain ⟨decl, hlast, hdecl⟩ := (hdots e hwrites).variadic.mp hvariadic
    obtain rfl : e = earlyDots := List.mem_singleton.mp hwrites.1
    cases hlast
    cases hdecl

end SourceFile

end GoSignatures
