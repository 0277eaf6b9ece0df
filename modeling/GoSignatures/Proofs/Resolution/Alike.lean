import GoSignatures.Proofs.Resolution.Functions
import GoSignatures.Proofs.Scope.Importing

/-!
# Files with the same declarations

Two files have the same declarations when their trees differ in nothing but the bodies of functions,
the values of variables and constants, and comments. What is kept of a tree has neither bodies nor
comments, but a comment moves what follows it, and it may stand inside a text that is kept as it is
written: the length of an array, a type argument, the base of a receiver that is no name. So places
and such texts may differ. The imports of a file may be written in another order, too.

* `TypeExpr.alike` — type expressions that differ in places and lengths only
* `Declaration.alike` — declarations that differ in places, values and texts only
* `SourceFile.Alike` — files with the same declarations, in the same order
* `SourceFile.Reimported` — the same, with the imports in any order
* `FileScope.Alike`, `SourceFile.Reimported.ofDeclarations` — what both files introduce
-/

namespace GoSignatures

/-! ## Type expressions -/

/-- Whether two names of types are the same name. -/
def TypeName.alike : TypeName → TypeName → Bool
  | plain name, plain name' => name.text == name'.text
  | qualified package name, qualified package' name' =>
    package.text == package'.text && name.text == name'.text
  | _, _ => false

mutual

/-- Whether two type expressions differ in places and in the lengths of arrays only. -/
def TypeExpr.alike : TypeExpr → TypeExpr → Bool
  | .named name args, .named name' args' => name.alike name' && TypeArg.allAlike args args'
  | .pointer elem, .pointer elem' => elem.alike elem'
  | .slice elem, .slice elem' => elem.alike elem'
  | .array _ elem, .array _ elem' => elem.alike elem'
  | .map key value, .map key' value' => key.alike key' && value.alike value'
  | .chan dir elem, .chan dir' elem' => dir == dir' && elem.alike elem'
  | .func sig, .func sig' => sig.alike sig'
  | .struct fields, .struct fields' => FieldDecl.allAlike fields fields'
  | .interface elems, .interface elems' => InterfaceElem.allAlike elems elems'
  | .group inner, .group inner' => inner.alike inner'
  | .tilde inner, .tilde inner' => inner.alike inner'
  | _, _ => false
termination_by structural e => e

/-- The same for the terms of a union. -/
def TypeExpr.allAlike : List TypeExpr → List TypeExpr → Bool
  | [], [] => true
  | term :: terms, term' :: terms' => term.alike term' && TypeExpr.allAlike terms terms'
  | _, _ => false
termination_by structural e => e

/-- The same for type arguments. -/
def TypeArg.allAlike : List TypeArg → List TypeArg → Bool
  | [], [] => true
  | ⟨_, terms⟩ :: args, ⟨_, terms'⟩ :: args' =>
    TypeExpr.allAlike terms terms' && TypeArg.allAlike args args'
  | _, _ => false
termination_by structural e => e

/-- The same for parameters and results. -/
def SignatureExpr.alike : SignatureExpr → SignatureExpr → Bool
  | ⟨params, results⟩, ⟨params', results'⟩ =>
    ParamDecl.allAlike params params' && results.alike results'
termination_by structural e => e

/-- The same for results. -/
def ResultExpr.alike : ResultExpr → ResultExpr → Bool
  | .list decls, .list decls' => ParamDecl.allAlike decls decls'
  | .single type, .single type' => type.alike type'
  | _, _ => false
termination_by structural e => e

/-- The same for the declarations of a parameter list. -/
def ParamDecl.allAlike : List ParamDecl → List ParamDecl → Bool
  | [], [] => true
  | ⟨names, type, variadic⟩ :: decls, ⟨names', type', variadic'⟩ :: decls' =>
    names == names' && type.alike type' && variadic == variadic' &&
      ParamDecl.allAlike decls decls'
  | _, _ => false
termination_by structural e => e

/-- The same for the declarations of fields. -/
def FieldDecl.allAlike : List FieldDecl → List FieldDecl → Bool
  | [], [] => true
  | .named names type tag :: decls, .named names' type' tag' :: decls' =>
    names == names' && type.alike type' && tag == tag' && FieldDecl.allAlike decls decls'
  | .embedded pointer name args tag :: decls, .embedded pointer' name' args' tag' :: decls' =>
    pointer == pointer' && name.alike name' && TypeArg.allAlike args args' && tag == tag' &&
      FieldDecl.allAlike decls decls'
  | _, _ => false
termination_by structural e => e

/-- The same for the elements of an interface. -/
def InterfaceElem.allAlike : List InterfaceElem → List InterfaceElem → Bool
  | [], [] => true
  | .method name sig :: elems, .method name' sig' :: elems' =>
    name.text == name'.text && sig.alike sig' && InterfaceElem.allAlike elems elems'
  | .union terms :: elems, .union terms' :: elems' =>
    TypeExpr.allAlike terms terms' && InterfaceElem.allAlike elems elems'
  | _, _ => false
termination_by structural e => e

end

/-- The same for declarations of type parameters. -/
def TypeParamDecl.allAlike : List TypeParamDecl → List TypeParamDecl → Bool
  | [], [] => true
  | ⟨names, constraint⟩ :: decls, ⟨names', constraint'⟩ :: decls' =>
    names == names' && TypeExpr.allAlike constraint constraint' && allAlike decls decls'
  | _, _ => false

/-- The same for a type that may be left out. -/
def TypeExpr.optionAlike : Option TypeExpr → Option TypeExpr → Bool
  | none, none => true
  | some type, some type' => type.alike type'
  | _, _ => false

/-! ## Declarations -/

/-- Whether two imports differ in their places only. -/
def ImportSpec.alike (spec spec' : ImportSpec) : Bool :=
  spec.givenName == spec'.givenName && spec.path == spec'.path

/-- Whether two declarations of types differ in places and in the lengths of arrays only. -/
def TypeSpec.alike (spec spec' : TypeSpec) : Bool :=
  spec.name.text == spec'.name.text && spec.isAlias == spec'.isAlias &&
    TypeParamDecl.allAlike spec.typeParams spec'.typeParams && spec.type.alike spec'.type

/-- Whether two declarations of variables or constants have the same names and types. -/
def ValueSpec.alike (spec spec' : ValueSpec) : Bool :=
  spec.constant == spec'.constant &&
    spec.names.map Piece.text == spec'.names.map Piece.text &&
    TypeExpr.optionAlike spec.type spec'.type

/-- Whether two function declarations differ in places and in the lengths of arrays only. -/
def FuncDecl.alike (decl decl' : FuncDecl) : Bool :=
  decl.name.text == decl'.name.text &&
    TypeParamDecl.allAlike decl.typeParams decl'.typeParams &&
    decl.signature.alike decl'.signature

/-- Whether two receivers are the same in a method that uses the names `used`, in files that
declare the names `declared`. The base and the type parameters are texts. One that is no declared
name, or no name that is used, means nothing. -/
def ReceiverExpr.alike (declared used : List String) (receiver receiver' : ReceiverExpr) : Bool :=
  receiver.name == receiver'.name && receiver.type.alike receiver'.type &&
    (receiver.base.text == receiver'.base.text ||
      !declared.contains receiver.base.text && !declared.contains receiver'.base.text) &&
    used.all fun name => receiver.typeParams.contains name == receiver'.typeParams.contains name

/-- The same for a receiver that may be missing. -/
def ReceiverExpr.optionAlike (declared used : List String) :
    Option ReceiverExpr → Option ReceiverExpr → Bool
  | none, none => true
  | some receiver, some receiver' => receiver.alike declared used receiver'
  | _, _ => false

/-- The names that stand for types in a method declaration. -/
def MethodDecl.typeNames (decl : MethodDecl) : List String :=
  (((decl.receiver.map fun receiver => receiver.type.uses []).getD []) ++
    decl.signature.uses []).map Prod.fst

/-- Whether two method declarations are the same in files that declare the names `declared`. -/
def MethodDecl.alike (declared : List String) (decl decl' : MethodDecl) : Bool :=
  ReceiverExpr.optionAlike declared decl.typeNames decl.receiver decl'.receiver &&
    decl.name.text == decl'.name.text && decl.signature.alike decl'.signature

/-- Whether two declarations are the same in files that declare the names `declared`. -/
def Declaration.alike (declared : List String) : Declaration → Declaration → Bool
  | imported spec, imported spec' => spec.alike spec'
  | type spec, type spec' => spec.alike spec'
  | value spec, value spec' => spec.alike spec'
  | func decl, func decl' => decl.alike decl'
  | method decl, method decl' => decl.alike declared decl'
  | _, _ => false

/-- Whether a declaration is an import. -/
def Declaration.isImport : Declaration → Bool
  | imported _ => true
  | _ => false

/-! ## What alike declarations share -/

/-- For each sort of declaration: what may differ is left out. -/
theorem ImportSpec.of_alike {spec spec' : ImportSpec} (h : spec.alike spec' = true) :
    spec.givenName = spec'.givenName ∧ spec.path = spec'.path := by
  simpa only [alike, Bool.and_eq_true, beq_iff_eq] using h

theorem TypeSpec.of_alike {spec spec' : TypeSpec} (h : spec.alike spec' = true) :
    spec.name.text = spec'.name.text ∧ spec.isAlias = spec'.isAlias ∧
      TypeParamDecl.allAlike spec.typeParams spec'.typeParams = true ∧
      spec.type.alike spec'.type = true := by
  simpa only [alike, Bool.and_eq_true, beq_iff_eq, and_assoc] using h

theorem ValueSpec.of_alike {spec spec' : ValueSpec} (h : spec.alike spec' = true) :
    spec.constant = spec'.constant ∧ spec.names.map Piece.text = spec'.names.map Piece.text ∧
      TypeExpr.optionAlike spec.type spec'.type = true := by
  simpa only [alike, Bool.and_eq_true, beq_iff_eq, and_assoc] using h

theorem FuncDecl.of_alike {decl decl' : FuncDecl} (h : decl.alike decl' = true) :
    decl.name.text = decl'.name.text ∧
      TypeParamDecl.allAlike decl.typeParams decl'.typeParams = true ∧
      decl.signature.alike decl'.signature = true := by
  simpa only [alike, Bool.and_eq_true, beq_iff_eq, and_assoc] using h

theorem ReceiverExpr.of_alike {declared used : List String} {receiver receiver' : ReceiverExpr}
    (h : receiver.alike declared used receiver' = true) :
    receiver.name = receiver'.name ∧ receiver.type.alike receiver'.type = true ∧
      (receiver.base.text = receiver'.base.text ∨
        receiver.base.text ∉ declared ∧ receiver'.base.text ∉ declared) ∧
      ∀ name ∈ used, receiver.typeParams.contains name = receiver'.typeParams.contains name := by
  simpa [alike, and_assoc] using h

/-- Receivers share what is declared in the file or used in the method. -/
theorem MethodDecl.of_alike {declared : List String} {decl decl' : MethodDecl}
    (h : decl.alike declared decl' = true) :
    ReceiverExpr.optionAlike declared decl.typeNames decl.receiver decl'.receiver = true ∧
      decl.name.text = decl'.name.text ∧ decl.signature.alike decl'.signature = true := by
  simpa only [alike, Bool.and_eq_true, beq_iff_eq, and_assoc] using h

/-! ## Files -/

namespace SourceFile

/-- The names that a file declares, in order. -/
def declaredNames (file : SourceFile) : List String :=
  (FileScope.introduced file.declarations).map Prod.fst

/-- The places of the names of functions and methods. -/
def functionPlaces (file : SourceFile) : List Position :=
  file.funcDecls.map (·.name.position) ++ file.methodDecls.map (·.name.position)

/-- Two files have the same declarations. Their texts may differ in comments, in the bodies of
functions and in the values of variables, and then the declarations stand at other places; but of
any two functions the same one stands first. -/
structure Alike (file file' : SourceFile) : Prop where
  packageName : file.packageName = file'.packageName
  declarations : List.Forall₂ (fun d d' => d.alike file.declaredNames d' = true)
    file.declarations file'.declarations
  order : (file.functionPlaces.map fun place => file.functionPlaces.map place.le) =
    file'.functionPlaces.map fun place => file'.functionPlaces.map place.le

instance (file file' : SourceFile) : Decidable (file.Alike file') :=
  decidable_of_iff (file.packageName = file'.packageName ∧
      List.Forall₂ (fun d d' => d.alike file.declaredNames d' = true) file.declarations
        file'.declarations ∧
      (file.functionPlaces.map fun place => file.functionPlaces.map place.le) =
        file'.functionPlaces.map fun place => file'.functionPlaces.map place.le)
    ⟨fun h => ⟨h.1, h.2.1, h.2.2⟩, fun h => ⟨h.packageName, h.declarations, h.order⟩⟩

/-- The declarations of a file that are no imports. -/
def others (file : SourceFile) : List Declaration :=
  file.declarations.filter fun d => !d.isImport

/-- Two files have the same declarations, and the same imports in any order. -/
structure Reimported (file file' : SourceFile) : Prop where
  packageName : file.packageName = file'.packageName
  imports : (Declaration.imports file.declarations).Perm (Declaration.imports file'.declarations)
  others : List.Forall₂ (fun d d' => d.alike file.declaredNames d' = true) file.others file'.others
  order : (file.functionPlaces.map fun place => file.functionPlaces.map place.le) =
    file'.functionPlaces.map fun place => file'.functionPlaces.map place.le

instance (file file' : SourceFile) : Decidable (file.Reimported file') :=
  decidable_of_iff (file.packageName = file'.packageName ∧
      (Declaration.imports file.declarations).Perm (Declaration.imports file'.declarations) ∧
      List.Forall₂ (fun d d' => d.alike file.declaredNames d' = true) file.others file'.others ∧
      (file.functionPlaces.map fun place => file.functionPlaces.map place.le) =
        file'.functionPlaces.map fun place => file'.functionPlaces.map place.le)
    ⟨fun h => ⟨h.1, h.2.1, h.2.2.1, h.2.2.2⟩,
      fun h => ⟨h.packageName, h.imports, h.others, h.order⟩⟩

variable {file file' : SourceFile}

/-- Files with the same declarations in the same order have the same imports in the same order. -/
theorem Alike.imports (h : file.Alike file') :
    Declaration.imports file.declarations = Declaration.imports file'.declarations := by
  have himports : List.Forall₂ (fun spec spec' => spec.alike spec' = true)
      (Declaration.importSpecs file.declarations)
      (Declaration.importSpecs file'.declarations) := by
    refine List.rel_filterMap (fun d d' hd => ?_) h.declarations
    cases d <;> cases d' <;> first | exact .some hd | exact .none | cases hd
  refine map_eq_map_of_forall₂ himports fun spec spec' hspec => ?_
  obtain ⟨hname, hpath⟩ := ImportSpec.of_alike hspec
  rw [ImportSpec.content, ImportSpec.content, hname, hpath]

theorem Alike.reimported (h : file.Alike file') : file.Reimported file' where
  packageName := h.packageName
  imports := .of_eq h.imports
  others := by
    refine (forall₂_filter h.declarations fun d d' hd => ?_).imp fun _ _ hd => hd.1
    cases d <;> cases d' <;> first | rfl | cases hd
  order := h.order

theorem filterMap_others {α : Type} (file : SourceFile) {kind : Declaration → Option α}
    (hkind : ∀ spec, kind (.imported spec) = none) :
    file.others.filterMap kind = file.declarations.filterMap kind := by
  rw [others, List.filterMap_filter]
  congr 1
  funext d
  cases d with
  | imported spec => exact (hkind spec).symm
  | _ => rfl

theorem introduced_others (file : SourceFile) :
    FileScope.introduced file.others = FileScope.introduced file.declarations := by
  unfold others FileScope.introduced
  induction file.declarations with
  | nil => rfl
  | cons d ds ih =>
    cases d with
    | imported spec => exact ih
    | _ => exact congrArg (_ ++ ·) ih

namespace Reimported

variable (h : file.Reimported file')
include h

/-! ## Declarations of one kind -/

/-- The declarations of one kind correspond if all declarations do. -/
theorem forall₂_filterMap {α : Type} {S : α → α → Prop} {kind : Declaration → Option α}
    (hkind : ∀ spec, kind (.imported spec) = none)
    (halike : ∀ d d' : Declaration, d.alike file.declaredNames d' = true →
      Option.Rel S (kind d) (kind d')) :
    List.Forall₂ S (file.declarations.filterMap kind) (file'.declarations.filterMap kind) := by
  rw [← filterMap_others file hkind, ← filterMap_others file' hkind]
  exact List.rel_filterMap (fun d d' hd => halike d d' hd) h.others

theorem typeSpecs :
    List.Forall₂ (fun spec spec' => spec.alike spec' = true) file.typeSpecs file'.typeSpecs := by
  refine h.forall₂_filterMap (fun _ => rfl) fun d d' hd => ?_
  cases d <;> cases d' <;> first | exact .some hd | exact .none | cases hd

theorem valueSpecs :
    List.Forall₂ (fun spec spec' => spec.alike spec' = true) file.valueSpecs
      file'.valueSpecs := by
  refine h.forall₂_filterMap (fun _ => rfl) fun d d' hd => ?_
  cases d <;> cases d' <;> first | exact .some hd | exact .none | cases hd

theorem funcDecls :
    List.Forall₂ (fun decl decl' => decl.alike decl' = true) file.funcDecls file'.funcDecls := by
  refine h.forall₂_filterMap (fun _ => rfl) fun d d' hd => ?_
  cases d <;> cases d' <;> first | exact .some hd | exact .none | cases hd

theorem methodDecls :
    List.Forall₂ (fun decl decl' => decl.alike file.declaredNames decl' = true)
      file.methodDecls file'.methodDecls := by
  refine h.forall₂_filterMap (fun _ => rfl) fun d d' hd => ?_
  cases d <;> cases d' <;> first | exact .some hd | exact .none | cases hd

end Reimported

end SourceFile

/-! ## Scopes -/

/-- Whether two entries of a scope stand for the same kind of thing, and alike types. -/
def ScopeEntry.alike : ScopeEntry → ScopeEntry → Bool
  | type spec, type spec' => spec.alike spec'
  | func, func | var, var | const _, const _ => true
  | _, _ => false

/-- Two scopes have the same names, which stand for the same, and qualifiers refer to the same
packages in both. -/
structure FileScope.Alike (scope scope' : FileScope) : Prop where
  lookupImport : ∀ name, (scope.imports.lookup name).map ImportEntry.path =
    (scope'.imports.lookup name).map ImportEntry.path
  entries : List.Forall₂ (fun e e' => e.1 = e'.1 ∧ e.2.alike e'.2 = true) scope.entries
    scope'.entries

namespace FileScope

namespace Alike

variable {scope scope' : FileScope} (h : scope.Alike scope')
include h

/-- A name stands for the same in both scopes, or for nothing in either. -/
theorem lookup (name : String) :
    Option.Rel (fun e e' : ScopeEntry => e.alike e' = true) (scope.lookup name)
      (scope'.lookup name) := by
  rw [FileScope.lookup, FileScope.lookup]
  have hentries := h.entries
  generalize scope.entries = entries, scope'.entries = entries' at hentries
  induction hentries with
  | nil => exact .none
  | cons he _ ih =>
    obtain ⟨hname, hentry⟩ := he
    rw [List.lookup_cons, List.lookup_cons, ← hname]
    split
    · exact .some hentry
    · exact ih

theorem isAlias (name : String) : scope.isAlias name = scope'.isAlias name := by
  have hlookup := h.lookup name
  rw [FileScope.isAlias, FileScope.isAlias]
  generalize scope.lookup name = found, scope'.lookup name = found' at hlookup
  cases hlookup with
  | none => rfl
  | @some e e' hentry =>
    cases e <;> cases e' <;> first | rfl | cases hentry | skip
    next spec spec' => exact (TypeSpec.of_alike hentry).2.1

theorem countTypes (aliases : Bool) : scope.countTypes aliases = scope'.countTypes aliases := by
  rw [FileScope.countTypes, FileScope.countTypes]
  have hentries := h.entries
  generalize scope.entries = entries, scope'.entries = entries' at hentries
  induction hentries with
  | nil => rfl
  | @cons e e' entries entries' he _ ih =>
    obtain ⟨_, e⟩ := e
    obtain ⟨_, e'⟩ := e'
    rw [List.countP_cons, List.countP_cons, ih]
    congr 1
    obtain ⟨-, hentry⟩ := he
    cases e <;> cases e' <;> first | rfl | cases hentry | skip
    next spec spec' => simp only [(TypeSpec.of_alike hentry).2.1]

theorem nesting : scope.nesting = scope'.nesting := by
  rw [FileScope.nesting, FileScope.nesting, h.countTypes, h.countTypes]

end Alike

end FileScope

/-! ## Scopes of files -/

/-- The surroundings of the declarations of a file, where no name is repeated. -/
def SourceFile.env (file : SourceFile) (config : Config) : Env :=
  ⟨file.path, file.packageName, config,
    ⟨.ofDeclarations file.declarations, FileScope.introduced file.declarations⟩⟩

/-- The constants of two declarations with the same names. -/
theorem ScopeEntry.forall₂_constants {names names' : List Piece}
    (h : names.map Piece.text = names'.map Piece.text) (values values' : List Expr) :
    List.Forall₂ (fun n n' : Piece × ScopeEntry => n.1.text = n'.1.text ∧ n.2.alike n'.2 = true)
      (constants names values) (constants names' values') := by
  induction names generalizing names' values values' with
  | nil =>
    obtain rfl : names' = [] := List.map_eq_nil_iff.mp h.symm
    exact .nil
  | cons name names ih =>
    obtain ⟨name', names', rfl⟩ : ∃ n ns, names' = n :: ns := by
      cases names' with
      | nil => cases h
      | cons n ns => exact ⟨n, ns, rfl⟩
    obtain ⟨hname, hnames⟩ := List.cons.inj h
    exact .cons ⟨hname, rfl⟩ (ih hnames values.tail values'.tail)

/-- Alike declarations introduce the same names, which stand for the same. -/
theorem Declaration.forall₂_names {declared : List String} {d d' : Declaration}
    (h : d.alike declared d' = true) :
    List.Forall₂ (fun n n' : Piece × ScopeEntry => n.1.text = n'.1.text ∧ n.2.alike n'.2 = true)
      d.names d'.names := by
  cases d <;> cases d' <;> first | cases h | skip
  · exact .nil
  · next spec spec' =>
    exact .cons ⟨(TypeSpec.of_alike h).1, h⟩ .nil
  · next spec spec' =>
    obtain ⟨hconstant, hnames, -⟩ := ValueSpec.of_alike h
    rw [names, names, ← hconstant]
    split
    · exact ScopeEntry.forall₂_constants hnames _ _
    · rw [List.forall₂_map_left_iff, List.forall₂_map_right_iff]
      exact (forall₂_of_map_eq_map hnames).imp fun _ _ hname => ⟨hname, rfl⟩
  · next decl decl' =>
    exact .cons ⟨(FuncDecl.of_alike h).1, rfl⟩ .nil
  · exact .nil

theorem FileScope.introducesNothing_eq {name : String} {e e' : ScopeEntry}
    (h : e.alike e' = true) : introducesNothing name e = introducesNothing name e' := by
  cases e <;> cases e' <;> first | rfl | cases h

namespace SourceFile.Reimported

variable {file file' : SourceFile} (h : file.Reimported file')
include h

theorem introduced :
    List.Forall₂ (fun e e' : String × ScopeEntry => e.1 = e'.1 ∧ e.2.alike e'.2 = true)
      (FileScope.introduced file.declarations) (FileScope.introduced file'.declarations) := by
  rw [← introduced_others, ← introduced_others]
  refine List.rel_flatMap h.others fun d d' hd => ?_
  rw [Declaration.introduced, Declaration.introduced, FileScope.entered, FileScope.entered,
    List.forall₂_map_left_iff, List.forall₂_map_right_iff]
  refine (forall₂_filter (Declaration.forall₂_names hd) fun n n' hn => ?_).imp
    fun _ _ hn => hn.1
  rw [hn.1, FileScope.introducesNothing_eq hn.2]

theorem declaredNames : file.declaredNames = file'.declaredNames :=
  map_eq_map_of_forall₂ h.introduced fun _ _ he => he.1

/-- Both files repeat a name, or neither does, and then the scopes of both are alike. -/
theorem ofDeclarations :
    Except.Alike FileScope.Alike (FileScope.ofDeclarations file.path file.declarations)
      (FileScope.ofDeclarations file'.path file'.declarations) := by
  have hnames : (FileScope.introduced file.declarations).map Prod.fst =
      (FileScope.introduced file'.declarations).map Prod.fst := h.declaredNames
  have hnodup := Declaration.nodup_importedNames_of_perm h.imports
  cases hscope : FileScope.ofDeclarations file.path file.declarations with
  | ok scope =>
    obtain ⟨himports, hentries, rfl⟩ := FileScope.ofDeclarations_eq_ok_iff.mp hscope
    rw [FileScope.ofDeclarations_eq_ok_iff.mpr ⟨hnodup.mp himports, hnames ▸ hentries, rfl⟩]
    exact .ok ⟨Imports.lookup_ofDeclarations_of_perm h.imports himports, h.introduced⟩
  | error e =>
    cases hscope' : FileScope.ofDeclarations file'.path file'.declarations with
    | error e' => exact .error e e'
    | ok scope' =>
      obtain ⟨himports, hentries, -⟩ := FileScope.ofDeclarations_eq_ok_iff.mp hscope'
      rw [FileScope.ofDeclarations_eq_ok_iff.mpr
        ⟨hnodup.mpr himports, hnames ▸ hentries, rfl⟩] at hscope
      cases hscope

end SourceFile.Reimported

end GoSignatures
