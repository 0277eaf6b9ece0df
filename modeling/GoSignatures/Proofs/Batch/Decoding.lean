import GoSignatures.Batch
import GoSignatures.Proofs.Json.Reading
import GoSignatures.Proofs.Json.Records
import GoSignatures.Proofs.Outcome

/-!
# Documents of a batch

A batch is decoded from every document that writes it, however the fields are arranged and whatever
other fields there are, and from no other document. Any other document either is not JSON at all or
has one of a few faults, and it is malformed.

* `Request.Written`, `Batch.Written` — the values that write a request and a batch
* `Request.Faulty`, `Batch.Faulty` — the values with a fault
* `Request.ofJson?_eq_some_iff`, `Batch.ofJson?_eq_some_iff` — what writes a request or batch is
  decoded
* `Request.ofJson?_eq_none_iff`, `Batch.ofJson?_eq_none_iff` — what has a fault is not
* `Batch.decodes` — the batch of a document
-/

namespace GoSignatures

namespace Json

variable {v : Json}

theorem asString?_eq_some_iff {s : String} : v.asString? = some s ↔ v = .text s := by
  cases v <;> simp [asString?, text]

theorem asList?_eq_some_iff {α : Type} {item? : Json → Option α} {l : List α} :
    v.asList? item? = some l ↔
      ∃ items, v = .array items ∧ List.Forall₂ (fun item a => item? item = some a) items l := by
  cases v <;> simp [asList?, mapM_eq_some_iff]

/-- The texts of an array of strings. -/
theorem texts?_eq_some_iff {texts : List String} :
    v.asList? asString? = some texts ↔ v = .array (texts.map .text) := by
  have hitems : ∀ items, List.Forall₂ (fun item s => asString? item = some s) items texts ↔
      items = texts.map .text := by
    intro items
    simp only [asString?_eq_some_iff]
    rw [← List.forall₂_map_right_iff (R := (· = ·)), List.forall₂_eq_eq_eq]
  simp only [asList?_eq_some_iff, hitems, exists_eq_right]

end Json

/-! ## Requests -/

namespace Request

variable {request : Request} {v : Json}

/-- A value writes a request. The list of names has two names itself, and may be left out if it is
empty. -/
def Written (request : Request) (v : Json) : Prop :=
  ∃ names, Json.Writes [["filePath"], ["selectedFunctionsNames", "selectedFunctionNames"]]
      [some (.text request.filePath), names] v ∧
    (names = some (.array (request.functionNames.map .text)) ∨
      names = none ∧ request.functionNames = [])

/-- The path has to be there and to be a text. -/
def pathField : Json.Field where
  names := ["filePath"]
  isNeeded := True
  Unfit path := ∀ s, path ≠ .text s

/-- The names have to be texts. -/
def namesField : Json.Field where
  names := ["selectedFunctionsNames", "selectedFunctionNames"]
  isNeeded := False
  Unfit names := ∀ texts : List String, names ≠ .array (texts.map .text)

/-- A value has a fault that keeps it from writing a request. -/
def Faulty : Json → Prop := Json.Faulty [pathField, namesField]

theorem disjoint_fields : fields.Pairwise List.Disjoint := by
  simp [fields]

theorem names?_eq_some_iff {names : Option Json} {texts : List String} :
    names? names = some texts ↔
      names = some (.array (texts.map .text)) ∨ names = none ∧ texts = [] := by
  cases names with
  | none => simp [names?, eq_comm]
  | some names => simp [names?, Json.texts?_eq_some_iff]

/-- A request is decoded just from the values that write it. -/
theorem ofJson?_eq_some_iff : ofJson? v = some request ↔ request.Written v := by
  constructor
  · intro h
    rw [ofJson?] at h
    split at h
    · next path names hrecord =>
      obtain ⟨s, texts, hs, htexts, rfl⟩ := Option.of_return₂_eq_some h
      rw [Json.asString?_eq_some_iff] at hs
      subst hs
      exact ⟨names, (Json.record?_eq_some_iff disjoint_fields).mp hrecord,
        names?_eq_some_iff.mp htexts⟩
    · cases h
  · rintro ⟨names, hwrites, hnames⟩
    have hrecord : v.record? fields = _ := (Json.record?_eq_some_iff disjoint_fields).mpr hwrites
    rw [ofJson?, hrecord]
    exact Option.return₂_eq_some (f := Request.mk) rfl (names?_eq_some_iff.mpr hnames)

/-- No request is decoded just from the values with a fault. -/
theorem ofJson?_eq_none_iff : ofJson? v = none ↔ Faulty v := by
  rw [Faulty, Json.faulty_iff, ← not_iff_not, Classical.not_not, ← ne_eq,
    Option.ne_none_iff_exists']
  constructor
  · rintro ⟨request, h⟩
    obtain ⟨names, hwrites, hnames⟩ := ofJson?_eq_some_iff.mp h
    refine ⟨_, (Json.record?_eq_some_iff disjoint_fields).mpr hwrites, .cons ?_ (.cons ?_ .nil)⟩
    · exact fun hunfit => hunfit request.filePath rfl
    · rcases hnames with rfl | ⟨rfl, -⟩
      · exact fun hunfit => hunfit request.functionNames rfl
      · exact id
  · rintro ⟨values, hrecord, haccepts⟩
    rcases haccepts with _ | ⟨hpath, _ | ⟨hnames, _ | _⟩⟩
    next path names =>
    obtain ⟨path, rfl⟩ : ∃ s, path = some (.text s) := by
      cases path with
      | none => exact absurd trivial hpath
      | some path =>
        obtain ⟨s, hs⟩ := not_forall_not.mp hpath
        exact ⟨s, congrArg some hs⟩
    obtain ⟨texts, htexts⟩ : ∃ texts, names? names = some texts := by
      cases names with
      | none => exact ⟨[], rfl⟩
      | some names =>
        obtain ⟨texts, htexts⟩ := not_forall_not.mp hnames
        exact ⟨texts, names?_eq_some_iff.mpr (.inl (congrArg some htexts))⟩
    exact ⟨⟨path, texts⟩, ofJson?_eq_some_iff.mpr ⟨names,
      (Json.record?_eq_some_iff disjoint_fields).mp hrecord, names?_eq_some_iff.mp htexts⟩⟩

end Request

/-! ## Batches -/

namespace Batch

variable {batch : Batch} {v : Json}

/-- A value writes a batch: its targets are written one after the other. -/
def Written (batch : Batch) (v : Json) : Prop :=
  ∃ items, Json.Writes [["targets"]] [some (.array items)] v ∧
    List.Forall₂ Request.Written batch.targets items

/-- The targets have to be there and to be an array of values without a fault. -/
def targetsField : Json.Field where
  names := ["targets"]
  isNeeded := True
  Unfit targets := ∀ items, targets = .array items → ∃ item ∈ items, Request.Faulty item

/-- A value has a fault that keeps it from writing a batch. -/
def Faulty : Json → Prop := Json.Faulty [targetsField]

theorem disjoint_fields : [["targets"]].Pairwise List.Disjoint := by
  simp

/-- A batch is decoded just from the values that write it. -/
theorem ofJson?_eq_some_iff : ofJson? v = some batch ↔ batch.Written v := by
  constructor
  · intro h
    rw [ofJson?] at h
    split at h
    · next targets hrecord =>
      obtain ⟨requests, hrequests, rfl⟩ := Option.of_return_eq_some h
      obtain ⟨items, rfl, hitems⟩ := Json.asList?_eq_some_iff.mp hrequests
      exact ⟨items, (Json.record?_eq_some_iff disjoint_fields).mp hrecord,
        hitems.flip.imp fun _ _ h => Request.ofJson?_eq_some_iff.mp h⟩
    · cases h
  · rintro ⟨items, hwrites, hitems⟩
    rw [ofJson?, (Json.record?_eq_some_iff disjoint_fields).mpr hwrites]
    have hrequests : (Json.array items).asList? Request.ofJson? = some batch.targets :=
      Json.asList?_eq_some_iff.mpr
        ⟨items, rfl, hitems.flip.imp fun _ _ h => Request.ofJson?_eq_some_iff.mpr h⟩
    exact Option.return_eq_some (f := Batch.mk) hrequests

/-- No batch is decoded just from the values with a fault. -/
theorem ofJson?_eq_none_iff : ofJson? v = none ↔ Faulty v := by
  rw [Faulty, Json.faulty_iff, ← not_iff_not, Classical.not_not, ← ne_eq,
    Option.ne_none_iff_exists']
  constructor
  · rintro ⟨batch, h⟩
    obtain ⟨items, hwrites, hitems⟩ := ofJson?_eq_some_iff.mp h
    refine ⟨_, (Json.record?_eq_some_iff disjoint_fields).mpr hwrites, .cons ?_ .nil⟩
    intro hunfit
    obtain ⟨item, hitem, hfaulty⟩ := hunfit items rfl
    obtain ⟨i, hi, rfl⟩ := List.getElem_of_mem hitem
    have hwritten := hitems.get (hitems.length_eq ▸ hi) hi
    exact nomatch (Request.ofJson?_eq_some_iff.mpr hwritten).symm.trans
      (Request.ofJson?_eq_none_iff.mpr hfaulty)
  · rintro ⟨values, hrecord, haccepts⟩
    rcases haccepts with _ | ⟨htargets, _ | _⟩
    next targets =>
    obtain ⟨items, rfl, hitems⟩ : ∃ items, targets = some (.array items) ∧
        ∀ item ∈ items, ¬ Request.Faulty item := by
      cases targets with
      | none => exact absurd trivial htargets
      | some targets =>
        obtain ⟨items, hitems⟩ := not_forall.mp htargets
        push Not at hitems
        exact ⟨items, congrArg some hitems.1, hitems.2⟩
    have hrequests : ∀ item ∈ items, ∃ request : Request, request.Written item := by
      intro item hitem
      obtain ⟨request, hrequest⟩ := Option.ne_none_iff_exists'.mp
        (Request.ofJson?_eq_none_iff.not.mpr (hitems item hitem))
      exact ⟨request, Request.ofJson?_eq_some_iff.mp hrequest⟩
    obtain ⟨requests, hwritten⟩ := exists_forall₂ hrequests
    exact ⟨⟨requests⟩, ofJson?_eq_some_iff.mpr ⟨items,
      (Json.record?_eq_some_iff disjoint_fields).mp hrecord, hwritten⟩⟩

/-- A batch is decoded just from the documents that write it. -/
theorem read?_eq_some_iff {document : String} :
    read? document = some batch ↔ ∃ v : Json, v.SpelledBy document ∧ batch.Written v := by
  simp only [read?, Option.bind_eq_some_iff, Json.read?_eq_some_iff, ofJson?_eq_some_iff]

/-- No batch is decoded just from the documents that are not JSON or have a fault. -/
theorem read?_eq_none_iff {document : String} : read? document = none ↔
    (¬ ∃ v : Json, v.SpelledBy document) ∨ ∃ v : Json, v.SpelledBy document ∧ Faulty v := by
  simp only [← Json.read?_eq_some_iff, ← ofJson?_eq_none_iff, read?]
  cases Json.read? document <;> simp

/-- A document that writes a batch gives exactly that batch, and a document with a fault is
malformed, as is one that is not JSON. Nothing else happens. -/
theorem decodes (libraries : Libraries) (path document : String) :
    (∀ batch : Batch, ofText path document libraries = .ok batch ↔
      ∃ v : Json, v.SpelledBy document ∧ batch.Written v) ∧
    (ofText path document libraries =
        .error (.request (.malformed path (libraries.requestDetail document))) ↔
      (¬ ∃ v : Json, v.SpelledBy document) ∨ ∃ v : Json, v.SpelledBy document ∧ Faulty v) := by
  simp only [← read?_eq_some_iff, ← read?_eq_none_iff, ofText]
  cases read? document <;> simp

/-- Further fields have to be named by texts: a surrogate in a name must not lack its partner. -/
theorem ofText_unpairedSurrogate :
    (Json.object [(some "targets", .array []), (none, .null)]).SpelledBy
        "\x7b\"targets\": [], \"\\ud800\": null\x7d" ∧
      ofText "t.json" "\x7b\"targets\": [], \"\\ud800\": null\x7d" =
        .error (.request (.malformed "t.json" "not a request document")) ∧
      ofText "t.json" "\x7b\"targets\": []\x7d" = .ok ⟨[]⟩ := by
  refine ⟨?_, by decide +kernel, by decide +kernel⟩
  have hread : Json.readString ['\\', 'u', 'd', '8', '0', '0', '"'] = some (none, []) := by
    decide +kernel
  obtain ⟨name, hname, heq⟩ := Json.isString_of_readString hread
  rw [List.append_nil] at heq
  subst heq
  have hmembers := Json.SpelledMembers.more
    (.mk Json.blanks_nil (.string (Json.isString_encode "targets")) Json.blanks_nil)
    (.mk Json.blanks_space (.emptyArray Json.blanks_nil) Json.blanks_nil)
    (.last (.mk Json.blanks_space (.string hname) Json.blanks_nil)
      (.mk Json.blanks_space .null Json.blanks_nil))
  have hpadded := Json.Padded.mk Json.blanks_nil (.object hmembers) Json.blanks_nil
  refine cast (congrArg (Json.Padded _) ?_) hpadded
  decide +kernel

example : read? "[[\x7b\"x\": 1e9, \"selectedFunctionNames\": [\"F\"], \"filePath\": \"a\"\x7d]]" =
    some ⟨[⟨"a", ["F"]⟩]⟩ := by
  decide +kernel

end Batch

end GoSignatures
