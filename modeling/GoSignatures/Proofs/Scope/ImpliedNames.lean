import GoSignatures.Scope.PackageName
import Mathlib.Data.List.TakeWhile

/-!
# Laws of implied names

A path is a sequence of elements with slashes between them. The name that it implies is made from
its last element, or from the one before if the last is a major version, by dropping and replacing
characters. So the name depends on two elements at most, implies itself when it is taken for a path,
and does not change when a major version is added, unless the path ends in one already.

* `PackageName.elements` — the elements of a path
* `PackageName.base_eq_ofLastTwo` — the element that names the package, found among the last two
* `PackageName.chars_of_isPlain` — a name without slashes, hyphens and dots implies itself
* `PackageName.impliesName` — the laws of the implied name
-/

namespace GoSignatures.PackageName

/-! ## The laws -/

/-- The elements of a path, in order. -/
def elements (path : List Char) : List (List Char) :=
  path.splitOn '/'

/-- The last two elements of a path, or its only one; the last stands first. -/
def lastTwo (path : List Char) : List (List Char) :=
  (elements path).reverse.take 2

/-- A path ends in a major version, and another element stands before it. -/
def EndsInVersion (path : List Char) : Prop :=
  ∃ last before, lastTwo path = [last, before] ∧ isMajorVersion last = true

/-- A text has neither slashes nor hyphens nor dots. -/
def IsPlain (text : List Char) : Prop :=
  ∀ c ∈ text, c ≠ '/' ∧ c ≠ '-' ∧ c ≠ '.'

/-- What holds of the name that a path implies. -/
structure ImpliesName (path : String) : Prop where
  plain : IsPlain (ofPath path).toList
  /-- Taken for a path, the name implies itself. -/
  fixed : ofPath (ofPath path) = ofPath path
  /-- Paths with the same last two elements imply the same name. -/
  ends : ∀ other : String, lastTwo other.toList = lastTwo path.toList →
    ofPath other = ofPath path
  /-- A major version that is added does not count, unless one stands there already. -/
  version : ∀ digits : String, digits ≠ "" → (∀ c ∈ digits.toList, c.isDigit = true) →
    ¬ EndsInVersion path.toList → ofPath (path ++ "/v" ++ digits) = ofPath path

variable {path last element : List Char}

/-! ## Elements -/

/-- A path is one element, or has an element behind its last slash. -/
theorem path_cases (path : List Char) :
    '/' ∉ path ∨ ∃ before last, path = before ++ '/' :: last ∧ '/' ∉ last := by
  by_cases h : '/' ∈ path
  · obtain ⟨last, before, hsplit, hlast⟩ :=
      List.eq_append_cons_of_mem (List.mem_reverse.mpr h)
    refine .inr ⟨before.reverse, last.reverse, ?_, by simpa using hlast⟩
    rw [← List.reverse_reverse path, hsplit]
    simp
  · exact .inl h

theorem elements_append (before : List Char) (h : '/' ∉ last) :
    elements (before ++ '/' :: last) = elements before ++ [last] := by
  rw [elements, List.splitOn_append_cons_self, List.splitOn_eq_singleton h, elements]

theorem takeWhile_slash (h : '/' ∉ last) (rest : List Char) :
    (last.reverse ++ rest).takeWhile (· != '/') = last.reverse ++ rest.takeWhile (· != '/') ∧
      (last.reverse ++ rest).dropWhile (· != '/') = rest.dropWhile (· != '/') := by
  have hall : ∀ c ∈ last.reverse, (c != '/') = true := fun c hc =>
    bne_iff_ne.mpr fun heq => h (heq ▸ List.mem_reverse.mp hc)
  exact ⟨List.takeWhile_append_of_pos hall, List.dropWhile_append_of_pos hall⟩

theorem splitLast_of_not_mem (h : '/' ∉ path) : splitLast path = (path, none) := by
  obtain ⟨htake, hdrop⟩ := takeWhile_slash h []
  rw [List.append_nil] at htake hdrop
  rw [splitLast]
  simp [htake, hdrop]

theorem splitLast_append (before : List Char) (h : '/' ∉ last) :
    splitLast (before ++ '/' :: last) = (last, some before) := by
  obtain ⟨htake, hdrop⟩ := takeWhile_slash h ('/' :: before.reverse)
  have hreverse : (before ++ '/' :: last).reverse = last.reverse ++ '/' :: before.reverse := by
    simp
  rw [splitLast]
  simp [hreverse, htake, hdrop]

/-- What `splitLast` finds is the last of the elements. -/
theorem head?_elements_reverse (path : List Char) :
    (elements path).reverse.head? = some (splitLast path).1 := by
  rcases path_cases path with h | ⟨before, last, rfl, hlast⟩
  · rw [splitLast_of_not_mem h, elements, List.splitOn_eq_singleton h]
    rfl
  · rw [elements_append before hlast, splitLast_append before hlast]
    simp

/-- The element that names the package, from the last two. -/
def ofLastTwo : List (List Char) → List Char
  | [last, before] => if isMajorVersion last then before else last
  | [only] => only
  | _ => []

/-- The last two elements of a path with an element behind it. -/
theorem lastTwo_append (before : List Char) (h : '/' ∉ last) :
    lastTwo (before ++ '/' :: last) = [last, (splitLast before).1] := by
  have hhead := head?_elements_reverse before
  rw [lastTwo, elements_append before h, List.reverse_append]
  cases hrev : (elements before).reverse with
  | nil => simp [hrev] at hhead
  | cons first rest =>
    rw [hrev, List.head?_cons, Option.some.injEq] at hhead
    simp [hhead]

theorem lastTwo_of_not_mem (h : '/' ∉ path) : lastTwo path = [path] := by
  rw [lastTwo, elements, List.splitOn_eq_singleton h]
  rfl

theorem base_of_not_mem (h : '/' ∉ path) : base path = path := by
  rw [base, splitLast_of_not_mem h]

/-- The element that names the package is found among the last two. -/
theorem base_eq_ofLastTwo (path : List Char) : base path = ofLastTwo (lastTwo path) := by
  rcases path_cases path with h | ⟨before, last, rfl, hlast⟩
  · rw [base_of_not_mem h, lastTwo_of_not_mem h, ofLastTwo]
  · rw [base, splitLast_append before hlast, lastTwo_append before hlast, ofLastTwo]

/-- The last element names the package unless it is a major version behind another element. -/
theorem base_of_not_endsInVersion (h : ¬ EndsInVersion path) : base path = (splitLast path).1 := by
  rcases path_cases path with hpath | ⟨before, last, rfl, hlast⟩
  · rw [base_of_not_mem hpath, splitLast_of_not_mem hpath]
  · have hversion : ¬ isMajorVersion last = true := fun hlast' =>
      h ⟨last, _, lastTwo_append before hlast, hlast'⟩
    rw [base, splitLast_append before hlast]
    exact if_neg hversion

/-- A major version behind a path leaves the naming to the last element of the path. -/
theorem base_append_version (path : List Char) (hlast : '/' ∉ last)
    (hversion : isMajorVersion last = true) : base (path ++ '/' :: last) = (splitLast path).1 := by
  rw [base, splitLast_append path hlast]
  exact if_pos hversion

/-! ## Characters -/

theorem dropVersion_subset (element : List Char) : dropVersion element ⊆ element := by
  unfold dropVersion
  dsimp only
  split
  · next before _ hdrop =>
    intro c hc
    have hmem : c ∈ element.reverse.dropWhile Char.isDigit := by
      rw [hdrop]
      simp [List.mem_reverse.mp hc]
    exact List.mem_reverse.mp ((List.dropWhile_suffix _).subset hmem)
  · exact List.Subset.refl _

theorem dropLeading_subset (element : List Char) : dropLeading element ⊆ element := by
  unfold dropLeading
  split
  · intro c hc
    simp [hc]
  · exact List.Subset.refl _

theorem dropTrailing_subset (element : List Char) : dropTrailing element ⊆ element := by
  unfold dropTrailing
  split
  · next before hreverse =>
    intro c hc
    rw [← List.mem_reverse, hreverse]
    simp [List.mem_reverse.mp hc]
  · exact List.Subset.refl _

theorem dropVersion_of_not_mem (h : '.' ∉ element) : dropVersion element = element := by
  unfold dropVersion
  dsimp only
  split
  · next hdrop =>
    refine absurd ?_ h
    rw [← List.mem_reverse]
    refine (List.dropWhile_suffix Char.isDigit).subset ?_
    rw [hdrop]
    simp
  · rfl

theorem dropLeading_of_not_mem (h : '-' ∉ element) : dropLeading element = element := by
  unfold dropLeading
  split
  · simp at h
  · rfl

theorem dropTrailing_of_not_mem (h : '-' ∉ element) : dropTrailing element = element := by
  unfold dropTrailing
  split
  · next hreverse =>
    rw [← List.mem_reverse, hreverse] at h
    simp at h
  · rfl

/-- The only slashes of a name would be those of the element that it is made from. -/
theorem nameChar_plain {c : Char} (h : c ≠ '/') :
    nameChar c ≠ '/' ∧ nameChar c ≠ '-' ∧ nameChar c ≠ '.' := by
  unfold nameChar
  split
  · decide
  · next hc =>
    rw [not_or] at hc
    exact ⟨h, hc⟩

theorem not_mem_splitLast (path : List Char) : '/' ∉ (splitLast path).1 := by
  rcases path_cases path with h | ⟨before, last, rfl, hlast⟩
  · rwa [splitLast_of_not_mem h]
  · rwa [splitLast_append before hlast]

theorem not_mem_base (path : List Char) : '/' ∉ base path := by
  rcases path_cases path with h | ⟨before, last, rfl, hlast⟩
  · rwa [base_of_not_mem h]
  · rw [base, splitLast_append before hlast]
    dsimp only
    split
    · exact not_mem_splitLast before
    · exact hlast

theorem isPlain_chars (path : List Char) : IsPlain (chars path) := by
  intro c hc
  obtain ⟨d, hd, rfl⟩ := List.mem_map.mp hc
  have hmem : d ∈ base path :=
    dropVersion_subset _ (dropLeading_subset _ (dropTrailing_subset _ hd))
  exact nameChar_plain fun heq => not_mem_base path (heq ▸ hmem)

/-- A name without slashes, hyphens and dots implies itself. -/
theorem chars_of_isPlain (h : IsPlain path) : chars path = path := by
  have hslash : '/' ∉ path := fun hmem => (h _ hmem).1 rfl
  have hhyphen : '-' ∉ path := fun hmem => (h _ hmem).2.1 rfl
  have hdot : '.' ∉ path := fun hmem => (h _ hmem).2.2 rfl
  rw [chars, base_of_not_mem hslash, dropVersion_of_not_mem hdot, dropLeading_of_not_mem hhyphen,
    dropTrailing_of_not_mem hhyphen]
  refine (List.map_congr_left fun c hc => ?_).trans (List.map_id path)
  exact if_neg (not_or.mpr (h c hc).2)

/-! ## The implied name -/

theorem ofPath_congr {path other : String} (h : base other.toList = base path.toList) :
    ofPath other = ofPath path := by
  rw [ofPath, ofPath, chars, chars, h]

theorem isMajorVersion_digits {digits : String} (hne : digits ≠ "")
    (hdigits : ∀ c ∈ digits.toList, c.isDigit = true) :
    isMajorVersion ('v' :: digits.toList) = true ∧ '/' ∉ 'v' :: digits.toList := by
  refine ⟨?_, fun hmem => ?_⟩
  · rw [isMajorVersion, Bool.and_eq_true, List.all_eq_true]
    refine ⟨?_, hdigits⟩
    simpa using hne
  · rcases List.mem_cons.mp hmem with heq | hmem
    · cases heq
    · exact absurd (hdigits _ hmem) (by decide)

/-- The name that a path implies has neither slashes nor hyphens nor dots, and implies itself. It
depends on the last two elements of the path alone, and it is the same with a major version behind
the path, unless the path ends in one that stands behind another element. -/
theorem impliesName (path : String) : ImpliesName path where
  plain := by
    rw [ofPath, String.toList_ofList]
    exact isPlain_chars path.toList
  fixed := by
    rw [ofPath, ofPath, String.toList_ofList, chars_of_isPlain (isPlain_chars path.toList)]
  ends other h := by
    refine ofPath_congr ?_
    rw [base_eq_ofLastTwo, base_eq_ofLastTwo, h]
  version digits hne hdigits h := by
    obtain ⟨hversion, hslash⟩ := isMajorVersion_digits hne hdigits
    refine ofPath_congr ?_
    have htext : (path ++ "/v" ++ digits).toList = path.toList ++ '/' :: 'v' :: digits.toList := by
      simp
    rw [htext, base_append_version _ hslash hversion, base_of_not_endsInVersion h]

-- behind a major version another one does count: the first of them names the package
example : ofPath "go-chi/chi/v5" = "chi" ∧ ofPath "go-chi/chi/v5/v6" = "v5" ∧ ofPath "v5" = "v5" ∧
    ofPath "/v5" = "" ∧ ofPath "gopkg.in/go-yaml.v3" = "yaml" := by
  decide +kernel

end GoSignatures.PackageName
