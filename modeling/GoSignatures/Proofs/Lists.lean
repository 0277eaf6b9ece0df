import Mathlib.Data.List.Flatten
import Mathlib.Data.List.Forall2
import Mathlib.Data.List.Nodup

/-!
# Lists with keys, counts and runs

* `lookup_eq_some_iff_mem` — what stands beside a key in a list with distinct keys
* `countP_lt_countP` — a stronger test that fails somewhere counts less
* `prefix_modify` — a change behind a prefix leaves the prefix
* `foldlM_error` — an error of a run is the error of a step
* `length_flatMap_lt` — longer parts make a longer whole
* `nodup_eraseDups` — a list without its repetitions is distinct
* `mergeSort_congr` — sorting texts forgets their order
* `find?_filter_eq` — a search in the part of a list where the test may hold
* `mem_filterMap_iff` — what is found in a list by a partial inverse
* `mapM_eq_some_iff` — a function that may fail succeeds on a list element by element
* `exists_forall₂` — a list for all of what each element has
* `forall₂_filter`, `forall₂_mergeSort` — corresponding lists, filtered and sorted
* `exists_forall₂_of_filter` — lists that correspond to the parts of a list, put together
-/

namespace GoSignatures

/-- In a list with distinct keys a key is found with the value that it stands beside. -/
theorem lookup_eq_some_iff_mem {α β : Type} [BEq α] [LawfulBEq α] {l : List (α × β)}
    (h : (l.map Prod.fst).Nodup) {a : α} {b : β} : l.lookup a = some b ↔ (a, b) ∈ l := by
  induction l with
  | nil => simp
  | cons e l ih =>
    obtain ⟨k, v⟩ := e
    obtain ⟨hk, hl⟩ := List.nodup_cons.mp h
    rw [List.lookup_cons]
    by_cases hak : a = k
    · subst hak
      have hnot : (a, b) ∉ l := fun hm => hk (List.mem_map.mpr ⟨_, hm, rfl⟩)
      simp [hnot, eq_comm]
    · have hbeq : (a == k) = false := by simpa using hak
      simp [hbeq, hak, ih hl]

theorem countP_lt_countP {α : Type} {p q : α → Bool} {l : List α}
    (hpq : ∀ a ∈ l, p a = true → q a = true) {a : α} (ha : a ∈ l) (hp : p a = false)
    (hq : q a = true) : l.countP p < l.countP q := by
  obtain ⟨l₁, l₂, rfl⟩ := List.append_of_mem ha
  have h₁ : l₁.countP p ≤ l₁.countP q :=
    List.countP_mono_left fun x hx => hpq x (List.mem_append_left _ hx)
  have h₂ : l₂.countP p ≤ l₂.countP q :=
    List.countP_mono_left fun x hx =>
      hpq x (List.mem_append_right _ (List.mem_cons_of_mem _ hx))
  simp only [List.countP_append, List.countP_cons, hp, hq, if_true, Bool.false_eq_true, if_false]
  omega

theorem prefix_modify {α : Type} {l l' : List α} (h : l <+: l') {i : Nat} (hi : l.length ≤ i)
    (f : α → α) : l <+: l'.modify i f := by
  rw [List.prefix_iff_getElem?] at h ⊢
  intro j hj
  have hne : ¬ i = j := by omega
  rw [List.getElem?_modify, h j hj]
  simp [hne]

/-- What the errors of all steps have in common, the error of a run through a list has too. -/
theorem foldlM_error {ε α σ : Type} {f : σ → α → Except ε σ} {P : ε → Prop}
    (hstep : ∀ s a e, f s a = .error e → P e) :
    ∀ (l : List α) (s : σ) (e : ε), l.foldlM f s = .error e → P e
  | [], _, _, h => by cases h
  | a :: l, s, e, h => by
    rw [List.foldlM_cons] at h
    cases hf : f s a with
    | error e' =>
      rw [hf] at h
      cases h
      exact hstep s a _ hf
    | ok s' =>
      rw [hf] at h
      exact foldlM_error hstep l s' e h

theorem length_flatMap_lt {α β : Type} {f g : α → List β} {l : List α}
    (hsub : ∀ a ∈ l, (f a).Sublist (g a)) {a : α} (ha : a ∈ l) (hne : f a ≠ g a) :
    (l.flatMap f).length < (l.flatMap g).length := by
  obtain ⟨l₁, l₂, rfl⟩ := List.append_of_mem ha
  have h₁ : (l₁.flatMap f).length ≤ (l₁.flatMap g).length :=
    (List.Sublist.flatMap_right l₁ fun b hb => hsub b (List.mem_append_left _ hb)).length_le
  have h₂ : (l₂.flatMap f).length ≤ (l₂.flatMap g).length :=
    (List.Sublist.flatMap_right l₂ fun b hb =>
      hsub b (List.mem_append_right _ (List.mem_cons_of_mem _ hb))).length_le
  have h : (f a).length < (g a).length :=
    Nat.lt_of_le_of_ne (hsub a ha).length_le fun hlength => hne ((hsub a ha).eq_of_length hlength)
  simp only [List.flatMap_append, List.flatMap_cons, List.length_append]
  omega

theorem nodup_eraseDups {α : Type} [BEq α] [LawfulBEq α] : ∀ l : List α, l.eraseDups.Nodup
  | [] => by simp
  | a :: l => by
    rw [List.eraseDups_cons]
    refine List.nodup_cons.mpr ⟨fun hmem => ?_, nodup_eraseDups _⟩
    simp at hmem
termination_by l => l.length
decreasing_by exact Nat.lt_succ_of_le (List.length_filter_le _ l)

theorem pairwise_mergeSort_texts (l : List String) : l.mergeSort.Pairwise (· ≤ ·) := by
  have h := @List.pairwise_mergeSort String (fun a b => decide (a ≤ b))
    (fun a b c => by simpa using String.le_trans) (fun a b => by simpa using String.le_total a b) l
  simpa using h

theorem mergeSort_congr {l l' : List String} (h : l.Perm l') : l.mergeSort = l'.mergeSort :=
  List.Perm.eq_of_pairwise (fun _ _ _ _ => String.le_antisymm) (pairwise_mergeSort_texts l)
    (pairwise_mergeSort_texts l')
    (((List.mergeSort_perm l _).trans h).trans (List.mergeSort_perm l' _).symm)

theorem mapM_eq_some_iff {α β : Type} {f : α → Option β} {l : List α} {l' : List β} :
    l.mapM f = some l' ↔ List.Forall₂ (fun a b => f a = some b) l l' := by
  induction l generalizing l' with
  | nil =>
    rw [List.mapM_nil, List.forall₂_nil_left_iff, Option.pure_def, Option.some.injEq, eq_comm]
  | cons a l ih =>
    simp only [List.mapM_cons, Option.bind_eq_bind, Option.bind_eq_some_iff, Option.pure_def,
      Option.some.injEq, List.forall₂_cons_left_iff, ih]
    constructor
    · rintro ⟨b, hb, l'', hl, rfl⟩
      exact ⟨b, l'', hb, hl, rfl⟩
    · rintro ⟨b, l'', hb, hl, rfl⟩
      exact ⟨b, hb, l'', hl, rfl⟩

/-- Where each result comes from one element, a result is found if that element is in the list. -/
theorem mem_filterMap_iff {α β : Type} {f : α → Option β} {g : β → α}
    (h : ∀ a b, f a = some b ↔ a = g b) {l : List α} {b : β} : b ∈ l.filterMap f ↔ g b ∈ l := by
  rw [List.mem_filterMap]
  constructor
  · rintro ⟨a, ha, hb⟩
    exact (h a b).mp hb ▸ ha
  · exact fun hb => ⟨g b, hb, (h (g b) b).mpr rfl⟩

/-- Elements correspond in lists of which the same is left. -/
theorem forall₂_of_map_eq_map {α β γ : Type} {f : α → γ} {g : β → γ} {l : List α} {l' : List β}
    (h : l.map f = l'.map g) : List.Forall₂ (fun a b => f a = g b) l l' := by
  rwa [← List.forall₂_eq_eq_eq, List.forall₂_map_left_iff, List.forall₂_map_right_iff] at h

/-- What there is for each element there is for a whole list. -/
theorem exists_forall₂ {α β : Type} {R : β → α → Prop} {l : List α} (h : ∀ a ∈ l, ∃ b, R b a) :
    ∃ l', List.Forall₂ R l' l := by
  induction l with
  | nil => exact ⟨[], .nil⟩
  | cons a l ih =>
    obtain ⟨⟨b, hb⟩, hl⟩ := List.forall_mem_cons.mp h
    obtain ⟨l', hl'⟩ := ih hl
    exact ⟨b :: l', .cons hb hl'⟩

/-- What the results are called is what the elements are called. -/
theorem map_eq_of_mapM {α β γ : Type} {f : α → Option β} {l : List α} {l' : List β}
    (h : l.mapM f = some l') {g : β → γ} {k : α → γ} (hg : ∀ a b, f a = some b → g b = k a) :
    l'.map g = l.map k := by
  have heq := (mapM_eq_some_iff.mp h).imp fun a b hab => (hg a b hab).symm
  rw [← List.forall₂_eq_eq_eq, List.forall₂_map_left_iff, List.forall₂_map_right_iff]
  exact heq.flip.imp fun _ _ h => h.symm

theorem exists_of_mem_mapM {α β : Type} {f : α → Option β} {l : List α} {l' : List β}
    (h : l.mapM f = some l') {b : β} (hb : b ∈ l') : ∃ a ∈ l, f a = some b := by
  induction mapM_eq_some_iff.mp h with
  | nil => cases hb
  | cons hab hrest ih =>
    rcases List.mem_cons.mp hb with rfl | hb
    · exact ⟨_, List.mem_cons_self, hab⟩
    · obtain ⟨a, ha, hab⟩ := ih (mapM_eq_some_iff.mpr hrest) hb
      exact ⟨a, List.mem_cons_of_mem _ ha, hab⟩

theorem exists_of_mapM_of_mem {α β : Type} {f : α → Option β} {l : List α} {l' : List β}
    (h : l.mapM f = some l') {a : α} (ha : a ∈ l) : ∃ b ∈ l', f a = some b := by
  induction mapM_eq_some_iff.mp h with
  | nil => cases ha
  | cons hab hrest ih =>
    rcases List.mem_cons.mp ha with rfl | ha
    · exact ⟨_, List.mem_cons_self, hab⟩
    · obtain ⟨b, hb, hab⟩ := ih (mapM_eq_some_iff.mpr hrest) ha
      exact ⟨b, List.mem_cons_of_mem _ hb, hab⟩

theorem find?_filter_eq {α : Type} {l : List α} {keep test : α → Bool}
    (h : ∀ a ∈ l, test a = true → keep a = true) : (l.filter keep).find? test = l.find? test := by
  rw [List.find?_filter]
  induction l with
  | nil => rfl
  | cons a l ih =>
    obtain ⟨ha, hl⟩ := List.forall_mem_cons.mp h
    rw [List.find?_cons, List.find?_cons, ih hl]
    cases htest : test a with
    | true => simp [ha htest]
    | false => simp

theorem lookup_eq_map_find? {α β : Type} [BEq α] (l : List (α × β)) (key : α) :
    l.lookup key = (l.find? fun a => key == a.1).map Prod.snd := by
  induction l with
  | nil => rfl
  | cons a l ih =>
    rw [List.lookup_cons, List.find?_cons, ih]
    cases key == a.1 <;> rfl

/-! ## Lists that correspond -/

section

variable {α β γ : Type} {S : α → β → Prop} {l : List α} {l' : List β} (h : List.Forall₂ S l l')
include h

theorem map_eq_map_of_forall₂ {f : α → γ} {g : β → γ} (hfg : ∀ a b, S a b → f a = g b) :
    l.map f = l'.map g := by
  induction h with
  | nil => rfl
  | cons hab _ ih => rw [List.map_cons, List.map_cons, hfg _ _ hab, ih]

theorem forall₂_filter {p : α → Bool} {p' : β → Bool} (hp : ∀ a b, S a b → p a = p' b) :
    List.Forall₂ (fun a b => S a b ∧ p a = true) (l.filter p) (l'.filter p') := by
  induction h with
  | nil => exact .nil
  | cons hab _ ih =>
    rw [List.filter_cons, List.filter_cons, ← hp _ _ hab]
    split
    · next htrue => exact .cons ⟨hab, htrue⟩ ih
    · exact ih

/-- Lists that correspond do so when they are sorted, if their elements are ordered alike. -/
theorem forall₂_mergeSort {le : α → α → Bool} {le' : β → β → Bool}
    (hle : ∀ a a' b b', S a a' → S b b' → le a b = le' a' b') :
    List.Forall₂ S (l.mergeSort le) (l'.mergeSort le') := by
  obtain ⟨hlength, hpairs⟩ := List.forall₂_iff_zip.mp h
  -- both are the sorted list of pairs, read on either side
  have hleft : ((l.zip l').mergeSort fun z w => le z.1 w.1).map Prod.fst = l.mergeSort le := by
    rw [List.map_mergeSort (s := le) (f := Prod.fst) fun _ _ _ _ => rfl,
      List.map_fst_zip (Nat.le_of_eq hlength)]
  have hright : ((l.zip l').mergeSort fun z w => le z.1 w.1).map Prod.snd = l'.mergeSort le' := by
    rw [List.map_mergeSort (s := le') (f := Prod.snd) fun z hz w hw =>
      hle _ _ _ _ (hpairs hz) (hpairs hw), List.map_snd_zip (Nat.le_of_eq hlength.symm)]
  rw [← hleft, ← hright, List.forall₂_map_left_iff, List.forall₂_map_right_iff, List.forall₂_same]
  exact fun z hz => hpairs (List.mem_mergeSort.mp hz)

end

/-- Two lists that correspond to the parts of a list can be put together as those parts are. -/
theorem exists_forall₂_of_filter {α β : Type} {S : α → β → Prop} {p : α → Bool} {p' : β → Bool}
    (hp : ∀ a b, S a b → p a = p' b) {l' : List β} {left right : List α}
    (hleft : List.Forall₂ S left (l'.filter p'))
    (hright : List.Forall₂ S right (l'.filter fun b => !p' b)) :
    ∃ l, List.Forall₂ S l l' ∧ l.filter p = left ∧ (l.filter fun a => !p a) = right := by
  induction l' generalizing left right with
  | nil =>
    cases hleft
    cases hright
    exact ⟨[], .nil, rfl, rfl⟩
  | cons b l' ih =>
    rw [List.filter_cons] at hleft hright
    cases hb : p' b with
    | true =>
      simp only [hb, if_true, Bool.not_true, Bool.false_eq_true, if_false] at hleft hright
      cases hleft with
      | @cons a _ left _ hab hleft =>
        obtain ⟨l, hl, rfl, rfl⟩ := ih hleft hright
        have ha : p a = true := (hp a b hab).trans hb
        exact ⟨a :: l, .cons hab hl, by simp [ha], by simp [ha]⟩
    | false =>
      simp only [hb, if_true, Bool.not_false, Bool.false_eq_true, if_false] at hleft hright
      cases hright with
      | @cons a _ right _ hab hright =>
        obtain ⟨l, hl, rfl, rfl⟩ := ih hleft hright
        have ha : p a = false := (hp a b hab).trans hb
        exact ⟨a :: l, .cons hab hl, by simp [ha], by simp [ha]⟩

end GoSignatures
