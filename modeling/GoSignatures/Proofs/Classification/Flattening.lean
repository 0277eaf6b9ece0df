import GoSignatures.Proofs.Classification.Embedding

/-!
# The computed method set

The computation of a method set walks through what an interface embeds, with the methods found and
the declared types entered as its state. Each step only adds methods that are declared by what the
walk goes through, and whatever declared type it enters it also covers. So at the end everything
that is reached is covered.

* `Methods.Gathers` — what a step of the walk does to the state
* `Methods.addInterface_gathers` — and that each does so
* `Table.methodSetOf_of_methodSet?` — what is computed is a method set
* `Table.exists_methodSet?` — and an interface that has one gets it
-/

namespace GoSignatures

variable {t : Table}

/-! ## Adding methods -/

namespace Methods

theorem add_cons (s : Methods) (m : Method) (ms : List Method) :
    s.add (m :: ms) =
      if m.name ∈ s.found.map Method.name then s.add ms
      else ({ s with found := s.found ++ [m] } : Methods).add ms := by
  have hany : (s.found.any fun m' => m'.name == m.name) = true ↔
      m.name ∈ s.found.map Method.name := by
    simp [List.any_eq_true]
  simp only [add, List.foldl_cons]
  by_cases h : m.name ∈ s.found.map Method.name
  · rw [if_pos h, if_pos (hany.mpr h)]
  · rw [if_neg h, if_neg (fun h' => h (hany.mp h'))]

theorem subset_add (s : Methods) (ms : List Method) : s.found ⊆ (s.add ms).found := by
  induction ms generalizing s with
  | nil => exact List.Subset.refl _
  | cons m ms ih =>
    rw [add_cons]
    split
    · exact ih s
    · exact List.Subset.trans (List.subset_append_left s.found [m]) (ih ⟨s.found ++ [m], s.entered⟩)

theorem mem_add {s : Methods} {ms : List Method} {m : Method} (h : m ∈ (s.add ms).found) :
    m ∈ s.found ∨ m ∈ ms := by
  induction ms generalizing s with
  | nil => exact Or.inl h
  | cons m' ms ih =>
    rw [add_cons] at h
    split at h
    · exact (ih h).imp_right (List.mem_cons_of_mem _)
    · rcases ih h with h | h
      · rcases List.mem_append.mp h with h | h
        · exact Or.inl h
        · exact Or.inr (List.mem_singleton.mp h ▸ List.mem_cons_self)
      · exact Or.inr (List.mem_cons_of_mem _ h)

/-- A method is added only if no method of its name is there. -/
theorem nodup_add {s : Methods} (ms : List Method) (h : (s.found.map Method.name).Nodup) :
    ((s.add ms).found.map Method.name).Nodup := by
  induction ms generalizing s with
  | nil => exact h
  | cons m ms ih =>
    rw [add_cons]
    split
    · exact ih h
    · next hnew =>
      refine ih ?_
      rw [List.map_append, List.nodup_append]
      refine ⟨h, List.nodup_singleton _, fun a ha b hb hab => hnew ?_⟩
      rw [List.map_singleton, List.mem_singleton] at hb
      exact hb ▸ hab ▸ ha

/-- Every name is there afterwards, even if it is another method that has it. -/
theorem map_name_subset_add (s : Methods) (ms : List Method) :
    ms.map Method.name ⊆ (s.add ms).found.map Method.name := by
  induction ms generalizing s with
  | nil => exact List.nil_subset _
  | cons m ms ih =>
    rw [add_cons, List.map_cons, List.cons_subset]
    split
    · next hold => exact ⟨List.map_subset _ (subset_add s ms) hold, ih s⟩
    · refine ⟨List.map_subset _ (subset_add _ ms) ?_, ih _⟩
      simp

/-! ## What a step does -/

/-- From `s` to `s'` only methods of interfaces in `source` were found, each name once, and every
declared type that was entered is covered. -/
structure Gathers (t : Table) (source : Interface → Prop) (s s' : Methods) : Prop where
  found : s.found ⊆ s'.found
  entered : s.entered ⊆ s'.entered
  declared : ∀ m ∈ s'.found, m ∈ s.found ∨ ∃ k, source k ∧ m ∈ k.methods
  distinct : (s.found.map Method.name).Nodup → (s'.found.map Method.name).Nodup
  covered : ∀ id ∈ s'.entered, id ∈ s.entered ∨
    ∃ args j, t.underlying (.named id args) = .interface j ∧ j.Covered s'

theorem Gathers.refl (source : Interface → Prop) (s : Methods) : Gathers t source s s :=
  ⟨List.Subset.refl _, List.Subset.refl _, fun _ h => Or.inl h, id, fun _ h => Or.inl h⟩

theorem Gathers.mono {P Q : Interface → Prop} (hPQ : ∀ k, P k → Q k) {s s' : Methods}
    (h : Gathers t P s s') : Gathers t Q s s' :=
  ⟨h.found, h.entered,
    fun m hm => (h.declared m hm).imp_right fun ⟨k, hk, hmem⟩ => ⟨k, hPQ k hk, hmem⟩,
    h.distinct, h.covered⟩

/-- Steps are put together: what the first one entered and covered stays covered in the second. -/
theorem Gathers.trans {source : Interface → Prop} {s₁ s₂ s₃ : Methods}
    (h₁ : Gathers t source s₁ s₂) (h₂ : Gathers t source s₂ s₃) : Gathers t source s₁ s₃ where
  found := List.Subset.trans h₁.found h₂.found
  entered := List.Subset.trans h₁.entered h₂.entered
  declared m hm := by
    rcases h₂.declared m hm with hm | hm
    · exact h₁.declared m hm
    · exact Or.inr hm
  distinct h := h₂.distinct (h₁.distinct h)
  covered id hid := by
    rcases h₂.covered id hid with hid | hid
    · rcases h₁.covered id hid with hid | ⟨args, j, hj, hcovered⟩
      · exact Or.inl hid
      · exact Or.inr ⟨args, j, hj, hcovered.mono (List.map_subset _ h₂.found) h₂.entered⟩
    · exact Or.inr hid

theorem gathers_add {i : Interface} {source : Interface → Prop} (hi : source i) (s : Methods) :
    Gathers t source s (s.add i.methods) where
  found := subset_add s i.methods
  entered := List.Subset.refl _
  declared _ hm := (mem_add hm).imp_right fun hm => ⟨i, hi, hm⟩
  distinct := nodup_add i.methods
  covered _ hid := Or.inl hid

/-! ## That each step does so -/

section

variable {enter : Enter}
  (henter : ∀ id args s s', enter id args s = some s' →
    Gathers t (t.Leads (.named id args)) s s' ∧ id ∈ s'.entered)
include henter

-- each lemma of the block has the assumptions for the others, which the linter does not see
set_option linter.unusedSectionVars false in
mutual

/-- The four lemmas follow the walk, given that entering a declared type gathers at the depth
below. -/
theorem addInterface_gathers : ∀ (i : Interface) (s s' : Methods),
    addInterface enter i s = some s' → Gathers t (t.Reaches i) s s' ∧ i.Covered s'
  | ⟨methods, embeddeds, comparable⟩, s, s', h => by
    simp only [addInterface, Option.ite_none_left_eq_some] at h
    obtain ⟨hcomparable, h⟩ := h
    obtain ⟨hgathers, hcovered⟩ := addEmbeddeds_gathers embeddeds _ _ h
    have hleads : ∀ k, (∃ type, .type type ∈ embeddeds ∧ t.Leads type k) →
        t.Reaches ⟨methods, embeddeds, comparable⟩ k := by
      rintro k ⟨type, hmem, j, hj, hk⟩
      exact .embedded hmem hj hk
    refine ⟨(gathers_add (.refl _) s).trans (hgathers.mono hleads), by simpa using hcomparable,
      ?_, hcovered⟩
    exact List.Subset.trans (map_name_subset_add s methods) (List.map_subset _ hgathers.found)
termination_by structural i => i

theorem addEmbeddeds_gathers : ∀ (es : List Embedded) (s s' : Methods),
    addEmbeddeds enter es s = some s' →
      Gathers t (fun k => ∃ type, .type type ∈ es ∧ t.Leads type k) s s' ∧
        Embedded.AllCovered s' es
  | [], s, s', h => by
    cases h
    exact ⟨.refl _ _, trivial⟩
  | .type type :: es, s, s', h => by
    obtain ⟨s₁, h₁, h₂⟩ := Option.bind_eq_some_iff.mp h
    obtain ⟨hgathers, hcovered⟩ := addType_gathers type s s₁ h₁
    obtain ⟨hgathers', hcovered'⟩ := addEmbeddeds_gathers es s₁ s' h₂
    refine ⟨(hgathers.mono fun k hk => ⟨type, List.mem_cons_self, hk⟩).trans
      (hgathers'.mono fun k ⟨type', hmem, hk⟩ => ⟨type', List.mem_cons_of_mem _ hmem, hk⟩), ?_,
      hcovered'⟩
    exact hcovered.mono (List.map_subset _ hgathers'.found) hgathers'.entered
  | .union _ :: _, _, _, h => by cases h
termination_by structural es => es

theorem addType_gathers : ∀ (type : Ty) (s s' : Methods),
    addType enter type s = some s' → Gathers t (t.Leads type) s s' ∧ type.Covered s'
  | .named id args, s, s', h => henter id args s s' h
  | .interface iface, s, s', h => by
    obtain ⟨hgathers, hcovered⟩ := addInterface_gathers iface s s' h
    exact ⟨hgathers.mono fun k hk => ⟨iface, rfl, hk⟩, hcovered⟩
  | .imported path name underlying, s, s', h => addKnown_gathers underlying path name s s' h
  | .basic _, _, _, h | .param _, _, _, h | .pointer _, _, _, h | .slice _, _, _, h
  | .array _ _, _, _, h | .map _ _, _, _, h | .chan _ _, _, _, h | .func _, _, _, h
  | .struct _, _, _, h | .invalid, _, _, h => by cases h
termination_by structural type => type

theorem addKnown_gathers : ∀ (underlying : Option Ty) (path name : String) (s s' : Methods),
    addKnown enter underlying s = some s' →
      Gathers t (t.Leads (.imported path name underlying)) s s' ∧ Ty.KnownCovered s' underlying
  | none, _, _, _, _, h => by cases h
  | some type, _, _, s, s', h => addType_gathers type s s' h
termination_by structural underlying => underlying

end

end

/-- By induction on the depth. A declared type that was entered before adds nothing. -/
theorem addNamed_gathers (depth id : Nat) (args : List Ty) (s s' : Methods)
    (h : addNamed t depth id args s = some s') :
    Gathers t (t.Leads (.named id args)) s s' ∧ id ∈ s'.entered := by
  induction depth generalizing id args s s' with
  | zero =>
    simp only [addNamed, Option.ite_none_right_eq_some, Option.some.injEq] at h
    obtain ⟨hid, rfl⟩ := h
    exact ⟨.refl _ _, List.contains_iff_mem.mp hid⟩
  | succ depth ih =>
    rw [addNamed] at h
    split at h
    · next hid =>
      cases h
      exact ⟨.refl _ _, List.contains_iff_mem.mp hid⟩
    · split at h
      · next iface hiface =>
        obtain ⟨hgathers, hcovered⟩ := addInterface_gathers ih iface _ _ h
        have hid : id ∈ s'.entered := hgathers.entered List.mem_cons_self
        refine ⟨⟨hgathers.found, fun _ h => hgathers.entered (List.mem_cons_of_mem _ h), ?_,
          hgathers.distinct, ?_⟩, hid⟩
        · intro m hm
          exact (hgathers.declared m hm).imp_right fun ⟨k, hk, hmem⟩ =>
            ⟨k, ⟨iface, hiface, hk⟩, hmem⟩
        · intro id' hid'
          rcases hgathers.covered id' hid' with hid' | hid'
          · rcases List.mem_cons.mp hid' with rfl | hid'
            · exact Or.inr ⟨args, iface, hiface, hcovered⟩
            · exact Or.inl hid'
          · exact Or.inr hid'
      · cases h

end Methods

/-! ## What is reached is covered -/

theorem Embedded.AllCovered.type {s : Methods} {es : List Embedded} (h : Embedded.AllCovered s es) :
    ∀ e ∈ es, ∃ type, e = .type type ∧ type.Covered s := by
  induction es with
  | nil => exact List.forall_mem_nil _
  | cons e es ih =>
    cases e with
    | type type => exact List.forall_mem_cons.mpr ⟨⟨type, rfl, h.1⟩, ih h.2⟩
    | union terms => exact h.elim

section

variable {s : Methods} (hentered : ∀ id ∈ s.entered, ∀ args, ∃ j,
  t.underlying (.named id args) = .interface j ∧ j.Covered s)
include hentered

/-- A covered type is an interface all of which is covered. -/
theorem Ty.Covered.interface : ∀ {type : Ty}, type.Covered s →
    ∃ j, t.underlying type = .interface j ∧ j.Covered s
  | .named id args, h => hentered id h args
  | .interface iface, h => ⟨iface, rfl, h⟩
  | .imported _ _ (some type), h => @Ty.Covered.interface type h
  | .imported _ _ none, h => h.elim

/-- Where every declared type that is entered is covered, so is all that a covered interface
reaches. -/
theorem Interface.Covered.of_reaches {i k : Interface} (hi : i.Covered s) (h : t.Reaches i k) :
    k.Covered s := by
  refine h.invariant (fun i type j hi hmem hj => ?_) hi
  obtain ⟨methods, embeddeds, comparable⟩ := i
  obtain ⟨type', htype, hcovered⟩ := hi.2.2.type (.type type) hmem
  cases htype
  obtain ⟨j', hj', hcovered⟩ := hcovered.interface hentered
  rw [hj, Ty.interface.injEq] at hj'
  exact hj' ▸ hcovered

theorem Interface.Covered.embedsInterfaces {i : Interface} (h : i.Covered s) :
    t.EmbedsInterfaces i := by
  obtain ⟨methods, embeddeds, comparable⟩ := i
  refine ⟨h.1, fun e he => ?_⟩
  obtain ⟨type, rfl, hcovered⟩ := h.2.2.type e he
  obtain ⟨j, hj, -⟩ := hcovered.interface hentered
  exact ⟨type, j, rfl, hj⟩

end

/-- A method set that is computed is one. -/
theorem Table.methodSetOf_of_methodSet? (hno : t.EmbedsNoParam) {i : Interface} {ms : List Method}
    (h : t.methodSet? i = some ms) : t.HasMethodSet i ∧ t.MethodSetOf i ms := by
  obtain ⟨s, hs, rfl⟩ := Option.map_eq_some_iff.mp h
  obtain ⟨hgathers, hcovered⟩ :=
    Methods.addInterface_gathers (Methods.addNamed_gathers t.size) i .empty s hs
  have hentered : ∀ id ∈ s.entered, ∀ args, ∃ j,
      t.underlying (.named id args) = .interface j ∧ j.Covered s := by
    intro id hid args
    obtain ⟨args', j, hj, hj'⟩ := (hgathers.covered id hid).resolve_left List.not_mem_nil
    exact Table.covered_instance hno hj hj'
  have hreached : ∀ k, t.Reaches i k → k.Covered s := fun k hk => hcovered.of_reaches hentered hk
  refine ⟨fun k hk => (hreached k hk).embedsInterfaces hentered, ?_, ?_, ?_⟩
  · exact fun m hm => (hgathers.declared m hm).resolve_left List.not_mem_nil
  · exact hgathers.distinct List.nodup_nil
  · rintro ⟨methods, embeddeds, comparable⟩ hk m hm
    exact (hreached _ hk).2.1 (List.mem_map_of_mem hm)

/-! ## That a method set is computed -/

/-- How many declared types are not entered yet. -/
def Table.unentered (t : Table) (entered : List Nat) : Nat :=
  (List.range t.size).countP fun id => !entered.contains id

/-- Entering a new declared type leaves fewer of them. This bounds the depth of the walk. -/
theorem Table.unentered_cons_lt {id : Nat} {entered : List Nat} (hsize : id < t.size)
    (hid : id ∉ entered) : t.unentered (id :: entered) < t.unentered entered := by
  refine countP_lt_countP (fun a _ ha => ?_) (List.mem_range.mpr hsize) ?_ ?_
  · simp only [List.contains_eq_mem, Bool.not_eq_true', decide_eq_false_iff_not] at ha ⊢
    exact fun h => ha (List.mem_cons_of_mem _ h)
  · simp
  · simpa using hid

theorem Table.unentered_le_of_subset {entered entered' : List Nat} (h : entered ⊆ entered') :
    t.unentered entered' ≤ t.unentered entered := by
  refine List.countP_mono_left fun id _ hid => ?_
  simp only [List.contains_eq_mem, Bool.not_eq_true', decide_eq_false_iff_not] at hid ⊢
  exact fun hmem => hid (h hmem)

theorem Table.unentered_nil : t.unentered [] = t.size := by
  simp [unentered]

theorem Table.lt_size_of_underlying {id : Nat} {args : List Ty} {j : Interface}
    (h : t.underlying (.named id args) = .interface j) : id < t.size := by
  by_contra hsize
  have hnone : t.entries[id]? = none := List.getElem?_eq_none (Nat.le_of_not_lt hsize)
  simp [Table.underlying, Table.instance?, Table.underlying?, Table.get?, hnone] at h

namespace Methods

section

variable {depth : Nat} {enter : Enter}
  (henter : ∀ id args s s', enter id args s = some s' →
    Gathers t (t.Leads (.named id args)) s s' ∧ id ∈ s'.entered)
  (htotal : ∀ id args s j, t.underlying (.named id args) = .interface j → t.HasMethodSet j →
    t.unentered s.entered ≤ depth → ∃ s', enter id args s = some s')
include henter htotal

-- each lemma of the block has the assumptions for the others, which the linter does not see
set_option linter.unusedSectionVars false in
mutual

/-- The walk does not fail, given that entering a declared type does not fail at the depth below. -/
theorem exists_addInterface : ∀ (i : Interface) (s : Methods), t.HasMethodSet i →
    t.unentered s.entered ≤ depth → ∃ s', addInterface enter i s = some s'
  | ⟨methods, embeddeds, comparable⟩, s, hi, hdepth => by
    obtain ⟨hcomparable, hembeds⟩ := hi _ (.refl _)
    rw [addInterface, if_neg (by simpa using hcomparable)]
    refine exists_addEmbeddeds embeddeds _ (fun e he => ?_) hdepth
    obtain ⟨type, j, rfl, hj⟩ := hembeds e he
    exact ⟨type, j, rfl, hj, hi.embedded he hj⟩
termination_by structural i => i

theorem exists_addEmbeddeds : ∀ (es : List Embedded) (s : Methods),
    (∀ e ∈ es, ∃ type j, e = .type type ∧ t.underlying type = .interface j ∧ t.HasMethodSet j) →
    t.unentered s.entered ≤ depth → ∃ s', addEmbeddeds enter es s = some s'
  | [], s, _, _ => ⟨s, rfl⟩
  | .type type :: es, s, hes, hdepth => by
    obtain ⟨⟨type', j, htype, hj, hset⟩, hes⟩ := List.forall_mem_cons.mp hes
    cases htype
    obtain ⟨s₁, h₁⟩ := exists_addType type s j hj hset hdepth
    have hentered := (addType_gathers henter type s s₁ h₁).1.entered
    obtain ⟨s₂, h₂⟩ := exists_addEmbeddeds es s₁ hes
      (Nat.le_trans (Table.unentered_le_of_subset hentered) hdepth)
    exact ⟨s₂, Option.bind_eq_some_iff.mpr ⟨s₁, h₁, h₂⟩⟩
  | .union _ :: _, _, hes, _ => by
    obtain ⟨⟨type, j, htype, -⟩, -⟩ := List.forall_mem_cons.mp hes
    cases htype
termination_by structural es => es

theorem exists_addType : ∀ (type : Ty) (s : Methods) (j : Interface),
    t.underlying type = .interface j → t.HasMethodSet j → t.unentered s.entered ≤ depth →
      ∃ s', addType enter type s = some s'
  | .named id args, s, j, hj, hset, hdepth => htotal id args s j hj hset hdepth
  | .interface iface, s, j, hj, hset, hdepth => by
    cases hj
    exact exists_addInterface iface s hset hdepth
  | .imported path name underlying, s, j, hj, hset, hdepth =>
    exists_addKnown underlying path name s j hj hset hdepth
  | .basic _, _, _, hj, _, _ | .param _, _, _, hj, _, _ | .pointer _, _, _, hj, _, _
  | .slice _, _, _, hj, _, _ | .array _ _, _, _, hj, _, _ | .map _ _, _, _, hj, _, _
  | .chan _ _, _, _, hj, _, _ | .func _, _, _, hj, _, _ | .struct _, _, _, hj, _, _
  | .invalid, _, _, hj, _, _ => by cases hj
termination_by structural type => type

theorem exists_addKnown : ∀ (underlying : Option Ty) (path name : String) (s : Methods)
    (j : Interface), t.underlying (.imported path name underlying) = .interface j →
      t.HasMethodSet j → t.unentered s.entered ≤ depth → ∃ s', addKnown enter underlying s = some s'
  | none, _, _, _, _, hj, _, _ => by cases hj
  | some type, _, _, s, j, hj, hset, hdepth => exists_addType type s j hj hset hdepth
termination_by structural underlying => underlying

end

end

/-- A depth is enough if it is no less than the number of types that are not entered yet. -/
theorem exists_addNamed (depth id : Nat) (args : List Ty) (s : Methods) (j : Interface)
    (hj : t.underlying (.named id args) = .interface j) (hset : t.HasMethodSet j)
    (hdepth : t.unentered s.entered ≤ depth) : ∃ s', addNamed t depth id args s = some s' := by
  have hsize := Table.lt_size_of_underlying hj
  induction depth generalizing id args s j with
  | zero =>
    by_cases hid : id ∈ s.entered
    · exact ⟨s, by rw [addNamed, if_pos (List.contains_iff_mem.mpr hid)]⟩
    · have hlt := Table.unentered_cons_lt hsize hid
      omega
  | succ depth ih =>
    by_cases hid : id ∈ s.entered
    · exact ⟨s, by rw [addNamed, if_pos (List.contains_iff_mem.mpr hid)]⟩
    · rw [addNamed, if_neg (fun h => hid (List.contains_iff_mem.mp h)), hj]
      refine exists_addInterface (addNamed_gathers depth) (fun id' args' s' j' hj' hset' hdepth' =>
        ih id' args' s' j' hj' hset' hdepth' (Table.lt_size_of_underlying hj')) j _ hset ?_
      exact Nat.le_of_lt_succ (Nat.lt_of_lt_of_le (Table.unentered_cons_lt hsize hid) hdepth)

end Methods

/-- An interface that has a method set gets one. -/
theorem Table.exists_methodSet? {i : Interface} (h : t.HasMethodSet i) :
    ∃ ms, t.methodSet? i = some ms := by
  obtain ⟨s, hs⟩ := Methods.exists_addInterface (Methods.addNamed_gathers t.size)
    (Methods.exists_addNamed t.size) i .empty h (Nat.le_of_eq Table.unentered_nil)
  exact ⟨s.found, by rw [Table.methodSet?, hs, Option.map_some]⟩

end GoSignatures
