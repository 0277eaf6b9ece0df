import GoSignatures.Classification.Representable
import GoSignatures.Proofs.Classification.Flattening
import GoSignatures.Proofs.Recursion.Framing
import GoSignatures.Proofs.Resolution.Referring
import GoSignatures.Proofs.Ty.Occurring

/-!
# The method set of interfaces that embed each other

Here the methods of an interface are collected without a bound on the depth. A declared type is
noted and looked into once, but what else is embedded is looked into each time: interface literals
and imported types, of which at most a basic kind or `error` is known. Interfaces may embed
themselves and each other, and under type arguments that grow on the way, so no type gets smaller.
What gets smaller is the number of declared types that are not noted yet, then the number of
imported types, one within another, of which more is known, then the interface at hand.

* `Methods.Collects` — the methods of an interface, where the recursion comes to an end
* `Table.FindsContract`, `Table.Describes` — the error contract and the description of a type
* `Ty.layers` — how many imported types of which more is known are within one another
* `Methods.Collects.unique` — there is one way for it to end
* `Methods.collect_ends` — collecting ends
* `Methods.collect_agrees` — and yields what is computed with a bound
* `Table.hasErrorContract_ends` — so do the error contract and the description
-/

namespace GoSignatures

/-! ## Collecting without a bound -/

namespace Methods

mutual

/-- Adding the methods of an interface and of all it embeds comes to an end, with the methods
collected then, or without if there is no method set. -/
inductive Collects (t : Table) : Interface → Methods → Option Methods → Prop
  | comparable {iface s} (h : iface.comparable = true) : Collects t iface s none
  | elements {iface s collected} (h : iface.comparable = false)
      (hall : CollectsAll t iface.embeddeds (s.add iface.methods) collected) :
      Collects t iface s collected

/-- Adding the methods of embedded elements, in order, comes to an end. -/
inductive CollectsAll (t : Table) : List Embedded → Methods → Option Methods → Prop
  | nil {s} : CollectsAll t [] s (some s)
  | union {terms es s} : CollectsAll t (.union terms :: es) s none
  | stop {type es s} (h : CollectsType t type s none) : CollectsAll t (.type type :: es) s none
  | cons {type es s s₁ collected} (h : CollectsType t type s (some s₁))
      (hes : CollectsAll t es s₁ collected) : CollectsAll t (.type type :: es) s collected

/-- Adding the methods of an embedded type comes to an end. A declared type is noted, and passed
over if it was noted before. -/
inductive CollectsType (t : Table) : Ty → Methods → Option Methods → Prop
  | noted {id args s} (h : id ∈ s.entered) : CollectsType t (.named id args) s (some s)
  | named {id args s collected} (h : id ∉ s.entered)
      (hunderlying : CollectsUnderlying t (.named id args) { s with entered := id :: s.entered }
        collected) :
      CollectsType t (.named id args) s collected
  | other {type s collected} (h : ∀ id args, type ≠ .named id args)
      (hunderlying : CollectsUnderlying t type s collected) : CollectsType t type s collected

/-- Adding the methods of the underlying type of a type comes to an end. There are none if it is no
interface. -/
inductive CollectsUnderlying (t : Table) : Ty → Methods → Option Methods → Prop
  | interface {type iface s collected} (h : t.underlying type = .interface iface)
      (hiface : Collects t iface s collected) : CollectsUnderlying t type s collected
  | other {type s} (h : ∀ iface, t.underlying type ≠ .interface iface) :
      CollectsUnderlying t type s none

end

/-- Whether the only method that was collected is the one of `error`. -/
def isContract (collected : Option Methods) : Bool :=
  match collected.map Methods.found with
  | some [m] => m.isError
  | _ => false

end Methods

/-- Finding out whether a type satisfies the error contract comes to an end, with the methods
collected without a bound. -/
inductive Table.FindsContract (t : Table) (type : Ty) : Bool → Prop
  | interface {iface collected} (h : t.underlying type = .interface iface)
      (hcollects : Methods.Collects t iface .empty collected) :
      FindsContract t type (Methods.isContract collected)
  | other (h : ∀ iface, t.underlying type ≠ .interface iface) : FindsContract t type false

/-- Describing a type comes to an end, with the methods collected without a bound. -/
def Table.Describes (t : Table) (type : Ty) (description : SimplifiedType) : Prop :=
  ∃ contract, t.FindsContract type contract ∧
    description = if contract then ⟨"error", true⟩ else ⟨(t.underlying type).render t, false⟩

/-! ## Imported types of which more is known -/

mutual

/-- How many imported types, one within another, are embedded or passed as arguments of which more
is known than a basic kind or `error`. -/
def Ty.layers : Ty → Nat
  | .named _ args => Ty.allLayers args
  | .imported _ _ known => Ty.knownLayers known
  | .interface iface => iface.layers
  | _ => 0

/-- The same for type arguments. -/
def Ty.allLayers : List Ty → Nat
  | [] => 0
  | t :: ts => max t.layers (Ty.allLayers ts)

/-- The same for an imported type, by what is known of it. -/
def Ty.knownLayers : Option Ty → Nat
  | none => 0
  | some type => if type.isKnown then 0 else type.layers + 1

/-- The same for embedded elements. -/
def Embedded.layers : List Embedded → Nat
  | [] => 0
  | .type type :: es => max type.layers (Embedded.layers es)
  | .union _ :: es => Embedded.layers es

/-- The same for the elements of an interface. -/
def Interface.layers : Interface → Nat
  | ⟨_, embeddeds, _⟩ => Embedded.layers embeddeds

end

/-- At most a basic kind or `error` is known of the imported types among `types`. -/
def Ty.ImportsKnown (types : List Ty) : Prop :=
  ∀ path name known, .imported path name known ∈ types → Ty.Known known

/-- At most a basic kind or `error` is known of the imported types that occur in the table. -/
def Table.ImportsKnown (t : Table) : Prop :=
  ∀ entry ∈ t.entries, Ty.ImportsKnown entry.occurring

theorem Ty.isKnown_of_known {type : Ty} (h : Ty.Known (some type)) : type.isKnown = true := by
  rcases h type rfl with ⟨kind, rfl⟩ | rfl <;> rfl

theorem Ty.known_of_isKnown {type : Ty} (h : type.isKnown = true) :
    (∃ kind, type = .basic kind) ∨ type = .error := by
  cases type with
  | basic kind => exact Or.inl ⟨kind, rfl⟩
  | named id args =>
    simp only [Ty.isKnown, Bool.and_eq_true, beq_iff_eq, List.isEmpty_iff] at h
    obtain ⟨rfl, rfl⟩ := h
    exact Or.inr rfl
  | _ => cases h

theorem Ty.ImportsKnown.of_append {types types' : List Ty} (h : Ty.ImportsKnown (types ++ types')) :
    Ty.ImportsKnown types ∧ Ty.ImportsKnown types' :=
  ⟨fun path name known hmem => h path name known (List.mem_append_left _ hmem),
    fun path name known hmem => h path name known (List.mem_append_right _ hmem)⟩

theorem Ty.ImportsKnown.tail {type : Ty} {types : List Ty} (h : Ty.ImportsKnown (type :: types)) :
    Ty.ImportsKnown types :=
  fun path name known hmem => h path name known (List.mem_cons_of_mem _ hmem)

mutual

/-- In a type of the program no more than a kind or `error` is known of any imported type. -/
theorem Ty.layers_eq_zero : ∀ type : Ty, Ty.ImportsKnown type.occurring → type.layers = 0
  | .named _ args, h => Ty.allLayers_eq_zero args h.tail
  | .imported path name none, _ => rfl
  | .imported path name (some known), h => by
    have hknown := Ty.isKnown_of_known (h path name (some known) List.mem_cons_self)
    simp only [Ty.layers, Ty.knownLayers, hknown, if_true]
  | .interface iface, h => Interface.layers_eq_zero iface h.tail
  | .basic _, _ | .param _, _ | .pointer _, _ | .slice _, _ | .array _ _, _ | .map _ _, _
  | .chan _ _, _ | .func _, _ | .struct _, _ | .invalid, _ => rfl
termination_by structural type => type

theorem Ty.allLayers_eq_zero :
    ∀ types : List Ty, Ty.ImportsKnown (Ty.allOccurring types) → Ty.allLayers types = 0
  | [], _ => rfl
  | type :: types, h => by
    obtain ⟨htype, htypes⟩ := h.of_append
    rw [Ty.allLayers, Ty.layers_eq_zero type htype, Ty.allLayers_eq_zero types htypes, Nat.max_self]
termination_by structural types => types

theorem Embedded.layers_eq_zero :
    ∀ es : List Embedded, Ty.ImportsKnown (Embedded.allOccurring es) → Embedded.layers es = 0
  | [], _ => rfl
  | .type type :: es, h => by
    obtain ⟨htype, hes⟩ := h.of_append
    rw [Embedded.layers, Ty.layers_eq_zero type htype, Embedded.layers_eq_zero es hes, Nat.max_self]
  | .union _ :: es, h => Embedded.layers_eq_zero es h.of_append.2
termination_by structural es => es

theorem Interface.layers_eq_zero :
    ∀ i : Interface, Ty.ImportsKnown i.occurring → i.layers = 0
  | ⟨_, embeddeds, _⟩, h => Embedded.layers_eq_zero embeddeds h.of_append.2
termination_by structural i => i

end

section

variable {bind : Binding} {bound : Nat}
  (hbind : ∀ name arg, bind name = some arg → arg.layers ≤ bound)
include hbind

-- each lemma of the block has the assumptions for the others, which the linter does not see
set_option linter.unusedSectionVars false in
mutual

/-- Replacing type parameters brings in the layers of their arguments only. -/
theorem Ty.layers_subst_le :
    ∀ type : Ty, (type.subst bind).layers ≤ max type.layers bound
  | .param name => by
    rw [Ty.subst]
    cases harg : bind name with
    | none => exact Nat.zero_le _
    | some arg => exact Nat.le_trans (hbind name arg harg) (Nat.le_max_right _ _)
  | .named _ args => Ty.allLayers_substs_le args
  | .interface iface => Interface.layers_subst_le iface
  | .imported _ _ _ => Nat.le_max_left _ _
  | .basic _ | .pointer _ | .slice _ | .array _ _ | .map _ _ | .chan _ _ | .func _ | .struct _
  | .invalid => Nat.zero_le _
termination_by structural type => type

theorem Ty.allLayers_substs_le :
    ∀ types : List Ty, Ty.allLayers (Ty.substs bind types) ≤ max (Ty.allLayers types) bound
  | [] => Nat.zero_le _
  | type :: types => by
    have htype := Ty.layers_subst_le type
    have htypes := Ty.allLayers_substs_le types
    simp only [Ty.substs, Ty.allLayers]
    omega
termination_by structural types => types

theorem Embedded.layers_substs_le :
    ∀ es : List Embedded, Embedded.layers (Embedded.substs bind es) ≤ max (Embedded.layers es) bound
  | [] => Nat.zero_le _
  | .type type :: es => by
    have htype := Ty.layers_subst_le type
    have hes := Embedded.layers_substs_le es
    simp only [Embedded.substs, Embedded.layers]
    omega
  | .union _ :: es => Embedded.layers_substs_le es
termination_by structural es => es

theorem Interface.layers_subst_le :
    ∀ i : Interface, (i.subst bind).layers ≤ max i.layers bound
  | ⟨_, embeddeds, _⟩ => Embedded.layers_substs_le embeddeds
termination_by structural i => i

end

end

theorem Ty.layers_le_allLayers {arg : Ty} {args : List Ty} (h : arg ∈ args) :
    arg.layers ≤ Ty.allLayers args := by
  induction args with
  | nil => cases h
  | cons a args ih =>
    rcases List.mem_cons.mp h with rfl | h
    · exact Nat.le_max_left _ _
    · exact Nat.le_trans (ih h) (Nat.le_max_right _ _)

variable {t : Table}

namespace Table

theorem ImportsKnown.layers_eq_zero (h : t.ImportsKnown) {id : Nat} {type : Ty}
    (hid : t.underlying? id = some type) : type.layers = 0 := by
  obtain ⟨entry, hentry, hunderlying⟩ := Option.bind_eq_some_iff.mp hid
  have hoccurring := h entry (List.mem_of_getElem? hentry)
  rw [NamedType.occurring, hunderlying] at hoccurring
  exact Ty.layers_eq_zero type hoccurring.of_append.2

/-- A declared type brings in the layers of its arguments only. -/
theorem ImportsKnown.layers_instance_le (h : t.ImportsKnown) (id : Nat) (args : List Ty) :
    (t.underlying (.named id args)).layers ≤ Ty.allLayers args := by
  rw [underlying, instance?]
  cases hid : t.underlying? id with
  | none => exact Nat.zero_le _
  | some type =>
    have hzero := h.layers_eq_zero hid
    rw [Option.map_some, Option.getD_some]
    split
    · exact hzero ▸ Nat.zero_le _
    · have hargs : ∀ name arg, TypeParam.argument? (t.typeParams id) args name = some arg →
          arg.layers ≤ Ty.allLayers args := fun _ _ harg =>
        Ty.layers_le_allLayers (TypeParam.mem_of_argument? harg)
      have hle := Ty.layers_subst_le hargs type
      rwa [hzero, Nat.max_eq_right (Nat.zero_le _)] at hle

theorem ImportsKnown.layers_underlying_le (h : t.ImportsKnown) :
    ∀ type : Ty, (t.underlying type).layers ≤ type.layers
  | .named id args => h.layers_instance_le id args
  | .imported _ _ none => Nat.le_refl _
  | .imported path name (some known) => by
    have hle := h.layers_underlying_le known
    rw [underlying, Ty.layers, Ty.knownLayers]
    split
    · next hknown =>
      have hzero : known.layers = 0 := by
        rcases Ty.known_of_isKnown hknown with ⟨kind, rfl⟩ | rfl <;> rfl
      exact hzero ▸ hle
    · exact Nat.le_succ_of_le hle
  | .basic _ | .param _ | .pointer _ | .slice _ | .array .. | .map .. | .chan .. | .func _
  | .struct _ | .interface _ | .invalid => Nat.le_refl _
termination_by structural type => type

/-- The predeclared `error` is the same interface under all arguments. -/
theorem HasError.underlying_error (h : t.HasError) (args : List Ty) :
    t.underlying (.named errorId args) = .interface ⟨[.error], [], false⟩ := by
  rw [underlying, instance?, h, Option.map_some, Option.getD_some]
  split <;> rfl

end Table

/-! ## Collecting ends in one way -/

namespace Methods

mutual

/-- By the constructors: at most one of them applies, and its premises end in one way. -/
theorem Collects.unique {i : Interface} {s : Methods} {collected collected' : Option Methods} :
    Collects t i s collected → Collects t i s collected' → collected = collected'
  | .comparable _, .comparable _ => rfl
  | .comparable h, .elements h' _ => Bool.noConfusion (h.symm.trans h')
  | .elements h _, .comparable h' => Bool.noConfusion (h.symm.trans h')
  | .elements _ hall, .elements _ hall' => hall.unique hall'
termination_by structural h => h

theorem CollectsAll.unique {es : List Embedded} {s : Methods}
    {collected collected' : Option Methods} :
    CollectsAll t es s collected → CollectsAll t es s collected' → collected = collected'
  | .nil, .nil => rfl
  | .union, .union => rfl
  | .stop _, .stop _ => rfl
  | .stop h, .cons h' _ => nomatch h.unique h'
  | .cons h _, .stop h' => nomatch h.unique h'
  | .cons h hes, .cons h' hes' => by
    obtain rfl := Option.some.inj (h.unique h')
    exact hes.unique hes'
termination_by structural h => h

theorem CollectsType.unique {type : Ty} {s : Methods} {collected collected' : Option Methods} :
    CollectsType t type s collected → CollectsType t type s collected' → collected = collected'
  | .noted _, .noted _ => rfl
  | .noted h, .named h' _ => absurd h h'
  | .noted _, .other h _ => absurd rfl (h _ _)
  | .named h _, .noted h' => absurd h' h
  | .named _ hunderlying, .named _ hunderlying' => hunderlying.unique hunderlying'
  | .named _ _, .other h _ => absurd rfl (h _ _)
  | .other h _, .noted _ => absurd rfl (h _ _)
  | .other h _, .named _ _ => absurd rfl (h _ _)
  | .other _ hunderlying, .other _ hunderlying' => hunderlying.unique hunderlying'
termination_by structural h => h

theorem CollectsUnderlying.unique {type : Ty} {s : Methods}
    {collected collected' : Option Methods} :
    CollectsUnderlying t type s collected → CollectsUnderlying t type s collected' →
      collected = collected'
  | .interface h hiface, .interface h' hiface' => by
    obtain rfl := Ty.interface.inj (h.symm.trans h')
    exact hiface.unique hiface'
  | .interface h _, .other h' => absurd h (h' _)
  | .other h, .interface h' _ => absurd h' (h _)
  | .other _, .other _ => rfl
termination_by structural h => h

end

/-! ## Collecting ends -/

/-- Collecting comes to an end and has forgotten no declared type that was noted. -/
def Ends (s : Methods) (outcome : Option Methods → Prop) : Prop :=
  ∃ collected, outcome collected ∧ ∀ s', collected = some s' → s.entered ⊆ s'.entered

variable {s s₁ : Methods} {outcome outcome' : Option Methods → Prop}

theorem Ends.none (h : outcome none) : Ends s outcome :=
  ⟨Option.none, h, fun _ h => nomatch h⟩

theorem Ends.mono (h : Ends s₁ outcome) (hentered : s.entered ⊆ s₁.entered)
    (houtcome : ∀ collected, outcome collected → outcome' collected) : Ends s outcome' := by
  obtain ⟨collected, hcollected, hgrows⟩ := h
  exact ⟨collected, houtcome collected hcollected, fun s' hs' =>
    List.Subset.trans hentered (hgrows s' hs')⟩

theorem Ends.some (h : outcome (some s₁)) (hentered : s.entered ⊆ s₁.entered) :
    Ends s outcome :=
  ⟨Option.some s₁, h, fun _ h => Option.some.inj h ▸ hentered⟩

/-- Of an imported type what is known of it counts, and it is not noted. -/
theorem CollectsUnderlying.imported {known : Ty} {collected : Option Methods}
    (h : CollectsUnderlying t known s collected) (path name : String) :
    CollectsType t (.imported path name (Option.some known)) s collected := by
  refine .other nofun ?_
  cases h with
  | interface h hiface => exact .interface (by rw [Table.underlying, h]) hiface
  | other h => exact .other (by rwa [Table.underlying])

/-- From `error` its method is added, and no more. -/
theorem collectsUnderlying_error (h : t.HasError) (args : List Ty) (s : Methods) :
    CollectsUnderlying t (.named errorId args) s (Option.some (s.add [.error])) :=
  .interface (h.underlying_error args) (.elements rfl .nil)

section

/- With `left` declared types that are not noted, and `depth` imported types, one within another,
of which more is known. -/
variable {left depth : Nat}
  (hnamed : ∀ id args s, t.unentered s.entered ≤ left → Ends s (CollectsType t (.named id args) s))
  (hdeeper : ∀ type s, type.layers < depth → t.unentered s.entered ≤ left →
    Ends s (CollectsUnderlying t type s))
  (herror : t.HasError)
include hnamed hdeeper herror

-- each lemma of the block has the assumptions for the others, which the linter does not see
set_option linter.unusedSectionVars false in
mutual

/-- By the constructors of types, as long as entering declared types comes to an end. -/
theorem ends_collect : ∀ (i : Interface) (s : Methods), i.layers ≤ depth →
    t.unentered s.entered ≤ left → Ends s (Collects t i s)
  | ⟨_, _, true⟩, _, _, _ => .none (.comparable rfl)
  | ⟨methods, embeddeds, false⟩, s, hlayers, hleft =>
    (ends_collectAll embeddeds (s.add methods) hlayers hleft).mono (List.Subset.refl _)
      fun _ hall => .elements rfl hall
termination_by structural i => i

theorem ends_collectAll : ∀ (es : List Embedded) (s : Methods), Embedded.layers es ≤ depth →
    t.unentered s.entered ≤ left → Ends s (CollectsAll t es s)
  | [], _, _, _ => .some .nil (List.Subset.refl _)
  | .union _ :: _, _, _, _ => .none .union
  | .type type :: es, s, hlayers, hleft => by
    obtain ⟨htype, hes⟩ := Nat.max_le.mp hlayers
    obtain ⟨collected, hcollected, hgrows⟩ := ends_collectType type s htype hleft
    cases collected with
    | none => exact .none (.stop hcollected)
    | some s₁ =>
      have hentered := hgrows s₁ rfl
      exact (ends_collectAll es s₁ hes
        (Nat.le_trans (Table.unentered_le_of_subset hentered) hleft)).mono hentered
        fun _ hrest => .cons hcollected hrest
termination_by structural es => es

theorem ends_collectType : ∀ (type : Ty) (s : Methods), type.layers ≤ depth →
    t.unentered s.entered ≤ left → Ends s (CollectsType t type s)
  | .named id args, s, _, hleft => hnamed id args s hleft
  | .interface iface, s, hlayers, hleft =>
    (ends_collect iface s hlayers hleft).mono (List.Subset.refl _)
      fun _ hiface => .other nofun (.interface rfl hiface)
  | .imported path name (some known), s, hlayers, hleft => by
    rw [Ty.layers, Ty.knownLayers] at hlayers
    split at hlayers
    · next hknown =>
      rcases Ty.known_of_isKnown hknown with ⟨kind, rfl⟩ | rfl
      · have hno : ∀ i, t.underlying (.basic kind) ≠ .interface i := nofun
        exact .none (CollectsUnderlying.imported (.other hno) path name)
      · exact .some ((collectsUnderlying_error herror [] s).imported path name)
          (List.Subset.refl _)
    · exact (hdeeper known s hlayers hleft).mono (List.Subset.refl _)
        fun _ hunderlying => hunderlying.imported path name
  | .imported _ _ none, _, _, _ | .basic _, _, _, _ | .param _, _, _, _ | .pointer _, _, _, _
  | .slice _, _, _, _ | .array _ _, _, _, _ | .map _ _, _, _, _ | .chan _ _, _, _, _
  | .func _, _, _, _ | .struct _, _, _, _ | .invalid, _, _, _ =>
    .none (.other nofun (.other nofun))
termination_by structural type => type

end

end

/-- Where fewer declared types are left, whatever their interfaces, a declared type is collected. -/
theorem ends_collectNamed {left : Nat}
    (hless : ∀ i s, t.unentered s.entered < left → Ends s (Collects t i s)) (id : Nat)
    (args : List Ty) (s : Methods) (hleft : t.unentered s.entered ≤ left) :
    Ends s (CollectsType t (.named id args) s) := by
  by_cases hid : id ∈ s.entered
  · exact .some (.noted hid) (List.Subset.refl _)
  · by_cases hinterface : ∃ i, t.underlying (.named id args) = .interface i
    · obtain ⟨i, hi⟩ := hinterface
      have hlt := Table.unentered_cons_lt (Table.lt_size_of_underlying hi) hid
      exact (hless i ⟨s.found, id :: s.entered⟩ (Nat.lt_of_lt_of_le hlt hleft)).mono
        (List.subset_cons_self _ _) fun _ hiface => .named hid (.interface hi hiface)
    · exact .none (.named hid (.other (not_exists.mp hinterface)))

/-- Collecting the methods of an interface ends. -/
theorem collect_ends (herror : t.HasError) (hknown : t.ImportsKnown) (i : Interface)
    (s : Methods) : Ends s (Collects t i s) := by
  induction hleft : t.unentered s.entered using Nat.strongRecOn generalizing i s with
  | _ left ih =>
    have hnamed := ends_collectNamed fun i s hlt => ih _ hlt i s rfl
    have hdepth : ∀ depth (i : Interface) s, i.layers ≤ depth → t.unentered s.entered ≤ left →
        Ends s (Collects t i s) := by
      intro depth
      induction depth using Nat.strongRecOn with
      | _ depth ihdepth =>
        refine ends_collect hnamed (fun type s hlayers hleft => ?_) herror
        by_cases hinterface : ∃ i, t.underlying type = .interface i
        · obtain ⟨i, hi⟩ := hinterface
          have hle := hknown.layers_underlying_le type
          rw [hi] at hle
          exact (ihdepth type.layers hlayers i s hle hleft).mono (List.Subset.refl _)
            fun _ hiface => .interface hi hiface
        · exact .none (.other (not_exists.mp hinterface))
    exact hdepth i.layers i s (Nat.le_refl _) (Nat.le_of_eq hleft)

/-! ## Collecting yields what is computed -/

/-- Two states that differ at most in whether `error` was noted: that may be missing in the first
one, where it was reached as an imported type. -/
structure Alike (s s' : Methods) : Prop where
  found : s.found = s'.found
  entered : ∀ id ≠ errorId, (id ∈ s.entered ↔ id ∈ s'.entered)
  error : errorId ∈ s.entered → errorId ∈ s'.entered
  /-- Where `error` was noted its method was found. -/
  noted : errorId ∈ s'.entered → Method.error.name ∈ s'.found.map Method.name

/-- Collecting ends alike with what is computed. -/
def Agrees (outcome : Option Methods → Prop) (computed : Option Methods) : Prop :=
  ∃ collected, outcome collected ∧ Option.Rel Alike collected computed

theorem Agrees.none (h : outcome none) : Agrees outcome none :=
  ⟨Option.none, h, .none⟩

theorem Agrees.some {s' : Methods} (h : outcome (some s)) (halike : Alike s s') :
    Agrees outcome (some s') :=
  ⟨Option.some s, h, .some halike⟩

theorem Agrees.mono {computed : Option Methods} (h : Agrees outcome computed)
    (houtcome : ∀ collected, outcome collected → outcome' collected) :
    Agrees outcome' computed := by
  obtain ⟨collected, hcollected, hrel⟩ := h
  exact ⟨collected, houtcome collected hcollected, hrel⟩

theorem Alike.map_found {collected computed : Option Methods}
    (h : Option.Rel Alike collected computed) :
    collected.map Methods.found = computed.map Methods.found := by
  cases h with
  | none => rfl
  | some halike => exact congrArg Option.some halike.found

theorem Alike.add {s s' : Methods} (h : Alike s s') (ms : List Method) :
    Alike (s.add ms) (s'.add ms) where
  found := by rw [Methods.add, Methods.add, h.found]
  entered := h.entered
  error := h.error
  noted hnoted := List.map_subset _ (subset_add s' ms) (h.noted hnoted)

theorem Alike.enter {s s' : Methods} (h : Alike s s') {id : Nat} (hid : id ≠ errorId) :
    Alike { s with entered := id :: s.entered } { s' with entered := id :: s'.entered } where
  found := h.found
  entered other hother := by simp only [List.mem_cons, h.entered other hother]
  error hmem := by
    rcases List.mem_cons.mp hmem with herror | hmem
    · exact absurd herror.symm hid
    · exact List.mem_cons_of_mem _ (h.error hmem)
  noted hmem := by
    rcases List.mem_cons.mp hmem with herror | hmem
    · exact absurd herror.symm hid
    · exact h.noted hmem

/-- The method of `error` is not added again. -/
theorem add_error {s : Methods} (h : Method.error.name ∈ s.found.map Method.name) :
    s.add [.error] = s := by
  rw [add_cons, if_pos h]
  rfl

/-- Where `error` was noted in the second state, adding its method to the first one is the same as
passing it over. -/
theorem Alike.add_error {s s' : Methods} (h : Alike s s') {entered : List Nat}
    (hentered : entered = s.entered ∨ entered = errorId :: s.entered)
    (hnoted : errorId ∈ s'.entered) :
    Alike (({ s with entered := entered } : Methods).add [.error]) s' := by
  rw [Methods.add_error (h.found ▸ h.noted hnoted)]
  refine ⟨h.found, fun id hid => ?_, fun _ => hnoted, h.noted⟩
  have hiff := h.entered id hid
  rcases hentered with rfl | rfl <;> simp [hid, hiff]

/-- Where it was not, it may be noted in both or in the second one only. -/
theorem Alike.enter_error {s s' : Methods} (h : Alike s s') {entered : List Nat}
    (hentered : entered = s.entered ∨ entered = errorId :: s.entered) :
    Alike (({ s with entered := entered } : Methods).add [.error])
      (({ s' with entered := errorId :: s'.entered } : Methods).add [.error]) where
  found := by rw [Methods.add, Methods.add, h.found]
  entered id hid := by
    have hiff := h.entered id hid
    rcases hentered with rfl | rfl <;> simp [Methods.add, hid, hiff]
  error _ := List.mem_cons_self
  noted _ := map_name_subset_add _ [.error] List.mem_cons_self

theorem addNamed_of_mem {id : Nat} {s : Methods} (h : id ∈ s.entered) (depth : Nat)
    (args : List Ty) : addNamed t depth id args s = some s := by
  cases depth <;> rw [addNamed, if_pos (List.contains_iff_mem.mpr h)]

theorem addNamed_of_interface {id : Nat} {s : Methods} (h : id ∉ s.entered) {args : List Ty}
    {i : Interface} (hi : t.underlying (.named id args) = .interface i) (depth : Nat) :
    addNamed t (depth + 1) id args s =
      addInterface (addNamed t depth) i { s with entered := id :: s.entered } := by
  rw [addNamed, if_neg (fun hmem => h (List.contains_iff_mem.mp hmem)), hi]

theorem addNamed_of_ne {id : Nat} {s : Methods} (h : id ∉ s.entered) {args : List Ty}
    (hne : ∀ i, t.underlying (.named id args) ≠ .interface i) (depth : Nat) :
    addNamed t depth id args s = none := by
  have hnew : ¬ s.entered.contains id = true := fun hmem => h (List.contains_iff_mem.mp hmem)
  cases depth with
  | zero => rw [addNamed, if_neg hnew]
  | succ depth =>
    rw [addNamed, if_neg hnew]
    split
    · next i hi => exact absurd hi (hne i)
    · rfl

/-- The depth is not used up where a declared type is entered that was not entered before. -/
theorem exists_depth {id depth : Nat} {args : List Ty} {i : Interface} {s : Methods}
    (hi : t.underlying (.named id args) = .interface i) (hid : id ∉ s.entered)
    (hdepth : t.unentered s.entered ≤ depth) :
    ∃ less, depth = less + 1 ∧ t.unentered (id :: s.entered) ≤ less := by
  have hlt := Table.unentered_cons_lt (Table.lt_size_of_underlying hi) hid
  exact ⟨depth - 1, by omega, by omega⟩

theorem agrees_addNamed_error (herror : t.HasError) {s s' : Methods} (halike : Alike s s')
    {depth : Nat} (hdepth : t.unentered s'.entered ≤ depth) (args : List Ty) {entered : List Nat}
    (hentered : entered = s.entered ∨ entered = errorId :: s.entered) :
    Agrees (· = Option.some (({ s with entered := entered } : Methods).add [.error]))
      (addNamed t depth errorId args s') := by
  by_cases hnoted : errorId ∈ s'.entered
  · rw [addNamed_of_mem hnoted]
    exact .some rfl (halike.add_error hentered hnoted)
  · have hunderlying := herror.underlying_error args
    obtain ⟨less, rfl, -⟩ := exists_depth hunderlying hnoted hdepth
    rw [addNamed_of_interface hnoted hunderlying]
    exact .some rfl (halike.enter_error hentered)

section

variable {depth : Nat} {enter : Enter}
  (hgathers : ∀ id args s s', enter id args s = some s' →
    Gathers t (t.Leads (.named id args)) s s' ∧ id ∈ s'.entered)
  (henter : ∀ id args s s', Ty.allLayers args = 0 → Alike s s' → t.unentered s'.entered ≤ depth →
    Agrees (CollectsType t (.named id args) s) (enter id args s'))
  (herror : t.HasError)
  (himported : ∀ s s', Alike s s' → t.unentered s'.entered ≤ depth →
    Agrees (· = some (s.add [.error])) (enter errorId [] s'))
include hgathers henter herror himported

-- each lemma of the block has the assumptions for the others, which the linter does not see
set_option linter.unusedSectionVars false in
mutual

/-- The four relations follow the computation, given that both enter a declared type alike. -/
theorem agrees_collect : ∀ (i : Interface) (s s' : Methods), i.layers = 0 → Alike s s' →
    t.unentered s'.entered ≤ depth → Agrees (Collects t i s) (addInterface enter i s')
  | ⟨_, _, true⟩, _, _, _, _, _ => .none (.comparable rfl)
  | ⟨methods, embeddeds, false⟩, _, _, hlayers, halike, hdepth =>
    (agrees_collectAll embeddeds _ _ hlayers (halike.add methods) hdepth).mono
      fun _ hall => .elements rfl hall
termination_by structural i => i

theorem agrees_collectAll : ∀ (es : List Embedded) (s s' : Methods), Embedded.layers es = 0 →
    Alike s s' → t.unentered s'.entered ≤ depth →
      Agrees (CollectsAll t es s) (addEmbeddeds enter es s')
  | [], _, _, _, halike, _ => .some .nil halike
  | .union _ :: _, _, _, _, _, _ => .none .union
  | .type type :: es, s, s', hlayers, halike, hdepth => by
    obtain ⟨htype, hes⟩ := Nat.max_eq_zero_iff.mp hlayers
    obtain ⟨collected, hcollected, hrel⟩ := agrees_collectType type s s' htype halike hdepth
    rw [addEmbeddeds]
    generalize hadded : addType enter type s' = added at hrel
    cases hrel with
    | none => exact .none (.stop hcollected)
    | @some s₁ s₁' halike₁ =>
      have hentered := (addType_gathers hgathers type s' s₁' hadded).1.entered
      exact (agrees_collectAll es s₁ s₁' hes halike₁
        (Nat.le_trans (Table.unentered_le_of_subset hentered) hdepth)).mono
        fun _ hrest => .cons hcollected hrest
termination_by structural es => es

theorem agrees_collectType : ∀ (type : Ty) (s s' : Methods), type.layers = 0 → Alike s s' →
    t.unentered s'.entered ≤ depth → Agrees (CollectsType t type s) (addType enter type s')
  | .named id args, s, s', hlayers, halike, hdepth => henter id args s s' hlayers halike hdepth
  | .interface iface, s, s', hlayers, halike, hdepth =>
    (agrees_collect iface s s' hlayers halike hdepth).mono
      fun _ hiface => .other nofun (.interface rfl hiface)
  | .imported path name (some known), s, s', hlayers, halike, hdepth => by
    rw [addType, addKnown]
    rw [Ty.layers, Ty.knownLayers] at hlayers
    split at hlayers
    · next hknown =>
      rcases Ty.known_of_isKnown hknown with ⟨kind, rfl⟩ | rfl
      · have hno : ∀ i, t.underlying (.basic kind) ≠ .interface i := nofun
        exact .none (CollectsUnderlying.imported (.other hno) path name)
      · refine (himported s s' halike hdepth).mono ?_
        rintro _ rfl
        exact (collectsUnderlying_error herror [] s).imported path name
    · cases hlayers
  | .imported _ _ none, _, _, _, _, _ | .basic _, _, _, _, _, _ | .param _, _, _, _, _, _
  | .pointer _, _, _, _, _, _ | .slice _, _, _, _, _, _ | .array _ _, _, _, _, _, _
  | .map _ _, _, _, _, _, _ | .chan _ _, _, _, _, _, _ | .func _, _, _, _, _, _
  | .struct _, _, _, _, _, _ | .invalid, _, _, _, _, _ =>
    .none (.other nofun (.other nofun))
termination_by structural type => type

end

end

/-- By induction on the depth, which is no less than the number of types that are not noted yet. -/
theorem agrees_collectNamed (herror : t.HasError) (hknown : t.ImportsKnown) (depth id : Nat)
    (args : List Ty) (s s' : Methods) (hargs : Ty.allLayers args = 0) (halike : Alike s s')
    (hdepth : t.unentered s'.entered ≤ depth) :
    Agrees (CollectsType t (.named id args) s) (addNamed t depth id args s') := by
  induction depth using Nat.strongRecOn generalizing id args s s' with
  | _ depth ih =>
    by_cases hid : id ∈ s.entered
    · have hid' : id ∈ s'.entered := by
        by_cases hne : id = errorId
        · exact hne ▸ halike.error (hne ▸ hid)
        · exact (halike.entered id hne).mp hid
      rw [addNamed_of_mem hid']
      exact .some (.noted hid) halike
    · by_cases hne : id = errorId
      · subst hne
        refine (agrees_addNamed_error herror halike hdepth args (Or.inr rfl)).mono ?_
        rintro _ rfl
        exact .named hid (collectsUnderlying_error herror args _)
      · have hid' : id ∉ s'.entered := fun h => hid ((halike.entered id hne).mpr h)
        by_cases hinterface : ∃ i, t.underlying (.named id args) = .interface i
        · obtain ⟨i, hi⟩ := hinterface
          obtain ⟨less, rfl, hless⟩ := exists_depth hi hid' hdepth
          have hlayers := hknown.layers_instance_le id args
          rw [hi, hargs] at hlayers
          rw [addNamed_of_interface hid' hi]
          exact (agrees_collect (addNamed_gathers less) (ih less (Nat.lt_succ_self less)) herror
            (fun s s' halike hdepth =>
              agrees_addNamed_error herror halike hdepth [] (Or.inl rfl))
            i _ _ (Nat.le_zero.mp hlayers) (halike.enter hne) hless).mono
            fun _ hiface => .named hid (.interface hi hiface)
        · rw [addNamed_of_ne hid' (not_exists.mp hinterface)]
          exact .none (.named hid (.other (not_exists.mp hinterface)))

/-- Collecting the methods of an interface without a bound yields what is computed with one. -/
theorem collect_agrees (herror : t.HasError) (hknown : t.ImportsKnown) {i : Interface}
    (hi : i.layers = 0) :
    Agrees (Collects t i .empty) (addInterface (addNamed t t.size) i .empty) := by
  refine agrees_collect (addNamed_gathers t.size) (agrees_collectNamed herror hknown t.size)
    herror (fun s s' halike hdepth => agrees_addNamed_error herror halike hdepth [] (Or.inl rfl))
    i _ _ hi ?_ (Nat.le_of_eq Table.unentered_nil)
  exact ⟨rfl, fun _ _ => Iff.rfl, id, nofun⟩

end Methods

/-! ## The error contract -/

namespace Table

theorem FindsContract.unique {type : Ty} {contract contract' : Bool}
    (h : t.FindsContract type contract) (h' : t.FindsContract type contract') :
    contract' = contract := by
  cases h with
  | interface h hcollects =>
    cases h' with
    | interface h' hcollects' =>
      obtain rfl := Ty.interface.inj (h.symm.trans h')
      rw [hcollects.unique hcollects']
    | other h' => exact absurd h (h' _)
  | other h =>
    cases h' with
    | interface h' _ => exact absurd h' (h _)
    | other _ => rfl

/-- A type that is no interface has no error contract. Otherwise collecting its methods ends. -/
theorem exists_findsContract (herror : t.HasError) (hknown : t.ImportsKnown) (type : Ty) :
    ∃ contract, t.FindsContract type contract := by
  by_cases hinterface : ∃ i, t.underlying type = .interface i
  · obtain ⟨i, hi⟩ := hinterface
    obtain ⟨collected, hcollected, -⟩ := Methods.collect_ends herror hknown i .empty
    exact ⟨_, .interface hi hcollected⟩
  · exact ⟨false, .other (not_exists.mp hinterface)⟩

theorem findsContract_hasErrorContract (herror : t.HasError) (hknown : t.ImportsKnown) {type : Ty}
    (htype : Ty.ImportsKnown type.occurring) :
    t.FindsContract type (t.hasErrorContract type) := by
  have hlayers := hknown.layers_underlying_le type
  rw [Ty.layers_eq_zero type htype] at hlayers
  by_cases hinterface : ∃ i, t.underlying type = .interface i
  · obtain ⟨i, hi⟩ := hinterface
    rw [hi] at hlayers
    obtain ⟨collected, hcollected, hrel⟩ :=
      Methods.collect_agrees herror hknown (Nat.le_zero.mp hlayers)
    have hfound : collected.map Methods.found = t.methodSet? i := Methods.Alike.map_found hrel
    have hcontract : Methods.isContract collected = t.hasErrorContract type := by
      rw [Methods.isContract, hasErrorContract, hi]
      exact hfound ▸ rfl
    exact hcontract ▸ .interface hi hcollected
  · have hnone : t.hasErrorContract type = false := by
      rw [hasErrorContract]
      split
      · next i hi => exact absurd ⟨i, hi⟩ hinterface
      · rfl
    exact hnone ▸ .other (not_exists.mp hinterface)

/-- However the interfaces of a table with the predeclared `error` embed each other, the error
contract of a type and its description are found without a bound on the depth, and in one way only.
Where at most a basic kind or `error` is known also of the imported types that occur in the type
itself, they are those that are computed with the bound. -/
theorem hasErrorContract_ends (herror : t.HasError) (hknown : t.ImportsKnown) (type : Ty) :
    (∃ contract, t.FindsContract type contract ∧
        ∀ other, t.FindsContract type other → other = contract) ∧
      (∃ description, t.Describes type description ∧
        ∀ other, t.Describes type other → other = description) ∧
      (Ty.ImportsKnown type.occurring →
        t.FindsContract type (t.hasErrorContract type) ∧ t.Describes type (t.simplify type)) := by
  obtain ⟨contract, hcontract⟩ := exists_findsContract herror hknown type
  refine ⟨⟨contract, hcontract, fun _ => hcontract.unique⟩, ⟨_, ⟨contract, hcontract, rfl⟩, ?_⟩,
    fun htype => ?_⟩
  · rintro _ ⟨other, hother, rfl⟩
    rw [hcontract.unique hother]
  · have hfinds := findsContract_hasErrorContract herror hknown htype
    exact ⟨hfinds, _, hfinds, by rw [simplify]⟩

/-- A generic interface that embeds ever larger instances of itself, and another one that embeds it
and an imported type known to be `error`. -/
def growing : Table :=
  ⟨Table.initial.entries ++
    [{ name := "Growing", package := "p", typeParams := [⟨"T", .any⟩],
       underlying := some (.interface ⟨[], [.type (.named 2 [.slice (.param "T")]),
         .type (.named 3 [.named 2 [.param "T"]])], false⟩) },
     { name := "Failure", package := "p", typeParams := [⟨"T", .any⟩],
       underlying := some (.interface ⟨[], [.type (.imported "q" "Error" (some .error)),
         .type (.named 2 [.named 3 [.param "T"]])], false⟩) }]⟩

theorem hasErrorContract_ends_ofGrowing :
    growing.HasError ∧ growing.ImportsKnown ∧
      growing.FindsContract (.named 2 [.basic .int]) true ∧
      growing.Describes (.named 2 [.basic .int]) ⟨"error", true⟩ := by
  have herror : growing.HasError := rfl
  have hknown : growing.ImportsKnown := by
    intro entry hentry path name known hmem
    simp only [growing, initial, List.cons_append, List.nil_append, List.mem_cons,
      List.not_mem_nil, or_false] at hentry
    rcases hentry with rfl | rfl | rfl | rfl <;>
      simp [NamedType.occurring, TypeParam.allOccurring, Ty.optOccurring, Ty.occurring,
        Ty.allOccurring, Interface.occurring, Method.allOccurring, Embedded.allOccurring,
        Signature.occurring, Var.allOccurring, Var.optOccurring, Method.error, Ty.any,
        Interface.empty, Ty.error] at hmem
    obtain ⟨rfl, rfl, rfl⟩ := hmem
    exact fun type htype => Or.inr (Option.some.inj htype).symm
  have htype : Ty.ImportsKnown (Ty.named 2 [.basic .int]).occurring := by
    intro path name known hmem
    simp [Ty.occurring, Ty.allOccurring] at hmem
  obtain ⟨hcontract, hdescription⟩ :=
    (hasErrorContract_ends herror hknown (.named 2 [.basic .int])).2.2 htype
  have hcomputed : growing.hasErrorContract (.named 2 [.basic .int]) = true := by decide +kernel
  rw [hcomputed] at hcontract
  rw [simplify, if_pos hcomputed] at hdescription
  exact ⟨herror, hknown, hcontract, hdescription⟩

end Table

end GoSignatures
