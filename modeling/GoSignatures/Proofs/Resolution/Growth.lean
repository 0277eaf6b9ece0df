import GoSignatures.Proofs.Outcome
import GoSignatures.Proofs.Resolution.Dependence
import GoSignatures.Proofs.Ty.Renaming
import GoSignatures.Resolution.Entering

/-!
# Progress grows

What has been found while types are resolved is never given up. A step within a declaration only
appends to what was there; over the whole run names keep their meaning, places their names, and
an underlying type stays once it is known.

* `Progress.Later` — what was found stays
* `Progress.Extends` — nothing of what was there changes
* `Env.typeOf?` — what has been found that a declared name means
* `Resolve.Yields` — a step extends the progress, and its result has a lasting property
-/

namespace GoSignatures

/-! ## Names at places -/

namespace Table

/-- The package and the name with which the declared type at a place is shown. -/
def label? (t : Table) (id : Nat) : Option (String × String) :=
  (t.get? id).map fun entry => (entry.package, entry.name)

/-- An entry is its label with its type parameters and its underlying type. -/
theorem get?_eq_map_label (t : Table) (id : Nat) :
    t.get? id = (t.label? id).map fun label =>
      ⟨label.2, label.1, t.typeParams id, t.underlying? id⟩ := by
  unfold label? typeParams underlying?
  cases t.get? id <;> rfl

variable {t t' : Table} {id : Nat}

theorem nameChars_congr {place : Nat} (h : t'.label? place = t.label? id) :
    t'.nameChars place = t.nameChars id := by
  simp only [label?] at h
  simp only [nameChars]
  cases hget : t.get? id with
  | none =>
    rw [hget, Option.map_none, Option.map_eq_none_iff] at h
    rw [h]
  | some entry =>
    rw [hget, Option.map_some, Option.map_eq_some_iff] at h
    obtain ⟨entry', hget', hlabel⟩ := h
    obtain ⟨hpackage, hname⟩ := Prod.mk.injEq .. ▸ hlabel
    rw [hget']
    simp only [hpackage, hname]

theorem get?_eq_none_of_size_le (h : t.size ≤ id) : t.get? id = none :=
  List.getElem?_eq_none h

theorem get?_isSome_of_lt (h : id < t.size) : (t.get? id).isSome := by
  rw [get?, List.getElem?_eq_getElem h]
  rfl

theorem lt_size_of_underlying? {type : Ty} (h : t.underlying? id = some type) : id < t.size := by
  refine Nat.lt_of_not_le fun hle => ?_
  rw [underlying?, get?_eq_none_of_size_le hle] at h
  cases h

/-- A table that starts with all entries of another has the same entries at its places. -/
theorem get?_of_prefix (h : t.entries <+: t'.entries) (hid : id < t.size) :
    t'.get? id = t.get? id := by
  obtain ⟨more, hmore⟩ := h
  rw [get?, get?, ← hmore, List.getElem?_append_left hid]

/-! ## Names, type parameters and underlying types after a change -/

@[simp] theorem label?_setTypeParams (t : Table) (id j : Nat) (params : List TypeParam) :
    (t.setTypeParams id params).label? j = t.label? j := by
  rw [label?, label?, get?_setTypeParams, Option.map_map]
  congr 1
  funext entry
  simp only [Function.comp]
  split <;> rfl

@[simp] theorem underlying?_setTypeParams (t : Table) (id j : Nat) (params : List TypeParam) :
    (t.setTypeParams id params).underlying? j = t.underlying? j := by
  rw [underlying?, underlying?, get?_setTypeParams]
  cases t.get? j with
  | none => rfl
  | some entry => by_cases h : id = j <;> simp [h]

theorem typeParams_setTypeParams (t : Table) {id j : Nat} (params : List TypeParam)
    (hid : id < t.size) :
    (t.setTypeParams id params).typeParams j = if j = id then params else t.typeParams j := by
  rw [typeParams, typeParams, get?_setTypeParams]
  by_cases h : j = id
  · subst h
    obtain ⟨entry, hentry⟩ := Option.isSome_iff_exists.mp (get?_isSome_of_lt hid)
    simp [hentry]
  · have h' : ¬ id = j := fun he => h he.symm
    cases t.get? j with
    | none => simp [h]
    | some entry => simp [h, h']

@[simp] theorem label?_setUnderlying (t : Table) (id j : Nat) (type : Ty) :
    (t.setUnderlying id type).label? j = t.label? j := by
  rw [label?, label?, get?_setUnderlying, Option.map_map]
  congr 1
  funext entry
  simp only [Function.comp]
  split <;> rfl

@[simp] theorem typeParams_setUnderlying (t : Table) (id j : Nat) (type : Ty) :
    (t.setUnderlying id type).typeParams j = t.typeParams j := by
  rw [typeParams, typeParams, get?_setUnderlying]
  cases t.get? j with
  | none => rfl
  | some entry => by_cases h : id = j <;> simp [h]

theorem underlying?_setUnderlying (t : Table) {id j : Nat} (type : Ty) (hid : id < t.size) :
    (t.setUnderlying id type).underlying? j = if j = id then some type else t.underlying? j := by
  rw [underlying?, underlying?, get?_setUnderlying]
  by_cases h : j = id
  · subst h
    obtain ⟨entry, hentry⟩ := Option.isSome_iff_exists.mp (get?_isSome_of_lt hid)
    simp [hentry]
  · have h' : ¬ id = j := fun he => h he.symm
    cases t.get? j with
    | none => simp [h]
    | some entry => simp [h, h']

end Table

/-! ## What was found stays -/

/-- The progress `q` comes after `p`: all that was found stays. -/
structure Progress.Later (p q : Progress) : Prop where
  entered : p.entered <+: q.entered
  aliases : p.aliases <+: q.aliases
  size : p.table.size ≤ q.table.size
  labels : ∀ id < p.table.size, q.table.label? id = p.table.label? id
  underlying : ∀ id type, p.table.underlying? id = some type →
    q.table.underlying? id = some type ∧ q.table.typeParams id = p.table.typeParams id

/-- Between the progress `p` and `q` only methods of interfaces were recorded. -/
def Progress.RecordsMethods (p q : Progress) : Prop :=
  ∃ methods : List FuncDef, q.definitions = p.definitions ++ methods.map .func ∧
    ∀ f ∈ methods, f.scope = .interface

/-- Nothing of the progress `p` changes in `q`. -/
structure Progress.Extends (p q : Progress) : Prop where
  entries : p.table.entries <+: q.table.entries
  entered : p.entered <+: q.entered
  aliases : p.aliases <+: q.aliases
  pending : p.pending <+: q.pending
  definitions : p.RecordsMethods q

namespace Progress

variable {p q r : Progress}

theorem Later.refl (p : Progress) : p.Later p :=
  ⟨List.prefix_rfl, List.prefix_rfl, Nat.le_refl _, fun _ _ => rfl, fun _ _ h => ⟨h, rfl⟩⟩

/-- What was found stays over any number of steps. -/
theorem Later.trans (h : p.Later q) (h' : q.Later r) : p.Later r where
  entered := h.entered.trans h'.entered
  aliases := h.aliases.trans h'.aliases
  size := Nat.le_trans h.size h'.size
  labels id hid := (h'.labels id (Nat.lt_of_lt_of_le hid h.size)).trans (h.labels id hid)
  underlying id type hu := by
    obtain ⟨hq, hparams⟩ := h.underlying id type hu
    obtain ⟨hr, hparams'⟩ := h'.underlying id type hq
    exact ⟨hr, hparams'.trans hparams⟩

theorem RecordsMethods.of_eq (h : q.definitions = p.definitions) : p.RecordsMethods q :=
  ⟨[], by simp [h], by simp⟩

theorem RecordsMethods.trans (h : p.RecordsMethods q) (h' : q.RecordsMethods r) :
    p.RecordsMethods r := by
  obtain ⟨methods, hq, hmethods⟩ := h
  obtain ⟨methods', hr, hmethods'⟩ := h'
  refine ⟨methods ++ methods', ?_, List.forall_mem_append.mpr ⟨hmethods, hmethods'⟩⟩
  rw [hr, hq, List.map_append, List.append_assoc]

theorem Extends.refl (p : Progress) : p.Extends p :=
  ⟨List.prefix_rfl, List.prefix_rfl, List.prefix_rfl, List.prefix_rfl, .of_eq rfl⟩

theorem Extends.trans (h : p.Extends q) (h' : q.Extends r) : p.Extends r where
  entries := h.entries.trans h'.entries
  entered := h.entered.trans h'.entered
  aliases := h.aliases.trans h'.aliases
  pending := h.pending.trans h'.pending
  definitions := h.definitions.trans h'.definitions

theorem Extends.size (h : p.Extends q) : p.table.size ≤ q.table.size :=
  h.entries.length_le

/-- Within a declaration entries are only appended, so those that were there are as they were. -/
theorem Extends.get? (h : p.Extends q) {id : Nat} (hid : id < p.table.size) :
    q.table.get? id = p.table.get? id :=
  Table.get?_of_prefix h.entries hid

theorem Extends.later (h : p.Extends q) : p.Later q where
  entered := h.entered
  aliases := h.aliases
  size := h.size
  labels id hid := by rw [Table.label?, Table.label?, h.get? hid]
  underlying id type hu := by
    have hid := Table.lt_size_of_underlying? hu
    rw [Table.underlying?, Table.typeParams, Table.typeParams, h.get? hid]
    exact ⟨hu, rfl⟩

theorem later_define (p : Progress) (d : Definition) : p.Later (p.define d) :=
  ⟨List.prefix_rfl, List.prefix_rfl, Nat.le_refl _, fun _ _ => rfl, fun _ _ h => ⟨h, rfl⟩⟩

/-- A method of an interface may be recorded at any time. It is no function of the file. -/
theorem extends_define (p : Progress) {f : FuncDef} (hf : f.scope = .interface) :
    p.Extends (p.define (.func f)) :=
  ⟨List.prefix_rfl, List.prefix_rfl, List.prefix_rfl, List.prefix_rfl, [f], rfl, by simpa using hf⟩

end Progress

/-! ## What declared names mean so far -/

/-- What has been found that a declared name means. -/
def Env.typeOf? (env : Env) (p : Progress) (name : String) : Option Ty :=
  if env.scope.isAlias name then p.aliases.lookup name
  else (p.enteredType? name).map fun e => .named e.id []

/-- A name that means something keeps its meaning. -/
theorem Env.typeOf?_of_later {env : Env} {p q : Progress} (h : p.Later q) {name : String}
    {type : Ty} (hp : env.typeOf? p name = some type) : env.typeOf? q name = some type := by
  unfold typeOf? at hp ⊢
  by_cases hname : env.scope.isAlias name = true
  · rw [if_pos hname] at hp ⊢
    exact h.aliases.lookup_eq_some hp
  · rw [if_neg hname, Option.map_eq_some_iff] at hp ⊢
    obtain ⟨e, he, htype⟩ := hp
    exact ⟨e, h.entered.find?_eq_some he, htype⟩

/-- A defined type that means something was entered under its name. -/
theorem Env.entered_of_typeOf? {env : Env} {p : Progress} {name : String} {type : Ty}
    (hname : env.scope.isAlias name = false) (h : env.typeOf? p name = some type) :
    ∃ e ∈ p.entered, e.name.text = name ∧ type = .named e.id [] := by
  rw [typeOf?, if_neg (by simp [hname]), Option.map_eq_some_iff] at h
  obtain ⟨e, he, rfl⟩ := h
  exact ⟨e, List.mem_of_find?_eq_some he, by simpa using List.find?_some he, rfl⟩

/-- With how many arguments the declared type at a place has to be used. -/
def Env.arity (env : Env) (t : Table) (id : Nat) : Nat :=
  if id ≤ comparableId then 0
  else ((t.label? id).map fun label => env.scope.arityOf label.2).getD 0

/-- A declared type that has its place needs as many arguments later on. -/
theorem Env.arity_of_later {env : Env} {p q : Progress} (h : p.Later q) {id : Nat}
    (hid : id < p.table.size) : env.arity q.table id = env.arity p.table id := by
  rw [arity, arity, h.labels id hid]

/-! ## Steps with lasting results -/

namespace Resolve

variable {α β : Type} {I J : Progress → Prop}

/-- A step that succeeds keeps `I` and extends the progress, and from then on its result
satisfies `S`. -/
def Yields (I : Progress → Prop) (S : α → Progress → Prop) (x : Resolve α) : Prop :=
  ∀ p a p', I p → x p = .ok (a, p') → I p' ∧ p.Extends p' ∧ ∀ q, p'.Later q → S a q

namespace Yields

variable {S : α → Progress → Prop} {R : β → Progress → Prop}

theorem pure {a : α} (h : ∀ p, I p → ∀ q, p.Later q → S a q) :
    Yields I S (Pure.pure a : Resolve α) := by
  intro p b p' hp hrun
  obtain ⟨rfl, rfl⟩ := pure_eq_ok_iff.mp hrun
  exact ⟨hp, .refl p, h p hp⟩

theorem fail {env : Env} {place : Position} {cause : ResolveCause} :
    Yields I S (env.fail place cause : Resolve α) :=
  fun _ _ _ _ hrun => absurd hrun fail_ne_ok

/-- What is known to last may be used all along a step. -/
theorem given {T : Progress → Prop} {x : Resolve α} (hx : Yields I S x) :
    Yields (fun p => I p ∧ ∀ q, p.Later q → T q) S x := by
  intro p a p' ⟨hI, hT⟩ hrun
  obtain ⟨hI', hext, hS⟩ := hx p a p' hI hrun
  exact ⟨⟨hI', fun q hq => hT q (hext.later.trans hq)⟩, hext, hS⟩

/-- Of the first result the second step may use what lasts. -/
theorem bind {x : Resolve α} {f : α → Resolve β} (hx : Yields I S x)
    (hf : ∀ a, Yields (fun p => I p ∧ ∀ q, p.Later q → S a q) R (f a)) : Yields I R (x >>= f) := by
  intro p b p' hI hrun
  obtain ⟨a, p₁, hx₁, hf₁⟩ := bind_eq_ok_iff.mp hrun
  obtain ⟨hI₁, hext₁, hS⟩ := hx p a p₁ hI hx₁
  obtain ⟨⟨hI', -⟩, hext, hR⟩ := hf a p₁ b p' ⟨hI₁, hS⟩ hf₁
  exact ⟨hI', hext₁.trans hext, hR⟩

theorem define {f : FuncDef} (hf : f.scope = .interface)
    (hI : ∀ p, I p → I (p.define (.func f))) :
    Yields I (fun _ _ => True) (modify fun p => p.define (.func f)) := by
  intro p a p' hp hrun
  rw [modify_eq_ok_iff] at hrun
  subst hrun
  exact ⟨hI p hp, p.extends_define hf, fun _ _ => trivial⟩

end Yields

end Resolve

end GoSignatures
