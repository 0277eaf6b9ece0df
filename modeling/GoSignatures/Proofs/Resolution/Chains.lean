import GoSignatures.Proofs.Resolution.Receiving

/-!
# Chains of targets

A type that is defined as another one may wait for a type that waits itself, so those that wait form
chains. Settling runs over all of them in rounds, and a round reads what it has just stored. However
far a round comes, in the end a type has the underlying type at the end of its chain. A type whose
chain leads to no underlying type is on a circle or leads to one; if there is such a type, the
rounds stop, and one of these types is refused.

* `Table.Rounds` — the rounds over the types that wait, where they come to an end
* `Table.Chain` — where a chain of targets leads
* `Table.Awaits` — which tables and types can be settled at all
* `Table.FollowsChains` — an outcome that is told by the chains
* `Env.settlePending_followsChains` — the rounds end with such an outcome
-/

namespace GoSignatures

/-! ## Rounds and chains -/

namespace Table

/-- The rounds over the types that wait come to an end, with an outcome. There is another round
while any type waits; one that settles none is the last, and the first type that remains is told. -/
inductive Rounds : Table → List (Nat × Nat) → Except Nat Table → Prop
  | settled {t} : Rounds t [] (.ok t)
  | stuck {t t' w waiting id target remaining}
      (hround : t.settleRound (w :: waiting) = (t', (id, target) :: remaining))
      (hlength : remaining.length = waiting.length) : Rounds t (w :: waiting) (.error id)
  | again {t t' w waiting remaining outcome}
      (hround : t.settleRound (w :: waiting) = (t', remaining))
      (hlength : remaining.length ≠ waiting.length + 1) (hrest : Rounds t' remaining outcome) :
      Rounds t (w :: waiting) outcome

/-- The chain of targets leads from one type to another. -/
def Chain (waiting : List (Nat × Nat)) : Nat → Nat → Prop :=
  Relation.ReflTransGen fun id target => (id, target) ∈ waiting

/-- The types that wait are different ones without underlying type, and each waits for a type with
underlying type or for one that waits, too. -/
structure Awaits (t : Table) (waiting : List (Nat × Nat)) : Prop where
  nodup : (waiting.map Prod.fst).Nodup
  place : ∀ w ∈ waiting, w.1 < t.size
  unknown : ∀ w ∈ waiting, t.underlying? w.1 = none
  target : ∀ w ∈ waiting, (∃ type, t.underlying? w.2 = some type) ∨ w.2 ∈ waiting.map Prod.fst

/-- An outcome of settling is told by the chains of targets. -/
structure FollowsChains (t : Table) (waiting : List (Nat × Nat)) (outcome : Except Nat Table) :
    Prop where
  /-- All types are settled exactly if each chain leads to an underlying type. -/
  ok_iff : (∃ t', outcome = .ok t') ↔
    ∀ w ∈ waiting, ∃ last type, Chain waiting w.1 last ∧ t.underlying? last = some type
  /-- Then a type that waited has the underlying type at the end of its chain. -/
  received : ∀ t', outcome = .ok t' → ∀ w ∈ waiting, ∀ last type, Chain waiting w.1 last →
    t.underlying? last = some type →
      t'.get? w.1 = (t.get? w.1).map fun entry => { entry with underlying := some type }
  others : ∀ t', outcome = .ok t' →
    t'.size = t.size ∧ ∀ id ∉ waiting.map Prod.fst, t'.get? id = t.get? id
  order : ∀ waiting', waiting'.Perm waiting → ∀ t',
    (t.Rounds waiting' (.ok t') ↔ outcome = .ok t')
  /-- Otherwise a type is named whose chain does not lead to an underlying type. -/
  stuck : ∀ id, outcome = .error id → id ∈ waiting.map Prod.fst ∧
    ∀ last, Chain waiting id last → t.underlying? last = none

variable {t t' : Table} {waiting waiting' : List (Nat × Nat)} {id : Nat} {type : Ty}

theorem Awaits.waits (h : t.Awaits waiting) : t.Waits waiting :=
  ⟨h.nodup, h.place, h.unknown⟩

theorem Awaits.of_perm (h : t.Awaits waiting) (hperm : waiting'.Perm waiting) :
    t.Awaits waiting' where
  nodup := (hperm.map Prod.fst).nodup_iff.mpr h.nodup
  place w hw := h.place w (hperm.mem_iff.mp hw)
  unknown w hw := h.unknown w (hperm.mem_iff.mp hw)
  target w hw := (h.target w (hperm.mem_iff.mp hw)).imp_right (hperm.map Prod.fst).mem_iff.mpr

/-- A type receives an underlying type if its chain leads to it. -/
theorem receives_iff_chain :
    t.Receives waiting id type ↔
      ∃ last, Chain waiting id last ∧ t.underlying? last = some type := by
  constructor
  · intro h
    induction h with
    | known h => exact ⟨_, .refl, h⟩
    | waits hmem _ ih =>
      obtain ⟨last, hchain, hlast⟩ := ih
      exact ⟨last, .head hmem hchain, hlast⟩
  · rintro ⟨last, hchain, hlast⟩
    induction hchain using Relation.ReflTransGen.head_induction_on with
    | refl => exact .known hlast
    | head hmem _ ih => exact .waits hmem ih

theorem Receives.of_perm (hperm : waiting'.Perm waiting) (h : t.Receives waiting id type) :
    t.Receives waiting' id type := by
  induction h with
  | known h => exact .known h
  | waits hmem _ ih => exact .waits (hperm.mem_iff.mpr hmem) ih

/-! ## The rounds end -/

/-- Each round but the last settles a type, so the rounds end. -/
theorem rounds_settle (hw : t.Waits waiting) : t.Rounds waiting (t.settle waiting) := by
  induction hn : waiting.length using Nat.strongRecOn generalizing t waiting with
  | _ n ih =>
    subst hn
    cases waiting with
    | nil =>
      rw [settle]
      exact .settled
    | cons w waiting =>
      obtain ⟨t', remaining, hround⟩ :
          ∃ t' remaining, t.settleRound (w :: waiting) = (t', remaining) := ⟨_, _, rfl⟩
      have hs := settleRound_settles hw hround
      have hle := hs.sublist.length_le
      rw [settle, hround]
      cases remaining with
      | nil => exact .again hround (Nat.ne_of_lt (Nat.succ_pos _)) .settled
      | cons v remaining =>
        rw [List.length_cons, List.length_cons] at hle
        dsimp only
        split
        · next hlt =>
          rw [List.length_cons] at hlt
          exact .again hround (Nat.ne_of_lt hlt) (ih _ hlt (hw.of_settles hs) rfl)
        · next hnot =>
          rw [List.length_cons] at hnot
          exact .stuck hround (by omega)

/-- They end in one way. -/
theorem Rounds.unique {outcome outcome' : Except Nat Table} (h : t.Rounds waiting outcome)
    (h' : t.Rounds waiting outcome') : outcome' = outcome := by
  induction h with
  | settled =>
    cases h'
    rfl
  | stuck hround hlength =>
    cases h' with
    | stuck hround' _ =>
      cases hround.symm.trans hround'
      rfl
    | again hround' hlength' _ =>
      cases hround.symm.trans hround'
      exact absurd (congrArg Nat.succ hlength) hlength'
  | again hround hlength _ ih =>
    cases h' with
    | stuck hround' hlength' =>
      cases hround.symm.trans hround'
      exact absurd (congrArg Nat.succ hlength') hlength
    | again hround' _ hrest' =>
      cases hround.symm.trans hround'
      exact ih hrest'

theorem rounds_iff (hw : t.Waits waiting) {outcome : Except Nat Table} :
    t.Rounds waiting outcome ↔ t.settle waiting = outcome :=
  ⟨fun h => h.unique (rounds_settle hw), fun h => h ▸ rounds_settle hw⟩

/-! ## What the rounds leave -/

/-- Settling changes nothing of an entry but its underlying type. -/
theorem Settles.get? {remaining : List (Nat × Nat)} (hs : t.Settles t' waiting remaining)
    (id : Nat) :
    t'.get? id = (t.get? id).map fun entry => { entry with underlying := t'.underlying? id } := by
  rw [t'.get?_eq_map_label, t.get?_eq_map_label, hs.labels, hs.typeParams, Option.map_map]
  rfl

theorem Settles.get?_of_not_mem {remaining : List (Nat × Nat)}
    (hs : t.Settles t' waiting remaining) (hid : id ∉ waiting.map Prod.fst) :
    t'.get? id = t.get? id := by
  rw [hs.get? id, hs.others id hid, Table.underlying?]
  cases t.get? id <;> rfl

/-- Tables with the same entries at all places are equal. -/
theorem ext_get? (h : ∀ id, t'.get? id = t.get? id) : t' = t := by
  obtain ⟨entries⟩ := t
  obtain ⟨entries'⟩ := t'
  exact congrArg mk (List.ext_getElem? h)

/-- When all types are settled, the order in which they waited does not show. -/
theorem Settles.eq_of_perm {t₁ t₂ : Table} (hperm : waiting'.Perm waiting)
    (h₁ : t.Settles t₁ waiting []) (h₂ : t.Settles t₂ waiting' []) : t₂ = t₁ := by
  refine ext_get? fun id => ?_
  have hsame : t₂.underlying? id = t₁.underlying? id := by
    refine Option.ext fun type => ?_
    rw [h₁.underlying?_eq_some_iff, h₂.underlying?_eq_some_iff]
    exact ⟨Receives.of_perm hperm.symm, Receives.of_perm hperm⟩
  rw [h₁.get? id, h₂.get? id, hsame]

theorem settle_of_perm (h : t.Awaits waiting) (hperm : waiting'.Perm waiting)
    (hsettle : t.settle waiting = .ok t') : t.settle waiting' = .ok t' := by
  have hreceives := (settle_ok_iff h.waits).mp ⟨t', hsettle⟩
  obtain ⟨t₂, hsettle'⟩ := (settle_ok_iff (h.of_perm hperm).waits).mpr fun w hw =>
    (hreceives w (hperm.mem_iff.mp hw)).imp fun _ => Receives.of_perm hperm
  rw [hsettle', Settles.eq_of_perm hperm (settle_ok h.waits hsettle)
    (settle_ok (h.of_perm hperm).waits hsettle')]

/-- From a type that remains the chain leads to types that remain, none of which has an underlying
type. -/
theorem Settles.underlying?_of_chain {remaining : List (Nat × Nat)}
    (hw : t.Waits waiting) (hs : t.Settles t' waiting remaining)
    (htargets : ∀ w ∈ waiting, (∃ type, t.underlying? w.2 = some type) ∨
      w.2 ∈ waiting.map Prod.fst)
    (hstuck : ∀ w ∈ remaining, t'.underlying? w.2 = none) (hid : id ∈ remaining.map Prod.fst)
    {last : Nat} (hchain : Chain waiting id last) :
    last ∈ remaining.map Prod.fst ∧ t.underlying? last = none := by
  have hunknown : ∀ id ∈ remaining.map Prod.fst, t.underlying? id = none := by
    intro id hid
    obtain ⟨w, hw', rfl⟩ := List.mem_map.mp hid
    exact hw.unknown w (hs.sublist.subset hw')
  induction hchain with
  | refl => exact ⟨hid, hunknown id hid⟩
  | @tail middle target _ hmem ih =>
    -- the type before waits once, so its target is the one that has no underlying type
    obtain ⟨⟨_, _⟩, hremains, rfl⟩ := List.mem_map.mp ih.1
    cases List.inj_on_of_nodup_map hw.nodup hmem (hs.sublist.subset hremains) rfl
    have hnone : t'.underlying? target = none := hstuck _ hremains
    have hwaits : target ∈ waiting.map Prod.fst := by
      refine (htargets _ hmem).resolve_left fun ⟨type, htype⟩ => ?_
      rw [hs.known _ _ htype] at hnone
      cases hnone
    obtain ⟨v, hv, rfl⟩ := List.mem_map.mp hwaits
    have hmem' : v ∈ remaining := by
      by_contra hnot
      obtain ⟨type, hself, -⟩ := hs.settled v hv hnot
      rw [hself] at hnone
      cases hnone
    have hlast := List.mem_map_of_mem (f := Prod.fst) hmem'
    exact ⟨hlast, hunknown _ hlast⟩

/-- The outcome of settling is told by the chains. -/
theorem Awaits.followsChains (h : t.Awaits waiting) :
    FollowsChains t waiting (t.settle waiting) where
  ok_iff := by
    rw [settle_ok_iff h.waits]
    refine forall₂_congr fun w hw => ?_
    simp only [receives_iff_chain]
    exact exists_comm
  received t' hsettle w hw last type hchain hlast := by
    have hs := settle_ok h.waits hsettle
    have hreceives := hs.underlying?_eq_some_iff.mpr (receives_iff_chain.mpr ⟨last, hchain, hlast⟩)
    rw [hs.get? w.1, hreceives]
  others t' hsettle := by
    have hs := settle_ok h.waits hsettle
    exact ⟨hs.size, fun id hid => hs.get?_of_not_mem hid⟩
  order waiting' hperm t' := by
    rw [rounds_iff (h.of_perm hperm).waits]
    exact ⟨settle_of_perm (h.of_perm hperm) hperm.symm, settle_of_perm h hperm⟩
  stuck id hsettle := by
    obtain ⟨t', remaining, hs, hid, hstuck⟩ := settle_error h.waits hsettle
    exact ⟨(hs.sublist.map Prod.fst).subset hid, fun last hchain =>
      (hs.underlying?_of_chain h.waits h.target hstuck hid hchain).2⟩

end Table

/-! ## Settling what waits -/

/-- Where the declared type at a place is declared. -/
def Progress.positionOf (p : Progress) (id : Nat) : Position :=
  ((p.entered.find? fun e => e.id == id).map fun e => e.name.position).getD Position.start

theorem Env.failRecursive_eq_error (env : Env) (p : Progress) (id : Nat) :
    env.failRecursive id p =
      .error (env.errorAt (p.positionOf id) (.invalidRecursiveType (p.table.name id))) := by
  simp only [failRecursive, Resolve.get_bind, Progress.positionOf]
  cases p.entered.find? fun e => e.id == id with
  | some e => rfl
  | none => rfl

/-- Whatever types wait for each other, the rounds end, and in one way. Their outcome is told by the
chains of targets, and either the table is replaced and no type waits any more, or a type is refused
for being recursive. -/
theorem Env.settlePending_followsChains (env : Env) {p : Progress}
    (h : p.table.Awaits p.pending) :
    ∃ outcome, p.table.Rounds p.pending outcome ∧
      (∀ other, p.table.Rounds p.pending other → other = outcome) ∧
      p.table.FollowsChains p.pending outcome ∧
      env.settlePending p =
        match outcome with
        | .ok table => .ok ((), { p with table, pending := [] })
        | .error id =>
          .error (env.errorAt (p.positionOf id) (.invalidRecursiveType (p.table.name id))) := by
  have hrounds := Table.rounds_settle h.waits
  refine ⟨p.table.settle p.pending, hrounds, fun _ => hrounds.unique, h.followsChains, ?_⟩
  rw [settlePending, Resolve.get_bind]
  cases p.table.settle p.pending with
  | ok table => rfl
  | error id => exact env.failRecursive_eq_error p id

/-- The types of `type A struct{}; type B A; type C B; type D C` when `D` waits before `B` and `C`
do. -/
def Progress.ofChain : Progress where
  table := ⟨Table.initial.entries ++
    [{ name := "A", package := "p", underlying := some (.struct []) },
      { name := "B", package := "p" }, { name := "C", package := "p" },
      { name := "D", package := "p" }]⟩
  pending := [(5, 4), (3, 2), (4, 3)]

theorem Env.settlePending_followsChains_ofChain :
    Progress.ofChain.table.Awaits Progress.ofChain.pending ∧
      ∃ table, (Env.mk "a.go" "p" {} .empty).settlePending Progress.ofChain =
        .ok ((), { Progress.ofChain with table, pending := [] }) ∧
          table.underlying? 5 = some (.struct []) := by
  have hknown : Progress.ofChain.table.underlying? 2 = some (.struct []) := rfl
  have hawaits : Progress.ofChain.table.Awaits Progress.ofChain.pending := by
    refine ⟨by decide, by decide, ?_, ?_⟩
    · simp [Progress.ofChain, Table.underlying?, Table.get?, Table.initial]
    · simp only [Progress.ofChain, List.forall_mem_cons]
      exact ⟨.inr (by decide), .inl ⟨_, hknown⟩, .inr (by decide), List.forall_mem_nil _⟩
  have hthird : Table.Chain Progress.ofChain.pending 3 2 := .single (by decide)
  have hfourth : Table.Chain Progress.ofChain.pending 4 2 := .head (by decide) hthird
  have hfifth : Table.Chain Progress.ofChain.pending 5 2 := .head (by decide) hfourth
  obtain ⟨outcome, -, -, hfollows, hsettle⟩ :=
    (Env.mk "a.go" "p" {} .empty).settlePending_followsChains hawaits
  have hall : ∀ w ∈ Progress.ofChain.pending, ∃ last type,
      Table.Chain Progress.ofChain.pending w.1 last ∧
        Progress.ofChain.table.underlying? last = some type :=
    List.forall_mem_cons.mpr ⟨⟨2, _, hfifth, hknown⟩, List.forall_mem_cons.mpr
      ⟨⟨2, _, hthird, hknown⟩, List.forall_mem_singleton.mpr ⟨2, _, hfourth, hknown⟩⟩⟩
  obtain ⟨table, rfl⟩ := hfollows.ok_iff.mpr hall
  refine ⟨hawaits, table, hsettle, ?_⟩
  have hentry := hfollows.received table rfl (5, 4) List.mem_cons_self 2 _ hfifth hknown
  rw [Table.underlying?, hentry]
  rfl

end GoSignatures
