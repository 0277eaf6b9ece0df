import GoSignatures.Proofs.Ty.Proper

/-!
# Types that occur in a type

A type contains types at many places: as arguments, elements, keys, fields, parameters, receivers,
constraints, terms and embedded elements, and in what is known about an imported type.

* `Ty.occurring` — all types that occur in a type, itself included
* `ResolvedFile.occurring` — all types that occur in the table and in the definitions of a file
* `Ty.closed_occurring`, `ResolvedFile.closed_occurring` — what occurs in a type that occurs, occurs
* `Ty.Proper.occurring` — where only what is allowed occurs, that is so of every type that occurs
-/

namespace GoSignatures

mutual

/-- The types that occur in a type, the type itself first. -/
def Ty.occurring : Ty → List Ty
  | .basic kind => [.basic kind]
  | .named id args => .named id args :: Ty.allOccurring args
  | .imported path name underlying => .imported path name underlying :: Ty.optOccurring underlying
  | .param name => [.param name]
  | .pointer elem => .pointer elem :: elem.occurring
  | .slice elem => .slice elem :: elem.occurring
  | .array len elem => .array len elem :: elem.occurring
  | .map key value => .map key value :: (key.occurring ++ value.occurring)
  | .chan dir elem => .chan dir elem :: elem.occurring
  | .func sig => .func sig :: sig.occurring
  | .struct fields => .struct fields :: Field.allOccurring fields
  | .interface iface => .interface iface :: iface.occurring
  | .invalid => [.invalid]

/-- The types that occur in a type, if there is one. -/
def Ty.optOccurring : Option Ty → List Ty
  | none => []
  | some t => t.occurring

/-- The types that occur in types. -/
def Ty.allOccurring : List Ty → List Ty
  | [] => []
  | t :: ts => t.occurring ++ Ty.allOccurring ts

/-- The types that occur in variables. -/
def Var.allOccurring : List Var → List Ty
  | [] => []
  | ⟨_, type⟩ :: vs => type.occurring ++ Var.allOccurring vs

/-- The types that occur in a variable, if there is one. -/
def Var.optOccurring : Option Var → List Ty
  | none => []
  | some ⟨_, type⟩ => type.occurring

/-- The types that occur in the constraints of type parameters. -/
def TypeParam.allOccurring : List TypeParam → List Ty
  | [] => []
  | ⟨_, constraint⟩ :: ps => constraint.occurring ++ TypeParam.allOccurring ps

/-- The types that occur in a signature. -/
def Signature.occurring : Signature → List Ty
  | ⟨receiver, typeParams, params, results, _⟩ =>
    Var.optOccurring receiver ++ TypeParam.allOccurring typeParams ++
      Var.allOccurring params ++ Var.allOccurring results

/-- The types that occur in fields. -/
def Field.allOccurring : List Field → List Ty
  | [] => []
  | ⟨_, type, _, _⟩ :: fs => type.occurring ++ Field.allOccurring fs

/-- The types that occur in methods. -/
def Method.allOccurring : List Method → List Ty
  | [] => []
  | ⟨_, sig⟩ :: ms => sig.occurring ++ Method.allOccurring ms

/-- The types that occur in terms. -/
def Term.allOccurring : List Term → List Ty
  | [] => []
  | ⟨_, type⟩ :: ts => type.occurring ++ Term.allOccurring ts

/-- The types that occur in embedded elements. -/
def Embedded.allOccurring : List Embedded → List Ty
  | [] => []
  | .type t :: es => t.occurring ++ Embedded.allOccurring es
  | .union ts :: es => Term.allOccurring ts ++ Embedded.allOccurring es

/-- The types that occur in an interface. -/
def Interface.occurring : Interface → List Ty
  | ⟨methods, embeddeds, _⟩ => Method.allOccurring methods ++ Embedded.allOccurring embeddeds

end

/-- The types that occur in the type parameters and the underlying type of an entry. -/
def NamedType.occurring (entry : NamedType) : List Ty :=
  TypeParam.allOccurring entry.typeParams ++ Ty.optOccurring entry.underlying

/-- The types that occur in a definition. -/
def Definition.occurring : Definition → List Ty
  | .func f => f.signature.occurring
  | .type d => d.type.occurring
  | .var _ | .const _ => []

/-- The types that occur in the table and in the definitions of a file. -/
def ResolvedFile.occurring (file : ResolvedFile) : List Ty :=
  file.table.entries.flatMap NamedType.occurring ++ file.definitions.flatMap Definition.occurring

/-! ## What occurs in an occurring type -/

theorem Ty.mem_occurring_self (type : Ty) : type ∈ type.occurring := by
  cases type <;> exact List.mem_cons_self

/-- With each type in a list, all types that occur in it are in the list. -/
def Ty.Closed (ts : List Ty) : Prop :=
  ∀ s ∈ ts, s.occurring ⊆ ts

theorem Ty.Closed.nil : Ty.Closed [] :=
  List.forall_mem_nil _

/-- Closed lists are put together. -/
theorem Ty.Closed.append {ts us : List Ty} (hts : Ty.Closed ts) (hus : Ty.Closed us) :
    Ty.Closed (ts ++ us) := by
  refine List.forall_mem_append.mpr ⟨fun s hs r hr => ?_, fun s hs r hr => ?_⟩
  · exact List.mem_append_left _ (hts s hs hr)
  · exact List.mem_append_right _ (hus s hs hr)

/-- A type may be added to what occurs in it, which is closed already. -/
theorem Ty.Closed.cons {t : Ty} {ts : List Ty} (hts : Ty.Closed ts) (ht : t.occurring = t :: ts) :
    Ty.Closed t.occurring := by
  intro s hs r hr
  rw [ht] at hs
  rcases List.mem_cons.mp hs with rfl | hs
  · exact hr
  · rw [ht]
    exact List.mem_cons_of_mem _ (hts s hs hr)

mutual

/-- What occurs in a type that occurs, occurs. One case for each constructor. -/
theorem Ty.closed_occurring : ∀ t : Ty, Ty.Closed t.occurring
  | .basic _ | .param _ | .invalid => .cons .nil rfl
  | .named _ args => .cons (Ty.closed_allOccurring args) rfl
  | .imported _ _ known => .cons (Ty.closed_optOccurring known) rfl
  | .pointer elem => .cons (Ty.closed_occurring elem) rfl
  | .slice elem => .cons (Ty.closed_occurring elem) rfl
  | .array _ elem => .cons (Ty.closed_occurring elem) rfl
  | .map key value => .cons ((Ty.closed_occurring key).append (Ty.closed_occurring value)) rfl
  | .chan _ elem => .cons (Ty.closed_occurring elem) rfl
  | .func sig => .cons (Signature.closed_occurring sig) rfl
  | .struct fields => .cons (Field.closed_allOccurring fields) rfl
  | .interface iface => .cons (Interface.closed_occurring iface) rfl
termination_by structural t => t

theorem Ty.closed_optOccurring : ∀ t : Option Ty, Ty.Closed (Ty.optOccurring t)
  | none => .nil
  | some t => Ty.closed_occurring t
termination_by structural t => t

theorem Ty.closed_allOccurring : ∀ ts : List Ty, Ty.Closed (Ty.allOccurring ts)
  | [] => .nil
  | t :: ts => (Ty.closed_occurring t).append (Ty.closed_allOccurring ts)
termination_by structural ts => ts

theorem Var.closed_allOccurring : ∀ vs : List Var, Ty.Closed (Var.allOccurring vs)
  | [] => .nil
  | ⟨_, type⟩ :: vs => (Ty.closed_occurring type).append (Var.closed_allOccurring vs)
termination_by structural vs => vs

theorem Var.closed_optOccurring : ∀ v : Option Var, Ty.Closed (Var.optOccurring v)
  | none => .nil
  | some ⟨_, type⟩ => Ty.closed_occurring type
termination_by structural v => v

theorem TypeParam.closed_allOccurring : ∀ ps : List TypeParam,
    Ty.Closed (TypeParam.allOccurring ps)
  | [] => .nil
  | ⟨_, constraint⟩ :: ps =>
    (Ty.closed_occurring constraint).append (TypeParam.closed_allOccurring ps)
termination_by structural ps => ps

theorem Signature.closed_occurring : ∀ sig : Signature, Ty.Closed sig.occurring
  | ⟨receiver, typeParams, params, results, _⟩ =>
    (((Var.closed_optOccurring receiver).append (TypeParam.closed_allOccurring typeParams)).append
      (Var.closed_allOccurring params)).append (Var.closed_allOccurring results)
termination_by structural sig => sig

theorem Field.closed_allOccurring : ∀ fs : List Field, Ty.Closed (Field.allOccurring fs)
  | [] => .nil
  | ⟨_, type, _, _⟩ :: fs => (Ty.closed_occurring type).append (Field.closed_allOccurring fs)
termination_by structural fs => fs

theorem Method.closed_allOccurring : ∀ ms : List Method, Ty.Closed (Method.allOccurring ms)
  | [] => .nil
  | ⟨_, sig⟩ :: ms => (Signature.closed_occurring sig).append (Method.closed_allOccurring ms)
termination_by structural ms => ms

theorem Term.closed_allOccurring : ∀ ts : List Term, Ty.Closed (Term.allOccurring ts)
  | [] => .nil
  | ⟨_, type⟩ :: ts => (Ty.closed_occurring type).append (Term.closed_allOccurring ts)
termination_by structural ts => ts

theorem Embedded.closed_allOccurring : ∀ es : List Embedded, Ty.Closed (Embedded.allOccurring es)
  | [] => .nil
  | .type t :: es => (Ty.closed_occurring t).append (Embedded.closed_allOccurring es)
  | .union ts :: es => (Term.closed_allOccurring ts).append (Embedded.closed_allOccurring es)
termination_by structural es => es

theorem Interface.closed_occurring : ∀ i : Interface, Ty.Closed i.occurring
  | ⟨methods, embeddeds, _⟩ =>
    (Method.closed_allOccurring methods).append (Embedded.closed_allOccurring embeddeds)
termination_by structural i => i

end

theorem NamedType.closed_occurring (entry : NamedType) : Ty.Closed entry.occurring :=
  (TypeParam.closed_allOccurring entry.typeParams).append (Ty.closed_optOccurring entry.underlying)

theorem Definition.closed_occurring (d : Definition) : Ty.Closed d.occurring := by
  cases d with
  | func f => exact Signature.closed_occurring f.signature
  | type d => exact Ty.closed_occurring d.type
  | _ => exact .nil

/-- What occurs in a type that occurs in a file occurs in the file. -/
theorem ResolvedFile.closed_occurring (file : ResolvedFile) : Ty.Closed file.occurring := by
  refine .append (fun s hs r hr => ?_) (fun s hs r hr => ?_)
  · obtain ⟨entry, hmem, hs⟩ := List.mem_flatMap.mp hs
    exact List.mem_flatMap.mpr ⟨entry, hmem, entry.closed_occurring s hs hr⟩
  · obtain ⟨d, hmem, hs⟩ := List.mem_flatMap.mp hs
    exact List.mem_flatMap.mpr ⟨d, hmem, d.closed_occurring s hs hr⟩

/-! ## Occurring types are allowed -/

variable {A : Ty.Allowed}

section

variable (herror : A.named errorId 0)
include herror

-- each lemma of the block has the assumptions for the others, which the linter does not see
set_option linter.unusedSectionVars false in
mutual

/-- Where only what is allowed occurs in a type, that is so of every type that occurs in it. -/
theorem Ty.Proper.occurring : ∀ {t : Ty}, t.Proper A → ∀ s ∈ t.occurring, s.Proper A
  | .basic _, h | .param _, h => List.forall_mem_singleton.mpr h
  | .named _ _, h => List.forall_mem_cons.mpr ⟨h, Ty.AllProper.occurring h.2⟩
  | .imported _ _ none, h => List.forall_mem_singleton.mpr h
  | .imported _ _ (some type), h => by
    refine List.forall_mem_cons.mpr ⟨h, ?_⟩
    rcases h type rfl with ⟨kind, rfl⟩ | rfl
    · exact List.forall_mem_singleton.mpr trivial
    · exact List.forall_mem_singleton.mpr ⟨herror, trivial⟩
  | .pointer elem, h => List.forall_mem_cons.mpr ⟨h, Ty.Proper.occurring (t := elem) h⟩
  | .slice elem, h => List.forall_mem_cons.mpr ⟨h, Ty.Proper.occurring (t := elem) h⟩
  | .array _ elem, h => List.forall_mem_cons.mpr ⟨h, Ty.Proper.occurring (t := elem) h⟩
  | .map _ _, h =>
    List.forall_mem_cons.mpr ⟨h, List.forall_mem_append.mpr
      ⟨Ty.Proper.occurring h.1, Ty.Proper.occurring h.2⟩⟩
  | .chan _ elem, h => List.forall_mem_cons.mpr ⟨h, Ty.Proper.occurring (t := elem) h⟩
  | .func sig, h =>
    List.forall_mem_cons.mpr ⟨h, Signature.Proper.occurring (show sig.Proper A from h)⟩
  | .struct fields, h =>
    List.forall_mem_cons.mpr ⟨h, Field.AllProper.occurring (show Field.AllProper A fields from h)⟩
  | .interface iface, h =>
    List.forall_mem_cons.mpr ⟨h, Interface.Proper.occurring (show iface.Proper A from h)⟩
termination_by structural t => t

theorem Ty.AllProper.occurring :
    ∀ {ts : List Ty}, Ty.AllProper A ts → ∀ s ∈ Ty.allOccurring ts, s.Proper A
  | [], _ => List.forall_mem_nil _
  | _ :: _, h => List.forall_mem_append.mpr ⟨Ty.Proper.occurring h.1, Ty.AllProper.occurring h.2⟩
termination_by structural ts => ts

theorem Var.AllProper.occurring :
    ∀ {vs : List Var}, Var.AllProper A vs → ∀ s ∈ Var.allOccurring vs, s.Proper A
  | [], _ => List.forall_mem_nil _
  | ⟨_, _⟩ :: _, h =>
    List.forall_mem_append.mpr ⟨Ty.Proper.occurring h.1, Var.AllProper.occurring h.2⟩
termination_by structural vs => vs

theorem Signature.Proper.occurring :
    ∀ {sig : Signature}, sig.Proper A → ∀ s ∈ sig.occurring, s.Proper A
  | ⟨_, _, _, _, _⟩, ⟨hreceiver, htypeParams, hparams, hresults⟩ => by
    subst hreceiver htypeParams
    exact List.forall_mem_append.mpr
      ⟨Var.AllProper.occurring hparams, Var.AllProper.occurring hresults⟩
termination_by structural sig => sig

theorem Field.AllProper.occurring :
    ∀ {fs : List Field}, Field.AllProper A fs → ∀ s ∈ Field.allOccurring fs, s.Proper A
  | [], _ => List.forall_mem_nil _
  | ⟨_, _, _, _⟩ :: _, h =>
    List.forall_mem_append.mpr ⟨Ty.Proper.occurring h.1, Field.AllProper.occurring h.2⟩
termination_by structural fs => fs

theorem Method.AllProper.occurring :
    ∀ {ms : List Method}, Method.AllProper A ms → ∀ s ∈ Method.allOccurring ms, s.Proper A
  | [], _ => List.forall_mem_nil _
  | ⟨_, _⟩ :: _, h =>
    List.forall_mem_append.mpr ⟨Signature.Proper.occurring h.1, Method.AllProper.occurring h.2⟩
termination_by structural ms => ms

theorem Term.AllProper.occurring :
    ∀ {ts : List Term}, Term.AllProper A ts → ∀ s ∈ Term.allOccurring ts, s.Proper A
  | [], _ => List.forall_mem_nil _
  | ⟨_, _⟩ :: _, h =>
    List.forall_mem_append.mpr ⟨Ty.Proper.occurring h.1, Term.AllProper.occurring h.2⟩
termination_by structural ts => ts

theorem Embedded.AllProper.occurring :
    ∀ {es : List Embedded}, Embedded.AllProper A es → ∀ s ∈ Embedded.allOccurring es, s.Proper A
  | [], _ => List.forall_mem_nil _
  | .type _ :: _, h =>
    List.forall_mem_append.mpr ⟨Ty.Proper.occurring h.1, Embedded.AllProper.occurring h.2⟩
  | .union _ :: _, h =>
    List.forall_mem_append.mpr ⟨Term.AllProper.occurring h.1, Embedded.AllProper.occurring h.2⟩
termination_by structural es => es

theorem Interface.Proper.occurring :
    ∀ {i : Interface}, i.Proper A → ∀ s ∈ i.occurring, s.Proper A
  | ⟨_, _, _⟩, h =>
    List.forall_mem_append.mpr ⟨Method.AllProper.occurring h.1, Embedded.AllProper.occurring h.2⟩
termination_by structural i => i

end

theorem TypeParam.occurring_of_proper {ps : List TypeParam}
    (h : ∀ p ∈ ps, p.constraint.Proper A) : ∀ s ∈ TypeParam.allOccurring ps, s.Proper A := by
  induction ps with
  | nil => exact List.forall_mem_nil _
  | cons p ps ih =>
    obtain ⟨hp, hps⟩ := List.forall_mem_cons.mp h
    cases p
    exact List.forall_mem_append.mpr ⟨Ty.Proper.occurring herror hp, ih hps⟩

/-- The same for the signature of a function, with its receiver and its type parameters. -/
theorem FuncDef.Proper.occurring {f : FuncDef} (h : f.Proper A) :
    ∀ s ∈ f.signature.occurring, s.Proper A := by
  obtain ⟨_, ⟨receiver, typeParams, params, results, variadic⟩, _, _⟩ := f
  obtain ⟨hreceiver, htypeParams, hparams, hresults⟩ := h
  simp only [Signature.occurring, List.forall_mem_append]
  refine ⟨⟨⟨?_, TypeParam.occurring_of_proper herror htypeParams⟩,
    hparams.occurring herror⟩, hresults.occurring herror⟩
  cases receiver with
  | none => exact List.forall_mem_nil _
  | some v =>
    have hv := Ty.Proper.occurring herror (hreceiver v rfl)
    cases v
    exact hv

end

end GoSignatures
