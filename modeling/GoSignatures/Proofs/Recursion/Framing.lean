import GoSignatures.Proofs.Recursion.Viewing

/-!
# Frames of types

Whether declarations are accepted depends on what their types hold by value, on nothing else of
them. The frame of a type keeps arrays, structs, declared types and type parameters. All that is
known of an imported type goes: it is one of the kinds, or `error`, which is an interface.

* `Ty.frame` — what values of a type are made of
* `Ty.frame_underlying` — the frame of the underlying type is found in the frames of a table
* `Ty.view_frame` — frames are a view of types
-/

namespace GoSignatures

/-- Whether a type is all that may be known of an imported type: one of the kinds, or `error`. -/
def Ty.isKnown : Ty → Bool
  | .basic _ => true
  | .named id args => id == errorId && args.isEmpty
  | _ => false

mutual

/-- What values of a type are made of. -/
def Ty.frame : Ty → Ty
  | .named id args => .named id (Ty.frames args)
  | .imported _ _ (some known) =>
    if known.isKnown then .invalid else .imported "" "" (some known.frame)
  | .param name => .param name
  | .array _ elem => .array (.known 0) elem.frame
  | .struct fields => .struct (Field.frames fields)
  | _ => .invalid

/-- The same for each type of a list. -/
def Ty.frames : List Ty → List Ty
  | [] => []
  | t :: ts => t.frame :: Ty.frames ts

/-- The same for each field of a list. -/
def Field.frames : List Field → List Field
  | [] => []
  | ⟨name, type, embedded, tag⟩ :: fields =>
    ⟨name, type.frame, embedded, tag⟩ :: Field.frames fields

end

theorem Ty.frames_eq_map (ts : List Ty) : Ty.frames ts = ts.map Ty.frame := by
  induction ts with
  | nil => rfl
  | cons t ts ih => rw [Ty.frames, ih, List.map_cons]

theorem Field.frames_eq_map (fields : List Field) :
    Field.frames fields = fields.map (Field.view Ty.frame) := by
  induction fields with
  | nil => rfl
  | cons field fields ih =>
    cases field
    rw [Field.frames, ih, List.map_cons, Field.view]

theorem Ty.frame_named (id : Nat) (args : List Ty) :
    (Ty.named id args).frame = .named id (args.map Ty.frame) := by
  rw [Ty.frame, Ty.frames_eq_map]

/-- The frame of an imported type holds nothing. -/
theorem Ty.frame_imported (path name : String) (known : Option Ty) :
    (Ty.imported path name known).frame = .invalid ∨
      ∃ type, known = some type ∧ type.isKnown = false ∧
        (Ty.imported path name known).frame = .imported "" "" (some type.frame) := by
  cases known with
  | none => exact .inl rfl
  | some type =>
    cases hknown : type.isKnown with
    | true => exact .inl (by rw [Ty.frame, if_pos hknown])
    | false => exact .inr ⟨type, rfl, hknown, by rw [Ty.frame, if_neg (by simp [hknown])]⟩

/-! ## Frames forget parts -/

section

variable (bind : Binding)

mutual

/-- Arguments may be replaced by their frames. -/
theorem Ty.frame_subst : ∀ t : Ty,
    (t.subst bind).frame = t.frame.subst fun name => (bind name).map Ty.frame
  | .named id args => by rw [Ty.subst, Ty.frame, Ty.frame, Ty.subst, Ty.frames_substs args]
  | .imported path name known => by
    rcases Ty.frame_imported path name known with hframe | ⟨type, -, -, hframe⟩ <;>
      rw [Ty.subst, hframe, Ty.subst]
  | .param name => by
    rw [Ty.subst, Ty.frame, Ty.subst]
    cases bind name <;> rfl
  | .array _ elem => by rw [Ty.subst, Ty.frame, Ty.frame, Ty.subst, Ty.frame_subst elem]
  | .struct fields => by rw [Ty.subst, Ty.frame, Ty.frame, Ty.subst, Field.frames_substs fields]
  | .basic _ | .pointer _ | .slice _ | .map .. | .chan .. | .func _ | .interface _ | .invalid => rfl
termination_by structural t => t

theorem Ty.frames_substs : ∀ ts : List Ty,
    Ty.frames (Ty.substs bind ts) =
      Ty.substs (fun name => (bind name).map Ty.frame) (Ty.frames ts)
  | [] => rfl
  | t :: ts => by
    rw [Ty.substs, Ty.frames, Ty.frames, Ty.substs, Ty.frame_subst t, Ty.frames_substs ts]
termination_by structural ts => ts

theorem Field.frames_substs : ∀ fields : List Field,
    Field.frames (Field.substs bind fields) =
      Field.substs (fun name => (bind name).map Ty.frame) (Field.frames fields)
  | [] => rfl
  | ⟨_, type, _, _⟩ :: fields => by
    simp only [Field.substs, Field.frames, Ty.frame_subst type, Field.frames_substs fields]
termination_by structural fields => fields

end

end

mutual

/-- A frame has the same components, framed. -/
theorem Ty.components_frame : ∀ t : Ty,
    t.frame.components = t.components.map (Ty.Instance.view Ty.frame)
  | .named id args => by
    rw [Ty.frame_named]
    rfl
  | .imported path name known => by
    rcases Ty.frame_imported path name known with hframe | ⟨type, -, -, hframe⟩ <;>
    · rw [hframe]
      rfl
  | .array _ elem => Ty.components_frame elem
  | .struct fields => Field.components_frames fields
  | .basic _ | .param _ | .pointer _ | .slice _ | .map .. | .chan .. | .func _ | .interface _
  | .invalid => rfl
termination_by structural t => t

theorem Field.components_frames : ∀ fields : List Field,
    Field.components (Field.frames fields) =
      (Field.components fields).map (Ty.Instance.view Ty.frame)
  | [] => rfl
  | ⟨_, type, _, _⟩ :: fields => by
    rw [Field.frames, Field.components, Field.components, List.map_append,
      Ty.components_frame type, Field.components_frames fields]
termination_by structural fields => fields

end

/-- So frames keep all that the search for recursion looks at. -/
theorem Ty.forgets_frame : Ty.Forgets Ty.frame where
  invalid := rfl
  named := Ty.frame_named
  subst := Ty.frame_subst
  components := Ty.components_frame

/-! ## Frames as a view -/

theorem Table.HasError.frame_known {t : Table} (h : t.HasError) {known : Ty}
    (hknown : known.isKnown = true) : (t.underlying known).frame = .invalid := by
  cases known with
  | basic kind => rfl
  | named id args =>
    simp only [Ty.isKnown, Bool.and_eq_true, beq_iff_eq, List.isEmpty_iff] at hknown
    obtain ⟨rfl, rfl⟩ := hknown
    rw [Table.underlying, Table.instance?, h]
    rfl
  | _ => cases hknown

/-- The frame of the underlying type is found in the frames of a table. -/
theorem Ty.frame_underlying {t : Table} (h : t.HasError) : ∀ type : Ty,
    (t.underlying type).frame = (t.view Ty.frame).underlying type.frame
  | .named id args => Ty.forgets_frame.underlying_named t id args
  | .imported _ _ none => rfl
  | .imported path name (some type) => by
    rw [Table.underlying]
    cases hknown : type.isKnown with
    | true =>
      rw [h.frame_known hknown, Ty.frame, if_pos hknown]
      rfl
    | false =>
      rw [Ty.frame, if_neg (by simp [hknown]), Table.underlying]
      exact Ty.frame_underlying h type
  | .basic _ | .param _ | .pointer _ | .slice _ | .array .. | .map .. | .chan .. | .func _
  | .struct _ | .interface _ | .invalid => rfl
termination_by structural type => type

theorem Ty.named_of_frame_eq {type : Ty} {id : Nat} {args : List Ty}
    (h : type.frame = (Ty.named id args).frame) :
    ∃ args', type = .named id args' ∧ args'.map Ty.frame = args.map Ty.frame := by
  rw [Ty.frame_named] at h
  cases type with
  | named id' args' =>
    rw [Ty.frame_named] at h
    obtain ⟨rfl, hargs⟩ := Ty.named.inj h
    exact ⟨args', rfl, hargs⟩
  | imported path name known =>
    rcases Ty.frame_imported path name known with hframe | ⟨type, -, -, hframe⟩ <;>
    · rw [hframe] at h
      cases h
  | _ => cases h

theorem Ty.view_frame : Ty.View Ty.frame where
  named h := by rw [Ty.frame_named, Ty.frame_named, h]
  of_named := Ty.named_of_frame_eq
  pointer _ := rfl
  slice _ := rfl
  array h := by rw [Ty.frame, Ty.frame, h]
  map _ _ := rfl
  chan _ := rfl
  func _ := rfl
  struct h := by rw [Ty.frame, Ty.frame, Field.frames_eq_map, Field.frames_eq_map, h]
  interface _ := rfl
  withArguments t args type := by
    cases type with
    | imported path name known =>
      rw [Ty.withArguments]
      split <;> cases known <;> rfl
    | _ => rfl
  underlying ht ht' htables h := by
    rw [Ty.frame_underlying ht, Ty.frame_underlying ht', htables, h]
  containsItself htables id := by
    rw [← Ty.forgets_frame.containsItself_view, htables, Ty.forgets_frame.containsItself_view]

end GoSignatures
