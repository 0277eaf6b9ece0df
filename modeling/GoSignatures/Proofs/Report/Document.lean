import GoSignatures.Proofs.Json.Reading
import GoSignatures.Proofs.Lists
import GoSignatures.Report.Document

/-!
# Reading a report document

The document of a report is read back as the report without positions, whatever characters stand in
its texts: first the value, from its text, then the parts of the report, each from its value.

* `Json.asList?_map` — the items of an array that was made of a list
* `BatchReport.ofJson?_toJson` — a report is told by its value
* `BatchReport.read?_render` — and by its document
* `BatchReport.render_eq_render_iff` — two reports have the same document if they differ in
  positions only
-/

namespace GoSignatures

/-- The items of an array that was made of a list are read one by one. -/
theorem Json.asList?_map {α β : Type} {g : α → Json} {k : Json → Option β} {f : α → β}
    (h : ∀ a, k (g a) = some (f a)) (l : List α) :
    (Json.array (l.map g)).asList? k = some (l.map f) := by
  show (l.map g).mapM k = some (l.map f)
  rw [mapM_eq_some_iff, List.forall₂_map_left_iff, List.forall₂_map_right_iff]
  exact List.forall₂_same.mpr fun a _ => h a

theorem Json.asList?_ofStrings (texts : List String) :
    (Json.ofStrings texts).asList? Json.asString? = some texts := by
  have h := @Json.asList?_map String String Json.text Json.asString? id (fun _ => rfl) texts
  rwa [List.map_id] at h

/-! ## The value of a report -/

theorem SimplifiedType.ofJson?_toJson (t : SimplifiedType) : ofJson? t.toJson = some t := by
  simp [ofJson?, toJson, Json.record, Json.record?, Json.field?, Json.text, Json.asString?,
    Json.asBool?]

theorem Parameter.ofJson?_toJson (p : Parameter) : ofJson? p.toJson = some p := by
  simp [ofJson?, toJson, Json.record, Json.record?, Json.field?, Json.text, Json.asString?,
    SimplifiedType.ofJson?_toJson]

/-- The position of a function is not written, so it is not read. -/
theorem FunctionReport.ofJson?_toJson (f : FunctionReport) :
    ofJson? f.toJson = some f.withoutPosition := by
  simp [ofJson?, toJson, Json.record, Json.record?, Json.field?, Json.text, Json.asString?,
    withoutPosition, Json.asList?_map Parameter.ofJson?_toJson,
    Json.asList?_map SimplifiedType.ofJson?_toJson]

theorem FileReport.ofJson?_toJson (r : FileReport) :
    ofJson? r.toJson = some r.withoutPositions := by
  simp [ofJson?, toJson, Json.record, Json.record?, Json.field?, Json.text, Json.asString?,
    withoutPositions, Json.asList?_map FunctionReport.ofJson?_toJson, Json.asList?_ofStrings]

/-- A report is told by its value, all but the positions. -/
theorem BatchReport.ofJson?_toJson (r : BatchReport) :
    ofJson? r.toJson = some r.withoutPositions := by
  simp [ofJson?, toJson, Json.record, Json.record?, Json.field?, withoutPositions,
    Json.asList?_map FileReport.ofJson?_toJson]

/-! ## Positions are no part of the value -/

@[simp] theorem FunctionReport.toJson_withoutPosition (f : FunctionReport) :
    f.withoutPosition.toJson = f.toJson := rfl

@[simp] theorem FileReport.toJson_withoutPositions (r : FileReport) :
    r.withoutPositions.toJson = r.toJson := by
  have hparsed : (r.parsedFunctions.map FunctionReport.withoutPosition).map FunctionReport.toJson =
      r.parsedFunctions.map FunctionReport.toJson := by
    rw [List.map_map]
    exact List.map_congr_left fun f _ => f.toJson_withoutPosition
  unfold toJson withoutPositions
  rw [hparsed]

@[simp] theorem BatchReport.toJson_withoutPositions (r : BatchReport) :
    r.withoutPositions.toJson = r.toJson := by
  have hresults : (r.results.map FileReport.withoutPositions).map FileReport.toJson =
      r.results.map FileReport.toJson := by
    rw [List.map_map]
    exact List.map_congr_left fun f _ => f.toJson_withoutPositions
  unfold toJson withoutPositions
  rw [hresults]

theorem FileReport.render_withoutPositions (r : FileReport) :
    r.withoutPositions.render = r.render := by
  rw [render, render, toJson_withoutPositions]

theorem BatchReport.render_withoutPositions (r : BatchReport) :
    r.withoutPositions.render = r.render := by
  rw [render, render, toJson_withoutPositions]

/-! ## The document of a report -/

theorem Json.plain_ofStrings (texts : List String) : (Json.ofStrings texts).Plain := by
  rw [Json.ofStrings, Json.plain_array]
  intro v hv
  obtain ⟨s, -, rfl⟩ := List.mem_map.mp hv
  exact Json.plain_text s

theorem Json.plain_map {α : Type} {g : α → Json} (h : ∀ a, (g a).Plain) (l : List α) :
    (Json.array (l.map g)).Plain := by
  rw [Json.plain_array]
  intro v hv
  obtain ⟨a, -, rfl⟩ := List.mem_map.mp hv
  exact h a

theorem SimplifiedType.plain_toJson (t : SimplifiedType) : t.toJson.Plain := by
  simp [toJson, Json.plain_record]

theorem Parameter.plain_toJson (p : Parameter) : p.toJson.Plain := by
  simp [toJson, Json.plain_record, SimplifiedType.plain_toJson]

theorem FunctionReport.plain_toJson (f : FunctionReport) : f.toJson.Plain := by
  simp [toJson, Json.plain_record, Json.plain_map Parameter.plain_toJson,
    Json.plain_map SimplifiedType.plain_toJson]

theorem FileReport.plain_toJson (r : FileReport) : r.toJson.Plain := by
  simp [toJson, Json.plain_record, Json.plain_map FunctionReport.plain_toJson,
    Json.plain_ofStrings]

/-- The value of a report has no numbers and no strings that are not Unicode. -/
theorem BatchReport.plain_toJson (r : BatchReport) : r.toJson.Plain := by
  simp [toJson, Json.plain_record, Json.plain_map FileReport.plain_toJson]

/-- A report is read back from its document, without positions. -/
theorem BatchReport.read?_render (r : BatchReport) : read? r.render = some r.withoutPositions := by
  rw [read?, render, Json.read?_render r.plain_toJson, Option.bind_some, ofJson?_toJson]

/-- A document tells all of a report but the positions: two reports have the same one just when
they are the same without them. -/
theorem BatchReport.render_eq_render_iff {r r' : BatchReport} :
    r.render = r'.render ↔ r.withoutPositions = r'.withoutPositions := by
  constructor
  · intro h
    have hread := r.read?_render
    rw [h, r'.read?_render] at hread
    exact (Option.some.inj hread).symm
  · intro h
    rw [← r.render_withoutPositions, h, r'.render_withoutPositions]

/-- A report survives its document. Whatever the texts in it are, its document is read, what is
read is the report with the default in place of every position, and that has the same document
again. -/
theorem BatchReport.survives_render (r : BatchReport) :
    read? r.render = some r.withoutPositions ∧ r.withoutPositions.render = r.render := by
  constructor
  · exact r.read?_render
  · exact r.render_withoutPositions

end GoSignatures
