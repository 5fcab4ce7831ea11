import ColumnAtlas.Registry
import ColumnAtlas.ClassSummary
import ColumnAtlas.SettingsDocument
import ColumnAtlas.Proofs.PrintedJson

namespace ColumnAtlas

namespace Json

theorem asList?_map {α : Type} {encode : α → Json} {decode : Json → Option α} {xs : List α}
    (h : ∀ x ∈ xs, decode (encode x) = some x) : asList? decode (arr (xs.map encode)) = some xs := by
  rw [asList?]
  induction xs with
  | nil => rfl
  | cons x xs ih =>
    have hx := h x List.mem_cons_self
    have hxs := ih fun y hy => h y (List.mem_cons_of_mem x hy)
    simp [hx, hxs]

theorem filter_record_eq_nil {ms : List (String × Json)} {field : String}
    (h : field ∉ ms.map Prod.fst) :
    ((ms.map fun m => ((some m.1 : Option String), m.2)).filter fun m => m.1 = some field) = [] := by
  refine List.filter_eq_nil_iff.mpr fun m hm => ?_
  obtain ⟨m, hmem, rfl⟩ := List.mem_map.mp hm
  have hne : m.1 ≠ field := fun he => h (he ▸ List.mem_map_of_mem hmem)
  simpa using hne

theorem member?_record {ms : List (String × Json)} (hn : (ms.map Prod.fst).Nodup) (field : String) :
    member? (ms.map fun m => (some m.1, m.2)) field = some (ms.lookup field) := by
  unfold member?
  induction ms with
  | nil => rfl
  | cons m ms ih =>
    obtain ⟨k, v⟩ := m
    obtain ⟨hk, hn'⟩ := List.nodup_cons.mp hn
    by_cases he : k = field
    · subst he
      have hrest := filter_record_eq_nil hk
      simp [hrest]
    · have hne : (field == k) = false := beq_false_of_ne (Ne.symm he)
      have hkeep : decide ((some k : Option String) = some field) = false := by simpa using he
      rw [List.lookup_cons, hne, List.map_cons, List.filter_cons, hkeep]
      exact ih hn'

/-- The fields of a written record are found under their names. -/
theorem asRecord?_record (shape : RecordShape) {ms : List (String × Json)}
    (hn : (ms.map Prod.fst).Nodup) :
    asRecord? shape (record ms) = some (shape.fields.map fun field => ms.lookup field) := by
  have hnamed : ((ms.map fun m => ((some m.1 : Option String), m.2)).all fun m => m.1.isSome) = true := by
    simp
  rw [record, asRecord?, if_pos hnamed]
  induction shape.fields with
  | nil => rfl
  | cons field fields ih => simp [member?_record hn, ih]

/-- A member that may be left out holds what was written, wherever it is read. -/
theorem lookup_optionalMember {α : Type} (o : Option α) (k : String) (encode : α → Json)
    (field : String) : (o.map fun a => (k, encode a)).toList.lookup field =
      if field = k then o.map encode else none := by
  cases o with
  | none => simp
  | some a =>
    by_cases h : field = k
    · simp [h]
    · have hne : (field == k) = false := beq_false_of_ne h
      simp [List.lookup_cons, hne, h]

section Nullable

variable {α : Type} {encode : α → Json} {decode : Json → Option α}

theorem asNullable?_encoded (hread : ∀ a, decode (encode a) = some a) (hnull : ∀ a, encode a ≠ null)
    (a : α) : asNullable? decode (encode a) = some (some a) := by
  unfold asNullable?
  split
  next he => exact absurd he (hnull a)
  next => rw [hread]; rfl

/-- What is left out when it is missing. -/
theorem optional?_map (hread : ∀ a, decode (encode a) = some a) (hnull : ∀ a, encode a ≠ null)
    (o : Option α) : optional? decode (o.map encode) = some o := by
  cases o with
  | none => rfl
  | some a => exact asNullable?_encoded hread hnull a

/-- What is written as `null` when it is missing. -/
theorem optional?_ofOption (hread : ∀ a, decode (encode a) = some a) (hnull : ∀ a, encode a ≠ null)
    (o : Option α) : optional? decode (some (ofOption encode o)) = some o := by
  cases o with
  | none => rfl
  | some a => exact asNullable?_encoded hread hnull a

end Nullable

theorem asText?_text (s : String) : asText? (text s) = some s := rfl

theorem text_ne_null (s : String) : text s ≠ null := nofun

end Json

theorem FieldType.ofJson?_toJson (t : FieldType) : ofJson? t.toJson = some t :=
  ofName?_name t

theorem BacklinkDecl.ofJson?_toJson (b : BacklinkDecl) : ofJson? b.toJson = some b := by
  rw [ofJson?, toJson, Json.asRecord?_record shape (by simp)]
  rfl

theorem FieldDecl.ofJson?_toJson (f : FieldDecl) : ofJson? f.toJson = some f := by
  have hkeys : (([("name", Json.text f.name), ("field_type", f.fieldType.toJson)] ++
      (f.linkedClass.map fun c => ("linked_class", Json.text c)).toList ++
      (f.backlink.map fun b => ("backlink", b.toJson)).toList).map Prod.fst).Nodup := by
    cases f.linkedClass <;> cases f.backlink <;> simp
  have htype := f.fieldType.ofJson?_toJson
  have hlinked := Json.optional?_map Json.asText?_text Json.text_ne_null f.linkedClass
  have hbacklink := Json.optional?_map BacklinkDecl.ofJson?_toJson (fun _ => nofun) f.backlink
  rw [ofJson?, toJson, Json.asRecord?_record shape hkeys]
  simp [shape, List.lookup_cons, List.lookup_append, Json.lookup_optionalMember, Json.required?,
    Json.asText?_text, htype, hlinked, hbacklink]

theorem ClassDecl.ofJson?_toJson (c : ClassDecl) : ofJson? c.toJson = some c := by
  have hfields := Json.asList?_map fun f (_ : f ∈ c.fields) => f.ofJson?_toJson
  rw [ofJson?, toJson, Json.asRecord?_record shape (by simp)]
  simp [shape, List.lookup_cons, Json.required?, Json.defaulted?, Json.asText?_text, hfields]

theorem BacklinkSource.ofJson?_toJson (b : BacklinkSource) : ofJson? b.toJson = some b := by
  rw [ofJson?, toJson, Json.asRecord?_record shape (by simp)]
  rfl

theorem Placement.ofJson?_toJson (p : Placement) (hlow : -0x8000000000000000 ≤ p.index)
    (hhigh : p.index ≤ 0x7FFFFFFFFFFFFFFF) : ofJson? p.toJson = some p := by
  have hindex : Json.asInt? (-0x8000000000000000) 0x7FFFFFFFFFFFFFFF (.int p.index) = some p.index :=
    if_pos ⟨hlow, hhigh⟩
  have htype := p.fieldType.ofJson?_toJson
  have hlinked := Json.optional?_ofOption Json.asText?_text Json.text_ne_null p.linkedClass
  have hsource := Json.optional?_ofOption BacklinkSource.ofJson?_toJson (fun _ => nofun) p.source
  rw [ofJson?, toJson, Json.asRecord?_record shape (by simp)]
  simp [shape, List.lookup_cons, Json.required?, hindex, htype, hlinked, hsource]

theorem Settings.ofJson?_toJson (s : Settings) : ofJson? s.toJson = some s := by
  rw [ofJson?, toJson, Json.asRecord?_record shape (by simp)]
  rfl

theorem FieldSummary.ofJson?_toJson (f : FieldSummary) : ofJson? f.toJson = some f := by
  have hkeys : (([("name", Json.text f.name), ("field_type", f.fieldType.toJson)] ++
      (f.linkedClass.map fun c => ("linked_class", Json.text c)).toList).map Prod.fst).Nodup := by
    cases f.linkedClass <;> simp
  have htype := f.fieldType.ofJson?_toJson
  have hlinked := Json.optional?_map Json.asText?_text Json.text_ne_null f.linkedClass
  rw [ofJson?, toJson, Json.asRecord?_record shape hkeys]
  simp [shape, List.lookup_cons, Json.lookup_optionalMember, Json.required?, Json.asText?_text, htype,
    hlinked]

theorem ClassSummary.ofJson?_toJson (c : ClassSummary) : ofJson? c.toJson = some c := by
  have hfields := Json.asList?_map fun f (_ : f ∈ c.fields) => f.ofJson?_toJson
  rw [ofJson?, toJson, Json.asRecord?_record shape (by simp)]
  simp [shape, List.lookup_cons, Json.required?, Json.asText?_text, hfields]

end ColumnAtlas
