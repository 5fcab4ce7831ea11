import ColumnAtlas.Proofs.IsolatedCopies
import ColumnAtlas.Proofs.ReorderedFields

namespace ColumnAtlas

/-- What the look-ups of a field give. -/
structure FieldReading where
  index : Option Int
  fieldType : FieldType
  linkedClass : Option String
  deriving DecidableEq

/-- What the look-ups of an unknown field give. -/
def FieldReading.missing : FieldReading := ⟨none, .unsupported, none⟩

def Mapping.reading (m : Mapping) (field : String) : FieldReading :=
  ⟨m.columnIndex? field, m.columnType field, m.linkedClass? field⟩

/-- The look-ups of a field go through the cell of its class. -/
def Generation.reading (g : Generation) (s : CellStore) (id : ClassId) (field : String) : FieldReading :=
  ((g.cell? id).map fun i => (s.mapping i).reading field).getD .missing

def FrozenGeneration.reading (f : FrozenGeneration) (id : ClassId) (field : String) : FieldReading :=
  ⟨f.columnIndex? id field, f.columnType id field, f.linkedClass? id field⟩

/-- A frozen generation answers as a generation of cells does. -/
structure FrozenGeneration.Answers (f : FrozenGeneration) (g : Generation) (s : CellStore) : Prop where
  version : f.version = g.version
  size : f.mappings.size = g.cells.size
  classes : f.mappings.keys = g.cells.keys
  reading : ∀ id field, f.reading id field = g.reading s id field
  unknownClass : ∀ id field, g.cell? id = none → f.reading id field = .missing
  unknownField : ∀ id i field, g.cell? id = some i → (s.mapping i).get? field = none →
    f.reading id field = .missing

/-- The fields of every class in some order. -/
def FrozenGeneration.Lists (f : FrozenGeneration) (listed : ClassId → List (String × Placement)) : Prop :=
  ∀ id m, f.mapping? id = some m → (listed id).Perm m.fields.entries

/-- The text of a frozen generation that keeps the fields of its classes in some order. -/
def FrozenGeneration.listedText (f : FrozenGeneration) (listed : ClassId → List (String × Placement)) :
    String :=
  s!"ColumnIndices[{f.version},false" ++ String.join (f.mappings.entries.map fun e =>
    s!",{e.2.className}->{Mapping.listedText false e.2.className (listed e.1)}") ++ "]"

/-- The text of a cell that keeps its fields in some order. -/
def Cell.listedText (c : Cell) (listed : List (String × Placement)) : String :=
  Mapping.listedText c.mutable c.mapping.className listed

/-- The text of a generation whose cells keep the fields of its classes in some order. -/
def Generation.listedText (g : Generation) (s : CellStore)
    (listed : ClassId → List (String × Placement)) : String :=
  s!"ColumnIndices[{g.version},{g.mutable}" ++ String.join (g.cells.entries.map fun e =>
    s!",{(s.mapping e.2).className}->{(s.read e.2).listedText (listed e.1)}") ++ "]"

namespace FrozenGeneration

variable {f : FrozenGeneration} {listed : ClassId → List (String × Placement)}

theorem reading_of_mapping? {id : ClassId} {m : Mapping} (h : f.mapping? id = some m) (field : String) :
    f.reading id field = m.reading field := by
  simp only [reading, columnIndex?, columnType, linkedClass?, h, Option.bind_some, Mapping.reading]

theorem reading_of_unknown {id : ClassId} (h : f.mapping? id = none) (field : String) :
    f.reading id field = .missing := by
  simp only [reading, columnIndex?, columnType, linkedClass?, h, Option.bind_none, FieldReading.missing]

theorem textAs_false (f : FrozenGeneration) : f.textAs false = f.text := by
  unfold textAs text
  simp only [String.append_assoc]
  rfl

theorem listedText_eq (h : f.Lists listed) : f.listedText listed = f.text := by
  have htexts : (f.mappings.entries.map fun e =>
      s!",{e.2.className}->{Mapping.listedText false e.2.className (listed e.1)}") =
      f.mappings.values.map fun m => s!",{m.className}->{m.text false}" := by
    rw [SortedMap.values, List.map_map]
    refine List.map_congr_left fun e he => ?_
    have hlisted := h e.1 e.2 (SortedMap.mem_entries_iff.mp he)
    simp only [Function.comp_apply, Mapping.listedText_eq hlisted]
  unfold listedText text
  rw [htexts]

end FrozenGeneration

theorem Mapping.reading_of_unknown {m : Mapping} {field : String} (h : m.get? field = none) :
    m.reading field = .missing := by
  simp only [reading, columnIndex?, columnType, linkedClass?, h, Option.map_none, Option.bind_none,
    FieldReading.missing]

namespace Generation

variable {g : Generation} {s s' : CellStore}

theorem mapping?_freeze (g : Generation) (s : CellStore) (id : ClassId) :
    (g.freeze s).mapping? id = (g.cell? id).map s.mapping :=
  g.get?_mappings s id

theorem answers_freeze (g : Generation) (s : CellStore) : (g.freeze s).Answers g s where
  version := rfl
  size := by simp [freeze, mappings, SortedMap.size, SortedMap.map]
  classes := by simp [freeze, mappings, SortedMap.keys, SortedMap.map]
  reading id field := by
    have hmapping := g.mapping?_freeze s id
    unfold reading
    cases hi : g.cell? id with
    | none =>
      rw [hi] at hmapping
      exact FrozenGeneration.reading_of_unknown hmapping field
    | some i =>
      rw [hi] at hmapping
      exact FrozenGeneration.reading_of_mapping? hmapping field
  unknownClass id field hi := by
    refine FrozenGeneration.reading_of_unknown ?_ field
    rw [mapping?_freeze, hi]
    rfl
  unknownField id i field hi hget := by
    have hmapping : (g.freeze s).mapping? id = some (s.mapping i) := by
      rw [mapping?_freeze, hi]
      rfl
    rw [FrozenGeneration.reading_of_mapping? hmapping, Mapping.reading_of_unknown hget]

theorem freeze_snapshot (g : Generation) (mutable : Bool) (s : CellStore) :
    (g.snapshot mutable s).1.freeze (g.snapshot mutable s).2 = g.freeze s := by
  rw [freeze, mappings_snapshot]
  rfl

/-- The text of an immutable copy, in which every cell is marked as such. -/
theorem text_snapshot (g : Generation) (s : CellStore) :
    (g.snapshot false s).1.text (g.snapshot false s).2 = (g.freeze s).text := by
  have hmarked (id : ClassId) (i : CellId) (hi : (g.snapshot false s).1.cell? id = some i) :
      ((g.snapshot false s).2.read i).mutable = (g.snapshot false s).1.mutable :=
    (g.madeIn_snapshot false s id i hi).2.2
  rw [text_eq hmarked, freeze_snapshot]
  exact (g.freeze s).textAs_false

theorem listedText_eq {listed : ClassId → List (String × Placement)} (h : (g.freeze s).Lists listed) :
    g.listedText s listed = g.text s := by
  have htexts : (g.cells.entries.map fun e =>
      s!",{(s.mapping e.2).className}->{(s.read e.2).listedText (listed e.1)}") =
      g.cells.values.map fun i => s!",{(s.mapping i).className}->{(s.read i).text}" := by
    rw [SortedMap.values, List.map_map]
    refine List.map_congr_left fun e he => ?_
    have hmapping : (g.freeze s).mapping? e.1 = some (s.mapping e.2) := by
      rw [mapping?_freeze, cell?, SortedMap.mem_entries_iff.mp he]
      rfl
    have htext : (s.read e.2).listedText (listed e.1) = (s.read e.2).text :=
      Mapping.listedText_eq (h e.1 _ hmapping) _
    rw [Function.comp_apply, htext]
  unfold listedText text
  rw [htexts]

theorem freeze_of_grows (hs : s.Grows s') (h : ∀ id i, g.cell? id = some i → i.index < s.size) :
    g.freeze s' = g.freeze s := by
  rw [freeze, freeze, mappings_of_grows hs h]

end Generation

/-- The frozen form of a generation and its immutable copy have one text, whatever the order in which
fields are kept, and answer alike, as the generation itself does before and after. Any copy has the
same frozen form. -/
theorem immutable_forms_agree (acts : List Act) {k : Keeper} {g copy : Generation} {s s' : CellStore}
    (hs : (Holdings.empty.run acts).cells = s) (hg : (Holdings.empty.run acts).generation? k = some g)
    (hcopy : g.snapshot false s = (copy, s')) :
    (g.freeze s).text = copy.text s' ∧
    (∀ listed listed', (g.freeze s).Lists listed → (g.freeze s).Lists listed' →
      (g.freeze s).listedText listed = copy.listedText s' listed') ∧
    (g.freeze s).Answers copy s' ∧ (g.freeze s).Answers g s ∧ (g.freeze s).Answers g s' ∧
    ∀ mutable, (g.snapshot mutable s).1.freeze (g.snapshot mutable s).2 = g.freeze s := by
  have htext := g.text_snapshot s
  have hfreeze := g.freeze_snapshot false s
  have hgrows : s.Grows (g.snapshot false s).2 := CellStore.grows_addAll
  rw [hcopy] at htext hfreeze hgrows
  have hstays : g.freeze s' = g.freeze s := by
    refine Generation.freeze_of_grows hgrows fun id i hi => ?_
    exact hs ▸ (Holdings.Separate.empty.run acts).made k i ⟨g, id, hg, hi⟩
  have hcopied : (g.freeze s).Answers copy s' := hfreeze ▸ copy.answers_freeze s'
  have hlater : (g.freeze s).Answers g s' := hstays ▸ g.answers_freeze s'
  refine ⟨htext.symm, fun listed listed' hl hl' => ?_, hcopied, g.answers_freeze s, hlater,
    fun mutable => g.freeze_snapshot mutable s⟩
  rw [FrozenGeneration.listedText_eq hl, Generation.listedText_eq (hfreeze.symm ▸ hl'), htext]

theorem copying_forms_agree : ∃ g copy s',
    (Holdings.empty.run copying).generation? (.cache 0) = some g ∧
    g.snapshot false (Holdings.empty.run copying).cells = (copy, s') ∧
    copy.text s' = (g.freeze (Holdings.empty.run copying).cells).text ∧
    (g.freeze (Holdings.empty.run copying).cells).reading ⟨0⟩ "name" = ⟨some 0, .string, none⟩ ∧
    copy.reading s' ⟨0⟩ "name" = ⟨some 0, .string, none⟩ ∧
    copy.reading s' ⟨0⟩ "age" = .missing ∧ copy.reading s' ⟨1⟩ "name" = .missing := by
  have hg : (Holdings.empty.run copying).generation? (.cache 0) = some _ := rfl
  obtain ⟨htext, _, hanswers, _⟩ := immutable_forms_agree copying rfl hg rfl
  exact ⟨_, _, _, hg, rfl, htext.symm, rfl, (hanswers.reading _ _).symm.trans rfl,
    (hanswers.reading _ _).symm.trans (hanswers.unknownField _ _ _ rfl rfl),
    (hanswers.reading _ _).symm.trans (hanswers.unknownClass _ _ rfl)⟩

end ColumnAtlas
