import ColumnAtlas.Proofs.SchemaSteps

namespace ColumnAtlas

/-- Two declarations differ at most in the order of their fields. -/
structure ClassDecl.Reordered (c c' : ClassDecl) : Prop where
  className : c'.className = c.className
  fields : c.fields.Perm c'.fields

/-- Two registries declare the same classes under the same identifiers, up to the order of fields. -/
structure Registry.Reordered (r r' : Registry) : Prop where
  settings : r'.settings = r.settings
  declared : ∀ id, Option.Rel ClassDecl.Reordered (r.decl? id) (r'.decl? id)

/-- The text of a mapping whose fields are listed in any order, sorted by name. -/
def Mapping.listedText (changeable : Bool) (className : String) (listed : List (String × Placement)) :
    String :=
  s!"ColumnInfo[{changeable},{className}" ++
    String.join ((listed.mergeSort fun a b => a.1 ≤ b.1).map fun e => s!",{e.1}->{e.2.text}") ++ "]"

/-- The frozen form and the text of a generation that was just made. -/
def Generation.shown (made : Generation × CellStore) : FrozenGeneration × String :=
  (made.1.freeze made.2, made.1.text made.2)

/-- The text of a generation with these mappings, which it can change or not. -/
def FrozenGeneration.textAs (mutable : Bool) (f : FrozenGeneration) : String :=
  s!"ColumnIndices[{f.version},{mutable}" ++
    String.join (f.mappings.values.map fun m => s!",{m.className}->{m.text mutable}") ++ "]"

theorem Mapping.listedText_eq {m : Mapping} {listed : List (String × Placement)}
    (h : listed.Perm m.fields.entries) (changeable : Bool) :
    listedText changeable m.className listed = m.text changeable := by
  rw [listedText, mergeSort_eq_of_ascending h m.fields.ascending]
  rfl

namespace Generation

variable {g : Generation} {s : CellStore}

theorem text_eq (h : ∀ id i, g.cell? id = some i → (s.read i).mutable = g.mutable) :
    g.text s = (g.freeze s).textAs g.mutable := by
  have hvalues : (g.mappings s).values = g.cells.values.map s.mapping := by
    simp [mappings, SortedMap.values, SortedMap.map]
  have htexts : (g.cells.values.map fun i => s!",{(s.mapping i).className}->{(s.read i).text}") =
      (g.mappings s).values.map fun m => s!",{m.className}->{m.text g.mutable}" := by
    rw [hvalues, List.map_map]
    refine List.map_congr_left fun i hi => ?_
    obtain ⟨id, hid⟩ := SortedMap.mem_values_iff.mp hi
    simp only [Function.comp_apply, CellStore.mapping, Cell.text, h id i hid]
  unfold text FrozenGeneration.textAs freeze
  rw [htexts]

theorem Live.shown (h : g.Live s) :
    Generation.shown (g, s) = (g.freeze s, (g.freeze s).textAs true) := by
  have hcells (id : ClassId) (i : CellId) (hi : g.cell? id = some i) :
      (s.read i).mutable = g.mutable := (h.cells id i hi).trans h.mutable.symm
  rw [Generation.shown, text_eq hcells, h.mutable]

end Generation

namespace ClassDecl.Reordered

variable {c c' : ClassDecl} {s : Storage} {d : DatabaseId} {settings : Settings} {m : Mapping}

theorem symm (h : c.Reordered c') : c'.Reordered c := ⟨h.className.symm, h.fields.symm⟩

theorem mapped (h : c.Reordered c') (hm : c.Mapped s d settings m) : c'.Mapped s d settings m where
  className := hm.className.trans h.className.symm
  distinct := (h.fields.map FieldDecl.name).nodup_iff.mp hm.distinct
  placed := by
    obtain ⟨t, ht, hplaced⟩ := hm.placed
    refine ⟨t, h.className ▸ ht, fun f hf => ?_⟩
    rw [builder, h.className]
    exact hplaced f (h.fields.mem_iff.mpr hf)
  declared field p hp := by
    obtain ⟨f, hf, hname⟩ := hm.declared field p hp
    exact ⟨f, h.fields.mem_iff.mp hf, hname⟩

theorem mapped_iff (h : c.Reordered c') : c.Mapped s d settings m ↔ c'.Mapped s d settings m :=
  ⟨h.mapped, h.symm.mapped⟩

end ClassDecl.Reordered

namespace Registry

variable {r r' : Registry} {s : Storage} {d : DatabaseId} {ms ms' : SortedMap ClassId Mapping}

theorem Built.unique (h : r.Built s d ms) (h' : r.Built s d ms') : ms = ms' := by
  apply SortedMap.eq_of_get?
  intro id
  cases hc : r.decl? id with
  | none =>
    have hnone := h.isSome_get? id
    have hnone' := h'.isSome_get? id
    rw [hc, Option.isSome_none, Option.isSome_eq_false_iff, Option.isNone_iff_eq_none] at hnone hnone'
    rw [hnone, hnone']
  | some c =>
    obtain ⟨m, hm, hmapped⟩ := h.mapped id c hc
    obtain ⟨m', hm', hmapped'⟩ := h'.mapped id c hc
    rw [hm, hm', hmapped.unique hmapped']

namespace Reordered

theorem symm (h : r.Reordered r') : r'.Reordered r where
  settings := h.settings.symm
  declared id := by
    have hid := h.declared id
    generalize r.decl? id = c at hid
    generalize r'.decl? id = c' at hid
    cases hid with
    | some hc => exact .some hc.symm
    | none => exact .none

theorem decl? (h : r.Reordered r') {id : ClassId} {c : ClassDecl} (hc : r.decl? id = some c) :
    ∃ c', r'.decl? id = some c' ∧ c.Reordered c' := by
  have hid := h.declared id
  rw [hc] at hid
  cases hid' : r'.decl? id with
  | none =>
    rw [hid'] at hid
    cases hid
  | some c' =>
    rw [hid'] at hid
    cases hid with
    | some hcc' => exact ⟨c', rfl, hcc'⟩

theorem built (h : r.Reordered r') (hms : r.Built s d ms) : r'.Built s d ms where
  mapped id c' hc' := by
    obtain ⟨c, hc, hcc'⟩ := h.symm.decl? hc'
    obtain ⟨m, hm, hmapped⟩ := hms.mapped id c hc
    exact ⟨m, hm, h.settings ▸ hcc'.symm.mapped hmapped⟩
  registered id m hm := by
    obtain ⟨c, hc⟩ := hms.registered id m hm
    obtain ⟨c', hc', _⟩ := h.decl? hc
    exact ⟨c', hc'⟩

theorem built_iff (h : r.Reordered r') : r.Built s d ms ↔ r'.Built s d ms :=
  ⟨h.built, h.symm.built⟩

end Reordered

theorem shown_buildGeneration_iff {version : Int} {cells : CellStore}
    {shown : FrozenGeneration × String} :
    (r.buildGeneration s d version cells).toOption.map Generation.shown = some shown ↔
      ∃ ms, r.Built s d ms ∧ (⟨version, ms⟩, FrozenGeneration.textAs true ⟨version, ms⟩) = shown := by
  rw [Option.map_eq_some_iff]
  constructor
  · rintro ⟨⟨g, cells'⟩, hmade, rfl⟩
    obtain ⟨rfl, hlive, _, _, hbuilt⟩ := buildGeneration_spec (toOption_eq_some_iff.mp hmade)
    exact ⟨_, hbuilt, hlive.shown.symm⟩
  · rintro ⟨ms, hbuilt, rfl⟩
    obtain ⟨⟨g, cells'⟩, hmade⟩ := buildGeneration_exists hbuilt.builds version cells
    obtain ⟨rfl, hlive, _, _, hbuilt'⟩ := buildGeneration_spec hmade
    refine ⟨_, toOption_eq_some_iff.mpr hmade, ?_⟩
    rw [hlive.shown, Generation.freeze, hbuilt.unique hbuilt']

end Registry

/-- Neither a mapping nor a generation depends on the order in which fields are declared, nor does the
text of a mapping depend on the order in which its fields are kept. -/
theorem fields_reordered (s : Storage) (d : DatabaseId) :
    (∀ c c' : ClassDecl, c.Reordered c' → ∀ settings m,
      (c.buildMapping s d settings = .ok m ↔ c'.buildMapping s d settings = .ok m) ∧
      (c.buildMapping s d settings = .ok m → ∀ changeable listed, listed.Perm m.fields.entries →
        Mapping.listedText changeable c.className listed = m.text changeable ∧
        Mapping.listedText changeable c'.className listed = m.text changeable)) ∧
    ∀ r r' : Registry, r.Reordered r' → ∀ version cells cells',
      (r.buildGeneration s d version cells).toOption.map Generation.shown =
        (r'.buildGeneration s d version cells').toOption.map Generation.shown := by
  constructor
  · intro c c' h settings m
    have hiff : c.buildMapping s d settings = .ok m ↔ c'.buildMapping s d settings = .ok m := by
      rw [ClassDecl.buildMapping_eq_ok_iff, ClassDecl.buildMapping_eq_ok_iff, h.mapped_iff]
    refine ⟨hiff, fun hm changeable listed hlisted => ?_⟩
    have htext := Mapping.listedText_eq hlisted changeable
    rw [(ClassDecl.buildMapping_eq_ok_iff.mp hm).className] at htext
    exact ⟨htext, h.className ▸ htext⟩
  · intro r r' h version cells cells'
    apply Option.ext
    intro shown
    simp only [Registry.shown_buildGeneration_iff, h.built_iff]

/-- Of two fields without a column, the one that is declared first is reported. -/
example :
    (ClassDecl.mk "Author" [.column "born" .date, .column "died" .date]).buildMapping shelf ⟨0⟩ .default =
      .error (.migration (.missingField "main" "Author" "born")) ∧
    (ClassDecl.mk "Author" [.column "died" .date, .column "born" .date]).buildMapping shelf ⟨0⟩ .default =
      .error (.migration (.missingField "main" "Author" "died")) :=
  ⟨rfl, rfl⟩

/-- The classes of the shelf with their fields the other way round. -/
def turnedClasses : Registry :=
  (Registry.new .default).run [
    .register ⟨"Author", [.reverse "books" "Book" "author", .column "name" .string]⟩,
    .register ⟨"Book", [.link "author" .object "Author", .column "title" .string]⟩]

theorem shelfClasses_reordered : shelfClasses.Reordered turnedClasses where
  settings := rfl
  declared id := by
    by_cases h : id = ⟨0⟩
    · subst h
      exact .some ⟨rfl, .swap _ _ _⟩
    · by_cases h' : id = ⟨1⟩
      · subst h'
        exact .some ⟨rfl, .swap _ _ _⟩
      · have hnone (c c' : ClassDecl) :
            SortedMap.find id [((⟨0⟩ : ClassId), c), (⟨1⟩, c')] = none := by
          simp [SortedMap.find, Ne.symm h, Ne.symm h']
        have hshelf : shelfClasses.decl? id = none := hnone _ _
        have hturned : turnedClasses.decl? id = none := hnone _ _
        rw [hshelf, hturned]
        exact .none

theorem shelf_fields_reordered : shelfClasses.Reordered turnedClasses ∧ ∃ c c' m,
    shelfClasses.decl? ⟨0⟩ = some c ∧ turnedClasses.decl? ⟨0⟩ = some c' ∧ c ≠ c' ∧
    c.buildMapping shelf ⟨0⟩ .default = .ok m ∧ c'.buildMapping shelf ⟨0⟩ .default = .ok m ∧
    Mapping.listedText true c'.className m.fields.entries.reverse = m.text true ∧
    ((shelfClasses.buildGeneration shelf ⟨0⟩ 1 .empty).toOption.map Generation.shown).isSome ∧
    (shelfClasses.buildGeneration shelf ⟨0⟩ 1 .empty).toOption.map Generation.shown =
      (turnedClasses.buildGeneration shelf ⟨0⟩ 1 ⟨[⟨.empty "Author", true⟩]⟩).toOption.map
        Generation.shown := by
  obtain ⟨c, c', hc, hc', hreordered, hne⟩ : ∃ c c', shelfClasses.decl? ⟨0⟩ = some c ∧
      turnedClasses.decl? ⟨0⟩ = some c' ∧ c.Reordered c' ∧ c ≠ c' :=
    ⟨_, _, rfl, rfl, ⟨rfl, .swap _ _ _⟩, by decide⟩
  obtain ⟨m, hm⟩ : ∃ m, c.buildMapping shelf ⟨0⟩ .default = .ok m := by
    obtain rfl := Option.some.inj hc
    exact ⟨_, rfl⟩
  obtain ⟨hmappings, hgenerations⟩ := fields_reordered shelf ⟨0⟩
  obtain ⟨hiff, htext⟩ := hmappings c c' hreordered .default m
  exact ⟨shelfClasses_reordered, c, c', m, hc, hc', hne, hm, hiff.mp hm,
    (htext hm true _ (List.reverse_perm _)).2, rfl,
    hgenerations shelfClasses turnedClasses shelfClasses_reordered 1 .empty ⟨[⟨.empty "Author", true⟩]⟩⟩

end ColumnAtlas
