import ColumnAtlas.Proofs.DescribedFields
import ColumnAtlas.Proofs.ExactMapping

namespace ColumnAtlas

/-- The same settings, with declared types compared with the stored ones or not. -/
def Settings.verifying (settings : Settings) (verify : Bool) : Settings :=
  { settings with verifyColumnTypes := verify }

def Registry.verifying (r : Registry) (verify : Bool) : Registry :=
  { r with settings := r.settings.verifying verify }

/-- What the comparison of types asks of a declared field: its column has the declared type, and the
column that a backlink reads from links to the class of the backlink. -/
structure FieldDecl.Agrees (f : FieldDecl) (b : MappingBuilder) (s : Storage) : Prop where
  column : f.backlink = none → ∀ index, (s.table b.table).columnIndex? f.name = some index →
    (s.table b.table).columnType index = f.fieldType
  backlink : ∀ read, f.backlink = some read → ∀ t index,
    s.tableNamed? b.database (b.settings.tableName read.sourceClass) = some t →
    (s.table t).columnIndex? read.sourceField = some index →
    ((s.table t).columnType index).isLink ∧
      ∃ u, s.linkTarget? t index = some u ∧ (s.table u).className = b.className

def ClassDecl.Agrees (c : ClassDecl) (s : Storage) (d : DatabaseId) (settings : Settings) : Prop :=
  ∀ t, s.tableNamed? d (settings.tableName c.className) = some t →
    ∀ f ∈ c.fields, f.Agrees (c.builder d settings t) s

def Registry.Agrees (r : Registry) (s : Storage) (d : DatabaseId) : Prop :=
  ∀ id c, r.decl? id = some c → c.Agrees s d r.settings

/-- A placement is the one of a stored column: it has the type that is found there, and for a link
the class of the table that the column points at, which is alive. -/
structure Storage.Stores (s : Storage) (t : TableId) (field : String) (p : Placement) : Prop where
  column : ∃ column, (s.table t).columnAt? p.index = some column ∧ column.name = field ∧
    p.fieldType = column.fieldType
  link : p.fieldType.isLink → ∃ u, s.linkTarget? t p.index = some u ∧ s.isAlive u ∧
    p.linkedClass = some (s.table u).className
  plain : p.fieldType.isLink = false → p.linkedClass = none

variable {s : Storage} {d : DatabaseId} {settings : Settings}

namespace FieldDecl

variable {f : FieldDecl} {c : ClassDecl} {t : TableId} {p : Placement}

/-- The comparison of types refuses places but never changes them. -/
theorem placed_verifying_iff : f.Placed (c.builder d (settings.verifying true) t) s p ↔
    f.Placed (c.builder d (settings.verifying false) t) s p ∧ f.Agrees (c.builder d settings t) s := by
  constructor
  · rintro (⟨hnone, hi, htype, hlinks⟩ | ⟨hread, ht, hi, hlinked⟩)
    · refine ⟨.column hnone hi (fun h => absurd h Bool.false_ne_true) hlinks, ⟨fun _ index hi' => ?_, ?_⟩⟩
      · obtain rfl := Option.some.inj (hi.symm.trans hi')
        exact htype rfl
      · intro read hread
        rw [hnone] at hread
        cases hread
    · refine ⟨.backlink hread ht hi fun h => absurd h Bool.false_ne_true, ⟨fun hnone => ?_, ?_⟩⟩
      · rw [hread] at hnone
        cases hnone
      · intro read' hread' t' index' ht' hi'
        obtain rfl := Option.some.inj (hread.symm.trans hread')
        obtain rfl := Option.some.inj (ht.symm.trans ht')
        obtain rfl := Option.some.inj (hi.symm.trans hi')
        exact hlinked rfl
  · rintro ⟨⟨hnone, hi, _, hlinks⟩ | ⟨hread, ht, hi, _⟩, hagrees⟩
    · exact .column hnone hi (fun _ => hagrees.column hnone _ hi) hlinks
    · exact .backlink hread ht hi fun _ => hagrees.backlink _ hread _ _ ht hi

theorem Placed.stores {b : MappingBuilder} (h : f.Placed b s p) (hp : p.source = none) :
    s.Stores b.table f.name p := by
  cases h with
  | backlink => cases hp
  | @column index linked _ hi _ hlinks =>
    obtain ⟨column, hfound, hat⟩ := Table.find?_of_columnIndex? hi
    have htype : (s.table b.table).columnType index = column.fieldType := by
      rw [Table.columnType, hat]
    refine ⟨⟨column, hat, by simpa using List.find?_some hfound, htype⟩, fun hlink => ?_, fun hplain => ?_⟩
    · have hlink' : ((s.table b.table).columnType index).isLink := hlink
      rw [Storage.Links, if_pos hlink'] at hlinks
      obtain ⟨u, hu, hlinked⟩ := hlinks
      exact ⟨u, hu, (Storage.linkTarget?_eq_some_iff.mp hu).2, hlinked⟩
    · have hplain' : ¬((s.table b.table).columnType index).isLink := Bool.eq_false_iff.mp hplain
      rwa [Storage.Links, if_neg hplain'] at hlinks

end FieldDecl

namespace ClassDecl

variable {c : ClassDecl} {m : Mapping}

theorem mapped_verifying_iff : c.Mapped s d (settings.verifying true) m ↔
    c.Mapped s d (settings.verifying false) m ∧ c.Agrees s d settings := by
  constructor
  · rintro ⟨hclass, hdistinct, ⟨t, ht, hplaced⟩, hdeclared⟩
    have hsplit : ∀ f ∈ c.fields, (∃ p, f.placement (c.builder d (settings.verifying false) t) s = .ok p ∧
        m.get? f.name = some p) ∧ f.Agrees (c.builder d settings t) s := by
      intro f hf
      obtain ⟨p, hp, hget⟩ := hplaced f hf
      obtain ⟨hp', hagrees⟩ := FieldDecl.placed_verifying_iff.mp (FieldDecl.placement_eq_ok_iff.mp hp)
      exact ⟨⟨p, FieldDecl.placement_eq_ok_iff.mpr hp', hget⟩, hagrees⟩
    refine ⟨⟨hclass, hdistinct, ⟨t, ht, fun f hf => (hsplit f hf).1⟩, hdeclared⟩, ?_⟩
    intro t' ht' f hf
    obtain rfl := Option.some.inj (ht.symm.trans ht')
    exact (hsplit f hf).2
  · rintro ⟨⟨hclass, hdistinct, ⟨t, ht, hplaced⟩, hdeclared⟩, hagrees⟩
    refine ⟨hclass, hdistinct, ⟨t, ht, fun f hf => ?_⟩, hdeclared⟩
    obtain ⟨p, hp, hget⟩ := hplaced f hf
    have hp' := FieldDecl.placed_verifying_iff.mpr ⟨FieldDecl.placement_eq_ok_iff.mp hp, hagrees t ht f hf⟩
    exact ⟨p, FieldDecl.placement_eq_ok_iff.mpr hp', hget⟩

theorem buildMapping_verifying_iff : c.buildMapping s d (settings.verifying true) = .ok m ↔
    c.buildMapping s d (settings.verifying false) = .ok m ∧ c.Agrees s d settings := by
  rw [buildMapping_eq_ok_iff, buildMapping_eq_ok_iff, mapped_verifying_iff]

/-- A forward field has the placement of a stored column, whatever type it was declared with. -/
theorem Mapped.stores (h : c.Mapped s d settings m) {field : String} {p : Placement}
    (hget : m.get? field = some p) (hp : p.source = none) :
    ∃ t, s.tableNamed? d (settings.tableName m.className) = some t ∧ s.Stores t field p := by
  obtain ⟨t, ht, hplaced⟩ := h.placed
  obtain ⟨f, hf, rfl⟩ := h.declared field p hget
  obtain ⟨p', hp', hget'⟩ := hplaced f hf
  obtain rfl := Option.some.inj (hget.symm.trans hget')
  exact ⟨t, h.className ▸ ht, (FieldDecl.placement_eq_ok_iff.mp hp').stores hp⟩

end ClassDecl

namespace Registry

variable {r : Registry}

theorem buildAll_verifying_iff {es : List (ClassId × ClassDecl)} {ms : List (ClassId × Mapping)} :
    buildAll (settings.verifying true) s d es = .ok ms ↔
      buildAll (settings.verifying false) s d es = .ok ms ∧ ∀ e ∈ es, e.2.Agrees s d settings := by
  induction es generalizing ms with
  | nil => exact ⟨fun h => ⟨h, nofun⟩, fun h => h.1⟩
  | cons e es ih =>
    obtain ⟨id, c⟩ := e
    simp only [buildAll_cons_eq_ok_iff, ClassDecl.buildMapping_verifying_iff, ih, List.forall_mem_cons]
    constructor
    · rintro ⟨m, ms', ⟨hm, hagrees⟩, ⟨hms', hrest⟩, rfl⟩
      exact ⟨⟨m, ms', hm, hms', rfl⟩, hagrees, hrest⟩
    · rintro ⟨⟨m, ms', hm, hms', rfl⟩, hagrees, hrest⟩
      exact ⟨m, ms', ⟨hm, hagrees⟩, ⟨hms', hrest⟩, rfl⟩

theorem buildGeneration_verifying_iff {version : Int} {cells : CellStore}
    {made : Generation × CellStore} :
    (r.verifying true).buildGeneration s d version cells = .ok made ↔
      (r.verifying false).buildGeneration s d version cells = .ok made ∧ r.Agrees s d := by
  have hagrees : r.Agrees s d ↔ ∀ e ∈ r.classes.entries, e.2.Agrees s d r.settings :=
    ⟨fun h e he => h e.1 e.2 (SortedMap.mem_entries_iff.mp he),
      fun h id c hc => h (id, c) (SortedMap.mem_entries_iff.mpr hc)⟩
  rw [hagrees, buildGeneration, buildGeneration, bind_eq_ok_iff, bind_eq_ok_iff]
  constructor
  · rintro ⟨ms, hms, hmade⟩
    obtain ⟨hms', hall⟩ := buildAll_verifying_iff.mp hms
    exact ⟨⟨ms, hms', hmade⟩, hall⟩
  · rintro ⟨⟨ms, hms, hmade⟩, hall⟩
    exact ⟨ms, buildAll_verifying_iff.mpr ⟨hms, hall⟩, hmade⟩

theorem stores_of_buildGeneration {version : Int} {cells cells' : CellStore} {g : Generation}
    (h : r.buildGeneration s d version cells = .ok (g, cells')) {id : ClassId} {i : CellId}
    (hi : g.cell? id = some i) {field : String} {p : Placement}
    (hget : (cells'.mapping i).get? field = some p) (hp : p.source = none) :
    ∃ t, s.tableNamed? d (r.settings.tableName (cells'.mapping i).className) = some t ∧
      s.Stores t field p := by
  obtain ⟨_, _, _, _, hbuilt⟩ := buildGeneration_spec h
  have hmapping : (g.mappings cells').get? id = some (cells'.mapping i) := by
    rw [Generation.get?_mappings, hi]
    rfl
  obtain ⟨c, hc⟩ := hbuilt.registered id _ hmapping
  obtain ⟨m, hm, hmapped⟩ := hbuilt.mapped id c hc
  obtain rfl := Option.some.inj (hmapping.symm.trans hm)
  exact hmapped.stores hget hp

end Registry

/-- With types compared a generation is built exactly if the same one is built without, and every
declared field agrees with what is stored. With or without, a forward field has the type of the
column with its name, and a link has the class of the table that the column points at. -/
theorem verifying_narrows (r : Registry) (s : Storage) (d : DatabaseId) (version : Int)
    (cells : CellStore) :
    (∀ made, (r.verifying true).buildGeneration s d version cells = .ok made ↔
      (r.verifying false).buildGeneration s d version cells = .ok made ∧ r.Agrees s d) ∧
    ∀ verify g cells', (r.verifying verify).buildGeneration s d version cells = .ok (g, cells') →
      ∀ id i field p, g.cell? id = some i → (cells'.mapping i).get? field = some p →
        p.source = none → ∃ t,
          s.tableNamed? d (r.settings.tableName (cells'.mapping i).className) = some t ∧
          s.Stores t field p := by
  refine ⟨fun made => Registry.buildGeneration_verifying_iff, ?_⟩
  intro verify g cells' h id i field p hi hget hp
  exact Registry.stores_of_buildGeneration h hi hget hp

/-- A class declared with other types than the stored ones. -/
def looseClasses : Registry :=
  (Registry.new .default).run [.register ⟨"Book", [.column "title" .date, .column "author" .integer]⟩]

theorem shelf_verifying : ∃ g cells,
    (shelfClasses.verifying true).buildGeneration shelf ⟨0⟩ 1 .empty = .ok (g, cells) ∧
    (shelfClasses.verifying false).buildGeneration shelf ⟨0⟩ 1 .empty = .ok (g, cells) ∧
    ∃ g' cells' p t, (looseClasses.verifying false).buildGeneration shelf ⟨0⟩ 1 .empty = .ok (g', cells') ∧
      (cells'.mapping ⟨0⟩).get? "author" = some p ∧ shelf.Stores t "author" p ∧
      p = .column 1 .object (some "Author") ∧
      ¬∃ made, (looseClasses.verifying true).buildGeneration shelf ⟨0⟩ 1 .empty = .ok made := by
  obtain ⟨hsame, _⟩ := verifying_narrows shelfClasses shelf ⟨0⟩ 1 .empty
  obtain ⟨_, hstores⟩ := verifying_narrows looseClasses shelf ⟨0⟩ 1 .empty
  have hstrict : (shelfClasses.verifying true).buildGeneration shelf ⟨0⟩ 1 .empty = .ok (_, _) := rfl
  have hlenient : (looseClasses.verifying false).buildGeneration shelf ⟨0⟩ 1 .empty = .ok (_, _) := rfl
  obtain ⟨t, _, hstored⟩ := hstores false _ _ hlenient ⟨0⟩ ⟨0⟩ "author" _ rfl rfl rfl
  refine ⟨_, _, hstrict, ((hsame _).mp hstrict).1, _, _, _, t, hlenient, rfl, hstored, rfl, ?_⟩
  rintro ⟨made, hmade⟩
  cases hmade

end ColumnAtlas
