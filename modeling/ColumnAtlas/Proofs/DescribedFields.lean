import ColumnAtlas.Proofs.MentionedClasses

namespace ColumnAtlas

/-- A stored column as the description of its class shows it. -/
def Storage.columnSummary (s : Storage) (c : Column) : FieldSummary :=
  ⟨c.name, c.fieldType, (c.target.filter s.isAlive).map fun u => (s.table u).className⟩

theorem Table.find?_of_columnIndex? {t : Table} {name : String} {index : Int}
    (h : t.columnIndex? name = some index) : ∃ column,
      (t.columns.find? fun c => c.name = name) = some column ∧ t.columnAt? index = some column := by
  obtain ⟨i, hi, rfl⟩ := Option.map_eq_some_iff.mp h
  have hlt := (List.findIdx?_eq_some_iff_findIdx_eq.mp hi).1
  refine ⟨t.columns[i], ?_, ?_⟩
  · rw [List.find?_eq_bind_findIdx?_getElem?, hi]
    exact List.getElem?_eq_getElem hlt
  · simp [Table.columnAt?, hlt]

theorem Storage.Links.linkedClass {s : Storage} {t : TableId} {index : Int} {linked : Option String}
    {n : Nat} (h : s.Links t index linked) (ht : (s.table t).Sound n) {column : Column}
    (hc : (s.table t).columnAt? index = some column) :
    linked = (s.columnSummary column).linkedClass := by
  have htype : (s.table t).columnType index = column.fieldType := by rw [Table.columnType, hc]
  have htarget : s.linkTarget? t index = column.target.filter s.isAlive := by
    rw [Storage.linkTarget?, Table.targetAt?, hc, Option.bind_some]
  have hlinked := ht.linked column (Table.mem_columns_of_columnAt? hc)
  unfold Storage.Links at h
  rw [htype, htarget] at h
  simp only [columnSummary]
  split at h
  next =>
    obtain ⟨u, hu, rfl⟩ := h
    rw [hu]
    rfl
  next hnot =>
    have hnone : column.target = none := by simpa [hlinked] using hnot
    rw [h, hnone]
    rfl

theorem ClassDecl.find?_backlinks {c : ClassDecl} (hd : (c.fields.map FieldDecl.name).Nodup)
    {f : FieldDecl} (hf : f ∈ c.fields) {b : BacklinkDecl} (hb : f.backlink = some b) :
    (c.backlinks.find? fun g => g.name = f.name) = some ⟨f.name, .backlink, some b.sourceClass⟩ := by
  have hmem : ⟨f.name, .backlink, some b.sourceClass⟩ ∈ c.backlinks :=
    List.mem_filterMap.mpr ⟨f, hf, by rw [hb]; rfl⟩
  cases hfound : c.backlinks.find? fun g => g.name = f.name with
  | none => exact absurd (List.find?_eq_none.mp hfound _ hmem) (by simp)
  | some found =>
    obtain ⟨g, hg, hsummary⟩ := List.mem_filterMap.mp (List.mem_of_find?_eq_some hfound)
    obtain ⟨b', hb', rfl⟩ := Option.map_eq_some_iff.mp hsummary
    have hname : g.name = f.name := by simpa using List.find?_some hfound
    obtain rfl := List.inj_on_of_nodup_map hd hg hf hname
    rw [Option.some.inj (hb'.symm.trans hb)]

namespace Workspace

variable {w : Workspace} {className : String} {c : ClassDecl} {m : Mapping} {f : FieldDecl} {t : TableId}

theorem fields_summary (w : Workspace) (n : String) (c : ClassDecl) (t : TableId) :
    (w.summary n c t).fields = (w.storage.table t).columns.map w.storage.columnSummary ++ c.backlinks := by
  unfold summary Storage.columnsOf
  rw [List.map_map]
  rfl

/-- The first field with a name is a column if there is one, and otherwise a backlink. -/
theorem field?_summary (name : String) : (w.summary className c t).field? name =
    (((w.storage.table t).columns.find? fun column => column.name = name).map
      w.storage.columnSummary).or (c.backlinks.find? fun f => f.name = name) := by
  unfold ClassSummary.field?
  rw [fields_summary, List.find?_append, List.find?_map]
  rfl

theorem InStep.field?_column (h : w.InStep) (hm : c.Mapped w.storage w.database w.registry.settings m)
    (ht : w.classTable? c.className = some t) (hf : f ∈ c.fields) (hb : f.backlink = none) :
    ∃ found, (w.summary c.className c t).field? f.name = some found ∧
      found.fieldType = m.columnType f.name ∧ found.linkedClass = m.linkedClass? f.name := by
  obtain ⟨t', index, linked, ht', hi, hlinks, hget⟩ := hm.forward hf hb
  obtain rfl := Option.some.inj (ht.symm.trans ht')
  obtain ⟨column, hcolumn, hat⟩ := Table.find?_of_columnIndex? hi
  refine ⟨w.storage.columnSummary column, ?_, ?_, ?_⟩
  · rw [field?_summary, hcolumn]
    rfl
  · simp only [Mapping.columnType, hget, Placement.column, Table.columnType, hat, Storage.columnSummary]
  · rw [Mapping.linkedClass?, hget]
    exact (hlinks.linkedClass (h.storage.tables t) hat).symm

/-- A column with the name of a backlink is described in its place. -/
theorem InStep.field?_backlink (h : w.InStep)
    (hm : c.Mapped w.storage w.database w.registry.settings m) (hf : f ∈ c.fields) {b : BacklinkDecl}
    (hb : f.backlink = some b) : ∃ found, (w.summary c.className c t).field? f.name = some found ∧
      (found.fieldType = m.columnType f.name ∧ found.linkedClass = m.linkedClass? f.name ↔
        (w.storage.table t).hasColumn f.name = false) := by
  obtain ⟨source, index, _, _, hget⟩ := hm.backward hf hb
  have htype : m.columnType f.name = .backlink := by
    rw [Mapping.columnType, hget]
    rfl
  have hlinked : m.linkedClass? f.name = some b.sourceClass := by
    rw [Mapping.linkedClass?, hget]
    rfl
  rw [htype, hlinked, field?_summary, ClassDecl.find?_backlinks hm.distinct hf hb]
  cases hcolumn : (w.storage.table t).columns.find? fun column => column.name = f.name with
  | none =>
    have hnot : (w.storage.table t).hasColumn f.name = false := by
      simpa [Table.hasColumn] using hcolumn
    exact ⟨_, rfl, fun _ => hnot, fun _ => ⟨rfl, rfl⟩⟩
  | some column =>
    have hmem := List.mem_of_find?_eq_some hcolumn
    have hname : column.name = f.name := by simpa using List.find?_some hcolumn
    have hhas : (w.storage.table t).hasColumn f.name = true :=
      List.any_eq_true.mpr ⟨column, hmem, by simpa using hname⟩
    have hstored := ((h.storage.tables t).storable column hmem).1
    refine ⟨_, rfl, fun hsame => absurd hsame.1 hstored, fun hnot => ?_⟩
    rw [hhas] at hnot
    cases hnot

end Workspace

/-- The description of a class has every declared field, as the cache has it. Only a backlink with
the name of an undeclared column is hidden there by the column. -/
theorem described_field_iff {s : Storage} {cells : CellStore} {d : DatabaseId} {r : Registry}
    {first : Int} {w : Workspace} (h : Opening s d r) (hl : s.LinksInside d)
    (hw : Workspace.start s cells d r first = .ok w) (changes : List Change)
    (hn : (w.run changes).schema.needsRefresh = false) {id : ClassId} {c : ClassDecl}
    (hc : (w.run changes).registry.decl? id = some c) {f : FieldDecl} (hf : f ∈ c.fields) :
    ∃ t i summary found, (w.run changes).table? c.className = some t ∧
      (w.run changes).schema.cache.cell? id = .ok (some i) ∧
      (w.run changes).describe? c.className = some summary ∧ summary.field? f.name = some found ∧
      (found.fieldType = ((w.run changes).cells.mapping i).columnType f.name ∧
          found.linkedClass = ((w.run changes).cells.mapping i).linkedClass? f.name ↔
        (f.backlink.isSome → ((w.run changes).storage.table t).hasColumn f.name = false)) := by
  have hstep := (Workspace.InStep.start h hl hw).run changes
  generalize w.run changes = w at *
  obtain ⟨hnamed, t, i, ht, htable, hi, hm⟩ := hstep.registered hn hc
  have hdescribed : w.describe? c.className = some (w.summary c.className c t) := by
    rw [Workspace.describe?_eq, hnamed, Option.bind_some, ht]
    rfl
  cases hb : f.backlink with
  | none =>
    obtain ⟨found, hfound, hsame⟩ := hstep.field?_column hm ht hf hb
    exact ⟨t, i, _, found, htable, hi, hdescribed, hfound, fun _ => nofun, fun _ => hsame⟩
  | some b =>
    obtain ⟨found, hfound, hiff⟩ := hstep.field?_backlink (t := t) hm hf hb
    exact ⟨t, i, _, found, htable, hi, hdescribed, hfound, fun hsame _ => hiff.mp hsame,
      fun hnot => hiff.mpr (hnot rfl)⟩

theorem shelf_described : ∃ w, Workspace.start shelf .empty ⟨0⟩ shelfClasses 1 = .ok w ∧
    (w.run shelfChanges).schema.needsRefresh = false ∧
    ((w.run shelfChanges).storage.table ⟨0⟩).hasColumn "books" = false ∧
    ∃ i summary found, (w.run shelfChanges).schema.cache.cell? ⟨0⟩ = .ok (some i) ∧
      (w.run shelfChanges).describe? "Writer" = some summary ∧ summary.field? "books" = some found ∧
      found.fieldType = ((w.run shelfChanges).cells.mapping i).columnType "books" ∧
      found.linkedClass = ((w.run shelfChanges).cells.mapping i).linkedClass? "books" := by
  obtain ⟨w, hw, hn, hc, ht, hnot⟩ : ∃ w, Workspace.start shelf .empty ⟨0⟩ shelfClasses 1 = .ok w ∧
      (w.run shelfChanges).schema.needsRefresh = false ∧ (w.run shelfChanges).registry.decl? ⟨0⟩ =
        some ⟨"Writer", [.column "name" .string, .reverse "books" "Book" "author"]⟩ ∧
      (w.run shelfChanges).table? "Writer" = some ⟨0⟩ ∧
      ((w.run shelfChanges).storage.table ⟨0⟩).hasColumn "books" = false := ⟨_, rfl, rfl, rfl, rfl, rfl⟩
  obtain ⟨t, i, summary, found, ht', hi, hs, hfound, hiff⟩ := described_field_iff shelf_opening
    (by decide +kernel) hw shelfChanges hn hc (f := .reverse "books" "Book" "author") (by decide)
  obtain rfl := Option.some.inj (ht.symm.trans ht')
  exact ⟨w, hw, hn, hnot, i, summary, found, hi, hs, hfound, hiff.mpr fun _ => hnot⟩

/-- The shelf of a library that counts the books of its authors in a column. -/
def countingShelf : Storage :=
  Storage.empty.run [.openDatabase "main" "class_", .createTable ⟨0⟩ "Author",
    .addColumn ⟨0⟩ "name" .string, .addColumn ⟨0⟩ "books" .integer, .createTable ⟨0⟩ "Book",
    .addColumn ⟨1⟩ "title" .string, .addLink ⟨1⟩ "author" .object ⟨0⟩]

/-- The backlink is in the cache, and the description has the column instead. -/
theorem countingShelf_not_described : Opening countingShelf ⟨0⟩ shelfClasses ∧
    countingShelf.LinksInside ⟨0⟩ ∧
    ∃ w, Workspace.start countingShelf .empty ⟨0⟩ shelfClasses 1 = .ok w ∧
    w.schema.needsRefresh = false ∧ w.registry.decl? ⟨0⟩ =
      some ⟨"Author", [.column "name" .string, .reverse "books" "Book" "author"]⟩ ∧
    (∃ i, w.schema.cache.cell? ⟨0⟩ = .ok (some i) ∧
      (w.cells.mapping i).columnType "books" = .backlink ∧
      (w.cells.mapping i).linkedClass? "books" = some "Book") ∧
    ∃ summary, w.describe? "Author" = some summary ∧
      summary.field? "books" = some ⟨"books", .integer, none⟩ :=
  ⟨⟨⟨_, rfl⟩, by decide +kernel, ⟨_, _, rfl⟩, rfl⟩, by decide +kernel, _, rfl, rfl, rfl,
    ⟨_, rfl, rfl, rfl⟩, _, rfl, rfl⟩

end ColumnAtlas
