import ColumnAtlas.Proofs.SchemaSteps
import ColumnAtlas.Proofs.ShownTables

namespace ColumnAtlas

/-- Every table of a database is stored there once, under the prefixed name of its class, and every
link column leads to a live table of the same database. -/
structure Storage.Intact (s : Storage) (d : DatabaseId) (tablePrefix : String) : Prop where
  keyed : ∀ name t, s.tableNamed? d name = some t →
    name = tablePrefix ++ (s.table t).className ∧ (s.table t).name = name
  named : ∀ name t, s.tableNamed? d name = some t → (s.table t).className ≠ ""
  distinct : (s.classNames d).Nodup
  once : (s.database d).tables.values.Nodup
  linked : ∀ name t, s.tableNamed? d name = some t → ∀ c ∈ (s.table t).columns, c.fieldType.isLink →
    ∃ u, c.target = some u ∧ s.isAlive u ∧ ∃ name', s.tableNamed? d name' = some u
  leads : ∀ name t index, s.tableNamed? d name = some t → ((s.table t).columnType index).isLink →
    ∃ u, s.linkTarget? t index = some u ∧ ∃ name', s.tableNamed? d name' = some u

structure Storage.Tended (s : Storage) (d : DatabaseId) (tablePrefix : String) : Prop where
  sound : s.Sound
  opened : d.index < s.databases.length
  prefixed : (s.database d).tablePrefix = tablePrefix
  linksInside : s.LinksInside d

/-- An edit of one database. A link that it makes leads to a table that the database has then. -/
def Edit.inside (s : Storage) (d : DatabaseId) : Edit → Bool
  | .createTable e _ => e = d
  | .removeTable e _ => e = d
  | .renameTable e _ _ => e = d
  | .addLink _ _ _ target => (s.database d).tables.values.contains target
  | .addColumn .. => true
  | .removeColumn .. => true
  | .hold _ => true
  | .openDatabase .. => false
  | .closeDatabase _ => false

namespace Storage

def editInside (d : DatabaseId) (s : Storage) (e : Edit) : Storage :=
  if e.inside s d then s.edit e else s

def runInside (s : Storage) (d : DatabaseId) (edits : List Edit) : Storage :=
  edits.foldl (editInside d) s

variable {s s' : Storage} {d : DatabaseId} {tablePrefix : String}

theorem LinksInside.setTable (h : s.LinksInside d) {t : TableId} {contents : Table}
    (hc : ∀ c ∈ contents.columns, c.fieldType.isLink → c ∈ (s.table t).columns ∨
      ∃ u, c.target = some u ∧ ∃ name, s.tableNamed? d name = some u) :
    (s.setTable t contents).LinksInside d := by
  by_cases ht : t.index < s.tables.length
  · intro name u hu c hmem hlink
    rw [table_setTable contents ht] at hmem
    split at hmem
    next he =>
      subst he
      rcases hc c hmem hlink with hold | hnew
      · exact h name u hu c hold hlink
      · exact hnew
    next => exact h name u hu c hmem hlink
  · rw [setTable_of_le contents (by omega)]
    exact h

theorem LinksInside.setTable_append (h : s.LinksInside d) {t : TableId} {contents : Table}
    {c : Column} {i : Int} (ha : (s.table t).append c = .ok (i, contents))
    (hc : c.fieldType.isLink → ∃ u, c.target = some u ∧ ∃ name, s.tableNamed? d name = some u) :
    (s.setTable t contents).LinksInside d := by
  obtain ⟨_, _, rfl⟩ := Table.append_eq_ok_iff.mp ha
  refine h.setTable fun c' hmem hlink => ?_
  rcases List.mem_append.mp hmem with hold | hnew
  · exact .inl hold
  · obtain rfl := List.mem_singleton.mp hnew
    exact .inr (hc hlink)

namespace Tended

theorem linksInside_attempt (h : s.Tended d tablePrefix) {e : Edit} (hin : e.inside s d = true)
    (hs : s.attempt e = .ok s') : s'.LinksInside d := by
  cases e with
  | openDatabase path tablePrefix => cases hin
  | closeDatabase e => cases hin
  | createTable e className =>
    obtain rfl : e = d := by simpa [Edit.inside] using hin
    obtain ⟨⟨t, s''⟩, hc, rfl⟩ := map_eq_ok_iff.mp hs
    obtain ⟨hne, hfree, _, rfl⟩ := createTable_eq_ok_iff.mp hc
    have hnew := h.sound.withTable e hne (.blank _ _)
    exact linksInside_withTable h.sound h.linksInside h.opened hfree hnew fun c hc => by cases hc
  | removeTable e className =>
    obtain rfl : e = d := by simpa [Edit.inside] using hin
    obtain ⟨⟨t, ht⟩, hr, rfl⟩ := removeTable_eq_ok_iff.mp hs
    exact linksInside_withoutTable h.sound h.linksInside ht hr
  | renameTable e old new =>
    obtain rfl : e = d := by simpa [Edit.inside] using hin
    obtain ⟨⟨t, s''⟩, hc, rfl⟩ := map_eq_ok_iff.mp hs
    obtain ⟨_, hfree, ht, rfl⟩ := renameTable_eq_ok_iff.mp hc
    exact linksInside_withRenamed h.sound h.linksInside ht hfree
  | addColumn t name type =>
    obtain ⟨⟨i, s''⟩, hc, rfl⟩ := map_eq_ok_iff.mp hs
    obtain ⟨contents, hadd, rfl⟩ := addColumn_eq_ok_iff.mp hc
    obtain ⟨hr, _, ha⟩ := Table.addColumn_eq_ok_iff.mp hadd
    refine h.linksInside.setTable_append ha fun hlink => ?_
    rw [FieldType.isRelationship_of_isLink hlink] at hr
    cases hr
  | addLink t name type target =>
    have hstored : target ∈ (s.database d).tables.values := by simpa [Edit.inside] using hin
    simp only [attempt] at hs
    split at hs
    next =>
      obtain ⟨⟨i, s''⟩, hc, rfl⟩ := map_eq_ok_iff.mp hs
      obtain ⟨contents, hadd, rfl⟩ := addLink_eq_ok_iff.mp hc
      obtain ⟨_, ha⟩ := Table.addLink_eq_ok_iff.mp hadd
      exact h.linksInside.setTable_append ha fun _ => ⟨target, rfl, SortedMap.mem_values_iff.mp hstored⟩
    next =>
      cases hs
      exact h.linksInside
  | removeColumn t name =>
    cases hs
    exact h.linksInside.setTable fun c hc _ => .inl (List.mem_filter.mp hc).1
  | hold tables =>
    cases hs
    exact h.linksInside

theorem editInside (h : s.Tended d tablePrefix) (e : Edit) :
    (Storage.editInside d s e).Tended d tablePrefix := by
  unfold Storage.editInside
  split
  next hin =>
    obtain ⟨hopened, hprefix⟩ := keepsDatabases_edit s e d h.opened
    refine ⟨h.sound.edit e, hopened, hprefix.trans h.prefixed, ?_⟩
    unfold Storage.edit
    split
    next s' hs => exact h.linksInside_attempt hin hs
    next => exact h.linksInside
  next => exact h

theorem runInside (h : s.Tended d tablePrefix) (edits : List Edit) :
    (s.runInside d edits).Tended d tablePrefix := by
  induction edits generalizing s with
  | nil => exact h
  | cons e edits ih => exact ih (h.editInside e)

theorem start (h : s.Sound) (path tablePrefix : String) :
    (s.openDatabase path tablePrefix).2.Tended (s.openDatabase path tablePrefix).1 tablePrefix := by
  have hread : (s.openDatabase path tablePrefix).2.database (s.openDatabase path tablePrefix).1 =
      ⟨path, tablePrefix, .empty⟩ := by simp [openDatabase, database]
  refine ⟨h.openDatabase path tablePrefix, by simp [openDatabase], by rw [hread], ?_⟩
  intro name t ht
  rw [tableNamed?, hread, SortedMap.get?_empty] at ht
  cases ht

theorem keys_eq (h : s.Tended d tablePrefix) :
    (s.database d).tables.keys = (s.classNames d).map (tableNameOf tablePrefix) := by
  simp only [SortedMap.keys, classNames, SortedMap.values, List.map_map]
  refine List.map_congr_left fun e he => ?_
  have hname := (h.sound.keyed d e.1 e.2 (SortedMap.mem_entries_iff.mp he)).1
  rwa [Database.tableName, h.prefixed] at hname

theorem distinct (h : s.Tended d tablePrefix) : (s.classNames d).Nodup := by
  have hkeys : (s.database d).tables.keys.Nodup := SortedMap.nodup_keys _
  rw [h.keys_eq] at hkeys
  exact List.Pairwise.of_map _ (fun _ _ hne heq => hne (congrArg _ heq)) hkeys

theorem linked (h : s.Tended d tablePrefix) {name : String} {t : TableId} {c : Column}
    (ht : s.tableNamed? d name = some t) (hc : c ∈ (s.table t).columns) (hlink : c.fieldType.isLink) :
    ∃ u, c.target = some u ∧ s.isAlive u ∧ ∃ name', s.tableNamed? d name' = some u := by
  obtain ⟨u, hu, name', hname⟩ := h.linksInside name t ht c hc hlink
  exact ⟨u, hu, isAlive_of_tableNamed? hname, name', hname⟩

theorem intact (h : s.Tended d tablePrefix) : s.Intact d tablePrefix where
  keyed name t ht := by
    obtain ⟨hname, hown⟩ := h.sound.keyed d name t ht
    rw [Database.tableName, h.prefixed] at hname
    exact ⟨hname, hown⟩
  named := h.sound.named d
  distinct := h.distinct
  once := List.Pairwise.of_map (fun t => (s.table t).className)
    (fun _ _ hne heq => hne (by rw [heq])) h.distinct
  linked _ _ ht _ hc hlink := h.linked ht hc hlink
  leads name t index ht hlink := by
    unfold Table.columnType at hlink
    split at hlink
    next c hc =>
      obtain ⟨u, hu, halive, hname⟩ := h.linked ht (Table.mem_columns_of_columnAt? hc) hlink
      refine ⟨u, linkTarget?_eq_some_iff.mpr ⟨?_, halive⟩, hname⟩
      rw [Table.targetAt?, hc]
      exact hu
    next => cases hlink

end Tended

end Storage

/-- Whatever is done to a database that was opened empty, and whatever else is stored beside it, its
tables keep their names and its links never lose their tables. -/
theorem intact_after_edits {s s' : Storage} {d : DatabaseId} {path tablePrefix : String}
    (h : s.Reachable) (hs : s.openDatabase path tablePrefix = (d, s')) (edits : List Edit) :
    (s'.runInside d edits).Intact d tablePrefix := by
  have htended := Storage.Tended.start h.sound path tablePrefix
  rw [hs] at htended
  exact (htended.runInside edits).intact

/-- A second database, in which books link to their authors and authors to one another. The author
cannot be removed, and a link to a table of the first database is passed over. -/
def libraryEdits : List Edit :=
  [.createTable ⟨1⟩ "Author", .createTable ⟨1⟩ "Book", .addLink ⟨2⟩ "friends" .list ⟨2⟩,
    .addLink ⟨3⟩ "author" .object ⟨2⟩, .addLink ⟨3⟩ "first" .object ⟨0⟩, .createTable ⟨1⟩ "Book",
    .removeTable ⟨1⟩ "Author", .renameTable ⟨1⟩ "Book" "Volume", .removeColumn ⟨3⟩ "pages"]

theorem library_intact : ∃ s', shelf.openDatabase "second" "t_" = (⟨1⟩, s') ∧
    (s'.runInside ⟨1⟩ libraryEdits).classNames ⟨1⟩ = ["Author", "Volume"] ∧
    (s'.runInside ⟨1⟩ libraryEdits).linkTarget? ⟨3⟩ 0 = some ⟨2⟩ ∧
    (s'.runInside ⟨1⟩ libraryEdits).Intact ⟨1⟩ "t_" :=
  ⟨_, rfl, by decide +kernel, by decide +kernel, intact_after_edits ⟨_, rfl⟩ rfl libraryEdits⟩

end ColumnAtlas
