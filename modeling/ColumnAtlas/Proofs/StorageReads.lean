import ColumnAtlas.Proofs.MapEntries
import ColumnAtlas.Proofs.Outcome
import ColumnAtlas.Storage

namespace ColumnAtlas

theorem tableNameOf_inj {tablePrefix a b : String} :
    tableNameOf tablePrefix a = tableNameOf tablePrefix b ↔ a = b := by
  constructor
  · intro h
    have hc := congrArg (classNameOf tablePrefix) h
    rwa [classNameOf_tableNameOf, classNameOf_tableNameOf] at hc
  · rintro rfl
    rfl

theorem TableId.eq_iff {t u : TableId} : t = u ↔ t.index = u.index := by
  cases t; cases u; simp

theorem DatabaseId.eq_iff {d e : DatabaseId} : d = e ↔ d.index = e.index := by
  cases d; cases e; simp

namespace Table

theorem mem_columns_of_columnAt? {t : Table} {i : Int} {c : Column}
    (h : t.columnAt? i = some c) : c ∈ t.columns := by
  unfold columnAt? at h
  split at h
  next => exact List.mem_of_getElem? h
  next => cases h

theorem append_eq_ok_iff {t t' : Table} {c : Column} {i : Int} :
    t.append c = .ok (i, t') ↔ (∀ c' ∈ t.columns, c'.name ≠ c.name) ∧
      i = t.columns.length ∧ t' = { t with columns := t.columns ++ [c] } := by
  unfold append
  split
  next h =>
    obtain ⟨c', hc', hn⟩ := List.any_eq_true.mp h
    constructor
    · intro he
      cases he
    · rintro ⟨hf, _⟩
      exact absurd (by simpa using hn) (hf c' hc')
  next h =>
    have hf : ∀ c' ∈ t.columns, c'.name ≠ c.name := by simpa using h
    constructor
    · intro he
      cases he
      exact ⟨hf, rfl, rfl⟩
    · rintro ⟨_, rfl, rfl⟩
      rfl

theorem addColumn_eq_ok_iff {t t' : Table} {name : String} {type : FieldType} {i : Int} :
    t.addColumn name type = .ok (i, t') ↔
      type.isRelationship = false ∧ type ≠ .unsupported ∧ t.append ⟨name, type, none⟩ = .ok (i, t') := by
  unfold addColumn
  split
  next h =>
    constructor
    · intro he
      cases he
    · rintro ⟨hr, hu, _⟩
      simp [hr, hu] at h
  next h => simp_all

theorem addLink_eq_ok_iff {t t' : Table} {name : String} {type : FieldType} {target : TableId}
    {i : Int} : t.addLink name type target = .ok (i, t') ↔
      type.isLink ∧ t.append ⟨name, type, some target⟩ = .ok (i, t') := by
  unfold addLink
  split <;> simp_all

end Table

namespace Storage

theorem table_setTable {s : Storage} {t : TableId} (contents : Table)
    (ht : t.index < s.tables.length) (u : TableId) :
    (s.setTable t contents).table u = if u = t then contents else s.table u := by
  by_cases hu : u = t
  · subst hu
    simp [table, setTable, ht]
  · have hi : t.index ≠ u.index := fun h => hu (TableId.eq_iff.mpr h.symm)
    simp [table, setTable, hu, List.getElem?_set_ne hi]

theorem setTable_of_le {s : Storage} {t : TableId} (contents : Table)
    (ht : s.tables.length ≤ t.index) : s.setTable t contents = s := by
  simp [setTable, List.set_eq_of_length_le ht]

theorem length_setTable (s : Storage) (t : TableId) (contents : Table) :
    (s.setTable t contents).tables.length = s.tables.length := by
  simp [setTable]

theorem database_setTables {s : Storage} {d : DatabaseId} (m : SortedMap String TableId)
    (hd : d.index < s.databases.length) (e : DatabaseId) :
    (s.setTables d m).database e = if e = d then { s.database d with tables := m } else s.database e := by
  by_cases he : e = d
  · subst he
    simp [database, setTables, setDatabase, hd]
  · have hi : d.index ≠ e.index := fun h => he (DatabaseId.eq_iff.mpr h.symm)
    simp [database, setTables, setDatabase, he, List.getElem?_set_ne hi]

theorem setTables_of_le {s : Storage} {d : DatabaseId} (m : SortedMap String TableId)
    (hd : s.databases.length ≤ d.index) : s.setTables d m = s := by
  simp [setTables, setDatabase, List.set_eq_of_length_le hd]

theorem database_of_le {s : Storage} {d : DatabaseId} (hd : s.databases.length ≤ d.index) :
    s.database d = .unopened := by
  simp [database, List.getElem?_eq_none hd]

theorem tablePrefix_setTables (s : Storage) (d : DatabaseId) (m : SortedMap String TableId)
    (e : DatabaseId) : ((s.setTables d m).database e).tablePrefix = (s.database e).tablePrefix := by
  by_cases hd : d.index < s.databases.length
  · rw [database_setTables m hd]
    split
    next he => rw [he]
    next => rfl
  · rw [setTables_of_le m (by omega)]

theorem tableNamed?_setTables {s : Storage} {d : DatabaseId} (m : SortedMap String TableId)
    (hd : d.index < s.databases.length) (e : DatabaseId) (name : String) :
    (s.setTables d m).tableNamed? e name = if e = d then m.get? name else s.tableNamed? e name := by
  unfold tableNamed?
  rw [database_setTables m hd]
  split <;> rfl

theorem opened_of_tableNamed? {s : Storage} {d : DatabaseId} {name : String} {t : TableId}
    (h : s.tableNamed? d name = some t) : d.index < s.databases.length := by
  refine Nat.lt_of_not_le fun hd => ?_
  have he := database_of_le hd
  simp [tableNamed?, he, Database.unopened, SortedMap.get?_empty] at h

/-- A table is alive exactly while it is held or has a name in some database. -/
theorem isAlive_iff {s : Storage} {t : TableId} :
    s.isAlive t ↔ t ∈ s.held ∨ ∃ d name, s.tableNamed? d name = some t := by
  simp only [isAlive, Bool.or_eq_true, List.contains_iff_mem, List.any_eq_true,
    SortedMap.mem_values_iff]
  constructor
  · rintro (h | ⟨db, hdb, name, h⟩)
    · exact .inl h
    · obtain ⟨k, hk⟩ := List.mem_iff_getElem?.mp hdb
      exact .inr ⟨⟨k⟩, name, by simpa [tableNamed?, database, hk] using h⟩
  · rintro (h | ⟨d, name, h⟩)
    · exact .inl h
    · have hd := opened_of_tableNamed? h
      refine .inr ⟨s.databases[d.index], List.getElem_mem hd, name, ?_⟩
      simpa [tableNamed?, database, hd] using h

theorem isAlive_of_tableNamed? {s : Storage} {d : DatabaseId} {name : String} {t : TableId}
    (h : s.tableNamed? d name = some t) : s.isAlive t :=
  isAlive_iff.mpr (.inr ⟨d, name, h⟩)

theorem linkTarget?_eq_some_iff {s : Storage} {t u : TableId} {i : Int} :
    s.linkTarget? t i = some u ↔ (s.table t).targetAt? i = some u ∧ s.isAlive u := by
  simp [linkTarget?, Option.filter_eq_some_iff]

theorem addColumn_eq_ok_iff {s s' : Storage} {t : TableId} {name : String} {type : FieldType}
    {i : Int} : s.addColumn t name type = .ok (i, s') ↔
      ∃ contents, (s.table t).addColumn name type = .ok (i, contents) ∧
        s.setTable t contents = s' := by
  constructor
  · intro h
    obtain ⟨⟨j, contents⟩, hc, hr⟩ := bind_eq_ok_iff.mp h
    obtain ⟨rfl, rfl⟩ := Prod.mk.inj (Except.ok.inj hr)
    exact ⟨contents, hc, rfl⟩
  · rintro ⟨contents, hc, rfl⟩
    exact bind_eq_ok_iff.mpr ⟨_, hc, rfl⟩

theorem addLink_eq_ok_iff {s s' : Storage} {t target : TableId} {name : String}
    {type : FieldType} {i : Int} : s.addLink t name type target = .ok (i, s') ↔
      ∃ contents, (s.table t).addLink name type target = .ok (i, contents) ∧
        s.setTable t contents = s' := by
  constructor
  · intro h
    obtain ⟨⟨j, contents⟩, hc, hr⟩ := bind_eq_ok_iff.mp h
    obtain ⟨rfl, rfl⟩ := Prod.mk.inj (Except.ok.inj hr)
    exact ⟨contents, hc, rfl⟩
  · rintro ⟨contents, hc, rfl⟩
    exact bind_eq_ok_iff.mpr ⟨_, hc, rfl⟩

end Storage

end ColumnAtlas
