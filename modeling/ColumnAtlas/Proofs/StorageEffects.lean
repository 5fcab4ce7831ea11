import ColumnAtlas.Proofs.StorageReads

namespace ColumnAtlas.Storage

/-- A new table of a class, under its name in a database. -/
def withTable (s : Storage) (d : DatabaseId) (className : String) (columns : List Column) : Storage :=
  let name := (s.database d).tableName className
  let made : Storage := { s with tables := s.tables ++ [⟨name, className, columns⟩] }
  made.setTables d ((s.database d).tables.insert name ⟨s.tables.length⟩)

def withoutTable (s : Storage) (d : DatabaseId) (className : String) : Storage :=
  s.setTables d ((s.database d).tables.erase ((s.database d).tableName className))

def withRenamed (s : Storage) (d : DatabaseId) (old new : String) (t : TableId) : Storage :=
  let db := s.database d
  let renamed := s.setTable t { s.table t with name := db.tableName new, className := new }
  renamed.setTables d ((db.tables.erase (db.tableName old)).insert (db.tableName new) t)

theorem createTable_eq_ok_iff {s s' : Storage} {d : DatabaseId} {className : String} {t : TableId} :
    s.createTable d className = .ok (t, s') ↔ className ≠ "" ∧ s.classTable? d className = none ∧
      t = ⟨s.tables.length⟩ ∧ s' = s.withTable d className [] := by
  dsimp only [createTable]
  split
  next h => simp [String.isEmpty_iff.mp h]
  next h =>
    have hne : className ≠ "" := fun he => h (String.isEmpty_iff.mpr he)
    split
    next h =>
      have hs : s.classTable? d className ≠ none := Option.isSome_iff_ne_none.mp h
      simp [hs]
    next h =>
      have hs : s.classTable? d className = none := Option.not_isSome_iff_eq_none.mp h
      simp only [Except.ok.injEq, Prod.mk.injEq, hne, hs, ne_eq, not_false_eq_true, true_and]
      constructor
      · rintro ⟨rfl, rfl⟩
        exact ⟨rfl, rfl⟩
      · rintro ⟨rfl, rfl⟩
        exact ⟨rfl, rfl⟩

theorem removeTable_eq_ok_iff {s s' : Storage} {d : DatabaseId} {className : String} :
    s.removeTable d className = .ok s' ↔ (∃ t, s.classTable? d className = some t) ∧
      s.referencing d className = [] ∧ s' = s.withoutTable d className := by
  unfold removeTable
  cases hc : s.classTable? d className with
  | none => simp
  | some t =>
    cases hr : s.referencing d className with
    | nil =>
      simp only [Option.isNone_some, Bool.false_eq_true, if_false, Except.ok.injEq]
      constructor
      · rintro rfl
        exact ⟨⟨t, rfl⟩, trivial, rfl⟩
      · rintro ⟨_, _, rfl⟩
        rfl
    | cons r rs => simp

theorem renameTable_eq_ok_iff {s s' : Storage} {d : DatabaseId} {old new : String} {t : TableId} :
    s.renameTable d old new = .ok (t, s') ↔ new ≠ "" ∧ s.classTable? d new = none ∧
      s.classTable? d old = some t ∧ s' = s.withRenamed d old new t := by
  have hget : (s.database d).tables.get? ((s.database d).tableName old) = s.classTable? d old := rfl
  dsimp only [renameTable]
  split
  next h => simp [String.isEmpty_iff.mp h]
  next h =>
    have hne : new ≠ "" := fun he => h (String.isEmpty_iff.mpr he)
    split
    next h =>
      have hs : s.classTable? d new ≠ none := Option.isSome_iff_ne_none.mp h
      simp [hs]
    next h =>
      have hs : s.classTable? d new = none := Option.not_isSome_iff_eq_none.mp h
      rw [hget]
      cases ho : s.classTable? d old with
      | none => simp
      | some u =>
        simp only [Except.ok.injEq, Prod.mk.injEq, hne, hs, ne_eq, not_false_eq_true, true_and,
          Option.some.injEq]
        constructor
        · rintro ⟨rfl, rfl⟩
          exact ⟨rfl, rfl⟩
        · rintro ⟨rfl, rfl⟩
          exact ⟨rfl, rfl⟩

section Reads

variable {s : Storage} {d : DatabaseId}

theorem length_withTable (className : String) (columns : List Column) :
    (s.withTable d className columns).tables.length = s.tables.length + 1 := by
  simp [withTable, setTables, setDatabase]

theorem table_withTable (className : String) (columns : List Column) (u : TableId) :
    (s.withTable d className columns).table u =
      if u.index = s.tables.length then ⟨(s.database d).tableName className, className, columns⟩
      else s.table u := by
  simp only [withTable, setTables, setDatabase, table]
  by_cases hlt : u.index < s.tables.length
  · have hne : u.index ≠ s.tables.length := by omega
    simp [List.getElem?_append_left hlt, hne]
  · by_cases he : u.index = s.tables.length
    · simp [he]
    · have hlen : s.tables.length + 1 ≤ u.index := by omega
      rw [List.getElem?_eq_none (by simpa using hlen), List.getElem?_eq_none (by omega)]
      simp [he]

theorem tableNamed?_withTable (hd : d.index < s.databases.length) (className : String)
    (columns : List Column) (e : DatabaseId) (name : String) :
    (s.withTable d className columns).tableNamed? e name =
      if e = d ∧ (s.database d).tableName className = name then some ⟨s.tables.length⟩
      else s.tableNamed? e name := by
  have hread := tableNamed?_setTables
    (s := { s with tables := s.tables ++ [⟨(s.database d).tableName className, className, columns⟩] })
    ((s.database d).tables.insert ((s.database d).tableName className) ⟨s.tables.length⟩) hd e name
  refine hread.trans ?_
  rw [SortedMap.get?_insert]
  by_cases he : e = d
  · subst he
    by_cases hn : (s.database e).tableName className = name <;> simp [hn, tableNamed?]
  · simp only [he, if_false, false_and]
    rfl

theorem tablePrefix_withTable (className : String) (columns : List Column) (e : DatabaseId) :
    ((s.withTable d className columns).database e).tablePrefix = (s.database e).tablePrefix :=
  tablePrefix_setTables _ d _ e

/-- A name stands for the new table or for an older one. -/
theorem tableNamed?_withTable_cases {className : String} {columns : List Column} {e : DatabaseId}
    {name : String} {t : TableId} (h : (s.withTable d className columns).tableNamed? e name = some t) :
    (e = d ∧ (s.database d).tableName className = name ∧ t = ⟨s.tables.length⟩) ∨
      s.tableNamed? e name = some t := by
  by_cases hd : d.index < s.databases.length
  · rw [tableNamed?_withTable hd] at h
    split at h
    next hn => exact .inl ⟨hn.1, hn.2, (Option.some.inj h).symm⟩
    next => exact .inr h
  · unfold withTable at h
    rw [setTables_of_le _ (by simpa using hd)] at h
    exact .inr h

theorem tableNamed?_withoutTable (hd : d.index < s.databases.length) (className : String)
    (e : DatabaseId) (name : String) :
    (s.withoutTable d className).tableNamed? e name =
      if e = d ∧ (s.database d).tableName className = name then none else s.tableNamed? e name := by
  unfold withoutTable
  rw [tableNamed?_setTables _ hd, SortedMap.get?_erase]
  by_cases he : e = d
  · subst he
    by_cases hn : (s.database e).tableName className = name
    · simp [hn]
    · simp [hn, Ne.symm hn, tableNamed?]
  · simp [he]

theorem table_withRenamed (old new : String) {t : TableId} (ht : t.index < s.tables.length)
    (u : TableId) : (s.withRenamed d old new t).table u =
      if u = t then { s.table t with name := (s.database d).tableName new, className := new }
      else s.table u :=
  table_setTable _ ht u

theorem tableNamed?_withRenamed (hd : d.index < s.databases.length) (old new : String) (t : TableId)
    (e : DatabaseId) (name : String) : (s.withRenamed d old new t).tableNamed? e name =
      if e = d ∧ (s.database d).tableName new = name then some t
      else if e = d ∧ (s.database d).tableName old = name then none else s.tableNamed? e name := by
  have hread := tableNamed?_setTables
    (s := s.setTable t { s.table t with name := (s.database d).tableName new, className := new })
    (((s.database d).tables.erase ((s.database d).tableName old)).insert
      ((s.database d).tableName new) t) hd e name
  refine hread.trans ?_
  rw [SortedMap.get?_insert, SortedMap.get?_erase]
  by_cases he : e = d
  · subst he
    by_cases hn : (s.database e).tableName new = name
    · simp [hn]
    · by_cases ho : (s.database e).tableName old = name
      · simp [hn, ho]
      · simp [hn, ho, Ne.symm ho, tableNamed?]
  · simp only [he, if_false, false_and]
    rfl

theorem tablePrefix_withRenamed (old new : String) (t : TableId) (e : DatabaseId) :
    ((s.withRenamed d old new t).database e).tablePrefix = (s.database e).tablePrefix :=
  tablePrefix_setTables _ d _ e

/-- A name that is not the new one stands for what it stood for. -/
theorem tableNamed?_withRenamed_cases {old new : String} {t : TableId}
    (ht : s.classTable? d old = some t) {e : DatabaseId} {name : String} {u : TableId}
    (hu : (s.withRenamed d old new t).tableNamed? e name = some u) :
    (e = d ∧ (s.database d).tableName new = name ∧ u = t) ∨
      (s.tableNamed? e name = some u ∧ ¬(e = d ∧ (s.database d).tableName old = name)) := by
  rw [tableNamed?_withRenamed (opened_of_tableNamed? ht)] at hu
  split at hu
  next hn => exact .inl ⟨hn.1, hn.2, (Option.some.inj hu).symm⟩
  next =>
    split at hu
    next => cases hu
    next ho => exact .inr ⟨hu, ho⟩

theorem stored_withRenamed {old new : String} {t : TableId} (ht : s.classTable? d old = some t)
    {e : DatabaseId} {name : String} {u : TableId}
    (hu : (s.withRenamed d old new t).tableNamed? e name = some u) :
    ∃ name', s.tableNamed? e name' = some u := by
  rcases tableNamed?_withRenamed_cases ht hu with ⟨rfl, _, rfl⟩ | ⟨hs, _⟩
  · exact ⟨_, ht⟩
  · exact ⟨name, hs⟩

end Reads

end ColumnAtlas.Storage
