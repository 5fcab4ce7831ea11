import ColumnAtlas.Proofs.SoundStorage
import ColumnAtlas.Schema

namespace ColumnAtlas.Storage

/-- Everything that was stored or held is as it was, but for tables that were made since and that
nothing stored refers to. -/
structure Restored (s s' : Storage) : Prop where
  databases : s'.databases = s.databases
  held : s'.held = s.held
  tables : s.tables <+: s'.tables

variable {s s' : Storage} {d : DatabaseId} {className : String} {columns : List Column}

namespace Restored

theorem refl (s : Storage) : s.Restored s := ⟨rfl, rfl, List.prefix_refl _⟩

theorem tableNamed? (h : s.Restored s') (d : DatabaseId) (name : String) :
    s'.tableNamed? d name = s.tableNamed? d name := by
  simp only [Storage.tableNamed?, database, h.databases]

theorem isAlive (h : s.Restored s') (t : TableId) : s'.isAlive t = s.isAlive t := by
  simp only [Storage.isAlive, h.databases, h.held]

theorem table (h : s.Restored s') {t : TableId} (ht : t.index < s.tables.length) :
    s'.table t = s.table t := by
  obtain ⟨rest, he⟩ := h.tables
  simp only [Storage.table, ← he, List.getElem?_append_left ht]

theorem linkTarget? (h : s.Restored s') {t : TableId} (ht : t.index < s.tables.length) (i : Int) :
    s'.linkTarget? t i = s.linkTarget? t i := by
  have ha : s'.isAlive = s.isAlive := funext h.isAlive
  simp only [Storage.linkTarget?, h.table ht, ha]

end Restored

theorem setTables_setTables (s : Storage) (d : DatabaseId) (m m' : SortedMap String TableId)
    (hd : d.index < s.databases.length) : (s.setTables d m).setTables d m' = s.setTables d m' := by
  have hread := database_setTables m hd d
  rw [if_pos rfl] at hread
  simp only [setTables, setDatabase] at hread ⊢
  rw [hread, List.set_set]

theorem setTables_self (s : Storage) (d : DatabaseId) : s.setTables d (s.database d).tables = s := by
  by_cases hd : d.index < s.databases.length
  · have hread : s.database d = s.databases[d.index] := by simp [database, hd]
    have hset : s.databases.set d.index (s.database d) = s.databases := by
      rw [hread, List.set_getElem_self]
    exact congrArg (fun dbs => { s with databases := dbs }) hset
  · exact setTables_of_le _ (by omega)

/-- Nothing refers to a class when no link column of another table points at its table. -/
theorem referencing_eq_nil_iff {target : TableId} (ht : s.classTable? d className = some target) :
    s.referencing d className = [] ↔ ∀ name t, s.tableNamed? d name = some t → t ≠ target →
      ∀ c ∈ (s.table t).columns, c.target ≠ some target := by
  have halive : s.isAlive target := isAlive_of_tableNamed? ht
  have hlinks (t : TableId) : s.linksTo t target = [] ↔
      ∀ c ∈ (s.table t).columns, c.target ≠ some target := by
    unfold linksTo
    rw [List.map_eq_nil_iff, List.filter_eq_nil_iff]
    refine forall_congr' fun c => forall_congr' fun _ => not_congr ?_
    rw [decide_eq_true_iff, Option.filter_eq_some_iff]
    exact and_iff_left halive
  unfold referencing
  rw [ht]
  simp only [List.flatMap_eq_nil_iff, List.map_eq_nil_iff, hlinks, List.mem_filter,
    SortedMap.mem_values_iff, decide_not, Bool.not_eq_true', decide_eq_false_iff_not]
  constructor
  · intro h name t hn hne
    exact h t ⟨⟨name, hn⟩, hne⟩
  · rintro h t ⟨⟨name, hn⟩, hne⟩
    exact h name t hn hne

theorem table_withTable_new (s : Storage) (d : DatabaseId) (className : String)
    (columns : List Column) : (s.withTable d className columns).table ⟨s.tables.length⟩ =
      ⟨(s.database d).tableName className, className, columns⟩ := by
  rw [table_withTable, if_pos rfl]

theorem table_withTable_old {t : TableId} (ht : t.index < s.tables.length) :
    (s.withTable d className columns).table t = s.table t := by
  rw [table_withTable, if_neg (Nat.ne_of_lt ht)]

theorem setTable_withTable (contents : Table) (hn : contents.name = (s.database d).tableName className)
    (hc : contents.className = className) :
    (s.withTable d className columns).setTable ⟨s.tables.length⟩ contents =
      s.withTable d className contents.columns := by
  obtain ⟨name, className', columns'⟩ := contents
  dsimp only at hn hc
  subst hn
  subst hc
  simp [withTable, setTable, setTables, setDatabase, database]

theorem setTable_withTable_of_append {c : Column} {i : Int} {contents : Table}
    (h : ((s.withTable d className columns).table ⟨s.tables.length⟩).append c = .ok (i, contents)) :
    (s.withTable d className columns).setTable ⟨s.tables.length⟩ contents =
      s.withTable d className (columns ++ [c]) := by
  obtain ⟨_, _, rfl⟩ := Table.append_eq_ok_iff.mp h
  rw [table_withTable_new]
  exact setTable_withTable _ rfl rfl

theorem tableName_withTable (s : Storage) (d : DatabaseId) (className : String) (columns : List Column)
    (name : String) : ((s.withTable d className columns).database d).tableName name =
      (s.database d).tableName name := by
  rw [Database.tableName, tablePrefix_withTable]
  rfl

theorem withoutTable_withTable (hd : d.index < s.databases.length)
    (hfree : s.classTable? d className = none) :
    (s.withTable d className columns).withoutTable d className =
      { s with tables := s.tables ++ [⟨(s.database d).tableName className, className, columns⟩] } := by
  let made : Storage :=
    { s with tables := s.tables ++ [⟨(s.database d).tableName className, className, columns⟩] }
  have hread := database_setTables (s := made)
    ((s.database d).tables.insert ((s.database d).tableName className) ⟨s.tables.length⟩) hd d
  rw [if_pos rfl] at hread
  have hdb : ((s.withTable d className columns).database d).tables =
      (s.database d).tables.insert ((s.database d).tableName className) ⟨s.tables.length⟩ :=
    congrArg Database.tables hread
  rw [withoutTable, tableName_withTable, hdb, SortedMap.erase_insert _ hfree]
  exact (setTables_setTables made d _ _ hd).trans (setTables_self made d)

/-- Links of a new table lead to itself or to a table of its database. -/
def LinksAmong (s : Storage) (d : DatabaseId) (columns : List Column) : Prop :=
  ∀ c ∈ columns, ∀ u, c.target = some u → u = ⟨s.tables.length⟩ ∨ ∃ name, s.tableNamed? d name = some u

theorem LinksAmong.append (h : s.LinksAmong d columns) {c : Column} (hc : ∀ u, c.target = some u →
    u = ⟨s.tables.length⟩ ∨ ∃ name, s.tableNamed? d name = some u) :
    s.LinksAmong d (columns ++ [c]) := by
  intro c' hc'
  rcases List.mem_append.mp hc' with hc' | hc'
  · exact h c' hc'
  · exact List.mem_singleton.mp hc' ▸ hc

theorem addDeclared_withTable {owner : String} {f : FieldDecl}
    (hs : (s.withTable d className columns).Sound) (hl : s.LinksAmong d columns)
    (h : (s.withTable d className columns).addDeclared d ⟨s.tables.length⟩ owner f = .ok s') :
    ∃ columns', s' = s.withTable d className columns' ∧ s'.Sound ∧ s.LinksAmong d columns' := by
  unfold addDeclared at h
  split at h
  next =>
    split at h
    next => cases h
    next linked _ =>
      split at h
      next => cases h
      next target ht =>
        obtain ⟨⟨i, s''⟩, hadd, he⟩ := bind_eq_ok_iff.mp h
        obtain rfl := Except.ok.inj he
        have hsound := hs.addLink (hs.made _ _ _ ht) hadd
        obtain ⟨contents, hc, rfl⟩ := addLink_eq_ok_iff.mp hadd
        obtain ⟨_, ha⟩ := Table.addLink_eq_ok_iff.mp hc
        refine ⟨_, setTable_withTable_of_append ha, hsound, hl.append fun u hu => ?_⟩
        obtain rfl := Option.some.inj hu
        exact (tableNamed?_withTable_cases ht).imp (fun hn => hn.2.2) fun hn => ⟨_, hn⟩
  next =>
    obtain ⟨⟨i, s''⟩, hadd, he⟩ := bind_eq_ok_iff.mp h
    obtain rfl := Except.ok.inj he
    have hsound := hs.addColumn hadd
    obtain ⟨contents, hc, rfl⟩ := addColumn_eq_ok_iff.mp hadd
    obtain ⟨_, _, ha⟩ := Table.addColumn_eq_ok_iff.mp hc
    refine ⟨_, setTable_withTable_of_append ha, hsound, hl.append fun u hu => ?_⟩
    cases hu

/-- Adding declared fields changes the new table only, also where it stops early. -/
theorem addAllDeclared_withTable {owner : String} (fs : List FieldDecl)
    (hs : (s.withTable d className columns).Sound) (hl : s.LinksAmong d columns) :
    ∃ columns', ((s.withTable d className columns).addAllDeclared d ⟨s.tables.length⟩ owner fs).2 =
        s.withTable d className columns' ∧
      (s.withTable d className columns').Sound ∧ s.LinksAmong d columns' := by
  induction fs generalizing columns with
  | nil => exact ⟨columns, rfl, hs, hl⟩
  | cons f fs ih =>
    cases hf : (s.withTable d className columns).addDeclared d ⟨s.tables.length⟩ owner f with
    | error e => exact ⟨columns, by simp only [addAllDeclared, hf], hs, hl⟩
    | ok s' =>
      obtain ⟨columns', rfl, hs', hl'⟩ := addDeclared_withTable hs hl hf
      simp only [addAllDeclared, hf]
      exact ih hs' hl'

/-- Making a declared class under a free name adds one table, whether it is completed or not. -/
theorem createDeclared_withTable {c : ClassDecl} (hs : s.Sound) (hne : c.className ≠ "")
    (hfree : s.classTable? d c.className = none) :
    ∃ columns, (s.createDeclared d c).2 = s.withTable d c.className columns ∧
      (s.withTable d c.className columns).Sound ∧ s.LinksAmong d columns := by
  have hmade : s.createTable d c.className = .ok (⟨s.tables.length⟩, s.withTable d c.className []) :=
    createTable_eq_ok_iff.mpr ⟨hne, hfree, rfl, rfl⟩
  simp only [createDeclared, hmade]
  exact addAllDeclared_withTable _ (hs.withTable d hne (.blank _ _)) fun c hc => by cases hc

/-- No older table links to one just made. -/
theorem target_ne_of_withTable (hs : s.Sound) {name : String} {t : TableId}
    (hn : (s.withTable d className columns).tableNamed? d name = some t)
    (hne : t ≠ ⟨s.tables.length⟩) :
    ∀ c ∈ ((s.withTable d className columns).table t).columns,
      c.target ≠ some ⟨s.tables.length⟩ := by
  intro c hc htarget
  have ht : t.index < s.tables.length := by
    rcases tableNamed?_withTable_cases hn with ⟨_, _, rfl⟩ | hold
    · exact absurd rfl hne
    · exact hs.made _ _ _ hold
  rw [table_withTable_old ht] at hc
  exact Nat.lt_irrefl _ ((hs.tables t).made c hc _ htarget)

theorem restored_withoutTable_withTable (hd : d.index < s.databases.length)
    (hfree : s.classTable? d className = none) :
    s.Restored ((s.withTable d className columns).withoutTable d className) := by
  rw [withoutTable_withTable hd hfree]
  exact ⟨rfl, rfl, List.prefix_append _ _⟩

/-- A table just made can always be removed again. -/
theorem discardTable_withTable (hs : s.Sound) (hd : d.index < s.databases.length)
    (hfree : s.classTable? d className = none) :
    s.Restored ((s.withTable d className columns).discardTable d className) := by
  have hnew : (s.withTable d className columns).classTable? d className = some ⟨s.tables.length⟩ := by
    rw [classTable?, tableName_withTable, tableNamed?_withTable hd, if_pos ⟨rfl, rfl⟩]
  have hunlinked : (s.withTable d className columns).referencing d className = [] :=
    (referencing_eq_nil_iff hnew).mpr fun _ _ hn hne => target_ne_of_withTable hs hn hne
  have hremoved := removeTable_eq_ok_iff.mpr ⟨⟨_, hnew⟩, hunlinked, rfl⟩
  rw [discardTable, hremoved]
  exact restored_withoutTable_withTable hd hfree

end ColumnAtlas.Storage
