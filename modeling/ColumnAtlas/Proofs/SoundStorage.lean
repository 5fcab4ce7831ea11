import ColumnAtlas.Proofs.StorageEffects

namespace ColumnAtlas

/-- Columns with different names, of types that a column can store, where exactly the link columns
point at a table. -/
structure Table.Sound (t : Table) (tableCount : Nat) : Prop where
  distinct : (t.columns.map Column.name).Nodup
  linked : ∀ c ∈ t.columns, c.fieldType.isLink = c.target.isSome
  storable : ∀ c ∈ t.columns, c.fieldType ≠ .backlink ∧ c.fieldType ≠ .unsupported
  made : ∀ c ∈ t.columns, ∀ u, c.target = some u → u.index < tableCount

/-- Every table is sound, is stored in one database at most, and is stored there under the name
that its class has. -/
structure Storage.Sound (s : Storage) : Prop where
  tables : ∀ t, (s.table t).Sound s.tables.length
  made : ∀ d name t, s.tableNamed? d name = some t → t.index < s.tables.length
  keyed : ∀ d name t, s.tableNamed? d name = some t →
    name = (s.database d).tableName (s.table t).className ∧ (s.table t).name = name
  named : ∀ d name t, s.tableNamed? d name = some t → (s.table t).className ≠ ""
  single : ∀ d e name name' t, s.tableNamed? d name = some t → s.tableNamed? e name' = some t → d = e

/-- A change of the stored tables or of what is held, made directly. -/
inductive Edit where
  | openDatabase (path tablePrefix : String)
  | closeDatabase (d : DatabaseId)
  | createTable (d : DatabaseId) (className : String)
  | removeTable (d : DatabaseId) (className : String)
  | renameTable (d : DatabaseId) (old new : String)
  | addColumn (t : TableId) (name : String) (type : FieldType)
  | addLink (t : TableId) (name : String) (type : FieldType) (target : TableId)
  | removeColumn (t : TableId) (name : String)
  | hold (tables : List TableId)

namespace Storage

/-- Only a table that was made can be linked to or held. -/
def attempt (s : Storage) : Edit → Except Error Storage
  | .openDatabase path tablePrefix => .ok (s.openDatabase path tablePrefix).2
  | .closeDatabase d => .ok (s.closeDatabase d)
  | .createTable d className => (s.createTable d className).map Prod.snd
  | .removeTable d className => s.removeTable d className
  | .renameTable d old new => (s.renameTable d old new).map Prod.snd
  | .addColumn t name type => (s.addColumn t name type).map Prod.snd
  | .addLink t name type target =>
    if target.index < s.tables.length then (s.addLink t name type target).map Prod.snd else .ok s
  | .removeColumn t name => .ok (s.removeColumn t name)
  | .hold tables => .ok (s.hold (tables.filter fun t => t.index < s.tables.length))

/-- What an edit leaves behind; a refused one changes nothing. -/
def edit (s : Storage) (e : Edit) : Storage :=
  match s.attempt e with
  | .ok s' => s'
  | .error _ => s

def run (s : Storage) (edits : List Edit) : Storage := edits.foldl edit s

def Reachable (s : Storage) : Prop := ∃ edits, s = empty.run edits

end Storage

/-- Every database stays open under its table prefix. -/
def Storage.KeepsDatabases (s s' : Storage) : Prop :=
  ∀ d, d.index < s.databases.length →
    d.index < s'.databases.length ∧ (s'.database d).tablePrefix = (s.database d).tablePrefix

namespace Table.Sound

variable {t t' : Table} {n m : Nat}

theorem mono (h : t.Sound n) (hle : n ≤ m) : t.Sound m where
  distinct := h.distinct
  linked := h.linked
  storable := h.storable
  made c hc u hu := Nat.lt_of_lt_of_le (h.made c hc u hu) hle

/-- Backlinks are not stored, so links are the only relationships of a table. -/
theorem isRelationship_columnType (h : t.Sound n) (index : Int) :
    (t.columnType index).isRelationship = (t.columnType index).isLink := by
  unfold columnType
  split
  next c hc =>
    have hne := (h.storable c (mem_columns_of_columnAt? hc)).1
    simp [FieldType.isRelationship, hne]
  next => rfl

theorem blank (name className : String) : Table.Sound ⟨name, className, []⟩ n where
  distinct := List.nodup_nil
  linked c hc := absurd hc (by simp)
  storable c hc := absurd hc (by simp)
  made c hc := absurd hc (by simp)

theorem append {c : Column} {i : Int} (h : t.Sound n) (hl : c.fieldType.isLink = c.target.isSome)
    (hs : c.fieldType ≠ .backlink ∧ c.fieldType ≠ .unsupported)
    (hm : ∀ u, c.target = some u → u.index < n) (hc : t.append c = .ok (i, t')) : t'.Sound n := by
  obtain ⟨hfresh, _, rfl⟩ := Table.append_eq_ok_iff.mp hc
  have hmem : ∀ x ∈ t.columns ++ [c], x ∈ t.columns ∨ x = c := by simp
  refine ⟨?_, ?_, ?_, ?_⟩
  · simp only [List.map_append, List.map_cons, List.map_nil]
    refine List.nodup_append.mpr ⟨h.distinct, by simp, ?_⟩
    intro a ha b hb
    obtain ⟨c', hc', rfl⟩ := List.mem_map.mp ha
    have hbc : b = c.name := by simpa using hb
    exact hbc ▸ hfresh c' hc'
  · intro x hx
    rcases hmem x hx with hx | rfl
    · exact h.linked x hx
    · exact hl
  · intro x hx
    rcases hmem x hx with hx | rfl
    · exact h.storable x hx
    · exact hs
  · intro x hx
    rcases hmem x hx with hx | rfl
    · exact h.made x hx
    · exact hm

theorem addColumn {name : String} {type : FieldType} {i : Int} (h : t.Sound n)
    (hc : t.addColumn name type = .ok (i, t')) : t'.Sound n := by
  obtain ⟨hr, hu, ha⟩ := Table.addColumn_eq_ok_iff.mp hc
  simp only [FieldType.isRelationship, Bool.or_eq_false_iff, beq_eq_false_iff_ne] at hr
  exact h.append (by simpa using hr.1) ⟨hr.2, hu⟩ (by simp) ha

theorem addLink {name : String} {type : FieldType} {target : TableId} {i : Int} (h : t.Sound n)
    (ht : target.index < n) (hc : t.addLink name type target = .ok (i, t')) : t'.Sound n := by
  obtain ⟨hl, ha⟩ := Table.addLink_eq_ok_iff.mp hc
  have hs : type ≠ .backlink ∧ type ≠ .unsupported := by
    constructor <;> rintro rfl <;> cases hl
  refine h.append (by simpa using hl) hs ?_ ha
  intro u hu
  exact Option.some.inj hu ▸ ht

theorem removeColumn (h : t.Sound n) (name : String) : (t.removeColumn name).Sound n where
  distinct := h.distinct.sublist (List.filter_sublist.map _)
  linked c hc := h.linked c (List.mem_filter.mp hc).1
  storable c hc := h.storable c (List.mem_filter.mp hc).1
  made c hc := h.made c (List.mem_filter.mp hc).1

end Table.Sound

namespace Table

theorem name_append {t t' : Table} {c : Column} {i : Int} (h : t.append c = .ok (i, t')) :
    t'.name = t.name ∧ t'.className = t.className := by
  obtain ⟨_, _, rfl⟩ := append_eq_ok_iff.mp h
  exact ⟨rfl, rfl⟩

end Table

namespace Storage.Sound

variable {s s' : Storage}

theorem setTable {t : TableId} {contents : Table} (h : s.Sound) (hc : contents.Sound s.tables.length)
    (hn : contents.name = (s.table t).name ∧ contents.className = (s.table t).className) :
    (s.setTable t contents).Sound := by
  by_cases ht : t.index < s.tables.length
  · have hread (u : TableId) : ((s.setTable t contents).table u).name = (s.table u).name ∧
        ((s.setTable t contents).table u).className = (s.table u).className := by
      rw [table_setTable contents ht]
      split
      next hu => rw [hu]; exact hn
      next => exact ⟨rfl, rfl⟩
    refine ⟨?_, ?_, ?_, ?_, h.single⟩
    · intro u
      rw [length_setTable, table_setTable contents ht]
      split
      next => exact hc
      next => exact h.tables u
    · intro d name u hu
      rw [length_setTable]
      exact h.made d name u hu
    · intro d name u hu
      rw [(hread u).1, (hread u).2]
      exact h.keyed d name u hu
    · intro d name u hu
      rw [(hread u).2]
      exact h.named d name u hu
  · rw [setTable_of_le contents (by omega)]
    exact h

theorem setTables {d : DatabaseId} {m : SortedMap String TableId} (h : s.Sound)
    (hm : ∀ name t, m.get? name = some t → s.tableNamed? d name = some t) :
    (s.setTables d m).Sound := by
  have hsub (e : DatabaseId) (name : String) (t : TableId)
      (ht : (s.setTables d m).tableNamed? e name = some t) : s.tableNamed? e name = some t := by
    by_cases hd : d.index < s.databases.length
    · rw [tableNamed?_setTables m hd] at ht
      split at ht
      next he => exact he ▸ hm name t ht
      next => exact ht
    · rwa [setTables_of_le m (by omega)] at ht
  refine ⟨h.tables, ?_, ?_, ?_, ?_⟩
  · exact fun e name t ht => h.made e name t (hsub e name t ht)
  · intro e name t ht
    rw [Database.tableName, tablePrefix_setTables]
    exact h.keyed e name t (hsub e name t ht)
  · exact fun e name t ht => h.named e name t (hsub e name t ht)
  · exact fun e e' name name' t ht ht' => h.single e e' name name' t (hsub _ _ _ ht) (hsub _ _ _ ht')

theorem withTable {className : String} {columns : List Column} (h : s.Sound) (d : DatabaseId)
    (hne : className ≠ "")
    (hc : Table.Sound ⟨(s.database d).tableName className, className, columns⟩ (s.tables.length + 1)) :
    (s.withTable d className columns).Sound := by
  have hold {e : DatabaseId} {name : String} {t : TableId} (hs : s.tableNamed? e name = some t) :
      t.index ≠ s.tables.length := Nat.ne_of_lt (h.made e name t hs)
  refine ⟨?_, ?_, ?_, ?_, ?_⟩
  · intro u
    rw [length_withTable, table_withTable]
    split
    next => exact hc
    next => exact (h.tables u).mono (by omega)
  · intro e name t ht
    rw [length_withTable]
    rcases tableNamed?_withTable_cases ht with ⟨_, _, rfl⟩ | hs
    · exact Nat.lt_succ_self _
    · exact Nat.lt_succ_of_lt (h.made e name t hs)
  · intro e name t ht
    rw [Database.tableName, tablePrefix_withTable, table_withTable]
    rcases tableNamed?_withTable_cases ht with ⟨rfl, rfl, rfl⟩ | hs
    · simp [Database.tableName]
    · simpa [hold hs, Database.tableName] using h.keyed e name t hs
  · intro e name t ht
    rw [table_withTable]
    rcases tableNamed?_withTable_cases ht with ⟨_, _, rfl⟩ | hs
    · simpa using hne
    · simpa [hold hs] using h.named e name t hs
  · intro e e' name name' t ht ht'
    rcases tableNamed?_withTable_cases ht with ⟨rfl, _, rfl⟩ | hs <;>
      rcases tableNamed?_withTable_cases ht' with ⟨rfl, _, hnew⟩ | hs'
    · rfl
    · exact absurd rfl (hold hs')
    · exact absurd (congrArg TableId.index hnew) (hold hs)
    · exact h.single e e' name name' t hs hs'

/-- The renamed table keeps no name but the new one. -/
theorem ne_of_not_renamed {d : DatabaseId} {old : String} {t : TableId} (h : s.Sound)
    (ht : s.classTable? d old = some t) {e : DatabaseId} {name : String} {u : TableId}
    (hu : s.tableNamed? e name = some u) (hn : ¬(e = d ∧ (s.database d).tableName old = name)) :
    u ≠ t := by
  rintro rfl
  obtain rfl := h.single _ _ _ _ _ hu ht
  exact hn ⟨rfl, (h.keyed _ _ _ ht).1.trans (h.keyed _ _ _ hu).1.symm⟩

theorem withRenamed {d : DatabaseId} {old new : String} {t : TableId} (h : s.Sound) (hne : new ≠ "")
    (ht : s.classTable? d old = some t) : (s.withRenamed d old new t).Sound := by
  have hlt := h.made _ _ _ ht
  have hlength : (s.withRenamed d old new t).tables.length = s.tables.length := length_setTable ..
  refine ⟨?_, ?_, ?_, ?_, ?_⟩
  · intro u
    rw [hlength, table_withRenamed old new hlt]
    split
    next hu =>
      have hs := h.tables t
      exact ⟨hs.distinct, hs.linked, hs.storable, hs.made⟩
    next => exact h.tables u
  · intro e name u hu
    obtain ⟨name', hs⟩ := stored_withRenamed ht hu
    rw [hlength]
    exact h.made e name' u hs
  · intro e name u hu
    rw [Database.tableName, tablePrefix_withRenamed, table_withRenamed old new hlt]
    rcases tableNamed?_withRenamed_cases ht hu with ⟨rfl, rfl, rfl⟩ | ⟨hs, hn⟩
    · simp [Database.tableName]
    · have hut := h.ne_of_not_renamed ht hs hn
      simpa [hut, Database.tableName] using h.keyed e name u hs
  · intro e name u hu
    rw [table_withRenamed old new hlt]
    rcases tableNamed?_withRenamed_cases ht hu with ⟨_, _, rfl⟩ | ⟨hs, hn⟩
    · simpa using hne
    · have hut := h.ne_of_not_renamed ht hs hn
      simpa [hut] using h.named e name u hs
  · intro e e' name name' u hu hu'
    obtain ⟨_, hs⟩ := stored_withRenamed ht hu
    obtain ⟨_, hs'⟩ := stored_withRenamed ht hu'
    exact h.single _ _ _ _ u hs hs'

theorem withoutTable (h : s.Sound) (d : DatabaseId) (className : String) :
    (s.withoutTable d className).Sound := by
  refine h.setTables fun name t ht => ?_
  rw [SortedMap.get?_erase] at ht
  split at ht
  next => cases ht
  next => exact ht

theorem openDatabase (h : s.Sound) (path tablePrefix : String) :
    (s.openDatabase path tablePrefix).2.Sound := by
  have hread (e : DatabaseId) : (s.openDatabase path tablePrefix).2.database e =
      if e.index = s.databases.length then ⟨path, tablePrefix, .empty⟩ else s.database e := by
    by_cases hlt : e.index < s.databases.length
    · have hne : e.index ≠ s.databases.length := by omega
      simp [database, Storage.openDatabase, List.getElem?_append_left hlt, hne]
    · by_cases he : e.index = s.databases.length
      · simp [database, Storage.openDatabase, he]
      · have hlen : s.databases.length + 1 ≤ e.index := by omega
        rw [database, Storage.openDatabase, List.getElem?_eq_none (by simpa using hlen),
          database, List.getElem?_eq_none (by omega)]
        simp [he]
  have hold (e : DatabaseId) (name : String) (t : TableId)
      (ht : (s.openDatabase path tablePrefix).2.tableNamed? e name = some t) :
      s.tableNamed? e name = some t ∧ (s.openDatabase path tablePrefix).2.database e = s.database e := by
    unfold tableNamed? at ht
    rw [hread] at ht ⊢
    split at ht
    next => simp [SortedMap.get?_empty] at ht
    next he => exact ⟨ht, if_neg he⟩
  refine ⟨h.tables, ?_, ?_, ?_, ?_⟩
  · exact fun e name t ht => h.made e name t (hold e name t ht).1
  · intro e name t ht
    rw [(hold e name t ht).2]
    exact h.keyed e name t (hold e name t ht).1
  · exact fun e name t ht => h.named e name t (hold e name t ht).1
  · exact fun e e' name name' t ht ht' => h.single e e' name name' t (hold _ _ _ ht).1 (hold _ _ _ ht').1

theorem addColumn {t : TableId} {name : String} {type : FieldType} {i : Int} (h : s.Sound)
    (hs : s.addColumn t name type = .ok (i, s')) : s'.Sound := by
  obtain ⟨contents, hc, rfl⟩ := addColumn_eq_ok_iff.mp hs
  obtain ⟨_, _, ha⟩ := Table.addColumn_eq_ok_iff.mp hc
  exact h.setTable ((h.tables t).addColumn hc) (Table.name_append ha)

theorem addLink {t target : TableId} {name : String} {type : FieldType} {i : Int} (h : s.Sound)
    (hm : target.index < s.tables.length) (hs : s.addLink t name type target = .ok (i, s')) :
    s'.Sound := by
  obtain ⟨contents, hc, rfl⟩ := addLink_eq_ok_iff.mp hs
  obtain ⟨_, ha⟩ := Table.addLink_eq_ok_iff.mp hc
  exact h.setTable ((h.tables t).addLink hm hc) (Table.name_append ha)

theorem empty : Storage.empty.Sound := by
  have hnone (d : DatabaseId) (name : String) (t : TableId)
      (ht : Storage.empty.tableNamed? d name = some t) : False :=
    absurd (opened_of_tableNamed? ht) (by simp [Storage.empty])
  exact ⟨fun _ => .blank "" "", fun d name t ht => (hnone d name t ht).elim,
    fun d name t ht => (hnone d name t ht).elim, fun d name t ht => (hnone d name t ht).elim,
    fun d _ name _ t ht => (hnone d name t ht).elim⟩

theorem attempt {e : Edit} (h : s.Sound) (hs : s.attempt e = .ok s') : s'.Sound := by
  cases e with
  | openDatabase path tablePrefix =>
    cases hs
    exact h.openDatabase path tablePrefix
  | closeDatabase d =>
    cases hs
    exact h.setTables fun name t ht => by cases ht
  | createTable d className =>
    obtain ⟨⟨t, s''⟩, hc, rfl⟩ := map_eq_ok_iff.mp hs
    obtain ⟨hne, _, _, rfl⟩ := createTable_eq_ok_iff.mp hc
    exact h.withTable d hne (.blank _ _)
  | removeTable d className =>
    obtain ⟨_, _, rfl⟩ := removeTable_eq_ok_iff.mp hs
    exact h.withoutTable d className
  | renameTable d old new =>
    obtain ⟨⟨t, s''⟩, hc, rfl⟩ := map_eq_ok_iff.mp hs
    obtain ⟨hne, _, ht, rfl⟩ := renameTable_eq_ok_iff.mp hc
    exact h.withRenamed hne ht
  | addColumn t name type =>
    obtain ⟨⟨i, s''⟩, hc, rfl⟩ := map_eq_ok_iff.mp hs
    exact h.addColumn hc
  | addLink t name type target =>
    simp only [Storage.attempt] at hs
    split at hs
    next hm =>
      obtain ⟨⟨i, s''⟩, hc, rfl⟩ := map_eq_ok_iff.mp hs
      exact h.addLink hm hc
    next =>
      cases hs
      exact h
  | removeColumn t name =>
    cases hs
    exact h.setTable ((h.tables t).removeColumn name) ⟨rfl, rfl⟩
  | hold tables =>
    cases hs
    exact ⟨h.tables, h.made, h.keyed, h.named, h.single⟩

theorem edit (h : s.Sound) (e : Edit) : (s.edit e).Sound := by
  unfold Storage.edit
  split
  next s' hs => exact h.attempt hs
  next => exact h

theorem run (h : s.Sound) (edits : List Edit) : (s.run edits).Sound := by
  induction edits generalizing s with
  | nil => exact h
  | cons e edits ih => exact ih (h.edit e)

end Storage.Sound

theorem Storage.Reachable.sound {s : Storage} (h : s.Reachable) : s.Sound := by
  obtain ⟨edits, rfl⟩ := h
  exact Storage.Sound.empty.run edits

namespace Storage

theorem keepsDatabases_setTables (s : Storage) (d : DatabaseId) (m : SortedMap String TableId) :
    s.KeepsDatabases (s.setTables d m) := by
  intro e he
  refine ⟨?_, tablePrefix_setTables s d m e⟩
  simpa [setTables, setDatabase] using he

theorem keepsDatabases_withTable (s : Storage) (d : DatabaseId) (className : String)
    (columns : List Column) : s.KeepsDatabases (s.withTable d className columns) :=
  keepsDatabases_setTables { s with tables := s.tables ++ [_] } d _

theorem keepsDatabases_withRenamed (s : Storage) (d : DatabaseId) (old new : String) (t : TableId) :
    s.KeepsDatabases (s.withRenamed d old new t) :=
  keepsDatabases_setTables (s.setTable t _) d _

theorem keepsDatabases_attempt {s s' : Storage} {e : Edit} (hs : s.attempt e = .ok s') :
    s.KeepsDatabases s' := by
  cases e with
  | openDatabase path tablePrefix =>
    cases hs
    intro d hd
    simp only [openDatabase, database, List.length_append, List.getElem?_append_left hd]
    exact ⟨by omega, trivial⟩
  | closeDatabase d =>
    cases hs
    exact keepsDatabases_setTables s d .empty
  | createTable d className =>
    obtain ⟨⟨t, s''⟩, hc, rfl⟩ := map_eq_ok_iff.mp hs
    obtain ⟨_, _, _, rfl⟩ := createTable_eq_ok_iff.mp hc
    exact keepsDatabases_withTable s d className []
  | removeTable d className =>
    obtain ⟨_, _, rfl⟩ := removeTable_eq_ok_iff.mp hs
    exact keepsDatabases_setTables s d _
  | renameTable d old new =>
    obtain ⟨⟨t, s''⟩, hc, rfl⟩ := map_eq_ok_iff.mp hs
    obtain ⟨_, _, _, rfl⟩ := renameTable_eq_ok_iff.mp hc
    exact keepsDatabases_withRenamed s d old new t
  | addColumn t name type =>
    obtain ⟨⟨i, s''⟩, hc, rfl⟩ := map_eq_ok_iff.mp hs
    obtain ⟨_, _, rfl⟩ := addColumn_eq_ok_iff.mp hc
    exact fun d hd => ⟨hd, rfl⟩
  | addLink t name type target =>
    simp only [attempt] at hs
    split at hs
    next =>
      obtain ⟨⟨i, s''⟩, hc, rfl⟩ := map_eq_ok_iff.mp hs
      obtain ⟨_, _, rfl⟩ := addLink_eq_ok_iff.mp hc
      exact fun d hd => ⟨hd, rfl⟩
    next =>
      cases hs
      exact fun d hd => ⟨hd, rfl⟩
  | removeColumn t name =>
    cases hs
    exact fun d hd => ⟨hd, rfl⟩
  | hold tables =>
    cases hs
    exact fun d hd => ⟨hd, rfl⟩

theorem keepsDatabases_edit (s : Storage) (e : Edit) : s.KeepsDatabases (s.edit e) := by
  unfold edit
  split
  next s' hs => exact keepsDatabases_attempt hs
  next => exact fun d hd => ⟨hd, rfl⟩

end Storage

end ColumnAtlas
