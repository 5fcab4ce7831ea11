import ColumnAtlas.Proofs.CreatedTable
import Mathlib.Data.List.Nodup

namespace ColumnAtlas

theorem FieldType.mem_links_iff {t : FieldType} : t ∈ links ↔ t.isLink :=
  List.contains_iff_mem.symm

theorem FieldType.mem_scalars_iff {t : FieldType} :
    t ∈ scalars ↔ t.isRelationship = false ∧ t ≠ .unsupported := by
  cases t <;> decide

theorem FieldType.not_mem_scalars_of_isLink {t : FieldType} (h : t.isLink) : t ∉ scalars := by
  intro hscalar
  have hplain := (mem_scalars_iff.mp hscalar).1
  rw [isRelationship_of_isLink h] at hplain
  cases hplain

/-- Where names differ, a name leads back to the place of its column. -/
theorem Table.columnIndex?_of_getElem? {t : Table} (hn : (t.columns.map Column.name).Nodup) {i : Nat}
    {c : Column} (hc : t.columns[i]? = some c) :
    t.columnIndex? c.name = some i ∧ t.columnAt? i = some c := by
  obtain ⟨hi, hget⟩ := List.getElem?_eq_some_iff.mp hc
  have hfirst : (t.columns.findIdx? fun c' => c'.name = c.name) = some i := by
    refine List.findIdx?_eq_some_iff_getElem.mpr ⟨hi, by simp [hget], fun j hj => ?_⟩
    have hne := List.pairwise_iff_getElem.mp (List.pairwise_map.mp hn) j i (by omega) hi hj
    rw [hget] at hne
    simpa using hne
  refine ⟨by rw [columnIndex?, hfirst]; rfl, ?_⟩
  rw [columnAt?, if_pos (Int.natCast_nonneg i)]
  exact hc

namespace FieldDecl

variable (target? : String → Option TableId) (f : FieldDecl)

/-- The column of a declared field, where the tables of the classes are known. -/
def columnIn : Column :=
  ⟨f.name, f.fieldType, if f.fieldType.isLink then f.linkedClass.bind target? else none⟩

/-- A declared field holds plain values, or it links to a class with a table. -/
def Storable : Prop :=
  f.fieldType ∈ FieldType.scalars ∨
    f.fieldType ∈ FieldType.links ∧ ∃ name t, f.linkedClass = some name ∧ target? name = some t

variable {target? f}

theorem Storable.target (h : f.Storable target?) (hlink : f.fieldType.isLink) :
    ∃ name t, f.linkedClass = some name ∧ target? name = some t ∧
      (f.columnIn target?).target = some t := by
  obtain ⟨name, t, hname, ht⟩ := (h.resolve_left (FieldType.not_mem_scalars_of_isLink hlink)).2
  refine ⟨name, t, hname, ht, ?_⟩
  rw [columnIn, if_pos hlink, hname]
  exact ht

theorem target_columnIn_of_some {u : TableId} (h : (f.columnIn target?).target = some u) :
    ∃ name, f.linkedClass = some name ∧ target? name = some u := by
  unfold columnIn at h
  split at h
  next => exact Option.bind_eq_some_iff.mp h
  next => cases h

end FieldDecl

namespace Storage

variable {s s' : Storage} {d : DatabaseId} {className : String} {columns : List Column}

theorem addDeclared_eq_ok_iff {t : TableId} {owner : String} {f : FieldDecl} :
    s.addDeclared d t owner f = .ok s' ↔ f.Storable (s.classTable? d) ∧
      ∃ i contents, (s.table t).append (f.columnIn (s.classTable? d)) = .ok (i, contents) ∧
        s.setTable t contents = s' := by
  by_cases hlink : f.fieldType.isLink
  · have hscalar := FieldType.not_mem_scalars_of_isLink hlink
    unfold addDeclared FieldDecl.Storable FieldDecl.columnIn
    rw [if_pos hlink, if_pos hlink]
    cases hname : f.linkedClass with
    | none => simp [hscalar]
    | some name =>
      cases ht : s.classTable? d name with
      | none => simp [hscalar, ht]
      | some target =>
        simp only [Option.bind_some, ht]
        constructor
        · intro h
          obtain ⟨⟨i, s₁⟩, hadd, he⟩ := bind_eq_ok_iff.mp h
          obtain rfl := Except.ok.inj he
          obtain ⟨contents, hcontents, rfl⟩ := addLink_eq_ok_iff.mp hadd
          obtain ⟨_, happend⟩ := Table.addLink_eq_ok_iff.mp hcontents
          exact ⟨.inr ⟨FieldType.mem_links_iff.mpr hlink, name, target, rfl, ht⟩,
            i, contents, happend, rfl⟩
        · rintro ⟨_, i, contents, happend, rfl⟩
          have hcontents := Table.addLink_eq_ok_iff.mpr ⟨hlink, happend⟩
          exact bind_eq_ok_iff.mpr ⟨_, addLink_eq_ok_iff.mpr ⟨contents, hcontents, rfl⟩, rfl⟩
  · have hlinks : f.fieldType ∉ FieldType.links := fun h => hlink (FieldType.mem_links_iff.mp h)
    unfold addDeclared FieldDecl.Storable FieldDecl.columnIn
    rw [if_neg hlink, if_neg hlink]
    simp only [hlinks, false_and, or_false, FieldType.mem_scalars_iff]
    constructor
    · intro h
      obtain ⟨⟨i, s₁⟩, hadd, he⟩ := bind_eq_ok_iff.mp h
      obtain rfl := Except.ok.inj he
      obtain ⟨contents, hcontents, rfl⟩ := addColumn_eq_ok_iff.mp hadd
      obtain ⟨hplain, hknown, happend⟩ := Table.addColumn_eq_ok_iff.mp hcontents
      exact ⟨⟨hplain, hknown⟩, i, contents, happend, rfl⟩
    · rintro ⟨⟨hplain, hknown⟩, i, contents, happend, rfl⟩
      have hcontents := Table.addColumn_eq_ok_iff.mpr ⟨hplain, hknown, happend⟩
      exact bind_eq_ok_iff.mpr ⟨_, addColumn_eq_ok_iff.mpr ⟨contents, hcontents, rfl⟩, rfl⟩

/-- The tables of the classes of a database, once a class has a new one. -/
def classTableWith? (s : Storage) (d : DatabaseId) (className name : String) : Option TableId :=
  if name = className then some ⟨s.tables.length⟩ else s.classTable? d name

theorem classTable?_withTable (hd : d.index < s.databases.length) (className : String)
    (columns : List Column) :
    (s.withTable d className columns).classTable? d = s.classTableWith? d className := by
  funext name
  rw [classTable?, tableName_withTable, tableNamed?_withTable hd, classTableWith?]
  by_cases hname : name = className
  · rw [if_pos ⟨rfl, by rw [hname]⟩, if_pos hname]
  · rw [if_neg fun h => hname (tableNameOf_inj.mp h.2).symm, if_neg hname]
    rfl

/-- The table of a declared class, with all its columns. -/
def withDeclared (s : Storage) (d : DatabaseId) (c : ClassDecl) : Storage :=
  s.withTable d c.className (c.columns.map (FieldDecl.columnIn (s.classTableWith? d c.className)))

section Columns

variable (hd : d.index < s.databases.length)

include hd

theorem addDeclared_withTable_eq_ok_iff {owner : String} {f : FieldDecl} :
    (s.withTable d className columns).addDeclared d ⟨s.tables.length⟩ owner f = .ok s' ↔
      f.Storable (s.classTableWith? d className) ∧ f.name ∉ columns.map Column.name ∧
        s' = s.withTable d className (columns ++ [f.columnIn (s.classTableWith? d className)]) := by
  have hnew : f.name ∉ columns.map Column.name ↔ ∀ c ∈ columns, c.name ≠ f.name := by
    simp only [List.mem_map, not_exists, not_and, ne_eq]
  rw [addDeclared_eq_ok_iff, classTable?_withTable hd, hnew]
  refine and_congr_right fun _ => ?_
  constructor
  · rintro ⟨i, contents, happend, rfl⟩
    have hcolumns := setTable_withTable_of_append happend
    obtain ⟨hfresh, _, _⟩ := Table.append_eq_ok_iff.mp happend
    rw [table_withTable_new] at hfresh
    exact ⟨hfresh, hcolumns⟩
  · rintro ⟨hfresh, rfl⟩
    have happend : ((s.withTable d className columns).table ⟨s.tables.length⟩).append
        (f.columnIn (s.classTableWith? d className)) = .ok (columns.length,
          ⟨(s.database d).tableName className, className,
            columns ++ [f.columnIn (s.classTableWith? d className)]⟩) := by
      rw [table_withTable_new]
      exact Table.append_eq_ok_iff.mpr ⟨hfresh, rfl, rfl⟩
    exact ⟨_, _, happend, setTable_withTable_of_append happend⟩

/-- Declared fields are added to a new table exactly when each can be stored and none has the name
of another column. They become its next columns, in their order. -/
theorem addAllDeclared_eq_ok_iff {owner : String} {fs : List FieldDecl}
    (hn : (columns.map Column.name).Nodup) :
    (s.withTable d className columns).addAllDeclared d ⟨s.tables.length⟩ owner fs = (.ok (), s') ↔
      (∀ f ∈ fs, f.Storable (s.classTableWith? d className)) ∧
      (columns.map Column.name ++ fs.map FieldDecl.name).Nodup ∧
      s' = s.withTable d className
        (columns ++ fs.map (FieldDecl.columnIn (s.classTableWith? d className))) := by
  induction fs generalizing columns with
  | nil => simp [addAllDeclared, hn, eq_comm]
  | cons f fs ih =>
    have hstep (s₁ : Storage) :
        (s.withTable d className columns).addDeclared d ⟨s.tables.length⟩ owner f = .ok s₁ ↔ _ :=
      addDeclared_withTable_eq_ok_iff hd
    rw [addAllDeclared]
    cases hf : (s.withTable d className columns).addDeclared d ⟨s.tables.length⟩ owner f with
    | error e =>
      constructor
      · intro h
        cases h
      · rintro ⟨hstorable, hdistinct, _⟩
        have hfresh : f.name ∉ columns.map Column.name := fun hm =>
          (List.nodup_append.mp hdistinct).2.2 _ hm _ List.mem_cons_self rfl
        have hok := (hstep _).mpr ⟨hstorable f List.mem_cons_self, hfresh, rfl⟩
        rw [hf] at hok
        cases hok
    | ok s₁ =>
      obtain ⟨hstorable, hfresh, rfl⟩ := (hstep _).mp hf
      have hn' : ((columns ++ [f.columnIn (s.classTableWith? d className)]).map Column.name).Nodup := by
        rw [List.map_append, List.nodup_append_comm]
        exact List.nodup_cons.mpr ⟨hfresh, hn⟩
      refine (ih hn').trans ?_
      rw [List.forall_mem_cons, List.map_append, List.append_assoc, List.append_assoc]
      simp only [hstorable, true_and]
      rfl

/-- The table of a declared class is made exactly when its columns can be stored and have different
names. -/
theorem createDeclared_eq_ok_iff {c : ClassDecl} (hne : c.className ≠ "")
    (hfree : s.classTable? d c.className = none) : s.createDeclared d c = (.ok (), s') ↔
      (∀ f ∈ c.columns, f.Storable (s.classTableWith? d c.className)) ∧
      (c.columns.map FieldDecl.name).Nodup ∧ s' = s.withDeclared d c := by
  have hmade : s.createTable d c.className = .ok (⟨s.tables.length⟩, s.withTable d c.className []) :=
    createTable_eq_ok_iff.mpr ⟨hne, hfree, rfl, rfl⟩
  rw [createDeclared, hmade]
  exact addAllDeclared_eq_ok_iff hd List.nodup_nil

theorem classTable?_withDeclared (c : ClassDecl) :
    (s.withDeclared d c).classTable? d = s.classTableWith? d c.className :=
  classTable?_withTable hd c.className _

/-- The columns of a declared class are stored at their places in the declaration, and link to the
tables of the declared classes. -/
theorem columns_withDeclared {c : ClassDecl} (hn : (c.columns.map FieldDecl.name).Nodup) {i : Nat}
    {f : FieldDecl} (hf : c.columns[i]? = some f) :
    ((s.withDeclared d c).table ⟨s.tables.length⟩).columnIndex? f.name = some i ∧
    ((s.withDeclared d c).table ⟨s.tables.length⟩).columnType i = f.fieldType ∧
    (s.withDeclared d c).linkTarget? ⟨s.tables.length⟩ i =
      (f.columnIn (s.classTableWith? d c.className)).target := by
  have hcolumns : ((s.withDeclared d c).table ⟨s.tables.length⟩).columns =
      c.columns.map (FieldDecl.columnIn (s.classTableWith? d c.className)) := by
    rw [withDeclared, table_withTable_new]
  have hnames : (((s.withDeclared d c).table ⟨s.tables.length⟩).columns.map Column.name).Nodup := by
    rw [hcolumns, List.map_map]
    exact hn
  have hget : ((s.withDeclared d c).table ⟨s.tables.length⟩).columns[i]? =
      some (f.columnIn (s.classTableWith? d c.className)) := by
    rw [hcolumns, List.getElem?_map, hf]
    rfl
  obtain ⟨hindex, hat⟩ := Table.columnIndex?_of_getElem? hnames hget
  refine ⟨hindex, by rw [Table.columnType, hat]; rfl, ?_⟩
  rw [linkTarget?, Table.targetAt?, hat, Option.bind_some]
  cases hu : (f.columnIn (s.classTableWith? d c.className)).target with
  | none => rfl
  | some u =>
    obtain ⟨name, _, hname⟩ := FieldDecl.target_columnIn_of_some hu
    rw [← classTable?_withDeclared hd] at hname
    have halive := isAlive_of_tableNamed? hname
    rw [Option.filter_some, if_pos halive]

end Columns

end Storage

end ColumnAtlas
