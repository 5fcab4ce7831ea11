import ColumnAtlas.Proofs.DeclaredColumns
import ColumnAtlas.Proofs.DescribedFields

namespace ColumnAtlas

/-- Where a column goes when the one at a position is removed. -/
def shifted (removed position : Int) : Int :=
  if removed < position then position - 1 else position

/-- The names of the columns of a table and their positions determine each other. Nothing is found
outside the table, and exactly the columns of links have a target. -/
structure Storage.Indexed (s : Storage) (t : TableId) : Prop where
  distinct : ((s.table t).columns.map Column.name).Nodup
  inverse : ∀ (i : Int) (name : String),
    (s.table t).columnName? i = some name ↔ (s.table t).columnIndex? name = some i
  inside : ∀ i : Int,
    (∃ name, (s.table t).columnName? i = some name) ↔ 0 ≤ i ∧ i < (s.table t).columnCount
  outside : ∀ i : Int, i < 0 ∨ (s.table t).columnCount ≤ i → (s.table t).columnName? i = none ∧
    (s.table t).columnType i = .unsupported ∧ s.linkTarget? t i = none
  linked : ∀ i : Int, (s.table t).columnType i = .object ∨ (s.table t).columnType i = .list ↔
    ((s.table t).targetAt? i).isSome
  stored : ∀ c ∈ (s.table t).columns, c.fieldType ≠ .backlink ∧ c.fieldType ≠ .unsupported

/-- What adding a column comes to. It is accepted if it fits and no other column has its name. Then it
is the last one, and removing it again undoes the addition. Otherwise nothing changes. -/
structure Storage.Adds (s : Storage) (t : TableId) (c : Column) (fits : Prop) (e : Edit)
    (result : Except Error (Int × Storage)) : Prop where
  accepted : (∃ made, result = .ok made) ↔ fits ∧ (s.table t).columnIndex? c.name = none
  appended : ∀ i s', result = .ok (i, s') → i = (s.table t).columnCount ∧
    s'.table t = { s.table t with columns := (s.table t).columns ++ [c] }
  undone : ∀ i s', result = .ok (i, s') → s'.dropColumn t c.name = (true, s)
  refused : ∀ cause, result = .error cause → s.edit e = s

/-- What removing a column of a name comes to: whether there was one, and the table without it. The
other columns stay in order, and those behind it move one place forward. -/
inductive Table.Drops (t : Table) (name : String) : Bool × Table → Prop
  | missing (h : t.columnIndex? name = none) : Drops t name (false, t)
  | dropped {before after : List Column} {c : Column} {left : Table} (hc : c.name = name)
      (hbefore : t.columns = before ++ c :: after) (hat : t.columnIndex? name = some before.length)
      (hleft : left = { t with columns := before ++ after }) (hgone : left.columnIndex? name = none)
      (hshift : ∀ other, other ≠ name →
        left.columnIndex? other = (t.columnIndex? other).map (shifted before.length)) :
      Drops t name (true, left)

namespace Table

variable {t t' : Table} {c : Column} {i : Int} {name : String}

theorem columnAt?_eq_some_iff : t.columnAt? i = some c ↔ ∃ k : Nat, i = k ∧ t.columns[k]? = some c := by
  unfold columnAt?
  split
  next hi =>
    constructor
    · intro h
      exact ⟨i.toNat, by omega, h⟩
    · rintro ⟨k, rfl, h⟩
      exact h
  next hi =>
    constructor
    · intro h
      cases h
    · rintro ⟨k, rfl, _⟩
      omega

theorem columnAt?_eq_none_iff : t.columnAt? i = none ↔ i < 0 ∨ t.columnCount ≤ i := by
  unfold columnAt? columnCount
  split
  next hi =>
    rw [List.getElem?_eq_none_iff]
    omega
  next hi =>
    have hneg : i < 0 := by omega
    simp [hneg]

theorem columnName?_eq_some_iff (hn : (t.columns.map Column.name).Nodup) :
    t.columnName? i = some name ↔ t.columnIndex? name = some i := by
  constructor
  · intro h
    obtain ⟨c, hc, rfl⟩ := Option.map_eq_some_iff.mp h
    obtain ⟨k, rfl, hk⟩ := columnAt?_eq_some_iff.mp hc
    exact (columnIndex?_of_getElem? hn hk).1
  · intro h
    obtain ⟨c, hfound, hc⟩ := find?_of_columnIndex? h
    have hname : c.name = name := by simpa using List.find?_some hfound
    exact Option.map_eq_some_iff.mpr ⟨c, hc, hname⟩

theorem columnIndex?_eq_none_iff : t.columnIndex? name = none ↔ ∀ c ∈ t.columns, c.name ≠ name := by
  rw [columnIndex?, Option.map_eq_none_iff, List.findIdx?_eq_none_iff]
  simp

/-- A column is found among the first ones, or else among the others, which stand behind these. -/
theorem columnIndex?_append {before after : List Column} (h : t.columns = before ++ after) :
    t.columnIndex? name = ((before.findIdx? fun c => c.name = name).or
      ((after.findIdx? fun c => c.name = name).map (· + before.length))).map Int.ofNat := by
  rw [columnIndex?, h, List.findIdx?_append]

theorem ne_of_split (hn : (t.columns.map Column.name).Nodup) {before after : List Column}
    (h : t.columns = before ++ c :: after) :
    (∀ c' ∈ before, c'.name ≠ c.name) ∧ ∀ c' ∈ after, c'.name ≠ c.name := by
  rw [h, List.map_append, List.map_cons, List.nodup_append, List.nodup_cons] at hn
  obtain ⟨_, ⟨hafter, _⟩, hacross⟩ := hn
  refine ⟨fun c' hc' => hacross _ (List.mem_map_of_mem hc') _ List.mem_cons_self, ?_⟩
  intro c' hc' heq
  exact hafter (heq ▸ List.mem_map_of_mem hc')

theorem removeColumn_of_forall_ne (h : ∀ c ∈ t.columns, c.name ≠ name) : t.removeColumn name = t := by
  have hall : (t.columns.filter fun c => c.name ≠ name) = t.columns :=
    List.filter_eq_self.mpr fun c hc => by simpa using h c hc
  rw [removeColumn, hall]

theorem removeColumn_of_split {before after : List Column}
    (hbefore : ∀ c' ∈ before, c'.name ≠ c.name) (hafter : ∀ c' ∈ after, c'.name ≠ c.name)
    (h : t.columns = before ++ c :: after) :
    t.removeColumn c.name = { t with columns := before ++ after } := by
  have hleft : (before.filter fun c' => c'.name ≠ c.name) = before :=
    List.filter_eq_self.mpr fun c' hc' => by simpa using hbefore c' hc'
  have hright : (after.filter fun c' => c'.name ≠ c.name) = after :=
    List.filter_eq_self.mpr fun c' hc' => by simpa using hafter c' hc'
  rw [removeColumn, h, List.filter_append, hleft, List.filter_cons_of_neg (by simp), hright]

/-- Taking a column out of a table shows in the number of its columns. -/
theorem dropColumn_of_split {before after : List Column}
    (hbefore : ∀ c' ∈ before, c'.name ≠ c.name) (hafter : ∀ c' ∈ after, c'.name ≠ c.name)
    (h : t.columns = before ++ c :: after) :
    t.dropColumn c.name = (true, { t with columns := before ++ after }) := by
  have hcount : (before ++ after).length ≠ t.columns.length := by
    rw [h, List.length_append, List.length_append, List.length_cons]
    omega
  have hfewer : ((before ++ after).length != t.columns.length) = true := bne_iff_ne.mpr hcount
  simp only [dropColumn, removeColumn_of_split hbefore hafter h, columnCount, hfewer]

theorem columnIndex?_shifted {before after : List Column} {left : Table} {other : String}
    (h : t.columns = before ++ c :: after) (hleft : left.columns = before ++ after)
    (hother : c.name ≠ other) :
    left.columnIndex? other = (t.columnIndex? other).map (shifted before.length) := by
  have hskip : ((c :: after).findIdx? fun c' => c'.name = other) =
      (after.findIdx? fun c' => c'.name = other).map (· + 1) := by
    rw [List.findIdx?_cons, if_neg (by simpa using hother)]
  rw [columnIndex?_append h, columnIndex?_append hleft, hskip]
  cases hfirst : before.findIdx? fun c' => c'.name = other with
  | some k =>
    have hk := (List.findIdx?_eq_some_iff_findIdx_eq.mp hfirst).1
    have hstays : shifted before.length k = k := if_neg (by omega)
    simp [hstays]
  | none =>
    cases hsecond : after.findIdx? fun c' => c'.name = other with
    | none => rfl
    | some k =>
      have hmoves : shifted before.length (k + 1 + before.length : Nat) = (k + before.length : Nat) := by
        rw [shifted, if_pos (by omega)]
        omega
      simpa using hmoves.symm

theorem drops_dropColumn (hn : (t.columns.map Column.name).Nodup) (name : String) :
    t.Drops name (t.dropColumn name) := by
  cases hi : t.columnIndex? name with
  | none =>
    have hleft := removeColumn_of_forall_ne (columnIndex?_eq_none_iff.mp hi)
    have hdrop : t.dropColumn name = (false, t) := by
      simp only [dropColumn, hleft, bne_self_eq_false]
    rw [hdrop]
    exact .missing hi
  | some i =>
    obtain ⟨c, hfound, hc⟩ := find?_of_columnIndex? hi
    obtain rfl : c.name = name := by simpa using List.find?_some hfound
    obtain ⟨before, after, hsplit⟩ := List.append_of_mem (mem_columns_of_columnAt? hc)
    obtain ⟨hbefore, hafter⟩ := ne_of_split hn hsplit
    have hplace : t.columns[before.length]? = some c := by rw [hsplit]; simp
    have hat := (columnIndex?_of_getElem? hn hplace).1
    have hgone : Table.columnIndex? { t with columns := before ++ after } c.name = none := by
      refine columnIndex?_eq_none_iff.mpr fun c' hc' => ?_
      rcases List.mem_append.mp hc' with hc' | hc'
      · exact hbefore c' hc'
      · exact hafter c' hc'
    rw [dropColumn_of_split hbefore hafter hsplit]
    exact .dropped rfl hsplit hat rfl hgone fun other hother =>
      columnIndex?_shifted hsplit rfl (Ne.symm hother)

/-- A column that was just appended can be removed again. -/
theorem dropColumn_append (h : t.append c = .ok (i, t')) : t'.dropColumn c.name = (true, t) := by
  obtain ⟨hfresh, _, rfl⟩ := append_eq_ok_iff.mp h
  have hlast : Table.dropColumn { t with columns := t.columns ++ [c] } c.name =
      (true, { t with columns := t.columns ++ [] }) := dropColumn_of_split hfresh (by simp) rfl
  rwa [List.append_nil] at hlast

theorem append_exists_iff : (∃ made, t.append c = .ok made) ↔ t.columnIndex? c.name = none := by
  rw [columnIndex?_eq_none_iff]
  constructor
  · rintro ⟨⟨i, t'⟩, h⟩
    exact (append_eq_ok_iff.mp h).1
  · intro h
    exact ⟨_, append_eq_ok_iff.mpr ⟨h, rfl, rfl⟩⟩

end Table

namespace Storage

variable {s : Storage} {t : TableId} {c : Column}

theorem setTable_setTable (s : Storage) (t : TableId) (contents contents' : Table) :
    (s.setTable t contents).setTable t contents' = s.setTable t contents' := by
  simp [setTable, List.set_set]

theorem setTable_table (ht : t.index < s.tables.length) : s.setTable t (s.table t) = s := by
  have hread : s.table t = s.tables[t.index] := by simp [table, ht]
  rw [setTable, hread, List.set_getElem_self]

theorem edit_of_error {e : Edit} {cause : Error} (h : s.attempt e = .error cause) : s.edit e = s := by
  rw [edit, h]

theorem linkTarget?_eq_none {i : Int} (h : (s.table t).columnAt? i = none) :
    s.linkTarget? t i = none := by
  rw [linkTarget?, Table.targetAt?, h]
  rfl

theorem dropColumn_setTable {contents : Table} {i : Int} (ht : t.index < s.tables.length)
    (h : (s.table t).append c = .ok (i, contents)) :
    (s.setTable t contents).dropColumn t c.name = (true, s) := by
  have hread : (s.setTable t contents).table t = contents := by
    rw [table_setTable contents ht, if_pos rfl]
  simp only [dropColumn, hread, Table.dropColumn_append h, setTable_setTable, setTable_table ht]

theorem Adds.of_append {fits : Prop} {e : Edit} {result : Except Error (Int × Storage)}
    (ht : t.index < s.tables.length)
    (hresult : ∀ i s', result = .ok (i, s') ↔ fits ∧ ∃ contents,
      (s.table t).append c = .ok (i, contents) ∧ s.setTable t contents = s')
    (hrefused : ∀ cause, result = .error cause → s.edit e = s) : s.Adds t c fits e result where
  accepted := by
    rw [← Table.append_exists_iff]
    constructor
    · rintro ⟨⟨i, s'⟩, h⟩
      obtain ⟨hfits, contents, happend, _⟩ := (hresult i s').mp h
      exact ⟨hfits, _, happend⟩
    · rintro ⟨hfits, ⟨i, contents⟩, happend⟩
      exact ⟨_, (hresult i _).mpr ⟨hfits, contents, happend, rfl⟩⟩
  appended i s' h := by
    obtain ⟨_, contents, happend, rfl⟩ := (hresult i s').mp h
    obtain ⟨_, hi, hcontents⟩ := Table.append_eq_ok_iff.mp happend
    refine ⟨hi, ?_⟩
    rw [table_setTable contents ht, if_pos rfl, hcontents]
  undone i s' h := by
    obtain ⟨_, contents, happend, rfl⟩ := (hresult i s').mp h
    exact dropColumn_setTable ht happend
  refused := hrefused

theorem adds_column (ht : t.index < s.tables.length) (name : String) (type : FieldType) :
    s.Adds t ⟨name, type, none⟩ (type ∈ FieldType.scalars) (.addColumn t name type)
      (s.addColumn t name type) := by
  refine .of_append ht (fun i s' => ?_) fun cause h => ?_
  · simp only [addColumn_eq_ok_iff, Table.addColumn_eq_ok_iff, FieldType.mem_scalars_iff]
    constructor
    · rintro ⟨contents, ⟨hplain, hknown, happend⟩, hs'⟩
      exact ⟨⟨hplain, hknown⟩, contents, happend, hs'⟩
    · rintro ⟨⟨hplain, hknown⟩, contents, happend, hs'⟩
      exact ⟨contents, ⟨hplain, hknown, happend⟩, hs'⟩
  · have hfails : s.attempt (.addColumn t name type) = .error cause := by
      rw [attempt, h]
      rfl
    exact edit_of_error hfails

theorem adds_link (ht : t.index < s.tables.length) (name : String) (type : FieldType)
    (target : TableId) : s.Adds t ⟨name, type, some target⟩ (type ∈ FieldType.links)
      (.addLink t name type target) (s.addLink t name type target) := by
  refine .of_append ht (fun i s' => ?_) fun cause h => ?_
  · simp only [addLink_eq_ok_iff, Table.addLink_eq_ok_iff, FieldType.mem_links_iff]
    constructor
    · rintro ⟨contents, ⟨hlink, happend⟩, hs'⟩
      exact ⟨hlink, contents, happend, hs'⟩
    · rintro ⟨hlink, contents, happend, hs'⟩
      exact ⟨contents, ⟨hlink, happend⟩, hs'⟩
  · rw [edit, attempt, h]
    by_cases hmade : target.index < s.tables.length
    · rw [if_pos hmade]
      rfl
    · rw [if_neg hmade]

theorem indexed_of_sound {n : Nat} (h : (s.table t).Sound n) : s.Indexed t where
  distinct := h.distinct
  inverse i name := Table.columnName?_eq_some_iff h.distinct
  inside i := by
    have hnone : (s.table t).columnName? i = none ↔ i < 0 ∨ (s.table t).columnCount ≤ i :=
      Option.map_eq_none_iff.trans Table.columnAt?_eq_none_iff
    rw [← Option.ne_none_iff_exists', ne_eq, hnone]
    omega
  outside i hi := by
    have hnone : (s.table t).columnAt? i = none := Table.columnAt?_eq_none_iff.mpr hi
    exact ⟨Option.map_eq_none_iff.mpr hnone, by rw [Table.columnType, hnone], linkTarget?_eq_none hnone⟩
  linked i := by
    rw [Table.columnType, Table.targetAt?]
    cases hc : (s.table t).columnAt? i with
    | none => simp
    | some c =>
      have hlinked := h.linked c (Table.mem_columns_of_columnAt? hc)
      rw [Option.bind_some, ← hlinked, ← FieldType.mem_links_iff]
      simp [FieldType.links]
  stored := h.storable

end Storage

/-- In a table that came about by any edits, names and positions of the columns determine each other.
A column that is added is the last one, and removing a column moves the ones behind it. -/
theorem columns_indexed {s : Storage} (h : s.Reachable) {t : TableId} (ht : t.index < s.tables.length) :
    s.Indexed t ∧
    (∀ name type, s.Adds t ⟨name, type, none⟩ (type ∈ FieldType.scalars) (.addColumn t name type)
      (s.addColumn t name type)) ∧
    (∀ name type target, s.Adds t ⟨name, type, some target⟩ (type ∈ FieldType.links)
      (.addLink t name type target) (s.addLink t name type target)) ∧
    ∀ name, (s.table t).Drops name ((s.dropColumn t name).1, (s.dropColumn t name).2.table t) := by
  have hsound := h.sound.tables t
  refine ⟨Storage.indexed_of_sound hsound, Storage.adds_column ht, Storage.adds_link ht, fun name => ?_⟩
  have hdrops := Table.drops_dropColumn hsound.distinct name
  have hread : (s.dropColumn t name).2.table t = ((s.table t).dropColumn name).2 := by
    rw [Storage.dropColumn, Storage.table_setTable _ ht, if_pos rfl]
  rw [hread]
  exact hdrops

/-- A drawer whose second column is removed once all are in place. A plain column of a link type, a
taken name and a column that is not there are refused on the way. -/
def drawerEdits : List Edit :=
  [.openDatabase "desk" "class_", .createTable ⟨0⟩ "Drawer", .addColumn ⟨0⟩ "label" .string,
    .addLink ⟨0⟩ "beneath" .object ⟨0⟩, .addColumn ⟨0⟩ "label" .integer, .addColumn ⟨0⟩ "owner" .object,
    .addLink ⟨0⟩ "inside" .list ⟨0⟩, .removeColumn ⟨0⟩ "beneath", .removeColumn ⟨0⟩ "owner",
    .addColumn ⟨0⟩ "depth" .double]

theorem drawer_columns_indexed : ∃ s, s = Storage.empty.run drawerEdits ∧
    ((s.table ⟨0⟩).columns.map Column.name) = ["label", "inside", "depth"] ∧
    (s.table ⟨0⟩).columnIndex? "inside" = some 1 ∧ 0 < s.tables.length ∧ s.Indexed ⟨0⟩ ∧
    (s.table ⟨0⟩).Drops "label" ((s.dropColumn ⟨0⟩ "label").1, (s.dropColumn ⟨0⟩ "label").2.table ⟨0⟩) := by
  obtain ⟨hindexed, _, _, hdrops⟩ :=
    columns_indexed (s := Storage.empty.run drawerEdits) ⟨_, rfl⟩ (t := ⟨0⟩) (by decide +kernel)
  exact ⟨_, rfl, by decide +kernel, by decide +kernel, by decide +kernel, hindexed, hdrops "label"⟩

end ColumnAtlas
