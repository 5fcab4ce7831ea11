import ColumnAtlas.Proofs.DescribedFields

namespace ColumnAtlas

/-- A class is registered under a name. -/
def Registry.Declares (r : Registry) (className : String) : Prop :=
  ∃ id c, r.decl? id = some c ∧ c.className = className

/-- A description has the stored columns of a table in the order of their positions, where every
link has a target, and then the declared backlinks. -/
structure Workspace.Lists (w : Workspace) (summary : ClassSummary) (c : ClassDecl) (t : TableId) :
    Prop where
  columns : ∀ i < (w.storage.table t).columnCount, ∃ name,
    (w.storage.table t).columnName? i = some name ∧
    summary.fields[i]? = some ⟨name, (w.storage.table t).columnType i,
      (w.storage.linkTarget? t i).map fun u => (w.storage.table u).className⟩
  targets : ∀ i, ((w.storage.table t).columnType i).isLink = (w.storage.linkTarget? t i).isSome
  backlinks : summary.fields.drop (w.storage.table t).columnCount = c.backlinks

/-- The views of a schema show the registered classes and no others, as they are stored, and link
them to classes that have a table. -/
structure Workspace.ViewsAgree (w : Workspace) : Prop where
  contained : ∀ n, w.contains n ↔ w.registry.Declares n
  described : ∀ n, (w.describe? n).isSome ↔ w.registry.Declares n
  tabled : ∀ n, (w.table? n).isSome ↔ w.registry.Declares n
  listed : ∀ n, n ∈ w.describeAll.map ClassSummary.className ↔ w.registry.Declares n
  ascending : (w.describeAll.map ClassSummary.className).Pairwise (· < ·)
  each : ∀ summary ∈ w.describeAll, w.describe? summary.className = some summary
  shown : ∀ n summary, w.describe? n = some summary → summary.className = n ∧
    ∃ id c t, w.registry.decl? id = some c ∧ c.className = n ∧ w.table? n = some t ∧
      w.Lists summary c t
  linked : ∀ n summary, w.describe? n = some summary → ∀ f ∈ summary.fields, ∀ target,
    f.linkedClass = some target → ∃ u, w.storage.classTable? w.database target = some u ∧
      (w.storage.table u).className = target

namespace Registry

variable {r : Registry} {n : String}

theorem Coherent.declares_iff (h : r.Coherent) : r.Declares n ↔ ∃ id, r.classId? n = some id := by
  constructor
  · rintro ⟨id, c, hc, hn⟩
    exact ⟨id, (h.named n id).mpr ⟨c, hc, hn⟩⟩
  · rintro ⟨id, hid⟩
    obtain ⟨c, hc, hn⟩ := (h.named n id).mp hid
    exact ⟨id, c, hc, hn⟩

theorem Coherent.mem_names_iff (h : r.Coherent) : n ∈ r.ids.keys ↔ r.Declares n := by
  rw [h.declares_iff, SortedMap.mem_keys]
  simp only [SortedMap.mem_entries_iff]
  rfl

/-- The names of the classes, in the order of their identifiers, are the registered names. -/
theorem Coherent.perm_names (h : r.Coherent) :
    (r.classes.values.map ClassDecl.className).Perm r.ids.keys := by
  have hnodup : (r.classes.values.map ClassDecl.className).Nodup := by
    unfold SortedMap.values
    rw [List.map_map]
    refine List.pairwise_map.mpr (r.classes.ascending.imp_of_mem fun {a b} ha hb hlt heq => ?_)
    have hid := h.name_inj (SortedMap.mem_entries_iff.mp hb) (SortedMap.mem_entries_iff.mp ha) heq
    exact absurd (hid ▸ hlt) Std.lt_irrefl
  refine (List.perm_ext_iff_of_nodup hnodup (SortedMap.nodup_keys r.ids)).mpr fun n => ?_
  rw [← SortedMap.keys, h.mem_names_iff, List.mem_map]
  constructor
  · rintro ⟨c, hc, hn⟩
    obtain ⟨id, hid⟩ := SortedMap.mem_values_iff.mp hc
    exact ⟨id, c, hid, hn⟩
  · rintro ⟨id, c, hc, hn⟩
    exact ⟨c, SortedMap.mem_values_iff.mpr ⟨id, hc⟩, hn⟩

end Registry

namespace Workspace

variable {w : Workspace} {n : String} {c : ClassDecl} {t : TableId} {summary : ClassSummary}

theorem className_of_describe? (h : w.describe? n = some summary) : summary.className = n := by
  rw [describe?_eq] at h
  obtain ⟨c, _, h⟩ := Option.bind_eq_some_iff.mp h
  obtain ⟨t, _, rfl⟩ := Option.map_eq_some_iff.mp h
  rfl

/-- A registered name leads to a declaration, a table and a description, and any other name to
nothing. -/
theorem InStep.declared_or (h : w.InStep) (n : String) :
    (w.registry.Declares n ∧ ∃ id c t, w.registry.classId? n = some id ∧
      w.registry.decl? id = some c ∧ c.className = n ∧ w.classTable? n = some t ∧
      w.describe? n = some (w.summary n c t)) ∨
    ¬w.registry.Declares n ∧ w.registry.classId? n = none := by
  cases hid : w.registry.classId? n with
  | none =>
    refine .inr ⟨fun hdeclared => ?_, rfl⟩
    obtain ⟨id, hid'⟩ := h.registry.declares_iff.mp hdeclared
    rw [hid] at hid'
    cases hid'
  | some id =>
    obtain ⟨c, hc, hn, hnamed⟩ := h.registry.declNamed? hid
    obtain ⟨t, ht⟩ := h.classTable?_exists hnamed
    refine .inl ⟨⟨id, c, hc, hn⟩, id, c, t, rfl, hc, hn, ht, ?_⟩
    rw [describe?_eq, hnamed, Option.bind_some, ht]
    rfl

theorem InStep.isLink_columnType (h : w.InStep) (ht : w.classTable? n = some t) (i : Int) :
    ((w.storage.table t).columnType i).isLink = (w.storage.linkTarget? t i).isSome := by
  unfold Table.columnType Storage.linkTarget? Table.targetAt?
  cases hat : (w.storage.table t).columnAt? i with
  | none => rfl
  | some column =>
    have hmem := Table.mem_columns_of_columnAt? hat
    have hlinked := (h.storage.tables t).linked column hmem
    rw [Option.bind_some]
    cases hu : column.target with
    | none => simpa [hu] using hlinked
    | some u =>
      have halive := (h.target ht hmem hu).1
      simpa [hu, Option.filter_some, halive] using hlinked

theorem InStep.lists (h : w.InStep) (ht : w.classTable? n = some t) : w.Lists (w.summary n c t) c t where
  columns i hi := by
    have hlt : i < (w.storage.table t).columns.length := hi
    have hat : (w.storage.table t).columnAt? i = some (w.storage.table t).columns[i] := by
      simp [Table.columnAt?, hlt]
    refine ⟨(w.storage.table t).columns[i].name, by rw [Table.columnName?, hat]; rfl, ?_⟩
    rw [fields_summary, List.getElem?_append_left (by simpa using hlt), List.getElem?_map,
      List.getElem?_eq_getElem hlt, Table.columnType, Storage.linkTarget?, Table.targetAt?, hat]
    rfl
  targets := h.isLink_columnType ht
  backlinks := by
    rw [fields_summary]
    exact List.drop_left' (List.length_map _)

/-- Every registered name is described, and the descriptions keep the order of the names. -/
theorem InStep.map_className_describeAll (h : w.InStep) :
    w.describeAll.map ClassSummary.className = w.registry.ids.keys := by
  unfold describeAll
  rw [List.map_filterMap]
  refine (List.filterMap_congr fun n hn => ?_).trans List.filterMap_some
  rcases h.declared_or n with ⟨_, _, _, _, _, _, _, _, hdescribed⟩ | ⟨hnot, _⟩
  · rw [hdescribed]
    rfl
  · exact absurd (h.registry.mem_names_iff.mp hn) hnot

theorem describe?_of_mem_describeAll (h : summary ∈ w.describeAll) :
    w.describe? summary.className = some summary := by
  obtain ⟨n, _, hn⟩ := List.mem_filterMap.mp h
  rw [className_of_describe? hn]
  exact hn

/-- The classes that are described one after the other can be sorted by their names in one way only. -/
theorem InStep.mergeSort_described (h : w.InStep) :
    ((w.registry.classes.values.filterMap fun c => w.describe? c.className).mergeSort
      fun a b => a.className ≤ b.className) = w.describeAll := by
  have hlisted : (w.registry.classes.values.filterMap fun c => w.describe? c.className).Perm
      w.describeAll := by
    have hnames := h.registry.perm_names.filterMap w.describe?
    rwa [List.filterMap_map] at hnames
  have hascending := SortedMap.keys_ascending w.registry.ids
  rw [← h.map_className_describeAll] at hascending
  exact mergeSort_eq_of_ascending hlisted (List.pairwise_map.mp hascending)

theorem InStep.viewsAgree (h : w.InStep) : w.ViewsAgree where
  contained n := by
    rcases h.declared_or n with ⟨hdeclared, _, _, _, hid, _, _, ht, _⟩ | ⟨hnot, hid⟩
    · simp [contains, hid, ht, hdeclared]
    · simp [contains, hid, hnot]
  described n := by
    rcases h.declared_or n with ⟨hdeclared, _, _, _, _, _, _, _, hdescribed⟩ | ⟨hnot, hid⟩
    · simp [hdescribed, hdeclared]
    · simp [describe?_eq, Registry.declNamed?, hid, hnot]
  tabled n := by
    rcases h.declared_or n with ⟨hdeclared, _, _, _, hid, _, _, ht, _⟩ | ⟨hnot, hid⟩
    · simp [table?, hid, ht, hdeclared]
    · simp [table?, hid, hnot]
  listed n := by rw [h.map_className_describeAll, h.registry.mem_names_iff]
  ascending := by
    rw [h.map_className_describeAll]
    exact SortedMap.keys_ascending w.registry.ids
  each summary hs := describe?_of_mem_describeAll hs
  shown n summary hs := by
    rcases h.declared_or n with ⟨_, id, c, t, hid, hc, hn, ht, hdescribed⟩ | ⟨_, hid⟩
    · obtain rfl := Option.some.inj (hdescribed.symm.trans hs)
      refine ⟨rfl, id, c, t, hc, hn, ?_, h.lists ht⟩
      rw [table?, hid]
      exact ht
    · rw [describe?_eq, Registry.declNamed?, hid] at hs
      cases hs
  linked n summary hs f hf target hlinked := by
    obtain ⟨u, hu⟩ := h.classTable?_of_describe? hs (.inr ⟨f, hf, hlinked⟩)
    exact ⟨u, (h.classTable?_eq target).symm.trans hu, h.className_of_classTable? hu⟩

end Workspace

/-- Whatever changes were made to an open schema, its views show exactly the registered classes, as
they are stored. Described one by one and sorted by name, the classes are the list of all. -/
theorem views_agree_after_run {s : Storage} {cells : CellStore} {d : DatabaseId} {r : Registry}
    {first : Int} {w : Workspace} (h : Opening s d r) (hl : s.LinksInside d)
    (hw : Workspace.start s cells d r first = .ok w) (changes : List Change) :
    (w.run changes).ViewsAgree ∧
      (((w.run changes).registry.classes.values.filterMap fun c =>
        (w.run changes).describe? c.className).mergeSort fun a b => a.className ≤ b.className) =
      (w.run changes).describeAll :=
  have hstep := (Workspace.InStep.start h hl hw).run changes
  ⟨hstep.viewsAgree, hstep.mergeSort_described⟩

theorem shelf_views_agree : ∃ w, Workspace.start shelf .empty ⟨0⟩ shelfClasses 1 = .ok w ∧
    (w.run shelfChanges).describeAll.map ClassSummary.className = ["Book", "Review", "Writer"] ∧
    (w.run shelfChanges).ViewsAgree :=
  ⟨_, rfl, by decide +kernel,
    (views_agree_after_run shelf_opening (by decide +kernel) rfl shelfChanges).1⟩

end ColumnAtlas
