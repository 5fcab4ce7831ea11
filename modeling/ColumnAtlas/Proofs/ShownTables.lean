import ColumnAtlas.Proofs.CoherentRegistry
import ColumnAtlas.Proofs.CreatedTable
import ColumnAtlas.Proofs.MappingTransfer

namespace ColumnAtlas.Storage

/-- Every link column of a table of a database points at a table of that database. -/
def LinksInside (s : Storage) (d : DatabaseId) : Prop :=
  ∀ name t, s.tableNamed? d name = some t → ∀ c ∈ (s.table t).columns, c.fieldType.isLink →
    ∃ u, c.target = some u ∧ ∃ name', s.tableNamed? d name' = some u

variable {s s' : Storage} {d : DatabaseId} {settings : Settings} {className : String}

theorem linksInside_iff : s.LinksInside d ↔ ∀ t ∈ (s.database d).tables.values,
    ∀ c ∈ (s.table t).columns, c.fieldType.isLink →
      ∃ u ∈ (s.database d).tables.values, c.target = some u := by
  constructor
  · intro h t ht c hc hlink
    obtain ⟨name, hname⟩ := SortedMap.mem_values_iff.mp ht
    obtain ⟨u, hu, name', hname'⟩ := h name t hname c hc hlink
    exact ⟨u, SortedMap.mem_values_iff.mpr ⟨name', hname'⟩, hu⟩
  · intro h name t hname c hc hlink
    obtain ⟨u, hstored, hu⟩ := h t (SortedMap.mem_values_iff.mpr ⟨name, hname⟩) c hc hlink
    exact ⟨u, hu, SortedMap.mem_values_iff.mp hstored⟩

instance : Decidable (s.LinksInside d) := decidable_of_iff _ linksInside_iff.symm

theorem LinksInside.stored (hl : s.LinksInside d) (hs : s.Sound) {name : String} {t u : TableId}
    {c : Column} (ht : s.tableNamed? d name = some t) (hc : c ∈ (s.table t).columns)
    (hu : c.target = some u) : ∃ name', s.tableNamed? d name' = some u := by
  have hlink : c.fieldType.isLink := by rw [(hs.tables t).linked c hc, hu, Option.isSome_some]
  obtain ⟨u', hu', hname⟩ := hl name t ht c hc hlink
  obtain rfl := Option.some.inj (hu.symm.trans hu')
  exact hname

theorem LinksInside.linkTarget? (hl : s.LinksInside d) (hs : s.Sound) {name : String} {t u : TableId}
    {index : Int} (ht : s.tableNamed? d name = some t) (hu : s.linkTarget? t index = some u) :
    ∃ name', s.tableNamed? d name' = some u := by
  obtain ⟨c, hc, htarget⟩ := Option.bind_eq_some_iff.mp (linkTarget?_eq_some_iff.mp hu).1
  exact hl.stored hs ht (Table.mem_columns_of_columnAt? hc) htarget

/-- The tables of a database are still there as they were. -/
structure Keeps (s s' : Storage) (d : DatabaseId) : Prop where
  named : ∀ name t, s.tableNamed? d name = some t → s'.tableNamed? d name = some t
  table : ∀ name t, s.tableNamed? d name = some t → s'.table t = s.table t

theorem Keeps.refl (s : Storage) (d : DatabaseId) : s.Keeps s d := ⟨fun _ _ h => h, fun _ _ _ => rfl⟩

theorem Restored.keeps (h : s.Restored s') (hs : s.Sound) (d : DatabaseId) : s.Keeps s' d where
  named name _ ht := (h.tableNamed? d name).trans ht
  table name t ht := h.table (hs.made d name t ht)

theorem keeps_withTable (hs : s.Sound) (hd : d.index < s.databases.length)
    (hfree : s.classTable? d className = none) (columns : List Column) :
    s.Keeps (s.withTable d className columns) d where
  named name t ht := by
    rw [tableNamed?_withTable hd, if_neg ?_]
    · exact ht
    · rintro ⟨_, rfl⟩
      exact absurd (hfree.symm.trans ht) (by simp)
  table name t ht := table_withTable_old (hs.made d name t ht)

theorem Keeps.shows (h : s.Keeps s' d) (hs : s.Sound) (hl : s.LinksInside d) (settings : Settings)
    (className : String) : s.Shows s' d settings id className := by
  intro t ht
  refine ⟨h.named _ t ht, by rw [h.table _ t ht], fun c hc u hu _ => ?_⟩
  obtain ⟨name', hname⟩ := hl.stored hs ht hc hu
  exact ⟨isAlive_of_tableNamed? (h.named name' u hname), by rw [h.table name' u hname]; rfl⟩

theorem Restored.linksInside (h : s.Restored s') (hs : s.Sound) (hl : s.LinksInside d) :
    s'.LinksInside d := by
  intro name t ht c hc hlink
  rw [h.tableNamed?] at ht
  rw [h.table (hs.made d name t ht)] at hc
  obtain ⟨u, hu, name', hname⟩ := hl name t ht c hc hlink
  exact ⟨u, hu, name', (h.tableNamed? d name').trans hname⟩

theorem linksInside_withTable {columns : List Column} (hs : s.Sound) (hl : s.LinksInside d)
    (hd : d.index < s.databases.length) (hfree : s.classTable? d className = none)
    (hnew : (s.withTable d className columns).Sound) (hamong : s.LinksAmong d columns) :
    (s.withTable d className columns).LinksInside d := by
  have hkeeps := keeps_withTable hs hd hfree columns
  intro name t ht c hc hlink
  rcases tableNamed?_withTable_cases ht with ⟨_, _, rfl⟩ | hold
  · have hsome : c.target.isSome := by rw [← (hnew.tables _).linked c hc, hlink]
    obtain ⟨u, hu⟩ := Option.isSome_iff_exists.mp hsome
    rw [table_withTable_new] at hc
    rcases hamong c hc u hu with rfl | ⟨name', hname⟩
    · exact ⟨_, hu, name, ht⟩
    · exact ⟨u, hu, name', hkeeps.named name' u hname⟩
  · rw [hkeeps.table name t hold] at hc
    obtain ⟨u, hu, name', hname⟩ := hl name t hold c hc hlink
    exact ⟨u, hu, name', hkeeps.named name' u hname⟩

section Removed

variable {target : TableId}

theorem tableNamed?_withoutTable_of_ne (ht : s.classTable? d className = some target)
    {name : String} {t : TableId} (hn : s.tableNamed? d name = some t) (hne : t ≠ target) :
    (s.withoutTable d className).tableNamed? d name = some t := by
  rw [tableNamed?_withoutTable (opened_of_tableNamed? ht), if_neg ?_]
  · exact hn
  · rintro ⟨_, rfl⟩
    exact hne (Option.some.inj (hn.symm.trans ht))

theorem linksInside_withoutTable (hs : s.Sound) (hl : s.LinksInside d)
    (ht : s.classTable? d className = some target) (hr : s.referencing d className = []) :
    (s.withoutTable d className).LinksInside d := by
  intro name t hn c hc hlink
  rw [tableNamed?_withoutTable (opened_of_tableNamed? ht)] at hn
  split at hn
  next => cases hn
  next hname =>
    have hne : t ≠ target := by
      rintro rfl
      exact hname ⟨rfl, ((hs.keyed d _ t ht).1.trans (hs.keyed d _ t hn).1.symm)⟩
    obtain ⟨u, hu, name', hu'⟩ := hl name t hn c hc hlink
    have hut : u ≠ target := by
      rintro rfl
      exact (referencing_eq_nil_iff ht).mp hr name t hn hne c hc hu
    exact ⟨u, hu, name', tableNamed?_withoutTable_of_ne ht hu' hut⟩

/-- Without a table that nothing refers to, all other classes are shown as before. -/
theorem shows_withoutTable (hs : s.Sound) (hl : s.LinksInside d)
    (hp : (s.database d).tablePrefix = settings.tablePrefix)
    (ht : s.classTable? d className = some target) (hr : s.referencing d className = [])
    {className' : String} (hne : className' ≠ className) :
    s.Shows (s.withoutTable d className) d settings id className' := by
  intro t hn
  have hnt : t ≠ target := by
    rintro rfl
    have hname := (hs.keyed d _ t hn).1.trans (hs.keyed d _ t ht).1.symm
    rw [Settings.tableName, ← hp] at hname
    exact hne (tableNameOf_inj.mp hname)
  refine ⟨tableNamed?_withoutTable_of_ne ht hn hnt, rfl, fun c hc u hu _ => ?_⟩
  obtain ⟨name', hu'⟩ := hl.stored hs hn hc hu
  have hut : u ≠ target := by
    rintro rfl
    exact (referencing_eq_nil_iff ht).mp hr _ t hn hnt c hc hu
  exact ⟨isAlive_of_tableNamed? (tableNamed?_withoutTable_of_ne ht hu' hut), rfl⟩

end Removed

section Renamed

variable {old new : String} {t : TableId}

theorem columns_withRenamed (hs : s.Sound) (ht : s.classTable? d old = some t) (u : TableId) :
    ((s.withRenamed d old new t).table u).columns = (s.table u).columns := by
  rw [table_withRenamed old new (hs.made d _ t ht)]
  split
  next hu => rw [hu]
  next => rfl

theorem className_withRenamed (hs : s.Sound) (ht : s.classTable? d old = some t) {name : String}
    {u : TableId} (hu : s.tableNamed? d name = some u) :
    ((s.withRenamed d old new t).table u).className = renamed old new (s.table u).className := by
  rw [table_withRenamed old new (hs.made d _ t ht)]
  have hold := (hs.keyed d _ t ht).1
  split
  next he =>
    subst he
    rw [← tableNameOf_inj.mp hold, renamed_self]
  next hne =>
    refine (renamed_of_ne fun he => hne ?_).symm
    have hname := (hs.keyed d name u hu).1
    rw [he] at hname
    rw [hname] at hu
    exact Option.some.inj (hu.symm.trans ht)

/-- A stored table has the table name of its class, now as before. -/
theorem tableNamed?_withRenamed_renamed (ht : s.classTable? d old = some t)
    (hfree : s.classTable? d new = none) {className : String} {u : TableId}
    (hu : s.classTable? d className = some u) :
    (s.withRenamed d old new t).tableNamed? d ((s.database d).tableName (renamed old new className)) =
      some u := by
  rw [tableNamed?_withRenamed (opened_of_tableNamed? ht)]
  by_cases ho : className = old
  · subst ho
    rw [renamed_self, if_pos ⟨rfl, rfl⟩]
    exact ht.symm.trans hu
  · have hn : className ≠ new := by
      rintro rfl
      exact absurd (hfree.symm.trans hu) (by simp)
    rw [renamed_of_ne ho, if_neg fun h => hn (tableNameOf_inj.mp h.2).symm,
      if_neg fun h => ho (tableNameOf_inj.mp h.2).symm]
    exact hu

theorem classTable?_of_tableNamed? (hs : s.Sound) {name : String} {u : TableId}
    (hu : s.tableNamed? d name = some u) : s.classTable? d (s.table u).className = some u := by
  rw [classTable?, ← (hs.keyed d name u hu).1]
  exact hu

theorem linksInside_withRenamed (hs : s.Sound) (hl : s.LinksInside d)
    (ht : s.classTable? d old = some t) (hfree : s.classTable? d new = none) :
    (s.withRenamed d old new t).LinksInside d := by
  intro name u hu c hc hlink
  obtain ⟨name', hstored⟩ := stored_withRenamed ht hu
  rw [columns_withRenamed hs ht] at hc
  obtain ⟨v, hv, _, hname⟩ := hl name' u hstored c hc hlink
  exact ⟨v, hv, _, tableNamed?_withRenamed_renamed ht hfree (classTable?_of_tableNamed? hs hname)⟩

/-- After a renaming every class is shown under its new name. -/
theorem shows_withRenamed (hs : s.Sound) (hl : s.LinksInside d)
    (hp : (s.database d).tablePrefix = settings.tablePrefix) (ht : s.classTable? d old = some t)
    (hfree : s.classTable? d new = none) (className : String) :
    s.Shows (s.withRenamed d old new t) d settings (renamed old new) className := by
  have hname (n : String) : settings.tableName n = (s.database d).tableName n := by
    rw [Settings.tableName, Database.tableName, hp]
  intro u hu
  rw [hname] at hu ⊢
  refine ⟨tableNamed?_withRenamed_renamed ht hfree hu, columns_withRenamed hs ht u, ?_⟩
  intro c hc v hv _
  obtain ⟨name', hstored⟩ := hl.stored hs hu hc hv
  have hv' := tableNamed?_withRenamed_renamed ht hfree (classTable?_of_tableNamed? hs hstored)
  exact ⟨isAlive_of_tableNamed? hv', className_withRenamed hs ht hstored⟩

end Renamed

end ColumnAtlas.Storage
