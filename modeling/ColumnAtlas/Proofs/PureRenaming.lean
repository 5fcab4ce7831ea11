import ColumnAtlas.Proofs.RecastSchema

namespace ColumnAtlas

namespace Workspace

/-- The classes are described as in another schema, and cached as there unless the cache was to be
refreshed. -/
structure Regained (w w' : Workspace) : Prop where
  described : ∀ n, w'.describe? n = w.describe? n
  all : w'.describeAll = w.describeAll
  cached : w.schema.needsRefresh = false → w.CachedAs id w'

/-- A class can get its old name back, and everything is then as it was before it had the new one. -/
structure Undoes (w : Workspace) (old new : String) (w' : Workspace) : Prop where
  succeeds : ∃ summary, (w'.rename new old).1 = .ok summary
  refreshes : ∀ version, ((w'.rename new old).2.refresh version).1 = .ok ()
  regained : ∀ version, w.Regained ((w'.rename new old).2.refresh version).2

/-- A new class name stands in the place of an old one, and nothing else is different. A refresh brings
the new name into the cached mappings, and the renaming can be undone before or after it. -/
structure Renames (w : Workspace) (old new : String) (w' : Workspace) : Prop where
  described : ∀ n, n ≠ new →
    w'.describe? (renamed old new n) = (w.describe? n).map (ClassSummary.mapClasses (renamed old new))
  gone : w'.describe? old = none
  refreshes : ∀ version, (w'.refresh version).1 = .ok ()
  ids : ∀ version n, n ≠ new →
    (w'.refresh version).2.registry.classId? (renamed old new n) = w.registry.classId? n
  cached : w.schema.needsRefresh = false → ∀ version,
    w.CachedAs (Mapping.mapClasses (renamed old new)) (w'.refresh version).2
  undone : ∀ versions : List Int, w.Undoes old new (w'.run (versions.map .refresh))

/-- The registry and the database know a class under a new name only, which was free in both. -/
structure Retitled (w : Workspace) (old new : String) (w' : Workspace) : Prop
    extends w.Recast (renamed old new) w' where
  unused : w.registry.classId? new = none ∧ w.classTable? new = none
  ids : ∀ n, n ≠ new → w'.registry.classId? (renamed old new n) = w.registry.classId? n
  gone : w'.registry.classId? old = none ∧ w'.classTable? old = none
  named : old ≠ ""
  found : (∃ id, w'.registry.classId? new = some id) ∧ ∃ t, w'.classTable? new = some t

variable {w w' w'' : Workspace} {old new : String}

theorem Live.classTable?_renamed (h : w.Live) {r' : Registry} (hr : r'.settings = w.registry.settings)
    (old new : String) (t : TableId) (n : String) :
    (w.changed (w.storage.withRenamed w.database old new t) r').classTable? n =
      if new = n then some t else if old = n then none else w.classTable? n := by
  have hname (m : String) : (w.storage.database w.database).tableName m =
      w.registry.settings.tableName n ↔ m = n := by
    rw [h.tableName_eq]
    exact tableNameOf_inj
  change (w.storage.withRenamed w.database old new t).tableNamed? w.database
    (r'.settings.tableName n) = _
  rw [hr, Storage.tableNamed?_withRenamed h.opened]
  simp only [true_and, hname]
  rfl

theorem InStep.retitled (h : w.InStep) {summary : ClassSummary}
    (hr : (w.rename old new).1 = .ok summary) : w.Retitled old new (w.rename old new).2 := by
  rcases rename_cases h.toLive old new with
    ⟨e, he⟩ | ⟨id, c, t, _, hc, rfl, hne, ht, hnone, hfree, he⟩
  · rw [he] at hr
    cases hr
  · rw [he]
    have hold : new ≠ c.className := by
      rintro rfl
      exact absurd (hfree.symm.trans ht) (by simp)
    have hids := Registry.classId?_withName w.registry id c new
    have hsettings : (w.registry.withName id c new).settings = w.registry.settings := rfl
    have htables := h.classTable?_renamed hsettings c.className new t
    refine ⟨⟨rfl, rfl, h.registry.decl?_withName hc new, ?_, fun _ _ hi _ => hi⟩,
      ⟨hnone, (h.classTable?_eq new).trans hfree⟩, fun n hn => ?_, ⟨?_, ?_⟩, ?_, ⟨id, ?_⟩, t, ?_⟩
    · exact Storage.shows_withRenamed h.storage h.linksInside h.samePrefix ht hfree
    · exact h.registry.classId?_renamed hc hn
    · exact (hids _).trans (by rw [if_neg hold, if_pos rfl])
    · rw [htables, if_neg hold, if_pos rfl]
    · have hclass : (w.storage.table t).className = c.className :=
        tableNameOf_inj.mp (h.storage.keyed _ _ _ ht).1.symm
      exact hclass ▸ h.storage.named _ _ _ ht
    · exact (hids new).trans (if_pos rfl)
    · rw [htables, if_pos rfl]

theorem Retitled.refreshed (h : w.Retitled old new w') (hr : w'.Refreshed w'')
    (hrecast : w'.Recast id w'') : w.Retitled old new w'' := by
  have htables (n : String) : w''.classTable? n = w'.classTable? n := by
    rw [classTable?, classTable?, hr.storage, hr.database, hr.registry]
  refine ⟨h.toRecast.trans hrecast, h.unused, ?_, ?_, h.named, ?_⟩
  · rw [hr.registry]
    exact h.ids
  · rw [hr.registry, htables]
    exact h.gone
  · rw [hr.registry, htables]
    exact h.found

theorem Retitled.rename_back (h : w.Retitled old new w') (hw' : w'.Live) :
    ∃ summary, (w'.rename new old).1 = .ok summary := by
  obtain ⟨⟨id, hid⟩, t, ht⟩ := h.found
  obtain ⟨c, hc, hname⟩ := (hw'.registry.named new id).mp hid
  rw [hw'.classTable?_eq] at ht
  have hfree : w'.storage.classTable? w'.database old = none := (hw'.classTable?_eq old).symm.trans h.gone.2
  obtain ⟨summary, he⟩ := rename_exists hw' hc hname h.named ht h.gone.1 hfree
  exact ⟨summary, by rw [he]⟩

theorem describe?_eq_none {n : String} (h : w.registry.classId? n = none) : w.describe? n = none := by
  rw [describe?_eq, Registry.declNamed?, h]
  rfl

section Back

variable (hw : w.InStep) (h : w.Retitled old new w') (h' : w'.Retitled new old w'')

include h h'

theorem Retitled.classId?_back (n : String) : w''.registry.classId? n = w.registry.classId? n := by
  by_cases hn : n = new
  · rw [hn, h.unused.1, h'.gone.1]
  · have hid := (h'.ids _ (renamed_ne hn)).trans (h.ids n hn)
    rwa [renamed_renamed hn] at hid

include hw

theorem Retitled.describe?_back (n : String) : w''.describe? n = w.describe? n := by
  have hback := Retitled.classId?_back h h'
  by_cases hn : n = new
  · subst hn
    rw [describe?_eq_none h.unused.1, describe?_eq_none ((hback n).trans h.unused.1)]
  · have hτ : (renamed new old ∘ renamed old new) n = n := renamed_renamed hn
    have hboth := (h.toRecast.trans h'.toRecast).describe? hw (n := n) (by rw [hτ]; exact hback n)
    rw [hτ] at hboth
    rw [hboth]
    cases hs : w.describe? n with
    | none => rfl
    | some summary =>
      -- No class with a table has the new name, so the summary does not mention it.
      refine congrArg some (ClassSummary.mapClasses_eq_self fun m hm => renamed_renamed ?_)
      rintro rfl
      obtain ⟨t, ht⟩ := hw.classTable?_of_describe? hs hm
      exact absurd (h.unused.2.symm.trans ht) (by simp)

theorem Retitled.describeAll_back : w''.describeAll = w.describeAll := by
  have hkeys : w''.registry.ids.keys = w.registry.ids.keys :=
    SortedMap.keys_eq_of_isSome fun n => congrArg Option.isSome (Retitled.classId?_back h h' n)
  have hdescribe : w''.describe? = w.describe? := funext (Retitled.describe?_back hw h h')
  rw [describeAll, describeAll, hkeys, hdescribe]

theorem Retitled.cachedAs_back (hw'' : w''.InStep) (hn : w.schema.needsRefresh = false)
    (version : Int) : w.CachedAs id (w''.refresh version).2 := by
  have hcached := (h.toRecast.trans h'.toRecast).cachedAs hw hw'' hn version
  refine ⟨hcached.cell, fun k i hi => (hcached.mapping k i hi).trans ?_⟩
  obtain ⟨g, hg, hbuilt⟩ := hw.current hn
  have hcell : g.cell? k = some i := Except.ok.inj ((Cache.cell?_eq hg k).symm.trans hi)
  have hget : (g.mappings w.cells).get? k = some (w.cells.mapping i) := by
    rw [Generation.get?_mappings, hcell]
    rfl
  obtain ⟨c, hc⟩ := hbuilt.registered k _ hget
  obtain ⟨m, hm, hmapped⟩ := hbuilt.mapped k c hc
  obtain rfl := Option.some.inj (hget.symm.trans hm)
  refine Mapping.mapClasses_eq_self fun n hn => renamed_renamed ?_
  rintro rfl
  obtain ⟨t, ht⟩ := hw.classTable?_of_mentions hmapped hn
  exact absurd (h.unused.2.symm.trans ht) (by simp)

end Back

theorem Retitled.undoes (h : w.Retitled old new w') (hw : w.InStep) (hw' : w'.InStep) :
    w.Undoes old new w' := by
  obtain ⟨summary, hback⟩ := h.rename_back hw'.toLive
  have h' := hw'.retitled hback
  have hw'' := hw'.rename new old
  have hrefreshed (version : Int) := (hw''.refreshed_refresh version).1
  refine ⟨⟨summary, hback⟩, fun version => ?_, fun version => ?_⟩
  · obtain ⟨g, cells, he, _⟩ := hw''.refreshes version
    rw [he]
  · have h'' := h'.refreshed (hrefreshed version) (hw''.refreshed_refresh version).2
    exact ⟨Retitled.describe?_back hw h h'', Retitled.describeAll_back hw h h'',
      fun hn => Retitled.cachedAs_back hw h h' hw'' hn version⟩

theorem Retitled.renames (h : w.Retitled old new w') (hw : w.InStep) (hw' : w'.InStep) :
    w.Renames old new w' where
  described n hn := h.toRecast.describe? hw (h.ids n hn)
  gone := describe?_eq_none h.gone.1
  refreshes version := by
    obtain ⟨g, cells, he, _⟩ := hw'.refreshes version
    rw [he]
  ids version n hn := by
    rw [(hw'.refreshed_refresh version).1.registry]
    exact h.ids n hn
  cached hn version := h.toRecast.cachedAs hw hw' hn version
  undone versions := by
    obtain ⟨hrefreshed, hrecast⟩ := hw'.refreshed_refreshes versions
    exact (h.refreshed hrefreshed hrecast).undoes hw (hw'.run _)

end Workspace

/-- Renaming a class puts one name in the place of another wherever it stands: in the descriptions of
all classes at once, and after a refresh in the cached mappings, whose cells stay. It can be undone. -/
theorem rename_substitutes {s : Storage} {cells : CellStore} {d : DatabaseId} {r : Registry}
    {first : Int} {w : Workspace} (h : Opening s d r) (hl : s.LinksInside d)
    (hw : Workspace.start s cells d r first = .ok w) (changes : List Change) {old new : String}
    {summary : ClassSummary} (hr : ((w.run changes).rename old new).1 = .ok summary) :
    (w.run changes).Renames old new ((w.run changes).rename old new).2 := by
  have hstep := (Workspace.InStep.start h hl hw).run changes
  exact (hstep.retitled hr).renames hstep (hstep.rename old new)

/-- A class that a review links to and that an author reads from gets a new name. -/
theorem shelf_rename_substitutes : ∃ w, Workspace.start shelf .empty ⟨0⟩ shelfClasses 1 = .ok w ∧
    (∃ summary, ((w.run shelfChanges).rename "Book" "Volume").1 = .ok summary) ∧
    ((w.run shelfChanges).rename "Book" "Volume").2.describe? "Writer" =
      some ⟨"Writer", [⟨"name", .string, none⟩, ⟨"books", .backlink, some "Volume"⟩]⟩ ∧
    (w.run shelfChanges).Renames "Book" "Volume" ((w.run shelfChanges).rename "Book" "Volume").2 :=
  ⟨_, rfl, ⟨_, rfl⟩, by decide +kernel,
    rename_substitutes shelf_opening (by decide +kernel) rfl shelfChanges rfl⟩

end ColumnAtlas
