import ColumnAtlas.Proofs.SchemaSteps
import ColumnAtlas.Proofs.ShownTables

namespace ColumnAtlas

namespace Registry

variable {r : Registry} {s s' : Storage} {d : DatabaseId} {i : ClassId} {c : ClassDecl}

/-- A class that no backlink of another class reads from is read by no other class. -/
theorem ne_of_mem_reads {name : String} (hb : r.backlinksFrom name = []) (hc : r.decl? i = some c)
    (hne : c.className ≠ name) : ∀ n ∈ c.reads, n ≠ name := by
  intro n hn
  rcases List.mem_cons.mp hn with rfl | hn
  · exact hne
  · obtain ⟨f, hf, hsource⟩ := List.mem_filterMap.mp hn
    rintro rfl
    have hother : c ∈ r.classes.values.filter fun c => c.className ≠ n :=
      List.mem_filter.mpr ⟨SortedMap.mem_values_iff.mpr ⟨i, hc⟩, by simpa using hne⟩
    have hreads : f.readsFrom n := by
      obtain ⟨b, hback, hname⟩ := Option.map_eq_some_iff.mp hsource
      simp [FieldDecl.readsFrom, hback, hname]
    have hempty := List.map_eq_nil_iff.mp (List.flatMap_eq_nil_iff.mp hb c hother)
    exact absurd hreads (by simpa using List.filter_eq_nil_iff.mp hempty f hf)

namespace Builds

theorem keep (h : r.Builds s d) (hs : ∀ n, s.Shows s' d r.settings id n) : r.Builds s' d := by
  intro i c hc
  obtain ⟨m, hm⟩ := h i c hc
  exact ⟨m, hm.keep fun n _ => hs n⟩

theorem withClass (h : r.Builds s d) (hc : ∃ m, c.Mapped s d r.settings m) :
    (r.withClass c).Builds s d := by
  intro i c' hc'
  rw [decl?_withClass] at hc'
  split at hc'
  next =>
    obtain rfl := Option.some.inj hc'
    exact hc
  next => exact h i c' hc'

theorem withoutClass (h : r.Builds s d) (hr : r.Coherent) (hc : r.decl? i = some c)
    (hb : r.backlinksFrom c.className = [])
    (hs : ∀ n, n ≠ c.className → s.Shows s' d r.settings id n) : (r.withoutClass i c).Builds s' d := by
  intro i' c' hc'
  rw [decl?_withoutClass] at hc'
  split at hc'
  next => cases hc'
  next hne =>
    obtain ⟨m, hm⟩ := h i' c' hc'
    have hname : c'.className ≠ c.className := fun heq => hne (hr.name_inj hc hc' heq)
    exact ⟨m, hm.keep fun n hn => hs n (ne_of_mem_reads hb hc' hname n hn)⟩

theorem withName (h : r.Builds s d) (hr : r.Coherent) (hc : r.decl? i = some c) {new : String}
    (hs : ∀ n, s.Shows s' d r.settings (renamed c.className new) n) :
    (r.withName i c new).Builds s' d := by
  intro i' c' hc'
  rw [hr.decl?_withName hc] at hc'
  obtain ⟨before, hbefore, rfl⟩ := Option.map_eq_some_iff.mp hc'
  obtain ⟨m, hm⟩ := h i' before hbefore
  exact ⟨_, hm.transfer fun n _ => hs n⟩

end Builds

theorem Built.keep {ms : SortedMap ClassId Mapping} (h : r.Built s d ms)
    (hs : ∀ n, s.Shows s' d r.settings id n) : r.Built s' d ms where
  mapped i c hc := by
    obtain ⟨m, hget, hm⟩ := h.mapped i c hc
    exact ⟨m, hget, hm.keep fun n _ => hs n⟩
  registered := h.registered

end Registry

/-- Every registered class agrees with the storage, whose links stay inside the database, and unless
a refresh is due the cache holds the mappings of exactly the registered classes. -/
structure Workspace.InStep (w : Workspace) : Prop extends Workspace.Live w where
  linksInside : w.storage.LinksInside w.database
  builds : w.registry.Builds w.storage w.database
  current : w.schema.needsRefresh = false → ∃ g, w.schema.cache.installed = some g ∧
    w.registry.Built w.storage w.database (g.mappings w.cells)

namespace Workspace

variable {w : Workspace}

theorem Live.classTable?_of_tableNamed? (h : w.Live) {name : String} {t : TableId}
    (ht : w.storage.tableNamed? w.database name = some t) :
    w.classTable? (w.storage.table t).className = some t := by
  rw [h.classTable?_eq]
  exact Storage.classTable?_of_tableNamed? h.storage ht

theorem className_of_classTable? (hs : w.storage.Sound)
    (hp : (w.storage.database w.database).tablePrefix = w.registry.settings.tablePrefix)
    {className : String} {t : TableId} (ht : w.classTable? className = some t) :
    (w.storage.table t).className = className := by
  have hname := (hs.keyed w.database _ t ht).1
  rw [Settings.tableName, Database.tableName, hp] at hname
  exact (tableNameOf_inj.mp hname).symm

theorem Live.className_of_classTable? (h : w.Live) {className : String} {t : TableId}
    (ht : w.classTable? className = some t) : (w.storage.table t).className = className :=
  Workspace.className_of_classTable? h.storage h.samePrefix ht

theorem Live.decl?_of_declNamed? (h : w.Live) {className : String} {c : ClassDecl}
    (hc : w.registry.declNamed? className = some c) :
    ∃ id, w.registry.decl? id = some c ∧ c.className = className := by
  obtain ⟨id, hid, hdecl⟩ := Option.bind_eq_some_iff.mp hc
  obtain ⟨c', hc', hname⟩ := (h.registry.named className id).mp hid
  obtain rfl := Option.some.inj (hdecl.symm.trans hc')
  exact ⟨id, hdecl, hname⟩

theorem InStep.classTable?_of_linkTarget? (h : w.InStep) {className : String} {t u : TableId} {i : Int}
    (ht : w.classTable? className = some t) (hu : w.storage.linkTarget? t i = some u) :
    w.classTable? (w.storage.table u).className = some u := by
  obtain ⟨name, hname⟩ := h.linksInside.linkTarget? h.storage ht hu
  exact h.classTable?_of_tableNamed? hname

theorem InStep.keep (h : w.InStep) {s' : Storage} (hlive : Live { w with storage := s' })
    (hk : w.storage.Keeps s' w.database) (hl : s'.LinksInside w.database) :
    InStep { w with storage := s' } where
  toLive := hlive
  linksInside := hl
  builds := h.builds.keep (hk.shows h.storage h.linksInside _)
  current hn := by
    obtain ⟨g, hg, hbuilt⟩ := h.current hn
    exact ⟨g, hg, hbuilt.keep (hk.shows h.storage h.linksInside _)⟩

/-- After a change of the classes nothing is promised about the cache. -/
theorem InStep.changed {s' : Storage} {r' : Registry} (hlive : (w.changed s' r').Live)
    (hl : s'.LinksInside w.database) (hb : r'.Builds s' w.database) : (w.changed s' r').InStep where
  toLive := hlive
  linksInside := hl
  builds := hb
  current hn := nomatch hn

theorem InStep.create (h : w.InStep) (c : ClassDecl) : (w.create c).2.InStep := by
  have hlive := h.toLive.create c
  rcases create_cases h.toLive c with ⟨e, s', he, hrestored, hs⟩ | ⟨columns, hc, hmade⟩
  · rw [he] at hlive ⊢
    exact h.keep hlive (hrestored.keeps h.storage _) (hrestored.linksInside h.storage h.linksInside)
  · have hkeeps := Storage.keeps_withTable h.storage h.opened hc.untabled columns
    have hinside := Storage.linksInside_withTable h.storage h.linksInside h.opened hc.untabled hc.sound hc.links
    rcases hmade with ⟨_, e, he⟩ | ⟨_, summary, he⟩
    · rw [he] at hlive ⊢
      exact h.keep hlive hkeeps hinside
    · rw [he] at hlive ⊢
      have hold := h.builds.keep (hkeeps.shows h.storage h.linksInside _)
      exact .changed hlive hinside (hold.withClass hc.mapped)

theorem InStep.remove (h : w.InStep) (className : String) : (w.remove className).2.InStep := by
  have hlive := h.toLive.remove className
  rcases remove_cases h.toLive className with ⟨e, he⟩ | ⟨i, c, t, hc, rfl, ht, hb, hr, he⟩
  · rw [he]
    exact h
  · rw [he] at hlive ⊢
    have hinside := Storage.linksInside_withoutTable h.storage h.linksInside ht hr
    refine .changed hlive hinside (h.builds.withoutClass h.registry hc hb fun n hn => ?_)
    exact Storage.shows_withoutTable h.storage h.linksInside h.samePrefix ht hr hn

theorem InStep.rename (h : w.InStep) (old new : String) : (w.rename old new).2.InStep := by
  have hlive := h.toLive.rename old new
  rcases rename_cases h.toLive old new with
    ⟨e, he⟩ | ⟨i, c, t, summary, hc, rfl, _, ht, _, hfree, he⟩
  · rw [he]
    exact h
  · rw [he] at hlive ⊢
    have hinside := Storage.linksInside_withRenamed h.storage h.linksInside ht hfree
    refine .changed hlive hinside (h.builds.withName h.registry hc fun n => ?_)
    exact Storage.shows_withRenamed h.storage h.linksInside h.samePrefix ht hfree n

theorem InStep.refreshes (h : w.InStep) (version : Int) :
    ∃ g cells, w.refresh version = (.ok (), w.refreshed g cells) ∧
      w.registry.Built w.storage w.database (g.mappings cells) := by
  obtain ⟨g, hg, hlive⟩ := h.cached
  rcases refresh_cases hg hlive version with ⟨hnot, _⟩ | ⟨g', cells', he, _, _, hbuilt, _⟩
  · exact absurd h.builds hnot
  · exact ⟨g', cells', he, hbuilt⟩

theorem InStep.refresh (h : w.InStep) (version : Int) : (w.refresh version).2.InStep := by
  have hlive := h.toLive.refresh version
  obtain ⟨g, cells, he, hbuilt⟩ := h.refreshes version
  rw [he] at hlive ⊢
  exact ⟨hlive, h.linksInside, h.builds, fun _ => ⟨g, rfl, hbuilt⟩⟩

theorem InStep.apply (h : w.InStep) (change : Change) : (w.apply change).InStep := by
  cases change with
  | create c => exact h.create c
  | remove className => exact h.remove className
  | rename old new => exact h.rename old new
  | refresh version => exact h.refresh version

theorem InStep.run (h : w.InStep) (changes : List Change) : (w.run changes).InStep := by
  induction changes generalizing w with
  | nil => exact h
  | cons change changes ih => exact ih (h.apply change)

theorem InStep.start {s : Storage} {cells : CellStore} {d : DatabaseId} {r : Registry} {version : Int}
    (h : Opening s d r) (hl : s.LinksInside d) (hw : start s cells d r version = .ok w) : w.InStep := by
  have hlive := Live.start h hw
  obtain ⟨g, cells', rfl, _, _, hbuilt⟩ := start_spec hw
  exact ⟨hlive, hl, hbuilt.builds, fun _ => ⟨g, rfl, hbuilt⟩⟩

/-- Unless a refresh is due, a registered class has a table, and a cell in the cache with its mapping. -/
theorem InStep.registered (h : w.InStep) (hn : w.schema.needsRefresh = false) {id : ClassId}
    {c : ClassDecl} (hc : w.registry.decl? id = some c) :
    w.registry.declNamed? c.className = some c ∧ ∃ t i, w.classTable? c.className = some t ∧
      w.table? c.className = some t ∧ w.schema.cache.cell? id = .ok (some i) ∧
      c.Mapped w.storage w.database w.registry.settings (w.cells.mapping i) := by
  obtain ⟨g, hg, hbuilt⟩ := h.current hn
  obtain ⟨i, hi, hmapped⟩ := hbuilt.cell hc
  obtain ⟨t, ht, _⟩ := hmapped.placed
  have hid : w.registry.classId? c.className = some id := (h.registry.named _ _).mpr ⟨c, hc, rfl⟩
  refine ⟨by simp [Registry.declNamed?, hid, hc], t, i, ht, ?_, ?_, hmapped⟩
  · rw [table?, hid]
    exact ht
  · rw [Cache.cell?_eq hg, hi]

/-- A mapping places every declared field of a class where it is stored. -/
structure Mirrors (w : Workspace) (c : ClassDecl) (m : Mapping) : Prop where
  column : ∀ f ∈ c.fields, f.backlink = none → ∃ t index, w.classTable? c.className = some t ∧
    (w.storage.table t).columnIndex? f.name = some index ∧ m.columnIndex? f.name = some index ∧
    m.columnType f.name = (w.storage.table t).columnType index
  backlink : ∀ f ∈ c.fields, ∀ b, f.backlink = some b → ∃ source index,
    w.classTable? b.sourceClass = some source ∧
    (w.storage.table source).columnIndex? b.sourceField = some index ∧
    m.columnIndex? f.name = some index

/-- A generation holds, for exactly the registered classes, the mappings that would be built now. -/
structure Current (w : Workspace) (g : Generation) : Prop where
  classes : g.cells.keys = w.registry.classes.keys
  built : ∀ id c, w.registry.decl? id = some c → ∃ i, g.cell? id = some i ∧
    w.registry.buildMapping w.storage w.database id = .ok (w.cells.mapping i) ∧
    w.Mirrors c (w.cells.mapping i)

theorem mirrors_of_mapped {c : ClassDecl} {m : Mapping}
    (h : c.Mapped w.storage w.database w.registry.settings m) : w.Mirrors c m where
  column f hf hb := by
    obtain ⟨t, index, linked, ht, hi, _, hget⟩ := h.forward hf hb
    refine ⟨t, index, ht, hi, ?_, ?_⟩
    · rw [Mapping.columnIndex?, hget]
      rfl
    · rw [Mapping.columnType, hget]
      rfl
  backlink f hf b hb := by
    obtain ⟨source, index, hsource, hi, hget⟩ := h.backward hf hb
    refine ⟨source, index, hsource, hi, ?_⟩
    rw [Mapping.columnIndex?, hget]
    rfl

theorem InStep.isCurrent (h : w.InStep) (hn : w.schema.needsRefresh = false) :
    ∃ g, w.schema.cache.installed = some g ∧ w.Current g := by
  obtain ⟨g, hg, hbuilt⟩ := h.current hn
  refine ⟨g, hg, SortedMap.keys_eq_of_isSome fun id => ?_, fun id c hc => ?_⟩
  · have hid := hbuilt.isSome_get? id
    rwa [Generation.get?_mappings, Option.isSome_map] at hid
  · obtain ⟨i, hi, hmapped⟩ := hbuilt.cell hc
    exact ⟨i, hi, Registry.buildMapping_eq_ok_iff.mpr ⟨c, hc, hmapped⟩, mirrors_of_mapped hmapped⟩

end Workspace

section Opened

variable {s : Storage} {cells : CellStore} {d : DatabaseId} {r : Registry} {first : Int} {w : Workspace}

/-- Whatever changes were made to an open schema, a refresh succeeds and every registered class can
be built. -/
theorem refresh_ok_after_run (h : Opening s d r) (hl : s.LinksInside d)
    (hw : Workspace.start s cells d r first = .ok w) (changes : List Change) (version : Int) :
    ((w.run changes).refresh version).1 = .ok () ∧
      ∀ id c, (w.run changes).registry.decl? id = some c → ∃ m, (w.run changes).registry.buildMapping
        (w.run changes).storage (w.run changes).database id = .ok m := by
  have hstep := (Workspace.InStep.start h hl hw).run changes
  obtain ⟨g, cells', he, _⟩ := hstep.refreshes version
  refine ⟨by rw [he], fun id c hc => ?_⟩
  obtain ⟨m, hm⟩ := hstep.builds id c hc
  exact ⟨m, Registry.buildMapping_eq_ok_iff.mpr ⟨c, hc, hm⟩⟩

/-- Unless a refresh is due, the cache of a changed schema is what a refresh would make it. -/
theorem cache_current_after_run (h : Opening s d r) (hl : s.LinksInside d)
    (hw : Workspace.start s cells d r first = .ok w) (changes : List Change)
    (hn : (w.run changes).schema.needsRefresh = false) :
    ∃ g, (w.run changes).schema.cache.installed = some g ∧ (w.run changes).Current g :=
  ((Workspace.InStep.start h hl hw).run changes).isCurrent hn

end Opened

theorem shelf_refresh_ok : ∃ w, Workspace.start shelf .empty ⟨0⟩ shelfClasses 1 = .ok w ∧
    ((w.run shelfChanges).refresh 3).1 = .ok () :=
  ⟨_, rfl, (refresh_ok_after_run shelf_opening (by decide +kernel) rfl shelfChanges 3).1⟩

theorem shelf_cache_current : ∃ w, Workspace.start shelf .empty ⟨0⟩ shelfClasses 1 = .ok w ∧
    (w.run shelfChanges).schema.needsRefresh = false ∧
    ∃ g, (w.run shelfChanges).schema.cache.installed = some g ∧ (w.run shelfChanges).Current g :=
  ⟨_, rfl, by decide +kernel,
    cache_current_after_run shelf_opening (by decide +kernel) rfl shelfChanges (by decide +kernel)⟩

end ColumnAtlas
