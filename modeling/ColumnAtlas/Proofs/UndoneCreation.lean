import ColumnAtlas.Proofs.CreatedClass
import ColumnAtlas.Proofs.RecastSchema
import ColumnAtlas.Proofs.RemovedClass

namespace ColumnAtlas

section Naming

variable {other : Generation} {naming : TableNaming} {s s' : CellStore}

/-- The names of tables matter only for the message of a copy that fails. -/
theorem Generation.copyCells_of_ok {es : List (ClassId × CellId)}
    (h : copyCells other naming es s = (.ok (), s')) (naming' : TableNaming) :
    copyCells other naming' es s = (.ok (), s') := by
  induction es generalizing s with
  | nil => exact h
  | cons e es ih =>
    unfold copyCells at h ⊢
    split at h
    next => cases h
    next =>
      split at h
      next => cases h
      next => exact ih h

theorem Generation.copyFrom_of_ok {g g' : Generation}
    (h : g.copyFrom other naming s = (.ok (), g', s')) (naming' : TableNaming) :
    g.copyFrom other naming' s = (.ok (), g', s') := by
  unfold copyFrom at h ⊢
  split at h
  next hm =>
    split at h
    next => cases h
    next hcopy =>
      rw [if_pos hm, copyCells_of_ok hcopy naming']
      exact h
  next => cases h

theorem Cache.update_of_ok {c c' : Cache} (h : c.update other naming s = (.ok (), c', s'))
    (naming' : TableNaming) : c.update other naming' s = (.ok (), c', s') := by
  unfold update at h ⊢
  split at h
  next => cases h
  next g hg =>
    cases hcopy : g.copyFrom other naming s with
    | mk result made =>
      rw [hcopy] at h
      obtain rfl : result = .ok () := (Prod.mk.inj h).1
      rw [Generation.copyFrom_of_ok hcopy naming']
      exact h

end Naming

namespace Registry

variable {r : Registry} {s s' : Storage} {d : DatabaseId} {settings : Settings} {className : String}

theorem buildAll_congr {es : List (ClassId × ClassDecl)}
    (h : ∀ e ∈ es, e.2.buildMapping s' d settings = e.2.buildMapping s d settings) :
    buildAll settings s' d es = buildAll settings s d es := by
  induction es with
  | nil => rfl
  | cons e es ih =>
    rw [buildAll, buildAll, h e List.mem_cons_self, ih fun e' he' => h e' (List.mem_cons_of_mem _ he')]

/-- No class reads from one that has no table. -/
theorem Builds.unread (h : r.Builds s d)
    (hfree : s.tableNamed? d (r.settings.tableName className) = none) : r.Unread className := by
  intro id c hc _ f hf hreads
  obtain ⟨m, hm⟩ := h id c hc
  obtain ⟨b, hb, hname⟩ := (Option.any_eq_true _ _).mp hreads
  obtain ⟨source, _, hsource, _⟩ := hm.backward hf hb
  rw [of_decide_eq_true hname, hfree] at hsource
  cases hsource

theorem Unread.withClass {c : ClassDecl} (h : r.Unread c.className) :
    (r.withClass c).Unread c.className := by
  intro id c' hc' hne
  rw [decl?_withClass] at hc'
  split at hc'
  next =>
    obtain rfl := Option.some.inj hc'
    exact absurd rfl hne
  next => exact h id c' hc' hne

end Registry

namespace Workspace

/-- What can be read from a schema is the same, but for the next identifier and the retired names; and
every refresh comes to the same. Tables that nothing refers to can have been made. -/
structure SameSchema (w w' : Workspace) : Prop where
  database : w'.database = w.database
  stored : w.storage.Restored w'.storage
  targets : ∀ t i, t.index < w.storage.tables.length →
    w'.storage.linkTarget? t i = w.storage.linkTarget? t i
  registry : ∃ retired nextId,
    w'.registry = { w.registry with retired := retired, nextId := nextId }
  describe? : ∀ className, w'.describe? className = w.describe? className
  describeAll : w'.describeAll = w.describeAll
  refresh : ∀ version, (w.refresh version).1 = .ok () ∧ (w'.refresh version).1 = .ok () ∧
    (w'.refresh version).2.schema.cache = (w.refresh version).2.schema.cache ∧
    (w'.refresh version).2.cells = (w.refresh version).2.cells

variable {w w' : Workspace} {c : ClassDecl} {columns : List Column}

/-- A refresh goes by what is built, by the cells and by what is cached. -/
theorem refresh_congr (hcells : w'.cells = w.cells) (hcache : w'.schema.cache = w.schema.cache)
    {version : Int} (hbuilt : w'.registry.buildGeneration w'.storage w'.database version w.cells =
      w.registry.buildGeneration w.storage w.database version w.cells)
    (h : (w.refresh version).1 = .ok ()) : (w'.refresh version).1 = .ok () ∧
      (w'.refresh version).2.schema.cache = (w.refresh version).2.schema.cache ∧
      (w'.refresh version).2.cells = (w.refresh version).2.cells := by
  unfold refresh at h ⊢
  dsimp only at h ⊢
  rw [hcells, hcache, hbuilt]
  split at h
  next => cases h
  next next cache cells _ =>
    cases hupdate : cache.update next w.registry.naming cells with
    | mk result made =>
      rw [hupdate] at h
      cases result with
      | error e => cases h
      | ok =>
        rw [Cache.update_of_ok hupdate w'.registry.naming]
        exact ⟨rfl, rfl, rfl⟩

theorem Recast.describe?_self (h : w.Recast id w') (hw : w.InStep) {n : String}
    (hid : w'.registry.classId? n = w.registry.classId? n) : w'.describe? n = w.describe? n := by
  have hself : ClassSummary.mapClasses id = id :=
    funext fun summary => summary.mapClasses_eq_self fun _ _ => rfl
  have hmapped := h.describe? hw hid
  rwa [hself, Option.map_id] at hmapped

theorem Recast.buildAll (h : w.Recast id w') (hw : w.InStep) :
    Registry.buildAll w.registry.settings w'.storage w.database w.registry.classes.entries =
      Registry.buildAll w.registry.settings w.storage w.database w.registry.classes.entries := by
  apply Registry.buildAll_congr
  intro e he
  obtain ⟨m, hm⟩ := hw.builds e.1 e.2 (SortedMap.mem_entries_iff.mp he)
  have hm' := hm.keep fun n _ => h.shown n
  rw [ClassDecl.buildMapping_eq_ok_iff.mpr hm, ClassDecl.buildMapping_eq_ok_iff.mpr hm']

theorem InStep.sameSchema (h : w.InStep) (hd : w'.database = w.database)
    (hstored : w.storage.Restored w'.storage) {retired : SortedMap ClassId String} {nextId : UInt32}
    (hr : w'.registry = { w.registry with retired := retired, nextId := nextId })
    (hcells : w'.cells = w.cells) (hcache : w'.schema.cache = w.schema.cache) : w.SameSchema w' := by
  have hrecast := h.recast_restored hd hstored hr fun _ _ hi _ => hcache ▸ hi
  have hdescribe (n : String) : w'.describe? n = w.describe? n :=
    hrecast.describe?_self h (by rw [hr]; rfl)
  refine ⟨hd, hstored, fun t i ht => hstored.linkTarget? ht i, ⟨retired, nextId, hr⟩, hdescribe, ?_, ?_⟩
  · rw [describeAll, describeAll, funext hdescribe, hr]
  · intro version
    have hbuilt : w'.registry.buildGeneration w'.storage w'.database version w.cells =
        w.registry.buildGeneration w.storage w.database version w.cells := by
      rw [hr, hd, Registry.buildGeneration, Registry.buildGeneration, hrecast.buildAll h]
    obtain ⟨g, cells, he, _⟩ := h.refreshes version
    have hok : (w.refresh version).1 = .ok () := by rw [he]
    exact ⟨hok, refresh_congr hcells hcache hbuilt hok⟩

/-- A class under the next identifier, and its table. -/
def withNew (w : Workspace) (c : ClassDecl) (columns : List Column) : Workspace :=
  w.changed (w.storage.withTable w.database c.className columns) (w.registry.withClass c)

theorem InStep.removable_created (h : w.InStep) (hc : w.Creates c columns) :
    (w.withNew c columns).Removable c.className where
  registered := ⟨⟨w.registry.nextId⟩, (Registry.classId?_withClass ..).trans (if_pos rfl)⟩
  unread := by
    have hfree : w.classTable? c.className = none := (h.classTable?_eq _).trans hc.untabled
    exact (h.builds.unread hfree).withClass
  unlinked t ht := by
    have hnew : (w.storage.withTable w.database c.className columns).tableNamed? w.database
        (w.registry.settings.tableName c.className) = some ⟨w.storage.tables.length⟩ := by
      rw [h.tableName_eq, Storage.tableNamed?_withTable h.opened, if_pos ⟨rfl, rfl⟩]
    obtain rfl := Option.some.inj (hnew.symm.trans ht)
    exact fun _ _ hn hne => Storage.target_ne_of_withTable h.storage hn hne

/-- A class that was just created can be removed, and then nothing is left of it. -/
theorem InStep.remove_created (h : w.InStep) (hc : w.Creates c columns)
    (hstep : (w.withNew c columns).InStep) : ∃ w'',
      (w.withNew c columns).remove c.className = (.ok (), w'') ∧ w.SameSchema w'' := by
  obtain ⟨id, c', hname, hremoved, hremoval⟩ := hstep.remove_removable (h.removable_created hc)
  have hnew : (w.withNew c columns).registry.decl? ⟨w.registry.nextId⟩ = some c :=
    (Registry.decl?_withClass ..).trans (if_pos rfl)
  obtain rfl := hstep.registry.name_inj hnew hremoval.registered hname
  obtain rfl := Option.some.inj (hnew.symm.trans hremoval.registered)
  exact ⟨_, hremoved, h.sameSchema rfl
    (Storage.restored_withoutTable_withTable h.opened hc.untabled)
    (h.registry.withoutClass_withClass hc.unregistered) rfl rfl⟩

end Workspace

/-- Creating a class and removing it again changes nothing that can be read from a schema, and no
later refresh. The removal is never refused. -/
theorem create_remove_undone {s : Storage} {cells : CellStore} {d : DatabaseId} {r : Registry}
    {first : Int} {w : Workspace} (h : Opening s d r) (hl : s.LinksInside d)
    (hw : Workspace.start s cells d r first = .ok w) (changes : List Change) {c : ClassDecl}
    {summary : ClassSummary} {w' : Workspace}
    (hc : (w.run changes).create c = (.ok summary, w')) :
    ∃ w'', w'.remove c.className = (.ok (), w'') ∧ (w.run changes).SameSchema w'' := by
  have hstep := (Workspace.InStep.start h hl hw).run changes
  generalize w.run changes = w at *
  have hafter := hstep.create c
  rcases Workspace.create_cases hstep.toLive c with
    ⟨_, _, he, _⟩ | ⟨columns, hcreates, ⟨_, _, he⟩ | ⟨_, _, he⟩⟩
  · rw [he] at hc
    cases hc
  · rw [he] at hc
    cases hc
  · rw [he] at hc hafter
    obtain rfl := (Prod.mk.inj hc).2
    exact hstep.remove_created hcreates hafter

/-- On the shelf a series, which refers to itself, comes and goes. -/
theorem shelf_create_remove : ∃ w, Workspace.start shelf .empty ⟨0⟩ shelfClasses 1 = .ok w ∧
    ∃ summary w' w'', (w.run shelfChanges).create seriesClass = (.ok summary, w') ∧
      w'.remove "Series" = (.ok (), w'') ∧ (w.run shelfChanges).SameSchema w'' := by
  obtain ⟨w, hw, summary, w', hc⟩ : ∃ w, Workspace.start shelf .empty ⟨0⟩ shelfClasses 1 = .ok w ∧
      ∃ summary w', (w.run shelfChanges).create seriesClass = (.ok summary, w') :=
    ⟨_, rfl, _, _, rfl⟩
  obtain ⟨w'', hremoved, hsame⟩ :=
    create_remove_undone shelf_opening (by decide +kernel) hw shelfChanges hc
  exact ⟨w, hw, summary, w', w'', hc, hremoved, hsame⟩

end ColumnAtlas
