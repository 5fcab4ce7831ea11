import ColumnAtlas.Proofs.MentionedClasses

namespace ColumnAtlas.Workspace

/-- Another schema has the same declarations, tables and cached cells, with other names in the place
of the class names. -/
structure Recast (w : Workspace) (σ : String → String) (w' : Workspace) : Prop where
  database : w'.database = w.database
  settings : w'.registry.settings = w.registry.settings
  declared : ∀ id, w'.registry.decl? id = (w.registry.decl? id).map (ClassDecl.mapClasses σ)
  shown : ∀ n, w.storage.Shows w'.storage w.database w.registry.settings σ n
  cached : ∀ id i, w.schema.cache.cell? id = .ok (some i) → (w.registry.decl? id).isSome →
    w'.schema.cache.cell? id = .ok (some i)

/-- The same classes have the same cells in the cache, with a function applied to what is in them. -/
structure CachedAs (w : Workspace) (f : Mapping → Mapping) (w' : Workspace) : Prop where
  cell : ∀ id, w'.schema.cache.cell? id = w.schema.cache.cell? id
  mapping : ∀ id i, w.schema.cache.cell? id = .ok (some i) →
    w'.cells.mapping i = f (w.cells.mapping i)

/-- Nothing but the cells and the cache is different. -/
structure Refreshed (w w' : Workspace) : Prop where
  storage : w'.storage = w.storage
  database : w'.database = w.database
  registry : w'.registry = w.registry

variable {w w' w'' : Workspace} {σ τ : String → String}

theorem Recast.trans (h : w.Recast σ w') (h' : w'.Recast τ w'') : w.Recast (τ ∘ σ) w'' where
  database := h'.database.trans h.database
  settings := h'.settings.trans h.settings
  declared id := by
    have hcomp : ClassDecl.mapClasses τ ∘ ClassDecl.mapClasses σ = ClassDecl.mapClasses (τ ∘ σ) :=
      funext fun c => c.mapClasses_comp σ τ
    rw [h'.declared, h.declared, Option.map_map, hcomp]
  shown n := by
    have hshown := h'.shown (σ n)
    rw [h.database, h.settings] at hshown
    exact (h.shown n).trans hshown
  cached id i hi hd := by
    refine h'.cached id i (h.cached id i hi hd) ?_
    rw [h.declared, Option.isSome_map]
    exact hd

theorem Recast.mapped (h : w.Recast σ w') {c : ClassDecl} {m : Mapping}
    (hm : c.Mapped w.storage w.database w.registry.settings m) :
    (c.mapClasses σ).Mapped w'.storage w'.database w'.registry.settings (m.mapClasses σ) := by
  rw [h.database, h.settings]
  exact hm.transfer fun n _ => h.shown n

theorem Recast.describe? (h : w.Recast σ w') (hw : w.InStep) {n : String}
    (hid : w'.registry.classId? (σ n) = w.registry.classId? n) :
    w'.describe? (σ n) = (w.describe? n).map (ClassSummary.mapClasses σ) := by
  have hdecl : w'.registry.declNamed? (σ n) =
      (w.registry.declNamed? n).map (ClassDecl.mapClasses σ) := by
    rw [Registry.declNamed?, Registry.declNamed?, hid]
    cases w.registry.classId? n with
    | none => rfl
    | some id => exact h.declared id
  rw [describe?_eq, describe?_eq, hdecl]
  cases hc : w.registry.declNamed? n with
  | none => rfl
  | some c =>
    obtain ⟨t, ht⟩ := hw.classTable?_exists hc
    have ht' : w'.classTable? (σ n) = some t := by
      rw [classTable?, h.database, h.settings]
      exact (h.shown n t ht).1
    have hcolumns := (h.shown n).columnsOf ht fun c hc u hu => (hw.target ht hc hu).1
    have hsummary : w'.summary (σ n) (c.mapClasses σ) t = (w.summary n c t).mapClasses σ := by
      rw [summary, summary, hcolumns, ClassDecl.backlinks_mapClasses, ClassSummary.mapClasses,
        List.map_append, List.map_map, List.map_map]
      rfl
    simp only [Option.map_some, Option.bind_some, ht, ht', hsummary]

theorem Refreshed.trans (h : w.Refreshed w') (h' : w'.Refreshed w'') : w.Refreshed w'' :=
  ⟨h'.storage.trans h.storage, h'.database.trans h.database, h'.registry.trans h.registry⟩

/-- The storage may have more tables that nothing refers to, and identifiers may be spent. -/
theorem InStep.recast_restored (h : w.InStep) (hd : w'.database = w.database)
    (hstored : w.storage.Restored w'.storage) {retired : SortedMap ClassId String} {nextId : UInt32}
    (hr : w'.registry = { w.registry with retired := retired, nextId := nextId })
    (hcached : ∀ k i, w.schema.cache.cell? k = .ok (some i) → (w.registry.decl? k).isSome →
      w'.schema.cache.cell? k = .ok (some i)) : w.Recast id w' where
  database := hd
  settings := by rw [hr]
  declared k := by
    have hid : ClassDecl.mapClasses id = id := funext ClassDecl.mapClasses_id
    rw [hr, hid, Option.map_id]
    rfl
  shown n := (hstored.keeps h.storage _).shows h.storage h.linksInside _ n
  cached := hcached

theorem InStep.recast_id (h : w.InStep) (hr : w.Refreshed w')
    (hcached : ∀ k i, w.schema.cache.cell? k = .ok (some i) → (w.registry.decl? k).isSome →
      w'.schema.cache.cell? k = .ok (some i)) : w.Recast id w' :=
  h.recast_restored hr.database (hr.storage.symm ▸ .refl _) hr.registry hcached

theorem InStep.refreshed_refresh (h : w.InStep) (version : Int) :
    w.Refreshed (w.refresh version).2 ∧ w.Recast id (w.refresh version).2 := by
  obtain ⟨g, hg, hlive⟩ := h.cached
  rcases refresh_cases hg hlive version with ⟨hnot, _⟩ | ⟨g', cells', he, _, _, _, hstay, _⟩
  · exact absurd h.builds hnot
  · rw [he]
    have hrefreshed : w.Refreshed (w.refreshed g' cells') := ⟨rfl, rfl, rfl⟩
    refine ⟨hrefreshed, h.recast_id hrefreshed fun k i hi hd => ?_⟩
    rw [Cache.cell?_eq hg] at hi
    exact (Cache.cell?_eq rfl k).trans (congrArg Except.ok (hstay k i (Except.ok.inj hi) hd))

theorem InStep.refreshed_refreshes (h : w.InStep) (versions : List Int) :
    w.Refreshed (w.run (versions.map .refresh)) ∧ w.Recast id (w.run (versions.map .refresh)) := by
  induction versions generalizing w with
  | nil =>
    have hrefreshed : w.Refreshed w := ⟨rfl, rfl, rfl⟩
    exact ⟨hrefreshed, h.recast_id hrefreshed fun _ _ hi _ => hi⟩
  | cons version versions ih =>
    obtain ⟨hfirst, hfirst'⟩ := h.refreshed_refresh version
    obtain ⟨hrest, hrest'⟩ := ih (h.refresh version)
    exact ⟨hfirst.trans hrest, hfirst'.trans hrest'⟩

/-- What is in the cache and up to date is in it under the new names after the next refresh. -/
theorem Recast.cachedAs (h : w.Recast σ w') (hw : w.InStep) (hw' : w'.InStep)
    (hn : w.schema.needsRefresh = false) (version : Int) :
    w.CachedAs (Mapping.mapClasses σ) (w'.refresh version).2 := by
  have hafter := h.trans (hw'.refreshed_refresh version).2
  obtain ⟨g, hg, hbuilt⟩ := hw.current hn
  obtain ⟨g', cells', he, hbuilt'⟩ := hw'.refreshes version
  rw [he] at hafter ⊢
  have hcell (k : ClassId) : w.schema.cache.cell? k = .ok (g.cell? k) := Cache.cell?_eq hg k
  have hcell' (k : ClassId) : (w'.refreshed g' cells').schema.cache.cell? k = .ok (g'.cell? k) :=
    Cache.cell?_eq rfl k
  have hdeclared {k : ClassId} {c : ClassDecl} (hc : w.registry.decl? k = some c) :
      w'.registry.decl? k = some (c.mapClasses σ) := by rw [h.declared, hc]; rfl
  have hkept {k : ClassId} {c : ClassDecl} (hc : w.registry.decl? k = some c) {i : CellId}
      (hi : g.cell? k = some i) : g'.cell? k = some i := by
    have hi' := hafter.cached k i ((hcell k).trans (congrArg Except.ok hi)) (by rw [hc]; rfl)
    exact Except.ok.inj ((hcell' k).symm.trans hi')
  constructor
  · intro k
    rw [hcell, hcell']
    cases hc : w.registry.decl? k with
    | some c =>
      obtain ⟨i, hi, _⟩ := hbuilt.cell hc
      rw [hi, hkept hc hi]
    | none =>
      have hsome := hbuilt.isSome_get? k
      have hsome' := hbuilt'.isSome_get? k
      rw [Generation.get?_mappings, Option.isSome_map, hc] at hsome
      rw [Generation.get?_mappings, Option.isSome_map, h.declared, hc] at hsome'
      have hgone : g.cell? k = none := by simpa using hsome
      have hgone' : g'.cell? k = none := by simpa using hsome'
      rw [hgone, hgone']
  · intro k i hi
    have hi := Except.ok.inj ((hcell k).symm.trans hi)
    have hsome := hbuilt.isSome_get? k
    rw [Generation.get?_mappings, Option.isSome_map, hi] at hsome
    obtain ⟨c, hc⟩ := Option.isSome_iff_exists.mp hsome.symm
    obtain ⟨i₁, hi₁, hm⟩ := hbuilt.cell hc
    obtain rfl := Option.some.inj (hi.symm.trans hi₁)
    obtain ⟨i₂, hi₂, hm'⟩ := hbuilt'.cell (hdeclared hc)
    obtain rfl := Option.some.inj ((hkept hc hi).symm.trans hi₂)
    exact hm'.unique (h.mapped hm)

end ColumnAtlas.Workspace
