import ColumnAtlas.Proofs.SchemaInStep

namespace ColumnAtlas

def FieldSummary.mapClasses (σ : String → String) (f : FieldSummary) : FieldSummary :=
  { f with linkedClass := f.linkedClass.map σ }

/-- Applies a function to the name of a class and to the classes that its fields link to. -/
def ClassSummary.mapClasses (σ : String → String) (c : ClassSummary) : ClassSummary :=
  ⟨σ c.className, c.fields.map (FieldSummary.mapClasses σ)⟩

def ClassSummary.Mentions (c : ClassSummary) (className : String) : Prop :=
  c.className = className ∨ ∃ f ∈ c.fields, f.linkedClass = some className

def Placement.Mentions (p : Placement) (className : String) : Prop :=
  p.linkedClass = some className ∨ ∃ b, p.source = some b ∧ b.className = className

def Mapping.Mentions (m : Mapping) (className : String) : Prop :=
  m.className = className ∨ ∃ field p, m.get? field = some p ∧ p.Mentions className

section MapClasses

variable {σ : String → String}

theorem FieldSummary.mapClasses_eq_self {f : FieldSummary}
    (h : ∀ n, f.linkedClass = some n → σ n = n) : f.mapClasses σ = f := by
  obtain ⟨name, fieldType, linkedClass⟩ := f
  cases linkedClass with
  | none => rfl
  | some n => simp [mapClasses, h n rfl]

theorem ClassSummary.mapClasses_eq_self {c : ClassSummary} (h : ∀ n, c.Mentions n → σ n = n) :
    c.mapClasses σ = c := by
  have hfields : c.fields.map (FieldSummary.mapClasses σ) = c.fields := by
    refine (List.map_congr_left fun f hf => ?_).trans (List.map_id c.fields)
    exact FieldSummary.mapClasses_eq_self fun n hn => h n (.inr ⟨f, hf, hn⟩)
  rw [mapClasses, h _ (.inl rfl), hfields]

theorem Placement.mapClasses_eq_self {p : Placement} (h : ∀ n, p.Mentions n → σ n = n) :
    p.mapClasses σ = p := by
  obtain ⟨index, fieldType, linkedClass, source⟩ := p
  have hlinked : linkedClass.map σ = linkedClass := by
    cases linkedClass with
    | none => rfl
    | some n => exact congrArg some (h n (.inl rfl))
  have hsource : (source.map fun b => { b with className := σ b.className }) = source := by
    cases source with
    | none => rfl
    | some b =>
      have hb : σ b.className = b.className := h _ (.inr ⟨b, rfl, rfl⟩)
      rw [Option.map_some, hb]
  rw [mapClasses, hlinked, hsource]

theorem Mapping.mapClasses_eq_self {m : Mapping} (h : ∀ n, m.Mentions n → σ n = n) :
    m.mapClasses σ = m := by
  have hfields : m.fields.map (fun _ p => p.mapClasses σ) = m.fields := by
    apply SortedMap.eq_of_get?
    intro field
    rw [SortedMap.get?_map]
    cases hp : m.fields.get? field with
    | none => rfl
    | some p => exact congrArg some (Placement.mapClasses_eq_self fun n hn => h n (.inr ⟨field, p, hp, hn⟩))
  rw [mapClasses, h _ (.inl rfl), hfields]

end MapClasses

def ClassDecl.backlinks (c : ClassDecl) : List FieldSummary :=
  c.fields.filterMap fun f => f.backlink.map fun b => ⟨f.name, .backlink, some b.sourceClass⟩

theorem ClassDecl.backlinks_mapClasses (σ : String → String) (c : ClassDecl) :
    (c.mapClasses σ).backlinks = c.backlinks.map (FieldSummary.mapClasses σ) := by
  rw [backlinks, backlinks, mapClasses, List.filterMap_map, List.map_filterMap]
  congr 1
  funext f
  simp only [Function.comp, FieldDecl.mapClasses, Option.map_map]
  rfl

/-- The columns of a shown table are shown with the new names of the classes that they link to. -/
theorem Storage.Shows.columnsOf {s s' : Storage} {d : DatabaseId} {settings : Settings}
    {σ : String → String} {className : String} {t : TableId} (h : s.Shows s' d settings σ className)
    (ht : s.tableNamed? d (settings.tableName className) = some t)
    (halive : ∀ c ∈ (s.table t).columns, ∀ u, c.target = some u → s.isAlive u) :
    s'.columnsOf t = (s.columnsOf t).map fun f => (f.1, f.2.1, f.2.2.map σ) := by
  obtain ⟨_, hcolumns, htargets⟩ := h t ht
  rw [Storage.columnsOf, Storage.columnsOf, hcolumns, List.map_map]
  refine List.map_congr_left fun c hc => ?_
  cases hu : c.target with
  | none => simp [hu]
  | some u =>
    have hu' := halive c hc u hu
    obtain ⟨halive', hclass⟩ := htargets c hc u hu hu'
    simp [hu, Option.filter_some, hu', halive', hclass]

namespace Workspace

variable {w : Workspace} {className : String} {c : ClassDecl} {t : TableId}

def summary (w : Workspace) (className : String) (c : ClassDecl) (t : TableId) : ClassSummary :=
  ⟨className, (w.storage.columnsOf t).map (fun f => ⟨f.1, f.2.1, f.2.2⟩) ++ c.backlinks⟩

theorem describe?_eq (w : Workspace) (className : String) : w.describe? className =
    (w.registry.declNamed? className).bind fun c =>
      (w.classTable? className).map (w.summary className c) := by
  unfold describe?
  cases w.registry.declNamed? className with
  | none => rfl
  | some c => cases w.classTable? className <;> rfl

theorem InStep.classTable?_exists (h : w.InStep) (hc : w.registry.declNamed? className = some c) :
    ∃ t, w.classTable? className = some t := by
  obtain ⟨id, hdecl, rfl⟩ := h.decl?_of_declNamed? hc
  obtain ⟨m, hm⟩ := h.builds id c hdecl
  obtain ⟨t, ht, _⟩ := hm.placed
  exact ⟨t, ht⟩

theorem InStep.target (h : w.InStep) (ht : w.classTable? className = some t) {column : Column}
    (hc : column ∈ (w.storage.table t).columns) {u : TableId} (hu : column.target = some u) :
    w.storage.isAlive u ∧ w.classTable? (w.storage.table u).className = some u := by
  obtain ⟨name, hname⟩ := h.linksInside.stored h.storage ht hc hu
  exact ⟨Storage.isAlive_of_tableNamed? hname, h.classTable?_of_tableNamed? hname⟩

/-- A mapping mentions only classes that have a table. -/
theorem InStep.classTable?_of_mentions (h : w.InStep) {m : Mapping}
    (hm : c.Mapped w.storage w.database w.registry.settings m) (hn : m.Mentions className) :
    ∃ t, w.classTable? className = some t := by
  rcases hn with rfl | ⟨field, p, hp, hn⟩
  · obtain ⟨t, ht, _⟩ := hm.placed
    exact ⟨t, hm.className ▸ ht⟩
  · obtain ⟨f, hf, rfl⟩ := hm.declared field p hp
    cases hb : f.backlink with
    | none =>
      obtain ⟨t, index, linked, ht, _, hlinks, hget⟩ := hm.forward hf hb
      obtain rfl := Option.some.inj (hget.symm.trans hp)
      rcases hn with hlinked | ⟨b, hb', _⟩
      · obtain rfl : linked = some className := hlinked
        unfold Storage.Links at hlinks
        split at hlinks
        next =>
          obtain ⟨u, hu, hclass⟩ := hlinks
          exact ⟨u, Option.some.inj hclass ▸ h.classTable?_of_linkTarget? ht hu⟩
        next => cases hlinks
      · cases hb'
    | some b =>
      obtain ⟨source, index, hsource, _, hget⟩ := hm.backward hf hb
      obtain rfl := Option.some.inj (hget.symm.trans hp)
      have hclass : b.sourceClass = className := by
        rcases hn with hlinked | ⟨b', hb', hname⟩
        · exact Option.some.inj hlinked
        · exact (congrArg BacklinkSource.className (Option.some.inj hb')).trans hname
      exact ⟨source, hclass ▸ hsource⟩

theorem InStep.classTable?_of_describe? (h : w.InStep) {summary : ClassSummary} {n : String}
    (hs : w.describe? className = some summary) (hn : summary.Mentions n) :
    ∃ t, w.classTable? n = some t := by
  rw [describe?_eq] at hs
  obtain ⟨c, hc, hs⟩ := Option.bind_eq_some_iff.mp hs
  obtain ⟨t, ht, rfl⟩ := Option.map_eq_some_iff.mp hs
  rcases hn with rfl | ⟨f, hf, hlinked⟩
  · exact ⟨t, ht⟩
  · rcases List.mem_append.mp hf with hcolumn | hbacklink
    · simp only [Storage.columnsOf, List.map_map] at hcolumn
      obtain ⟨column, hcol, rfl⟩ := List.mem_map.mp hcolumn
      obtain ⟨u, hu, hclass⟩ := Option.map_eq_some_iff.mp hlinked
      have htarget := (Option.filter_eq_some_iff.mp hu).1
      exact ⟨u, hclass ▸ (h.target ht hcol htarget).2⟩
    · obtain ⟨g, hg, hfield⟩ := List.mem_filterMap.mp hbacklink
      obtain ⟨b, hb, rfl⟩ := Option.map_eq_some_iff.mp hfield
      obtain ⟨id, hdecl, _⟩ := h.decl?_of_declNamed? hc
      obtain ⟨m, hm⟩ := h.builds id c hdecl
      obtain ⟨source, _, hsource, _⟩ := hm.backward hg hb
      exact ⟨source, Option.some.inj hlinked ▸ hsource⟩

end Workspace

end ColumnAtlas
