import ColumnAtlas.Proofs.BuiltMapping

namespace ColumnAtlas

/-- The table of a class is also the table of the renamed class in another storage, with the same
columns, and what these link to is alive there under its new name. -/
def Storage.Shows (s s' : Storage) (d : DatabaseId) (settings : Settings) (σ : String → String)
    (className : String) : Prop :=
  ∀ t, s.tableNamed? d (settings.tableName className) = some t →
    s'.tableNamed? d (settings.tableName (σ className)) = some t ∧
    (s'.table t).columns = (s.table t).columns ∧
    ∀ c ∈ (s.table t).columns, ∀ u, c.target = some u → s.isAlive u →
      s'.isAlive u ∧ (s'.table u).className = σ (s.table u).className

/-- The classes whose tables a mapping is read from. -/
def ClassDecl.reads (c : ClassDecl) : List String :=
  c.className :: c.fields.filterMap fun f => f.backlink.map BacklinkDecl.sourceClass

theorem ClassDecl.className_mem_reads (c : ClassDecl) : c.className ∈ c.reads :=
  List.mem_cons_self

theorem ClassDecl.sourceClass_mem_reads {c : ClassDecl} {f : FieldDecl} {b : BacklinkDecl}
    (hf : f ∈ c.fields) (hb : f.backlink = some b) : b.sourceClass ∈ c.reads :=
  List.mem_cons_of_mem _ (List.mem_filterMap.mpr ⟨f, hf, by rw [hb]; rfl⟩)

namespace Table

variable {t t' : Table}

theorem columnIndex?_congr (h : t'.columns = t.columns) (name : String) :
    t'.columnIndex? name = t.columnIndex? name := by
  unfold columnIndex?
  rw [h]

theorem columnAt?_congr (h : t'.columns = t.columns) (i : Int) : t'.columnAt? i = t.columnAt? i := by
  unfold columnAt?
  rw [h]

theorem columnType_congr (h : t'.columns = t.columns) (i : Int) :
    t'.columnType i = t.columnType i := by
  unfold columnType
  rw [columnAt?_congr h]

theorem targetAt?_congr (h : t'.columns = t.columns) (i : Int) : t'.targetAt? i = t.targetAt? i := by
  unfold targetAt?
  rw [columnAt?_congr h]

end Table

namespace Storage.Shows

variable {s s' : Storage} {d : DatabaseId} {settings : Settings} {σ : String → String}
  {className : String} {t u : TableId}

theorem linkTarget? (h : s.Shows s' d settings σ className)
    (ht : s.tableNamed? d (settings.tableName className) = some t) {i : Int}
    (hu : s.linkTarget? t i = some u) :
    s'.linkTarget? t i = some u ∧ (s'.table u).className = σ (s.table u).className := by
  obtain ⟨_, hcolumns, htargets⟩ := h t ht
  obtain ⟨hat, halive⟩ := linkTarget?_eq_some_iff.mp hu
  obtain ⟨c, hc, htarget⟩ := Option.bind_eq_some_iff.mp hat
  obtain ⟨halive', hclass⟩ := htargets c (Table.mem_columns_of_columnAt? hc) u htarget halive
  rw [linkTarget?_eq_some_iff, Table.targetAt?_congr hcolumns]
  exact ⟨⟨hat, halive'⟩, hclass⟩

theorem links (h : s.Shows s' d settings σ className)
    (ht : s.tableNamed? d (settings.tableName className) = some t) {i : Int} {linked : Option String}
    (hl : s.Links t i linked) : s'.Links t i (linked.map σ) := by
  unfold Links at hl ⊢
  rw [Table.columnType_congr (h t ht).2.1]
  split at hl
  next hlink =>
    obtain ⟨u, hu, rfl⟩ := hl
    obtain ⟨hu', hclass⟩ := h.linkTarget? ht hu
    rw [if_pos hlink]
    exact ⟨u, hu', by rw [hclass]; rfl⟩
  next hlink =>
    rw [if_neg hlink, hl]
    rfl

theorem trans {s'' : Storage} {τ : String → String} (h : s.Shows s' d settings σ className)
    (h' : s'.Shows s'' d settings τ (σ className)) : s.Shows s'' d settings (τ ∘ σ) className := by
  intro t ht
  obtain ⟨ht', hcolumns, htargets⟩ := h t ht
  obtain ⟨ht'', hcolumns', htargets'⟩ := h' t ht'
  refine ⟨ht'', hcolumns'.trans hcolumns, fun c hc u hu halive => ?_⟩
  obtain ⟨halive', hclass⟩ := htargets c hc u hu halive
  obtain ⟨halive'', hclass'⟩ := htargets' c (hcolumns ▸ hc) u hu halive'
  exact ⟨halive'', hclass'.trans (congrArg τ hclass)⟩

end Storage.Shows

namespace ClassDecl

variable {c : ClassDecl} {s s' : Storage} {d : DatabaseId} {settings : Settings}
  {σ : String → String} {m : Mapping}

theorem placement_transfer {t : TableId} {f : FieldDecl} {p : Placement}
    (hs : ∀ n ∈ c.reads, s.Shows s' d settings σ n)
    (ht : s.tableNamed? d (settings.tableName c.className) = some t) (hf : f ∈ c.fields)
    (hp : f.placement (c.builder d settings t) s = .ok p) :
    (f.mapClasses σ).placement ((c.mapClasses σ).builder d settings t) s' = .ok (p.mapClasses σ) := by
  unfold FieldDecl.placement at hp ⊢
  cases hb : f.backlink with
  | none =>
    have hb' : (f.mapClasses σ).backlink = none := by rw [FieldDecl.mapClasses, hb]; rfl
    rw [hb] at hp
    rw [hb']
    obtain ⟨index, linked, hi, htype, hlinks, rfl⟩ := MappingBuilder.columnPlacement_eq_ok_iff.mp hp
    have hshown := hs _ c.className_mem_reads
    have hcolumns := (hshown t ht).2.1
    refine MappingBuilder.columnPlacement_eq_ok_iff.mpr
      ⟨index, linked.map σ, ?_, ?_, hshown.links ht hlinks, ?_⟩
    · exact (Table.columnIndex?_congr hcolumns _).trans hi
    · intro hv
      exact (Table.columnType_congr hcolumns _).trans (htype hv)
    · have hct : (s'.table t).columnType index = (s.table t).columnType index :=
        Table.columnType_congr hcolumns _
      simp only [builder, Placement.mapClasses, Placement.column, Option.map_none, hct]
  | some b =>
    have hb' : (f.mapClasses σ).backlink = some { b with sourceClass := σ b.sourceClass } := by
      rw [FieldDecl.mapClasses, hb]
      rfl
    rw [hb] at hp
    rw [hb']
    obtain ⟨source, index, hsource, hi, hpoints, rfl⟩ := MappingBuilder.backlinkPlacement_eq_ok_iff.mp hp
    have hshown := hs _ (sourceClass_mem_reads hf hb)
    obtain ⟨hsource', hcolumns, _⟩ := hshown source hsource
    refine MappingBuilder.backlinkPlacement_eq_ok_iff.mpr ⟨source, index, hsource', ?_, ?_, rfl⟩
    · exact (Table.columnIndex?_congr hcolumns _).trans hi
    · intro hv
      obtain ⟨hlink, u, hu, hclass⟩ := hpoints hv
      obtain ⟨hu', hclass'⟩ := hshown.linkTarget? hsource hu
      exact ⟨(Table.columnType_congr hcolumns _).symm ▸ hlink, u, hu', hclass'.trans (congrArg σ hclass)⟩

/-- A mapping carries over to a storage that shows the tables it is read from. -/
theorem Mapped.transfer (h : c.Mapped s d settings m)
    (hs : ∀ n ∈ c.reads, s.Shows s' d settings σ n) :
    (c.mapClasses σ).Mapped s' d settings (m.mapClasses σ) := by
  obtain ⟨t, ht, hplaced⟩ := h.placed
  have hnames : (c.mapClasses σ).fields.map FieldDecl.name = c.fields.map FieldDecl.name := by
    simp [mapClasses, FieldDecl.mapClasses, Function.comp_def]
  refine ⟨congrArg σ h.className, hnames ▸ h.distinct, ⟨t, ?_, ?_⟩, ?_⟩
  · exact (hs _ c.className_mem_reads t ht).1
  · intro g hg
    obtain ⟨f, hf, rfl⟩ := List.mem_map.mp hg
    obtain ⟨p, hp, hget⟩ := hplaced f hf
    refine ⟨p.mapClasses σ, placement_transfer hs ht hf hp, ?_⟩
    rw [Mapping.get?_mapClasses]
    exact congrArg (Option.map (Placement.mapClasses σ)) hget
  · intro field p hp
    rw [Mapping.get?_mapClasses] at hp
    obtain ⟨q, hq, _⟩ := Option.map_eq_some_iff.mp hp
    obtain ⟨f, hf, hname⟩ := h.declared field q hq
    exact ⟨f.mapClasses σ, List.mem_map.mpr ⟨f, hf, rfl⟩, hname⟩

theorem Mapped.keep (h : c.Mapped s d settings m) (hs : ∀ n ∈ c.reads, s.Shows s' d settings id n) :
    c.Mapped s' d settings m := by
  have hk := h.transfer hs
  rwa [mapClasses_id, Mapping.mapClasses_id] at hk

end ClassDecl

end ColumnAtlas
