import ColumnAtlas.Proofs.PhysicalRoute

namespace ColumnAtlas

namespace Workspace

variable {w : Workspace} {id : ClassId} {c : ClassDecl} {f : FieldDecl}

theorem walk_length {segments : List String} {className : String} {route : Route}
    (h : w.walk className segments = .ok route) : route.length = segments.length := by
  induction segments generalizing className route with
  | nil =>
    obtain rfl := Except.ok.inj h
    rfl
  | cons field rest ih =>
    obtain ⟨_, _, _, tail, _, _, _, _, htail, hcolumns, _⟩ := walk_cons_eq_ok h
    have hlength : tail.columns.length = rest.length := ih htail
    rw [Route.length, hcolumns, List.length_cons, List.length_cons, hlength]

theorem columnIndex?_of_cell? {i : CellId} (hi : w.schema.cache.cell? id = .ok (some i)) (field : String) :
    w.schema.cache.columnIndex? w.cells id field = .ok ((w.cells.mapping i).columnIndex? field) := by
  obtain ⟨g, hg, hcell⟩ := bind_eq_ok_iff.mp hi
  have hcell' : g.cell? id = some i := Except.ok.inj hcell
  refine bind_eq_ok_iff.mpr ⟨g, hg, ?_⟩
  simp only [Generation.columnIndex?, hcell']
  rfl

/-- The path of one segment from the table of a class leads to the declared field of that name. -/
theorem InStep.walk_declared (h : w.InStep) (hn : w.schema.needsRefresh = false)
    (hc : w.registry.declNamed? c.className = some c) {t : TableId}
    (ht : w.classTable? c.className = some t) {m : Mapping}
    (hm : c.Mapped w.storage w.database w.registry.settings m) (hf : f ∈ c.fields) :
    ∃ p table, m.get? f.name = some p ∧
      w.walk c.className [f.name] = .ok ⟨[p.index], [table], p.fieldType⟩ := by
  obtain ⟨_, m', hm', hmapped'⟩ := h.mappingOf hn hc
  obtain rfl := hmapped'.unique hm
  obtain ⟨hop, p, _, hget, hp⟩ := h.hop hm ht hf
  refine ⟨p, hop.table, hget, ?_⟩
  rw [walk_cons hm' hget hp.across]
  simp [walk, Except.map, Function.comp_def]

end Workspace

/-- A declared field is found under its name by a path exactly if the name is a single segment, and
then the path leads to the column that is looked up by the name. -/
theorem resolve_declared_iff {s : Storage} {cells : CellStore} {d : DatabaseId} {r : Registry}
    {first : Int} {w : Workspace} (h : Opening s d r) (hl : s.LinksInside d)
    (hw : Workspace.start s cells d r first = .ok w) (changes : List Change)
    (hn : (w.run changes).schema.needsRefresh = false) {id : ClassId} {c : ClassDecl}
    (hc : (w.run changes).registry.decl? id = some c) {f : FieldDecl} (hf : f ∈ c.fields) :
    ∃ t i index, (w.run changes).table? c.className = some t ∧
      (w.run changes).schema.cache.cell? id = .ok (some i) ∧
      (w.run changes).schema.cache.columnIndex? (w.run changes).cells id f.name = .ok (some index) ∧
      ((∃ route, (w.run changes).resolve t f.name [((w.run changes).cells.mapping i).columnType f.name] =
            .ok route ∧ route.columns = [index] ∧
          route.finalType = ((w.run changes).cells.mapping i).columnType f.name) ↔
        f.name ≠ "" ∧ FieldPath.separator ∉ f.name.toList) := by
  have hstep := (Workspace.InStep.start h hl hw).run changes
  generalize w.run changes = w at *
  obtain ⟨hnamed, t, i, ht, htable, hi, hm⟩ := hstep.registered hn hc
  obtain ⟨p, table, hget, hwalk⟩ := hstep.walk_declared hn hnamed ht hm hf
  have hindex : (w.cells.mapping i).columnIndex? f.name = some p.index := by
    rw [Mapping.columnIndex?, hget]
    rfl
  have htype : (w.cells.mapping i).columnType f.name = p.fieldType := by
    rw [Mapping.columnType, hget]
  refine ⟨t, i, p.index, htable, hi, by rw [Workspace.columnIndex?_of_cell? hi, hindex], ?_⟩
  rw [htype]
  constructor
  · rintro ⟨route, hr, hcolumns, _⟩
    obtain ⟨segments, hsegments, hwalk', _⟩ := Workspace.resolve_eq_ok_iff.mp hr
    have hlength : segments.length = 1 := by
      rw [← Workspace.walk_length hwalk', Route.length, hcolumns]
      rfl
    obtain ⟨segment, rfl⟩ := List.length_eq_one_iff.mp hlength
    exact (FieldPath.parse_eq_singleton_iff.mp hsegments).2
  · intro hname
    refine ⟨⟨[p.index], [table], p.fieldType⟩, Workspace.resolve_eq_ok_iff.mpr
      ⟨[f.name], FieldPath.parse_eq_singleton_iff.mpr ⟨rfl, hname⟩, ?_, ?_⟩, rfl, rfl⟩
    · rw [hstep.className_of_classTable? ht]
      exact hwalk
    · exact List.mem_singleton_self _

theorem shelf_resolve_declared : ∃ w, Workspace.start shelf .empty ⟨0⟩ shelfClasses 1 = .ok w ∧
    (w.run shelfChanges).schema.needsRefresh = false ∧
    ∃ t i index, (w.run shelfChanges).table? "Book" = some t ∧
      (w.run shelfChanges).schema.cache.cell? ⟨1⟩ = .ok (some i) ∧
      (w.run shelfChanges).schema.cache.columnIndex? (w.run shelfChanges).cells ⟨1⟩ "author" =
        .ok (some index) ∧
      ∃ route, (w.run shelfChanges).resolve t "author"
          [((w.run shelfChanges).cells.mapping i).columnType "author"] = .ok route ∧
        route.columns = [index] ∧
        route.finalType = ((w.run shelfChanges).cells.mapping i).columnType "author" := by
  obtain ⟨w, hw, hn, hc⟩ : ∃ w, Workspace.start shelf .empty ⟨0⟩ shelfClasses 1 = .ok w ∧
      (w.run shelfChanges).schema.needsRefresh = false ∧ (w.run shelfChanges).registry.decl? ⟨1⟩ =
        some ⟨"Book", [.column "title" .string, .link "author" .object "Writer"]⟩ := ⟨_, rfl, rfl, rfl⟩
  obtain ⟨t, i, index, ht, hi, hindex, hiff⟩ := resolve_declared_iff shelf_opening
    (by decide +kernel) hw shelfChanges hn hc (f := .link "author" .object "Writer") (by decide)
  exact ⟨w, hw, hn, t, i, index, ht, hi, hindex, hiff.mpr (by decide)⟩

/-- A table of places, where the name of a column looks like a path. -/
def atlas : Storage :=
  Storage.empty.run [.openDatabase "main" "class_", .createTable ⟨0⟩ "Place",
    .addColumn ⟨0⟩ "geo.lat" .double]

def atlasClasses : Registry :=
  (Registry.new .default).run [.register ⟨"Place", [.column "geo.lat" .double]⟩]

/-- The cache has the column of a place that no path leads to. -/
theorem atlas_not_resolved : Opening atlas ⟨0⟩ atlasClasses ∧ atlas.LinksInside ⟨0⟩ ∧
    ∃ w, Workspace.start atlas .empty ⟨0⟩ atlasClasses 1 = .ok w ∧ w.schema.needsRefresh = false ∧
    w.registry.decl? ⟨0⟩ = some ⟨"Place", [.column "geo.lat" .double]⟩ ∧
    w.table? "Place" = some ⟨0⟩ ∧
    w.schema.cache.columnIndex? w.cells ⟨0⟩ "geo.lat" = .ok (some 0) ∧
    (∃ i, w.schema.cache.cell? ⟨0⟩ = .ok (some i) ∧
      (w.cells.mapping i).columnType "geo.lat" = .double) ∧
    w.resolve ⟨0⟩ "geo.lat" [.double] = .error (.argument (.fieldNotFound "Place" "geo")) :=
  ⟨⟨⟨_, rfl⟩, by decide +kernel, ⟨_, _, rfl⟩, rfl⟩, by decide +kernel, _, rfl, rfl, rfl, rfl, rfl,
    ⟨_, rfl, rfl⟩, rfl⟩

end ColumnAtlas
