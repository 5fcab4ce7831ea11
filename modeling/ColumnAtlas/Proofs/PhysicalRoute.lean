import ColumnAtlas.Proofs.SchemaInStep
import ColumnAtlas.Route

namespace ColumnAtlas

/-- What a field of a stored table is: the position and the type of a column, and the table on the
other side of a link or backlink. -/
structure Hop where
  index : Int
  fieldType : FieldType
  table : Option TableId

def Hop.before (hop : Hop) (route : Route) : Route :=
  ⟨hop.index :: route.columns, hop.table :: route.tables, route.finalType⟩

/-- A placement that is looked up by the names of classes says what a hop found in the tables. -/
structure Hop.Matches (hop : Hop) (w : Workspace) (className field : String) (p : Placement) : Prop where
  index : p.index = hop.index
  fieldType : p.fieldType = hop.fieldType
  across : w.across className field p =
    .ok (hop.table.map fun u => ((w.storage.table u).className, u))
  relationship : hop.fieldType.isRelationship = hop.table.isSome
  stored : ∀ u, hop.table = some u → ∃ name, w.storage.tableNamed? w.database name = some u

namespace Workspace

/-- A declared field as the stored tables have it. A link leads to the table that its column points
at, whatever the name of that table; a backlink leads to the table of its source class. -/
def hop? (w : Workspace) (t : TableId) (f : FieldDecl) : Option Hop :=
  match f.backlink with
  | some b => do
    let source ← w.storage.classTable? w.database b.sourceClass
    let index ← (w.storage.table source).columnIndex? b.sourceField
    return ⟨index, .backlink, some source⟩
  | none => do
    let index ← (w.storage.table t).columnIndex? f.name
    let found := (w.storage.table t).columnType index
    if found.isLink then
      let target ← w.storage.linkTarget? t index
      return ⟨index, found, some target⟩
    else return ⟨index, found, none⟩

/-- Walks the segments of a path from one stored table to the next. There is no result where a
declared field has no counterpart in the tables. -/
def physicalWalk (w : Workspace) : TableId → List String → Option (Except Error Route)
  | _, [] => some (.ok ⟨[], [], .unsupported⟩)
  | t, field :: rest =>
    let className := (w.storage.table t).className
    match w.registry.declNamed? className with
    | none => some (.error (.argument (.unknownClass className)))
    | some c =>
      match c.fields.find? fun f => f.name = field with
      | none => some (.error (.argument (.fieldNotFound className field)))
      | some f => do
        let hop ← w.hop? t f
        if rest.isEmpty then return .ok ⟨[hop.index], [hop.table], hop.fieldType⟩
        if !hop.fieldType.isRelationship then
          return .error (.argument (.notALink className field hop.fieldType))
        let next ← hop.table
        (w.physicalWalk next rest).map (Except.map hop.before)

/-- Walks a field path from a stored table to a field of one of the given types. -/
def physicalResolve (w : Workspace) (t : TableId) (path : String) (types : List FieldType) :
    Option (Except Error Route) :=
  match FieldPath.parse path with
  | .error e => some (.error e)
  | .ok segments => (w.physicalWalk t segments).map fun result => result.bind fun route =>
    if types.contains route.finalType then .ok route
    else .error (.argument (.unexpectedType path route.finalType types))

variable {w : Workspace}

theorem InStep.mappingOf (h : w.InStep) (hn : w.schema.needsRefresh = false) {className : String}
    {c : ClassDecl} (hc : w.registry.declNamed? className = some c) :
    c.className = className ∧ ∃ m, w.mappingOf className = .ok m ∧
      c.Mapped w.storage w.database w.registry.settings m := by
  obtain ⟨id, hid, hdecl⟩ := Option.bind_eq_some_iff.mp hc
  obtain ⟨c', hc', hname, _⟩ := h.registry.declNamed? hid
  obtain rfl := Option.some.inj (hdecl.symm.trans hc')
  obtain ⟨g, hg, hbuilt⟩ := h.current hn
  obtain ⟨i, hi, hmapped⟩ := hbuilt.cell hdecl
  have hcell : w.schema.cache.cell? id = .ok (some i) := by
    simp only [Cache.cell?, Cache.generation, hg, bind, Except.bind, hi, pure, Except.pure]
  exact ⟨hname, w.cells.mapping i, by simp only [Workspace.mappingOf, hid, hcell], hmapped⟩

theorem Live.mappingOf_of_unknown (h : w.Live) {className : String}
    (hc : w.registry.declNamed? className = none) :
    w.mappingOf className = .error (.argument (.unknownClass className)) := by
  cases hid : w.registry.classId? className with
  | none => simp only [Workspace.mappingOf, hid]
  | some id =>
    obtain ⟨c, _, _, hdecl⟩ := h.registry.declNamed? hid
    rw [hc] at hdecl
    cases hdecl

section Fields

variable {c : ClassDecl} {m : Mapping} {f : FieldDecl} {t : TableId}

theorem InStep.hop_column (h : w.InStep) (hm : c.Mapped w.storage w.database w.registry.settings m)
    (ht : w.classTable? c.className = some t) (hf : f ∈ c.fields) (hb : f.backlink = none) :
    ∃ hop p, w.hop? t f = some hop ∧ m.get? f.name = some p ∧ hop.Matches w c.className f.name p := by
  obtain ⟨t', index, linked, ht', hi, hlinks, hget⟩ := hm.forward hf hb
  obtain rfl := Option.some.inj (ht.symm.trans ht')
  have hrelationship := (h.storage.tables t).isRelationship_columnType index
  by_cases hlink : ((w.storage.table t).columnType index).isLink
  · rw [Storage.Links, if_pos hlink] at hlinks
    obtain ⟨u, hu, rfl⟩ := hlinks
    obtain ⟨name, hname⟩ := h.linksInside.linkTarget? h.storage ht hu
    have htarget := h.classTable?_of_tableNamed? hname
    refine ⟨⟨index, (w.storage.table t).columnType index, some u⟩, _, ?_, hget, rfl, rfl, ?_, ?_, ?_⟩
    · simp [hop?, hb, hi, hlink, hu]
    · simp [across, Placement.column, hrelationship, hlink, htarget]
    · simp [hrelationship, hlink]
    · rintro _ ⟨⟩
      exact ⟨name, hname⟩
  · rw [Storage.Links, if_neg hlink] at hlinks
    subst hlinks
    refine ⟨⟨index, (w.storage.table t).columnType index, none⟩, _, ?_, hget, rfl, rfl, rfl, ?_, ?_⟩
    · simp [hop?, hb, hi, hlink]
    · simp [hrelationship, hlink]
    · intro u hu
      cases hu

theorem InStep.hop_backlink (h : w.InStep) (hm : c.Mapped w.storage w.database w.registry.settings m)
    (hf : f ∈ c.fields) {b : BacklinkDecl} (hb : f.backlink = some b) :
    ∃ hop p, w.hop? t f = some hop ∧ m.get? f.name = some p ∧ hop.Matches w c.className f.name p := by
  obtain ⟨source, index, hsource, hi, hget⟩ := hm.backward hf hb
  have hclass : w.classTable? b.sourceClass = some source := hsource
  have hstored : w.storage.classTable? w.database b.sourceClass = some source :=
    (h.classTable?_eq b.sourceClass).symm.trans hclass
  have hname : (w.storage.table source).className = b.sourceClass :=
    (tableNameOf_inj.mp (h.storage.keyed w.database _ source hstored).1).symm
  refine ⟨⟨index, .backlink, some source⟩, _, ?_, hget, rfl, rfl, ?_, rfl, ?_⟩
  · simp [hop?, hb, hstored, hi]
  · simp [across, Placement.backlink, FieldType.isRelationship, hclass, hname]
  · rintro _ ⟨⟩
    exact ⟨_, hstored⟩

/-- Every declared field is found in the tables as it is in the mapping of its class. -/
theorem InStep.hop (h : w.InStep) (hm : c.Mapped w.storage w.database w.registry.settings m)
    (ht : w.classTable? c.className = some t) (hf : f ∈ c.fields) :
    ∃ hop p, w.hop? t f = some hop ∧ m.get? f.name = some p ∧ hop.Matches w c.className f.name p := by
  cases hb : f.backlink with
  | none => exact h.hop_column hm ht hf hb
  | some b => exact h.hop_backlink hm hf hb

end Fields

section Steps

variable {className field : String} {rest : List String} {t : TableId} {c : ClassDecl} {f : FieldDecl}

theorem walk_cons {m : Mapping} {p : Placement} {next : Option (String × TableId)}
    (hm : w.mappingOf className = .ok m) (hp : m.get? field = some p)
    (hnext : w.across className field p = .ok next) : w.walk className (field :: rest) =
      if !rest.isEmpty ∧ !p.fieldType.isRelationship then
        .error (.argument (.notALink className field p.fieldType))
      else (w.walk ((next.map Prod.fst).getD className) rest).map fun route =>
        ⟨p.index :: route.columns, next.map Prod.snd :: route.tables,
          if rest.isEmpty then p.fieldType else route.finalType⟩ := by
  simp only [walk, hm, hp, hnext, bind, Except.bind, pure, Except.pure, Except.map]
  split
  next => rfl
  next => rfl

/-- A walk along a first segment goes across the field that the mapping of the class has there. -/
theorem walk_cons_eq_ok {route : Route} (h : w.walk className (field :: rest) = .ok route) :
    ∃ m p next tail, w.mappingOf className = .ok m ∧ m.get? field = some p ∧
      (rest = [] ∨ p.fieldType.isRelationship) ∧ w.across className field p = .ok next ∧
      w.walk ((next.map Prod.fst).getD className) rest = .ok tail ∧
      route.columns = p.index :: tail.columns ∧ route.tables = next.map Prod.snd :: tail.tables := by
  rw [walk] at h
  obtain ⟨m, hm, h⟩ := bind_eq_ok_iff.mp h
  cases hp : m.get? field with
  | none =>
    rw [hp] at h
    cases h
  | some p =>
    simp only [hp] at h
    split at h
    next => cases h
    next hgoes =>
      obtain ⟨next, hnext, h⟩ := bind_eq_ok_iff.mp h
      obtain ⟨tail, htail, h⟩ := bind_eq_ok_iff.mp h
      obtain rfl := Except.ok.inj h
      have hgoes' : rest = [] ∨ p.fieldType.isRelationship := by
        simpa [Decidable.or_iff_not_imp_left] using hgoes
      exact ⟨m, p, next, tail, hm, hp, hgoes', hnext, htail, rfl, rfl⟩

theorem resolve_eq_ok_iff {path : String} {types : List FieldType} {route : Route} :
    w.resolve t path types = .ok route ↔ ∃ segments, FieldPath.parse path = .ok segments ∧
      w.walk (w.storage.table t).className segments = .ok route ∧ route.finalType ∈ types := by
  unfold resolve
  simp only [bind_eq_ok_iff]
  constructor
  · rintro ⟨segments, hsegments, found, hwalk, h⟩
    split at h
    next htype =>
      obtain rfl := Except.ok.inj h
      exact ⟨segments, hsegments, hwalk, by simpa using htype⟩
    next => cases h
  · rintro ⟨segments, hsegments, hwalk, htype⟩
    exact ⟨segments, hsegments, route, hwalk, if_pos (by simpa using htype)⟩

theorem physicalWalk_cons {hop : Hop}
    (hc : w.registry.declNamed? (w.storage.table t).className = some c)
    (hf : (c.fields.find? fun f => f.name = field) = some f) (hhop : w.hop? t f = some hop) :
    w.physicalWalk t (field :: rest) =
      if rest.isEmpty then some (.ok ⟨[hop.index], [hop.table], hop.fieldType⟩)
      else if !hop.fieldType.isRelationship then
        some (.error (.argument (.notALink (w.storage.table t).className field hop.fieldType)))
      else hop.table.bind fun next => (w.physicalWalk next rest).map (Except.map hop.before) := by
  simp only [physicalWalk, hc, hf, hhop, Option.bind_eq_bind, Option.bind_some, Option.pure_def]

end Steps

/-- From any stored table, the names of classes lead along a path as the tables themselves do. -/
theorem InStep.physicalWalk_eq (h : w.InStep) (hn : w.schema.needsRefresh = false)
    (segments : List String) {name : String} {t : TableId}
    (ht : w.storage.tableNamed? w.database name = some t) :
    w.physicalWalk t segments = some (w.walk (w.storage.table t).className segments) := by
  -- Both walks stand at the same stored table, and a link or backlink leads both to the same next one.
  induction segments generalizing name t with
  | nil => rfl
  | cons field rest ih =>
    cases hc : w.registry.declNamed? (w.storage.table t).className with
    | none =>
      simp only [physicalWalk, hc, walk, h.mappingOf_of_unknown hc, bind, Except.bind]
    | some c =>
      obtain ⟨hname, m, hmapping, hm⟩ := h.mappingOf hn hc
      cases hf : c.fields.find? fun f => f.name = field with
      | none =>
        simp only [physicalWalk, hc, hf, walk, hmapping, hm.get?_eq_none hf, bind, Except.bind]
        rfl
      | some f =>
        obtain rfl : f.name = field := by simpa using List.find?_some hf
        have ht' : w.classTable? c.className = some t := by
          rw [hname]
          exact h.classTable?_of_tableNamed? ht
        obtain ⟨hop, p, hhop, hget, hp⟩ := h.hop hm ht' (List.mem_of_find?_eq_some hf)
        rw [physicalWalk_cons hc hf hhop, walk_cons hmapping hget (hname ▸ hp.across), hp.index,
          hp.fieldType]
        cases rest with
        | nil => simp [walk, Except.map, Function.comp_def]
        | cons next rest =>
          cases hr : hop.fieldType.isRelationship with
          | false => simp
          | true =>
            obtain ⟨u, hu⟩ := Option.isSome_iff_exists.mp (hp.relationship.symm.trans hr)
            obtain ⟨name', hname'⟩ := hp.stored u hu
            have hbefore : hop.before = fun route =>
                ⟨hop.index :: route.columns, some u :: route.tables, route.finalType⟩ :=
              funext fun route => by rw [Hop.before, hu]
            simp [hu, ih hname', hbefore]

theorem InStep.physicalResolve_eq (h : w.InStep) (hn : w.schema.needsRefresh = false) {name : String}
    {t : TableId} (ht : w.storage.tableNamed? w.database name = some t) (path : String)
    (types : List FieldType) : w.physicalResolve t path types = some (w.resolve t path types) := by
  unfold physicalResolve resolve
  cases FieldPath.parse path with
  | error e => rfl
  | ok segments =>
    simp only [h.physicalWalk_eq hn segments ht, Option.map_some, bind, Except.bind]
    rfl

end Workspace

/-- Unless a refresh is due, a path is resolved to where the stored tables lead. -/
theorem resolve_eq_physicalResolve {s : Storage} {cells : CellStore} {d : DatabaseId} {r : Registry}
    {first : Int} {w : Workspace} (h : Opening s d r) (hl : s.LinksInside d)
    (hw : Workspace.start s cells d r first = .ok w) (changes : List Change)
    (hn : (w.run changes).schema.needsRefresh = false) (className : String) {t : TableId}
    (ht : (w.run changes).table? className = some t) (path : String) (types : List FieldType) :
    (w.run changes).physicalResolve t path types = some ((w.run changes).resolve t path types) := by
  obtain ⟨_, _, hname⟩ := Option.bind_eq_some_iff.mp ht
  exact ((Workspace.InStep.start h hl hw).run changes).physicalResolve_eq hn hname path types

theorem shelf_resolve_eq : ∃ w, Workspace.start shelf .empty ⟨0⟩ shelfClasses 1 = .ok w ∧
    (w.run shelfChanges).schema.needsRefresh = false ∧ ∃ t, (w.run shelfChanges).table? "Writer" = some t ∧
    (w.run shelfChanges).physicalResolve t "books.author.name" [.string] =
      some ((w.run shelfChanges).resolve t "books.author.name" [.string]) :=
  ⟨_, rfl, by decide +kernel, ⟨0⟩, by decide +kernel, resolve_eq_physicalResolve shelf_opening
    (by decide +kernel) rfl shelfChanges (by decide +kernel) "Writer" (by decide +kernel) _ _⟩

end ColumnAtlas
