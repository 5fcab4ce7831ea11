import ColumnAtlas.Proofs.CachedHandles
import ColumnAtlas.Proofs.CarriedMappings
import ColumnAtlas.Proofs.ComposedPath
import ColumnAtlas.Proofs.DescribedFields

namespace ColumnAtlas

/-- A placement that says where a stored column is, or what a backlink reads from. -/
structure Placement.Sound (p : Placement) : Prop where
  index : 0 ≤ p.index
  stored : p.fieldType ≠ .unsupported
  linked : p.linkedClass.isSome ↔
    p.fieldType = .object ∨ p.fieldType = .list ∨ p.fieldType = .backlink
  backward : p.source.isSome ↔ p.fieldType = .backlink
  source : ∀ b, p.source = some b → p.linkedClass = some b.className

def Mapping.Sound (m : Mapping) : Prop := ∀ field p, m.get? field = some p → p.Sound

/-- The way of a path from a class, with the tables along it. Every relationship leads to the table
of the class that it is linked to, and only the last field can be one of plain values. -/
inductive Workspace.Trail (w : Workspace) : String → List String → List (Option TableId) → Prop
  | done (className : String) : Trail w className [] []
  | last {className field : String} {m : Mapping} {p : Placement}
      (hm : w.mappingOf className = .ok m) (hp : m.get? field = some p)
      (hr : p.fieldType.isRelationship = false) : Trail w className [field] [none]
  | across {className field target : String} {rest : List String} {m : Mapping} {p : Placement}
      {u : TableId} {tables : List (Option TableId)} (hm : w.mappingOf className = .ok m)
      (hp : m.get? field = some p) (hr : p.fieldType.isRelationship)
      (htarget : p.linkedClass = some target) (hu : w.classTable? target = some u)
      (hrest : Trail w target rest tables) : Trail w className (field :: rest) (some u :: tables)

/-- The mappings that a path is followed by are sound. Past a relationship it goes on from the class
that this is linked to, or stops for want of a table there. -/
structure Workspace.Guided (w : Workspace) : Prop where
  placed : ∀ className m, w.mappingOf className = .ok m → m.Sound
  onward : ∀ className field rest m p, w.mappingOf className = .ok m → m.get? field = some p →
    p.fieldType.isRelationship → rest ≠ [] → ∃ target, p.linkedClass = some target ∧
      w.walk className (field :: rest) =
        match w.classTable? target with
        | none =>
          let path := (w.storage.database w.database).path
          .error (.migration (.missingLinkTarget path className field))
        | some u => (w.walk target rest).map (Route.append ⟨[p.index], [some u], p.fieldType⟩)
  followed : ∀ t path types route, w.resolve t path types = .ok route →
    ∃ segments, FieldPath.parse path = .ok segments ∧
      w.Trail (w.storage.table t).className segments route.tables

theorem FieldType.isRelationship_iff {t : FieldType} :
    t.isRelationship ↔ t = .object ∨ t = .list ∨ t = .backlink := by
  cases t <;> decide

theorem Placement.Sound.target {p : Placement} (h : p.Sound) (hr : p.fieldType.isRelationship) :
    ∃ target, p.linkedClass = some target :=
  Option.isSome_iff_exists.mp (h.linked.mpr (FieldType.isRelationship_iff.mp hr))

theorem Table.columnIndex?_nonneg {t : Table} {name : String} {i : Int}
    (h : t.columnIndex? name = some i) : 0 ≤ i := by
  obtain ⟨k, _, rfl⟩ := Option.map_eq_some_iff.mp h
  exact Int.natCast_nonneg k

theorem Mapping.sound_empty (className : String) : (Mapping.empty className).Sound :=
  fun _ _ h => nomatch h

section Building

variable {s : Storage} {d : DatabaseId} {settings : Settings} {b : MappingBuilder} {m : Mapping}
  {cells : CellStore}

/-- A builder places a column with the type that the table has for it, whatever type was declared. -/
theorem FieldDecl.Placed.sound {f : FieldDecl} {p : Placement} (h : f.Placed b s p) (hs : s.Sound) :
    p.Sound := by
  cases h with
  | @column index linked _ hi _ hlinks =>
    obtain ⟨c, _, hc⟩ := Table.find?_of_columnIndex? hi
    have htype : (s.table b.table).columnType index = c.fieldType := by rw [Table.columnType, hc]
    obtain ⟨hforward, hstored⟩ :=
      (hs.tables b.table).storable c (Table.mem_columns_of_columnAt? hc)
    -- No column is a backlink, so only its links are relationships.
    have hlinked : linked.isSome ↔ ((s.table b.table).columnType index).isRelationship := by
      rw [(hs.tables b.table).isRelationship_columnType, Storage.Links] at *
      split at hlinks
      next hlink =>
        obtain ⟨u, _, rfl⟩ := hlinks
        exact iff_of_true rfl hlink
      next hlink =>
        rw [hlinks]
        exact iff_of_false Bool.false_ne_true hlink
    rw [htype] at hlinked ⊢
    refine ⟨Table.columnIndex?_nonneg hi, hstored, hlinked.trans FieldType.isRelationship_iff,
      iff_of_false Bool.false_ne_true hforward, fun b hb => ?_⟩
    cases hb
  | backlink _ _ hi _ =>
    have hstored : FieldType.backlink ≠ .unsupported := by decide
    refine ⟨Table.columnIndex?_nonneg hi, hstored, iff_of_true rfl (.inr (.inr rfl)),
      iff_of_true rfl rfl, fun b hb => ?_⟩
    obtain rfl := Option.some.inj hb
    rfl

theorem MappingBuilder.sound_start {className : String} (h : start s d settings className = .ok b) :
    b.mapping.Sound := by
  unfold start at h
  split at h
  next => cases h
  next =>
    obtain rfl := Except.ok.inj h
    exact Mapping.sound_empty className

theorem MappingBuilder.sound_attempt (hb : b.mapping.Sound) (hs : s.Sound) (f : FieldDecl) :
    (b.attempt s f).mapping.Sound := by
  rcases attempt_cases b s f with ⟨_, p, hp, heq⟩ | ⟨_, heq⟩
  · intro field q hq
    rw [heq, get?_record] at hq
    split at hq
    next =>
      obtain rfl := Option.some.inj hq
      exact (FieldDecl.placement_eq_ok_iff.mp hp).sound hs
    next => exact hb field q hq
  · rw [heq]
    exact hb

theorem ClassDecl.Mapped.sound {c : ClassDecl} (h : c.Mapped s d settings m) (hs : s.Sound) :
    m.Sound := by
  intro field p hp
  obtain ⟨f, hf, rfl⟩ := h.declared field p hp
  obtain ⟨t, _, hplaced⟩ := h.placed
  obtain ⟨q, hq, hget⟩ := hplaced f hf
  obtain rfl := Option.some.inj (hp.symm.trans hget)
  exact (FieldDecl.placement_eq_ok_iff.mp hq).sound hs

theorem Registry.sound_buildAll (hs : s.Sound) {es : List (ClassId × ClassDecl)}
    {ms : List (ClassId × Mapping)} (h : buildAll settings s d es = .ok ms) :
    ∀ e ∈ ms, e.2.Sound := by
  induction es generalizing ms with
  | nil =>
    obtain rfl := Except.ok.inj h
    exact nofun
  | cons e es ih =>
    obtain ⟨m, ms', hm, hms', rfl⟩ := buildAll_cons_eq_ok_iff.mp h
    intro e' he'
    rcases List.mem_cons.mp he' with rfl | he'
    · exact (ClassDecl.buildMapping_eq_ok_iff.mp hm).sound hs
    · exact ih hms' e' he'

theorem Registry.every_buildGeneration {r : Registry} {version : Int} {made : Generation × CellStore}
    (hs : s.Sound) (h : cells.Every Mapping.Sound)
    (hmade : r.buildGeneration s d version cells = .ok made) : made.2.Every Mapping.Sound := by
  obtain ⟨ms, hms, hmade⟩ := bind_eq_ok_iff.mp hmade
  obtain rfl := Except.ok.inj hmade
  refine h.new version fun e he => ?_
  obtain ⟨e', he', rfl⟩ := List.mem_map.mp he
  exact sound_buildAll hs hms e' he'

end Building

namespace Workspace

variable {w : Workspace} {className field : String} {m : Mapping} {p : Placement}

section Changes

variable (hs : w.storage.Sound) (h : w.cells.Every Mapping.Sound)

include hs h

theorem every_refresh (version : Int) : (w.refresh version).2.cells.Every Mapping.Sound := by
  unfold refresh
  dsimp only
  split
  next => exact h
  next next cache cells hsynced =>
    obtain ⟨⟨next', cells₁⟩, hbuilt, hsynced⟩ := bind_eq_ok_iff.mp hsynced
    obtain ⟨⟨cache', cells₂⟩, hsync, hsynced⟩ := bind_eq_ok_iff.mp hsynced
    cases hsynced
    have hbuilt' := Registry.every_buildGeneration hs h hbuilt
    have hupdated := (hbuilt'.syncCache hsync).updateCache cache' next' w.registry.naming
    split
    next hresult =>
      rw [hresult] at hupdated
      exact hupdated
    next hresult =>
      rw [hresult] at hupdated
      exact hupdated

/-- The changes of the classes leave the cells alone; a refresh fills them with what it builds. -/
theorem every_apply (change : Change) : (w.apply change).cells.Every Mapping.Sound := by
  cases change with
  | create c => exact (registers_create w c).2.1 ▸ h
  | remove className => exact (registers_remove w className).2.1 ▸ h
  | rename old new => exact (registers_rename w old new).2.1 ▸ h
  | refresh version => exact every_refresh hs h version

theorem sound_mappingOf (hm : w.mappingOf className = .ok m) : m.Sound := by
  unfold mappingOf at hm
  split at hm
  next => cases hm
  next =>
    split at hm
    next => cases hm
    next i _ =>
      obtain rfl := Except.ok.inj hm
      exact h i
    next =>
      obtain ⟨c, _, hmapped⟩ := Registry.buildMapping_eq_ok_iff.mp hm
      exact hmapped.sound hs

end Changes

theorem every_start {s : Storage} {cells : CellStore} {d : DatabaseId} {r : Registry} {version : Int}
    (hs : s.Sound) (h : cells.Every Mapping.Sound) (hw : start s cells d r version = .ok w) :
    w.cells.Every Mapping.Sound := by
  obtain ⟨⟨g, cells₁⟩, hbuilt, hw⟩ := bind_eq_ok_iff.mp hw
  obtain ⟨⟨cache, cells₂⟩, hcache, hw⟩ := bind_eq_ok_iff.mp hw
  obtain rfl := Except.ok.inj hw
  exact ((Registry.every_buildGeneration hs h hbuilt).snapshot g true).installed hcache

theorem across_of_not_relationship (hr : p.fieldType.isRelationship = false) :
    w.across className field p = .ok none := by
  unfold across
  cases p.linkedClass with
  | none => rfl
  | some target => rw [hr]; rfl

/-- A sound relationship is linked to a class, so a walk cannot pass it and stay where it is. -/
theorem walk_across {rest : List String} (hm : w.mappingOf className = .ok m)
    (hget : m.get? field = some p) (hp : p.Sound) (hr : p.fieldType.isRelationship)
    (hne : rest ≠ []) : ∃ target, p.linkedClass = some target ∧ w.walk className (field :: rest) =
      match w.classTable? target with
      | none =>
        let path := (w.storage.database w.database).path
        .error (.migration (.missingLinkTarget path className field))
      | some u => (w.walk target rest).map (Route.append ⟨[p.index], [some u], p.fieldType⟩) := by
  obtain ⟨target, htarget⟩ := hp.target hr
  refine ⟨target, htarget, ?_⟩
  cases hu : w.classTable? target with
  | some u =>
    have hnext : w.across className field p = .ok (some (target, u)) := by
      simp only [across, htarget, hr, if_true, hu]
    exact walk_cons_onward hm hget hnext hr hne
  | none =>
    have hnext : w.across className field p = .error (.migration
        (.missingLinkTarget (w.storage.database w.database).path className field)) := by
      simp only [across, htarget, hr, if_true, hu]
    simp only [walk, hm, hget, hnext, hr, bind, Except.bind]
    rw [if_neg (by simp)]

/-- Where every mapping is sound, what a walk has gone along is a trail. -/
theorem trail_of_walk (h : ∀ className m, w.mappingOf className = .ok m → m.Sound)
    {segments : List String} {route : Route} (hr : w.walk className segments = .ok route) :
    w.Trail className segments route.tables := by
  induction segments generalizing className route with
  | nil =>
    obtain rfl := Except.ok.inj hr
    exact .done className
  | cons field rest ih =>
    obtain ⟨m, p, next, tail, hm, hget, hgoes, hnext, htail, _, htables⟩ := walk_cons_eq_ok hr
    rw [htables]
    cases hrelationship : p.fieldType.isRelationship with
    | true =>
      obtain ⟨target, htarget⟩ := (h className m hm field p hget).target hrelationship
      obtain ⟨u, hu, rfl⟩ := across_of_linkedClass hnext htarget hrelationship
      exact .across hm hget hrelationship htarget hu (ih htail)
    | false =>
      -- The walk is not refused, so this is the last field.
      obtain rfl := hgoes.resolve_right (by simp [hrelationship])
      rw [across_of_not_relationship hrelationship] at hnext
      obtain rfl := Except.ok.inj hnext
      obtain rfl := Except.ok.inj htail
      exact .last hm hget hrelationship

theorem guided (hs : w.storage.Sound) (h : w.cells.Every Mapping.Sound) : w.Guided where
  placed _ _ hm := sound_mappingOf hs h hm
  onward _ field _ _ p hm hget hr hne := walk_across hm hget (sound_mappingOf hs h hm field p hget) hr hne
  followed t path types route hr := by
    obtain ⟨segments, hsegments, hwalk, _⟩ := resolve_eq_ok_iff.mp hr
    exact ⟨segments, hsegments, trail_of_walk (fun _ _ hm => sound_mappingOf hs h hm) hwalk⟩

end Workspace

end ColumnAtlas
