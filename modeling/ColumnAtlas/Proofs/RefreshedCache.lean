import ColumnAtlas.Proofs.AdoptedGeneration
import ColumnAtlas.Proofs.BuiltMapping
import ColumnAtlas.Schema

namespace ColumnAtlas

/-- Every registered class agrees with the stored tables. -/
def Registry.Builds (r : Registry) (s : Storage) (d : DatabaseId) : Prop :=
  ∀ id c, r.decl? id = some c → ∃ m, c.Mapped s d r.settings m

/-- Mappings of exactly the registered classes, as they are stored. -/
structure Registry.Built (r : Registry) (s : Storage) (d : DatabaseId)
    (ms : SortedMap ClassId Mapping) : Prop where
  mapped : ∀ id c, r.decl? id = some c → ∃ m, ms.get? id = some m ∧ c.Mapped s d r.settings m
  registered : ∀ id m, ms.get? id = some m → ∃ c, r.decl? id = some c

def Workspace.refreshed (w : Workspace) (g : Generation) (cells : CellStore) : Workspace :=
  { w with
    cells := cells
    schema := { w.schema with
      cache := { w.schema.cache with installed := some g }
      needsRefresh := false } }

theorem Cache.cell?_eq {c : Cache} {g : Generation} (hg : c.installed = some g) (id : ClassId) :
    c.cell? id = .ok (g.cell? id) := by
  simp only [cell?, generation, hg, bind, Except.bind, pure, Except.pure]

namespace Registry

variable {r : Registry} {s : Storage} {d : DatabaseId} {settings : Settings}

theorem Built.builds {ms : SortedMap ClassId Mapping} (h : r.Built s d ms) : r.Builds s d := by
  intro id c hc
  obtain ⟨m, _, hm⟩ := h.mapped id c hc
  exact ⟨m, hm⟩

theorem Built.isSome_get? {ms : SortedMap ClassId Mapping} (h : r.Built s d ms) (id : ClassId) :
    (ms.get? id).isSome = (r.decl? id).isSome := by
  cases hc : r.decl? id with
  | some c =>
    obtain ⟨m, hm, _⟩ := h.mapped id c hc
    rw [hm]
    rfl
  | none =>
    cases hm : ms.get? id with
    | none => rfl
    | some m =>
      obtain ⟨c, hc'⟩ := h.registered id m hm
      rw [hc] at hc'
      cases hc'

theorem Built.cell {g : Generation} {cells : CellStore} (h : r.Built s d (g.mappings cells))
    {id : ClassId} {c : ClassDecl} (hc : r.decl? id = some c) :
    ∃ i, g.cell? id = some i ∧ c.Mapped s d r.settings (cells.mapping i) := by
  obtain ⟨m, hm, hmapped⟩ := h.mapped id c hc
  rw [Generation.get?_mappings] at hm
  obtain ⟨i, hi, rfl⟩ := Option.map_eq_some_iff.mp hm
  exact ⟨i, hi, hmapped⟩

theorem buildMapping_eq_ok_iff {id : ClassId} {m : Mapping} : r.buildMapping s d id = .ok m ↔
    ∃ c, r.decl? id = some c ∧ c.Mapped s d r.settings m := by
  unfold buildMapping
  split
  next hn => simp [hn]
  next c hc =>
    rw [ClassDecl.buildMapping_eq_ok_iff]
    constructor
    · intro h
      exact ⟨c, hc, h⟩
    · rintro ⟨c', hc', h⟩
      obtain rfl := Option.some.inj (hc.symm.trans hc')
      exact h

theorem buildAll_cons_eq_ok_iff {id : ClassId} {c : ClassDecl} {es : List (ClassId × ClassDecl)}
    {ms : List (ClassId × Mapping)} : buildAll settings s d ((id, c) :: es) = .ok ms ↔
      ∃ m ms', c.buildMapping s d settings = .ok m ∧ buildAll settings s d es = .ok ms' ∧
        ms = (id, m) :: ms' := by
  rw [buildAll, bind_eq_ok_iff]
  constructor
  · rintro ⟨m, hm, h⟩
    obtain ⟨ms', hms', h⟩ := bind_eq_ok_iff.mp h
    exact ⟨m, ms', hm, hms', (Except.ok.inj h).symm⟩
  · rintro ⟨m, ms', hm, hms', rfl⟩
    exact ⟨m, hm, bind_eq_ok_iff.mpr ⟨ms', hms', rfl⟩⟩

theorem buildAll_exists {es : List (ClassId × ClassDecl)}
    (h : ∀ e ∈ es, ∃ m, e.2.buildMapping s d settings = .ok m) :
    ∃ ms, buildAll settings s d es = .ok ms := by
  induction es with
  | nil => exact ⟨[], rfl⟩
  | cons e es ih =>
    obtain ⟨m, hm⟩ := h e List.mem_cons_self
    obtain ⟨ms, hms⟩ := ih fun e' he' => h e' (List.mem_cons_of_mem _ he')
    exact ⟨(e.1, m) :: ms, buildAll_cons_eq_ok_iff.mpr ⟨m, ms, hm, hms, rfl⟩⟩

theorem buildAll_mapped {es : List (ClassId × ClassDecl)} {ms : List (ClassId × Mapping)}
    (h : buildAll settings s d es = .ok ms) : ms.map Prod.fst = es.map Prod.fst ∧ ∀ id,
      (∀ c, SortedMap.find id es = some c →
        ∃ m, SortedMap.find id ms = some m ∧ c.buildMapping s d settings = .ok m) ∧
      ∀ m, SortedMap.find id ms = some m → ∃ c, SortedMap.find id es = some c := by
  induction es generalizing ms with
  | nil =>
    cases h
    simp [SortedMap.find]
  | cons e es ih =>
    obtain ⟨m, ms', hm, hms', rfl⟩ := buildAll_cons_eq_ok_iff.mp h
    obtain ⟨hkeys, hfind⟩ := ih hms'
    refine ⟨by simp [hkeys], fun id => ?_⟩
    by_cases hid : e.1 = id
    · simp only [SortedMap.find, hid, if_true, Option.some.injEq]
      refine ⟨?_, fun _ _ => ⟨e.2, rfl⟩⟩
      rintro c rfl
      exact ⟨m, rfl, hm⟩
    · simpa only [SortedMap.find, if_neg hid] using hfind id

theorem buildGeneration_exists (h : r.Builds s d) (version : Int) (cells : CellStore) :
    ∃ made, r.buildGeneration s d version cells = .ok made := by
  obtain ⟨ms, hms⟩ : ∃ ms, buildAll r.settings s d r.classes.entries = .ok ms := by
    refine buildAll_exists fun e he => ?_
    obtain ⟨m, hm⟩ := h e.1 e.2 (SortedMap.mem_entries_iff.mp he)
    exact ⟨m, ClassDecl.buildMapping_eq_ok_iff.mpr hm⟩
  exact ⟨_, bind_eq_ok_iff.mpr ⟨ms, hms, rfl⟩⟩

/-- A built generation holds the mapping of every registered class in a new cell. -/
theorem buildGeneration_spec {version : Int} {cells cells' : CellStore} {g : Generation}
    (h : r.buildGeneration s d version cells = .ok (g, cells')) : g.version = version ∧
      g.Live cells' ∧ cells.Grows cells' ∧ (∀ id i, g.cell? id = some i → cells.size ≤ i.index) ∧
      r.Built s d (g.mappings cells') := by
  obtain ⟨ms, hms, hmade⟩ := bind_eq_ok_iff.mp h
  obtain ⟨hkeys, hfind⟩ := buildAll_mapped hms
  let classes : List (ClassId × Cell) := ms.map fun e => (e.1, ⟨e.2, true⟩)
  have hn : (classes.map Prod.fst).Nodup := by
    have hfst : classes.map Prod.fst = ms.map Prod.fst := by simp [classes, Function.comp_def]
    rw [hfst, hkeys]
    exact SortedMap.nodup_keys r.classes
  obtain ⟨hversion, hlive, hgrows, hfresh, hmappings⟩ := Generation.new_spec hn version cells
  have hmade' : Generation.new version classes cells = (g, cells') := Except.ok.inj hmade
  rw [hmade'] at hversion hlive hgrows hfresh hmappings
  have hget (id : ClassId) : (g.mappings cells').get? id = SortedMap.find id ms := by
    rw [hmappings, SortedMap.find_map (fun _ (m : Mapping) => (⟨m, true⟩ : Cell)), Option.map_map]
    cases SortedMap.find id ms <;> rfl
  refine ⟨hversion, hlive, hgrows, hfresh, ?_, ?_⟩
  · intro id c hc
    obtain ⟨m, hm, hb⟩ := (hfind id).1 c hc
    exact ⟨m, (hget id).trans hm, ClassDecl.buildMapping_eq_ok_iff.mp hb⟩
  · intro id m hm
    exact (hfind id).2 m ((hget id).symm.trans hm)

end Registry

namespace Workspace

theorem start_spec {s : Storage} {cells : CellStore} {d : DatabaseId} {r : Registry} {version : Int}
    {w : Workspace} (h : start s cells d r version = .ok w) :
    ∃ g cells', w = ⟨s, cells', ⟨d, r, ⟨some g, false⟩, false⟩⟩ ∧ g.version = version ∧ g.Live cells' ∧
      r.Built s d (g.mappings cells') := by
  obtain ⟨⟨g, cells₁⟩, hg, h⟩ := bind_eq_ok_iff.mp h
  obtain ⟨⟨cache, cells₂⟩, hcache, h⟩ := bind_eq_ok_iff.mp h
  obtain rfl := Except.ok.inj h
  obtain ⟨rfl, rfl⟩ := Prod.mk.inj (Except.ok.inj hcache)
  obtain ⟨hversion, _, _, _, hbuilt⟩ := Registry.buildGeneration_spec hg
  obtain ⟨hversion', hlive, _, hmappings⟩ := Generation.snapshot_spec g cells₁
  exact ⟨_, _, rfl, hversion'.trans hversion, hlive, hmappings ▸ hbuilt⟩

/-- A refresh fails only while a class cannot be built, and then changes nothing. Otherwise the
cached mappings are those of the registered classes, classes that stay keep their cells, and cells
that are not cached any more are left alone. -/
theorem refresh_cases {w : Workspace} {g : Generation} (hg : w.schema.cache.installed = some g)
    (h : g.Live w.cells) (version : Int) :
    (¬w.registry.Builds w.storage w.database ∧ ∃ e, w.refresh version = (.error e, w)) ∨
    ∃ g' cells', w.refresh version = (.ok (), w.refreshed g' cells') ∧ g'.version = version ∧
      g'.Live cells' ∧ w.registry.Built w.storage w.database (g'.mappings cells') ∧
      (∀ id i, g.cell? id = some i → (w.registry.decl? id).isSome → g'.cell? id = some i) ∧
      g.Follows w.cells g' cells' := by
  cases hb : w.registry.buildGeneration w.storage w.database version w.cells with
  | error e =>
    refine .inl ⟨fun hbuilds => ?_, e, ?_⟩
    · obtain ⟨made, hmade⟩ := Registry.buildGeneration_exists hbuilds version w.cells
      rw [hb] at hmade
      cases hmade
    · simp only [refresh, hb, bind, Except.bind]
  | ok made =>
    obtain ⟨next, cells₁⟩ := made
    obtain ⟨hversion, hnext, hgrows, hfresh, hbuilt⟩ := Registry.buildGeneration_spec hb
    obtain ⟨g₁, cells₂, hsync, _, hlive₁, hgrows₁, hsame, hstay, hwhence⟩ :=
      Generation.syncClasses_spec (h.of_grows hgrows) next
    -- The generation just built is in cells of its own, so copying it does not write to what is read.
    have hout : ∀ id id' i, next.cell? id = some i → g₁.cell? id' ≠ some i := by
      intro id id' i hi hi'
      rcases hwhence id' i hi' with hg' | hle
      · exact absurd (h.index_lt hg') (Nat.not_lt.mpr (hfresh id i hi))
      · exact absurd (hnext.index_lt hi) (Nat.not_lt.mpr hle)
    obtain ⟨g', cells', hcopy, hversion', hcells, hlive', hmappings, hsize, hframe⟩ :=
      Generation.copyFrom_spec w.registry.naming hlive₁ hsame hout
    have hbuilt' : w.registry.Built w.storage w.database (g'.mappings cells') := by
      rw [hmappings, Generation.mappings_of_grows hgrows₁ fun id i hi => hnext.index_lt hi]
      exact hbuilt
    have hcache : w.schema.cache.syncClasses next cells₁ =
        .ok ({ w.schema.cache with installed := some g₁ }, cells₂) := by
      simp only [Cache.syncClasses, Cache.generation, hg, bind, Except.bind, hsync, pure, Except.pure]
    have hcell (id : ClassId) : g'.cell? id = g₁.cell? id := by rw [Generation.cell?, hcells]; rfl
    refine .inr ⟨g', cells', ?_, hversion'.trans hversion, hlive', hbuilt', ?_, ?_, ?_, ?_⟩
    · simp only [refresh, hb, bind, Except.bind, hcache, pure, Except.pure, Cache.update, hcopy]
      rfl
    · intro id i hi hc
      have hid := hbuilt.isSome_get? id
      rw [Generation.get?_mappings, Option.isSome_map] at hid
      exact (hcell id).trans (hstay id i hi (hid.trans hc))
    · exact hsize ▸ Nat.le_trans hgrows.size hgrows₁.size
    · intro id i hi
      exact (hwhence id i ((hcell id).symm.trans hi)).imp_right (Nat.le_trans hgrows.size)
    · intro i hi hnot
      rw [hframe i fun id => hcell id ▸ hnot id, hgrows₁.read i (Nat.lt_of_lt_of_le hi hgrows.size),
        hgrows.read i hi]

end Workspace

end ColumnAtlas
