import ColumnAtlas.Proofs.CachedHandles
import ColumnAtlas.Proofs.SchemaInStep
import ColumnAtlas.Route

namespace ColumnAtlas

/-- A run in two parts: the changes up to the last refresh, and those since. -/
structure Change.LastRefresh (changes before later : List Change) : Prop where
  whole : changes = before ++ later
  settled : before = [] ∨ ∃ done version, before = done ++ [.refresh version]
  since : ∀ version, .refresh version ∉ later

theorem Change.lastRefresh_exists (changes : List Change) :
    ∃ before later, LastRefresh changes before later := by
  induction changes with
  | nil => exact ⟨[], [], rfl, .inl rfl, by simp⟩
  | cons change changes ih =>
    obtain ⟨before, later, rfl, hsettled, hsince⟩ := ih
    rcases hsettled with rfl | ⟨done, version, rfl⟩
    · by_cases hr : ∃ version, change = .refresh version
      · obtain ⟨version, rfl⟩ := hr
        exact ⟨[.refresh version], later, rfl, .inr ⟨[], version, rfl⟩, hsince⟩
      · refine ⟨[], change :: later, rfl, .inl rfl, fun version hm => ?_⟩
        rcases List.mem_cons.mp hm with heq | hm
        · exact hr ⟨version, heq.symm⟩
        · exact hsince version hm
    · exact ⟨change :: (done ++ [.refresh version]), later, rfl, .inr ⟨change :: done, version, rfl⟩, hsince⟩

/-- A change does not give a class a new name. -/
def Workspace.KeepsName (w : Workspace) : Change → Prop
  | .rename old new => ∃ e, (w.rename old new).1 = .error e
  | _ => True

/-- Every rename in a run fails. -/
def Workspace.KeepsNames (w : Workspace) : List Change → Prop
  | [] => True
  | change :: changes => w.KeepsName change ∧ (w.apply change).KeepsNames changes

/-- Changes are pending since another state: the cache is the one of that state. The classes that
were registered there and still are have their tables, and go by the names that a function gives
them. -/
structure Workspace.Pending (w₀ : Workspace) (σ : String → String) (w : Workspace) : Prop where
  cache : w.schema.cache = w₀.schema.cache
  cells : w.cells = w₀.cells
  database : w.database = w₀.database
  settings : w.registry.settings = w₀.registry.settings
  handedOut : w₀.registry.nextId ≤ w.registry.nextId
  kept : ∀ id c, id.raw < w₀.registry.nextId → w.registry.decl? id = some c →
    ∃ c₀, w₀.registry.decl? id = some c₀ ∧ c = c₀.mapClasses σ ∧
      ∀ n ∈ c₀.reads, w₀.storage.Shows w.storage w₀.database w₀.registry.settings σ n

theorem ClassDecl.reads_mapClasses (σ : String → String) (c : ClassDecl) :
    (c.mapClasses σ).reads = c.reads.map σ := by
  simp only [reads, mapClasses, List.map_cons, List.filterMap_map, List.map_filterMap]
  congr 2
  funext f
  simp only [Function.comp, FieldDecl.mapClasses, Option.map_map]
  rfl

namespace Workspace

variable {w w' w'' : Workspace} {σ τ : String → String}

theorem Pending.trans (h : w.Pending σ w') (h' : w'.Pending τ w'') : w.Pending (τ ∘ σ) w'' where
  cache := h'.cache.trans h.cache
  cells := h'.cells.trans h.cells
  database := h'.database.trans h.database
  settings := h'.settings.trans h.settings
  handedOut := UInt32.le_trans h.handedOut h'.handedOut
  kept id c hid hc := by
    obtain ⟨c', hc', rfl, hshown'⟩ := h'.kept id c (UInt32.lt_of_lt_of_le hid h.handedOut) hc
    obtain ⟨c₀, hc₀, rfl, hshown⟩ := h.kept id c' hid hc'
    refine ⟨c₀, hc₀, c₀.mapClasses_comp σ τ, fun n hn => ?_⟩
    have hafter := hshown' (σ n) (c₀.reads_mapClasses σ ▸ List.mem_map_of_mem hn)
    rw [h.database, h.settings] at hafter
    exact (hshown n hn).trans hafter

theorem InStep.pending_of_keeps (h : w.InStep) {s' : Storage}
    (hs : w.storage.Keeps s' w.database) : w.Pending id { w with storage := s' } where
  cache := rfl
  cells := rfl
  database := rfl
  settings := rfl
  handedOut := UInt32.le_refl _
  kept _ c _ hc :=
    ⟨c, hc, c.mapClasses_id.symm, fun n _ => hs.shows h.storage h.linksInside _ n⟩

theorem InStep.pending_self (h : w.InStep) : w.Pending id w :=
  h.pending_of_keeps (.refl _ _)

theorem InStep.pending_create (h : w.InStep) (c : ClassDecl) : w.Pending id (w.create c).2 := by
  rcases create_cases h.toLive c with ⟨e, s', he, hrestored, _⟩ | ⟨columns, hc, hmade⟩
  · rw [he]
    exact h.pending_of_keeps (hrestored.keeps h.storage _)
  · have hkeeps := Storage.keeps_withTable h.storage h.opened hc.untabled columns
    rcases hmade with ⟨_, e, he⟩ | ⟨hleft, summary, he⟩
    · rw [he]
      exact h.pending_of_keeps hkeeps
    · rw [he]
      refine ⟨rfl, rfl, rfl, rfl, (Registry.Coherent.precedes_withClass c hleft).nextId, ?_⟩
      intro id c' hid hc'
      have hne : (⟨w.registry.nextId⟩ : ClassId) ≠ id := by
        rintro rfl
        exact UInt32.lt_irrefl _ hid
      change (w.registry.withClass c).decl? id = some c' at hc'
      rw [Registry.decl?_withClass, if_neg hne] at hc'
      exact (h.pending_of_keeps hkeeps).kept id c' hid hc'

theorem InStep.pending_remove (h : w.InStep) (className : String) :
    w.Pending id (w.remove className).2 := by
  rcases remove_cases h.toLive className with ⟨e, he⟩ | ⟨i, c, t, hc, rfl, ht, hb, hr, he⟩
  · rw [he]
    exact h.pending_self
  · rw [he]
    refine ⟨rfl, rfl, rfl, rfl, UInt32.le_refl _, ?_⟩
    intro i' c' _ hc'
    change (w.registry.withoutClass i c).decl? i' = some c' at hc'
    rw [Registry.decl?_withoutClass] at hc'
    split at hc'
    next => cases hc'
    next hne =>
      have hname : c'.className ≠ c.className := fun heq => hne (h.registry.name_inj hc hc' heq)
      refine ⟨c', hc', c'.mapClasses_id.symm, fun n hn => ?_⟩
      exact Storage.shows_withoutTable h.storage h.linksInside h.samePrefix ht hr
        (Registry.ne_of_mem_reads hb hc' hname n hn)

theorem InStep.pending_rename (h : w.InStep) (old new : String) :
    ∃ τ, w.Pending τ (w.rename old new).2 ∧ ((∃ e, (w.rename old new).1 = .error e) → τ = id) := by
  rcases rename_cases h.toLive old new with
    ⟨e, he⟩ | ⟨i, c, t, summary, hc, rfl, _, ht, _, hfree, he⟩
  · rw [he]
    exact ⟨id, h.pending_self, fun _ => rfl⟩
  · rw [he]
    refine ⟨renamed c.className new, ⟨rfl, rfl, rfl, rfl, UInt32.le_refl _, ?_⟩, ?_⟩
    · intro i' c' _ hc'
      change (w.registry.withName i c new).decl? i' = some c' at hc'
      rw [h.registry.decl?_withName hc] at hc'
      obtain ⟨c₀, hc₀, rfl⟩ := Option.map_eq_some_iff.mp hc'
      exact ⟨c₀, hc₀, rfl, fun n _ =>
        Storage.shows_withRenamed h.storage h.linksInside h.samePrefix ht hfree n⟩
    · rintro ⟨e, herror⟩
      cases herror

theorem InStep.pending_apply (h : w.InStep) (change : Change)
    (hn : ∀ version, change ≠ .refresh version) :
    ∃ τ, w.Pending τ (w.apply change) ∧ (w.KeepsName change → τ = id) := by
  cases change with
  | create c => exact ⟨id, h.pending_create c, fun _ => rfl⟩
  | remove className => exact ⟨id, h.pending_remove className, fun _ => rfl⟩
  | rename old new => exact h.pending_rename old new
  | refresh version => exact absurd rfl (hn version)

/-- As long as there is no refresh, changes only add to those that are pending. -/
theorem InStep.pending_run (h : w.InStep) {changes : List Change}
    (hn : ∀ version, .refresh version ∉ changes) :
    ∃ σ, w.Pending σ (w.run changes) ∧ (w.KeepsNames changes → σ = id) := by
  induction changes generalizing w with
  | nil => exact ⟨id, h.pending_self, fun _ => rfl⟩
  | cons change changes ih =>
    obtain ⟨τ, hτ, hidτ⟩ := h.pending_apply change
      fun version heq => hn version (heq ▸ List.mem_cons_self)
    obtain ⟨σ, hσ, hidσ⟩ := ih (h.apply change)
      fun version hm => hn version (List.mem_cons_of_mem _ hm)
    refine ⟨σ ∘ τ, hτ.trans hσ, fun ⟨hfirst, hrest⟩ => ?_⟩
    rw [hidτ hfirst, hidσ hrest]
    rfl

theorem settled_start {s : Storage} {cells : CellStore} {d : DatabaseId} {r : Registry} {version : Int}
    (hw : start s cells d r version = .ok w) : w.schema.needsRefresh = false := by
  obtain ⟨g, cells', rfl, _⟩ := start_spec hw
  rfl

theorem InStep.settled_refresh (h : w.InStep) (version : Int) :
    (w.refresh version).2.schema.needsRefresh = false := by
  obtain ⟨g, cells, he, _⟩ := h.refreshes version
  rw [he]
  rfl

/-- Since the last refresh, when the cache was up to date, changes have been pending. -/
theorem InStep.pending_since (h : w.InStep) (hn : w.schema.needsRefresh = false)
    {changes before later : List Change} (hsplit : Change.LastRefresh changes before later) :
    (w.run before).schema.needsRefresh = false ∧
      ∃ σ, (w.run before).Pending σ (w.run changes) ∧ ((w.run before).KeepsNames later → σ = id) := by
  obtain ⟨rfl, hsettled, hsince⟩ := hsplit
  constructor
  · rcases hsettled with rfl | ⟨done, version, rfl⟩
    · exact hn
    · rw [run_append]
      exact (h.run done).settled_refresh version
  · rw [run_append]
    exact (h.run before).pending_run hsince

/-- While changes are pending, a class has the mapping that was in the cache before them, or one that
is built for it because it is new. -/
theorem Pending.mappingOf {w₀ : Workspace} (hp : w₀.Pending σ w) (h₀ : w₀.InStep) (h : w.InStep)
    (hn : w₀.schema.needsRefresh = false) {className : String} {c : ClassDecl}
    (hc : w.registry.declNamed? className = some c) : ∃ m, w.mappingOf className = .ok m ∧
      ((∃ c₀ : ClassDecl, c = c₀.mapClasses σ ∧ c₀.Mapped w₀.storage w₀.database w₀.registry.settings m ∧
          ∀ n ∈ c₀.reads, w₀.storage.Shows w.storage w₀.database w₀.registry.settings σ n) ∨
        c.Mapped w.storage w.database w.registry.settings m) := by
  obtain ⟨id, hid, hdecl⟩ := Option.bind_eq_some_iff.mp hc
  obtain ⟨g, hg, hbuilt⟩ := h₀.current hn
  have hcell : w.schema.cache.cell? id = .ok (g.cell? id) := by
    rw [hp.cache, Cache.cell?_eq hg]
  cases hi : g.cell? id with
  | some i =>
    have hget : (g.mappings w₀.cells).get? id = some (w₀.cells.mapping i) := by
      rw [Generation.get?_mappings, hi]
      rfl
    obtain ⟨c₁, hc₁⟩ := hbuilt.registered id _ hget
    obtain ⟨i', hi', hmapped⟩ := hbuilt.cell hc₁
    obtain rfl := Option.some.inj (hi.symm.trans hi')
    obtain ⟨c₀, hc₀, hname, hshown⟩ := hp.kept id c (h₀.registry.below id c₁ hc₁) hdecl
    obtain rfl := Option.some.inj (hc₁.symm.trans hc₀)
    refine ⟨w.cells.mapping i, ?_, .inl ⟨c₁, hname, hp.cells ▸ hmapped, hshown⟩⟩
    simp only [Workspace.mappingOf, hid, hcell, hi]
  | none =>
    obtain ⟨m, hm⟩ := h.builds id c hdecl
    refine ⟨m, ?_, .inr hm⟩
    simp only [Workspace.mappingOf, hid, hcell, hi]
    exact Registry.buildMapping_eq_ok_iff.mpr ⟨c, hdecl, hm⟩

end Workspace

end ColumnAtlas
