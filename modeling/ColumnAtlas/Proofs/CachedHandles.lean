import ColumnAtlas.Proofs.SchemaSteps

namespace ColumnAtlas

/-- A later state of a registry: no identifier that was handed out before is registered again. -/
structure Registry.Precedes (r r' : Registry) : Prop where
  nextId : r.nextId ≤ r'.nextId
  registered : ∀ id, id.raw < r.nextId → r.decl? id = none → r'.decl? id = none

/-- The identifiers of all cached classes were handed out. -/
structure Workspace.Numbered (w : Workspace) : Prop where
  registry : w.registry.Coherent
  cached : ∃ g, w.schema.cache.installed = some g ∧ g.Live w.cells ∧
    ∀ id i, g.cell? id = some i → id.raw < w.registry.nextId

/-- The cell of a class that has left both the registry and the cache. -/
structure Workspace.Dropped (w : Workspace) (id : ClassId) (i : CellId) : Prop where
  uncached : ∃ g, w.schema.cache.installed = some g ∧ g.cell? id = none ∧ ∀ id', g.cell? id' ≠ some i
  made : i.index < w.cells.size
  handedOut : id.raw < w.registry.nextId
  unregistered : w.registry.decl? id = none

/-- What has become of a cell that a class had in the cache. It is still the one cell of the class, with
the cached mapping in it, and is left alone when the class is dropped; or the class was dropped for
good and the cell never changes again. -/
inductive Workspace.Fate (w : Workspace) (id : ClassId) (i : CellId) : Prop where
  | cached (found : w.schema.cache.cell? id = .ok (some i))
      (shown : ∃ frozen, w.schema.cache.freeze w.cells = .ok frozen ∧
        frozen.mapping? id = some (w.cells.mapping i))
      (leaves : ∀ change, (w.apply change).schema.cache.cell? id = .ok none →
        (w.apply change).cells.read i = w.cells.read i)
  | dropped (missing : w.schema.cache.cell? id = .ok none)
      (stays : ∀ later, (w.run later).schema.cache.cell? id = .ok none ∧
        (w.run later).cells.read i = w.cells.read i)

namespace Registry

variable {r r' r'' : Registry}

theorem Precedes.refl (r : Registry) : r.Precedes r :=
  ⟨UInt32.le_refl _, fun _ _ h => h⟩

theorem Precedes.trans (h : r.Precedes r') (h' : r'.Precedes r'') : r.Precedes r'' where
  nextId := UInt32.le_trans h.nextId h'.nextId
  registered id hid hn := h'.registered id (UInt32.lt_of_lt_of_le hid h.nextId) (h.registered id hid hn)

theorem Coherent.precedes_withClass (c : ClassDecl) (hleft : r.nextId ≠ 0xFFFFFFFF) :
    r.Precedes (r.withClass c) where
  nextId := by
    have hnext : (r.withClass c).nextId.toNat = r.nextId.toNat + 1 := toNat_succ hleft
    rw [UInt32.le_iff_toNat_le]
    omega
  registered id hid hn := by
    have hne : (⟨r.nextId⟩ : ClassId) ≠ id := by
      rintro rfl
      exact UInt32.lt_irrefl _ hid
    rw [decl?_withClass, if_neg hne]
    exact hn

theorem Coherent.precedes_enrol (h : r.Coherent) (e : Registration) : r.Precedes (r.enrol e) := by
  have hstep := r.enrolment e
  generalize r.enrol e = r' at hstep ⊢
  cases hstep with
  | refused _ => exact .refl r
  | register _ _ hleft => exact Coherent.precedes_withClass _ hleft
  | unregister _ =>
    refine ⟨UInt32.le_refl _, fun id' _ hn => ?_⟩
    rw [decl?_withoutClass, hn, ite_self]
  | rename hc _ =>
    refine ⟨UInt32.le_refl _, fun id' _ hn => ?_⟩
    rw [h.decl?_withName hc, hn]
    rfl

theorem Coherent.precedes_run (h : r.Coherent) (registrations : List Registration) :
    r.Precedes (r.run registrations) := by
  induction registrations generalizing r with
  | nil => exact .refl r
  | cons e es ih => exact (h.precedes_enrol e).trans (ih (h.enrol e))

end Registry

namespace Workspace

variable {w w' : Workspace}

/-- Classes were registered, unregistered and renamed, and neither the cache nor a cell was touched. -/
def Registers (w w' : Workspace) : Prop :=
  w'.schema.cache = w.schema.cache ∧ w'.cells = w.cells ∧
    ∃ registrations, w'.registry = w.registry.run registrations

theorem Registers.refl (w : Workspace) : w.Registers w := ⟨rfl, rfl, [], rfl⟩

theorem registers_described (h : w.Registers w') (className : String) :
    w.Registers (w'.described className).2 := by
  unfold described
  split <;> exact h

theorem registers_create (w : Workspace) (c : ClassDecl) : w.Registers (w.create c).2 := by
  unfold create
  split
  next => exact .refl w
  next =>
    split
    next => exact .refl w
    next =>
      dsimp only
      split
      next => exact ⟨rfl, rfl, [], rfl⟩
      next =>
        split
        next => exact ⟨rfl, rfl, [], rfl⟩
        next id r hr =>
          have hrun : r = w.registry.run [.register c] := by
            simp only [Registry.run, List.foldl_cons, List.foldl_nil, Registry.enrol, hr]
          have hchanged : w.Registers (w.changed (w.storage.createDeclared w.database c).2 r) :=
            ⟨rfl, rfl, _, hrun⟩
          exact registers_described hchanged _

theorem registers_remove (w : Workspace) (className : String) : w.Registers (w.remove className).2 := by
  unfold remove
  split
  next => exact .refl w
  next id hid =>
    split
    next => exact .refl w
    next =>
      split
      next => exact .refl w
      next =>
        split
        next c r hr =>
          have hrun : r = w.registry.run [.unregister id] := by
            simp only [Registry.run, List.foldl_cons, List.foldl_nil, Registry.enrol, hr]
          exact ⟨rfl, rfl, _, hrun⟩
        next => exact ⟨rfl, rfl, [], rfl⟩

theorem registers_rename (w : Workspace) (old new : String) : w.Registers (w.rename old new).2 := by
  unfold rename
  split
  next => exact .refl w
  next id hid =>
    split
    next => exact .refl w
    next =>
      split
      next => exact .refl w
      next t s' _ =>
        split
        next => exact ⟨rfl, rfl, [], rfl⟩
        next r hr =>
          have hrun : r = w.registry.run [.rename id new] := by
            simp only [Registry.run, List.foldl_cons, List.foldl_nil, Registry.enrol, hr]
          have hchanged : w.Registers (w.changed s' r) := ⟨rfl, rfl, _, hrun⟩
          exact registers_described hchanged _

/-- A change only registers classes, or it refreshes the cache and leaves the registry alone. -/
theorem apply_cases (h : w.Numbered) (change : Change) : w.Registers (w.apply change) ∨
    ∃ g g' cells', w.schema.cache.installed = some g ∧ w.apply change = w.refreshed g' cells' ∧
      g'.Live cells' ∧ (∀ id, (g'.cell? id).isSome = (w.registry.decl? id).isSome) ∧
      (∀ id i, g.cell? id = some i → (w.registry.decl? id).isSome → g'.cell? id = some i) ∧
      g.Follows w.cells g' cells' := by
  cases change with
  | create c => exact .inl (registers_create w c)
  | remove className => exact .inl (registers_remove w className)
  | rename old new => exact .inl (registers_rename w old new)
  | refresh version =>
    obtain ⟨g, hg, hlive, _⟩ := h.cached
    rcases refresh_cases hg hlive version with
      ⟨_, e, he⟩ | ⟨g', cells', he, _, hlive', hbuilt, hstay, hfollows⟩
    · rw [Workspace.apply, he]
      exact .inl (.refl w)
    · refine .inr ⟨g, g', cells', hg, by rw [Workspace.apply, he], hlive', fun id => ?_, hstay, hfollows⟩
      rw [← hbuilt.isSome_get? id, Generation.get?_mappings, Option.isSome_map]

theorem Numbered.apply (h : w.Numbered) (change : Change) : (w.apply change).Numbered := by
  rcases apply_cases h change with ⟨hcache, hcells, registrations, hr⟩ | ⟨g, g', cells', _, he, hlive', hsame, _⟩
  · obtain ⟨g, hg, hlive, hbelow⟩ := h.cached
    refine ⟨hr ▸ h.registry.run registrations, g, hcache ▸ hg, hcells ▸ hlive, fun id i hi => ?_⟩
    rw [hr]
    exact UInt32.lt_of_lt_of_le (hbelow id i hi) (h.registry.precedes_run registrations).nextId
  · rw [he]
    refine ⟨h.registry, g', rfl, hlive', fun id i hi => ?_⟩
    have hsome : (w.registry.decl? id).isSome := by rw [← hsame, hi]; rfl
    obtain ⟨c, hc⟩ := Option.isSome_iff_exists.mp hsome
    exact h.registry.below id c hc

theorem Numbered.run (h : w.Numbered) (changes : List Change) : (w.run changes).Numbered := by
  induction changes generalizing w with
  | nil => exact h
  | cons change changes ih => exact ih (h.apply change)

theorem Numbered.start {s : Storage} {cells : CellStore} {d : DatabaseId} {r : Registry} {first : Int}
    (hr : r.Reachable) (hw : start s cells d r first = .ok w) : w.Numbered := by
  obtain ⟨g, cells', rfl, _, hlive, hbuilt⟩ := start_spec hw
  refine ⟨hr.coherent, g, rfl, hlive, fun id i hi => ?_⟩
  have hget : (g.mappings cells').get? id = some (cells'.mapping i) := by
    rw [Generation.get?_mappings, hi]
    rfl
  obtain ⟨c, hc⟩ := hbuilt.registered id _ hget
  exact hr.coherent.below id c hc

section Handle

variable {id : ClassId} {i : CellId}

/-- A cached class keeps its cell, or leaves the cache without a trace in the cell. -/
theorem Numbered.kept_or_dropped (h : w.Numbered) (hi : w.schema.cache.cell? id = .ok (some i))
    (change : Change) : (w.apply change).schema.cache.cell? id = .ok (some i) ∨
      ((w.apply change).Dropped id i ∧ (w.apply change).cells.read i = w.cells.read i) := by
  rcases apply_cases h change with ⟨hcache, _⟩ | ⟨g, g', cells', hg, he, _, hsame, hstay, hfollows⟩
  · rw [hcache]
    exact .inl hi
  · obtain ⟨g₀, hg₀, hlive, hbelow⟩ := h.cached
    obtain rfl := Option.some.inj (hg₀.symm.trans hg)
    rw [Cache.cell?_eq hg] at hi
    have hcell : g₀.cell? id = some i := Except.ok.inj hi
    have hmade := hlive.index_lt hcell
    rw [he]
    cases hc : w.registry.decl? id with
    | some c =>
      have hcell' : g'.cell? id = some i := hstay id i hcell (by rw [hc]; rfl)
      exact .inl ((Cache.cell?_eq rfl id).trans (congrArg Except.ok hcell'))
    | none =>
      have hnone : g'.cell? id = none := by
        have hid := hsame id
        rw [hc] at hid
        exact Option.isNone_iff_eq_none.mp (by simpa using hid)
      have hfree : ∀ id', g'.cell? id' ≠ some i := by
        intro id' hi'
        rcases hfollows.whence id' i hi' with hold | hnew
        · obtain rfl := hlive.distinct id id' i hcell hold
          exact absurd (hnone.symm.trans hi') (by simp)
        · omega
      exact .inr ⟨⟨⟨g', rfl, hnone, hfree⟩, Nat.lt_of_lt_of_le hmade hfollows.size, hbelow id i hcell, hc⟩,
        hfollows.frame i hmade hfree⟩

theorem Dropped.apply (hd : w.Dropped id i) (h : w.Numbered) (change : Change) :
    (w.apply change).Dropped id i ∧ (w.apply change).cells.read i = w.cells.read i := by
  rcases apply_cases h change with
    ⟨hcache, hcells, registrations, hr⟩ | ⟨g, g', cells', hg, he, _, hsame, _, hfollows⟩
  · have hprecedes := h.registry.precedes_run registrations
    refine ⟨⟨hcache ▸ hd.uncached, hcells ▸ hd.made, ?_, ?_⟩, by rw [hcells]⟩
    · rw [hr]
      exact UInt32.lt_of_lt_of_le hd.handedOut hprecedes.nextId
    · rw [hr]
      exact hprecedes.registered id hd.handedOut hd.unregistered
  · obtain ⟨g₀, hg₀, _, hfree₀⟩ := hd.uncached
    obtain rfl := Option.some.inj (hg₀.symm.trans hg)
    have hmade := hd.made
    have hfree : ∀ id', g'.cell? id' ≠ some i := by
      intro id' hi'
      rcases hfollows.whence id' i hi' with hold | hnew
      · exact hfree₀ id' hold
      · omega
    have hnone : g'.cell? id = none := by
      have hid := hsame id
      rw [hd.unregistered] at hid
      exact Option.isNone_iff_eq_none.mp (by simpa using hid)
    rw [he]
    exact ⟨⟨⟨g', rfl, hnone, hfree⟩, Nat.lt_of_lt_of_le hmade hfollows.size, hd.handedOut, hd.unregistered⟩,
      hfollows.frame i hmade hfree⟩

theorem Dropped.run (hd : w.Dropped id i) (h : w.Numbered) (changes : List Change) :
    (w.run changes).Dropped id i ∧ (w.run changes).cells.read i = w.cells.read i := by
  induction changes generalizing w with
  | nil => exact ⟨hd, rfl⟩
  | cons change changes ih =>
    obtain ⟨hd', hread⟩ := hd.apply h change
    obtain ⟨hrun, hread'⟩ := ih hd' (h.apply change)
    exact ⟨hrun, hread'.trans hread⟩

theorem Dropped.cell?_eq (hd : w.Dropped id i) : w.schema.cache.cell? id = .ok none := by
  obtain ⟨g, hg, hnone, _⟩ := hd.uncached
  rw [Cache.cell?_eq hg, hnone]

theorem Numbered.run_kept_or_dropped (h : w.Numbered) (hi : w.schema.cache.cell? id = .ok (some i))
    (changes : List Change) :
    (w.run changes).schema.cache.cell? id = .ok (some i) ∨ (w.run changes).Dropped id i := by
  induction changes generalizing w with
  | nil => exact .inl hi
  | cons change changes ih =>
    rcases h.kept_or_dropped hi change with hkept | ⟨hdropped, _⟩
    · exact ih (h.apply change) hkept
    · exact .inr (hdropped.run (h.apply change) changes).1

theorem freeze_of_cell? (hi : w.schema.cache.cell? id = .ok (some i)) :
    ∃ frozen, w.schema.cache.freeze w.cells = .ok frozen ∧ frozen.mapping? id = some (w.cells.mapping i) := by
  obtain ⟨g, hg, hcell⟩ := bind_eq_ok_iff.mp hi
  refine ⟨g.freeze w.cells, bind_eq_ok_iff.mpr ⟨g, hg, rfl⟩, ?_⟩
  have hcell' : g.cell? id = some i := Except.ok.inj hcell
  exact (Generation.get?_mappings g w.cells id).trans (by rw [hcell']; rfl)

end Handle

end Workspace

/-- The cell that a class has in the cache is its cell in every later state, with the cached mapping
in it, until the class is dropped. Then the cell keeps its mapping, and the identifier finds nothing
any more, whatever classes are created. -/
theorem handle_follows_cache {s : Storage} {cells : CellStore} {d : DatabaseId} {r : Registry}
    {first : Int} {w : Workspace} (hr : r.Reachable)
    (hw : Workspace.start s cells d r first = .ok w) (before : List Change) {id : ClassId} {i : CellId}
    (hi : (w.run before).schema.cache.cell? id = .ok (some i)) (changes : List Change) :
    ((w.run before).run changes).Fate id i := by
  have hbefore := (Workspace.Numbered.start hr hw).run before
  have hnow := hbefore.run changes
  rcases hbefore.run_kept_or_dropped hi changes with hkept | hdropped
  · refine .cached hkept (Workspace.freeze_of_cell? hkept) fun change hgone => ?_
    rcases hnow.kept_or_dropped hkept change with hkept' | ⟨_, hread⟩
    · rw [hkept'] at hgone
      cases hgone
    · exact hread
  · refine .dropped hdropped.cell?_eq fun later => ?_
    obtain ⟨hlater, hread⟩ := hdropped.run hnow later
    exact ⟨hlater.cell?_eq, hread⟩

def reviewClass : ClassDecl :=
  ⟨"Review", [.column "stars" .integer, .link "book" .object "Book"]⟩

/-- The class of reviews is created again after it was removed, under a new identifier. -/
theorem shelf_handle : ∃ w, Workspace.start shelf .empty ⟨0⟩ shelfClasses 1 = .ok w ∧
    (w.run [.create reviewClass, .refresh 2]).schema.cache.cell? ⟨2⟩ = .ok (some ⟨7⟩) ∧
    ((w.run [.create reviewClass, .refresh 2]).run
      [.remove "Review", .create reviewClass, .refresh 3]).registry.classId? "Review" = some ⟨3⟩ ∧
    ((w.run [.create reviewClass, .refresh 2]).run
      [.remove "Review", .create reviewClass, .refresh 3]).schema.cache.cell? ⟨2⟩ = .ok none ∧
    ((w.run [.create reviewClass, .refresh 2]).run
      [.remove "Review", .create reviewClass, .refresh 3]).Fate ⟨2⟩ ⟨7⟩ :=
  ⟨_, rfl, rfl, by decide +kernel, rfl, handle_follows_cache shelf_opening.registered
    (rfl : Workspace.start shelf .empty ⟨0⟩ shelfClasses 1 = .ok _)
    [.create reviewClass, .refresh 2] rfl _⟩

end ColumnAtlas
