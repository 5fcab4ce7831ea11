import ColumnAtlas.Proofs.CopiedGeneration

namespace ColumnAtlas

namespace CellStore

variable {s : CellStore}

/-- A cell that gets the mapping that it has is as it was. -/
theorem copyFrom_self {target source : CellId} (hm : (s.read target).mutable = true)
    (heq : s.mapping target = s.mapping source) : s.copyFrom target source = .ok s := by
  have hlt : target.index < s.cells.length := index_lt_of_mutable hm
  have hread : s.cells[target.index] = s.read target := by
    rw [read, List.getElem?_eq_getElem hlt, Option.getD_some]
  have hcell : (⟨s.mapping source, true⟩ : Cell) = s.cells[target.index] := by
    rw [hread]
    exact Cell.eq_of_mapping heq.symm hm.symm
  rw [copyFrom, if_pos hm, hcell, List.set_getElem_self]

end CellStore

namespace Generation

/-- A generation that has the classes of another one, in its old cells where it had them and in new
ones otherwise. All older cells are as they were. -/
structure Aligned (g other : Generation) (s : CellStore) (g₁ : Generation) (s₁ : CellStore) :
    Prop where
  version : g₁.version = g.version
  classes : ∀ id, (g₁.cell? id).isSome = (other.cell? id).isSome
  stays : ∀ id i, g.cell? id = some i → (other.cell? id).isSome → g₁.cell? id = some i
  whence : ∀ id i, g₁.cell? id = some i → g.cell? id = some i ∨ s.size ≤ i.index
  grows : s.Grows s₁

/-- A generation that has become like another one, which is as it was. The classes that it had keep
their cells, and it shares none with the other one for those that it got. -/
structure Adopted (g other : Generation) (s : CellStore) (g₂ : Generation) (s₂ : CellStore) :
    Prop where
  version : g₂.version = other.version
  mappings : g₂.mappings s₂ = other.mappings s
  live : g₂.Live s₂
  stays : ∀ id i, g.cell? id = some i → (other.cell? id).isSome → g₂.cell? id = some i
  joins : ∀ id i, g.cell? id = none → g₂.cell? id = some i →
    s.size ≤ i.index ∧ ∀ id', other.cell? id' ≠ some i
  dropped : ∀ id i, g.cell? id = some i → other.cell? id = none →
    s₂.read i = s.read i ∧ ∀ id', g₂.cell? id' ≠ some i
  source : other.contents s₂ = other.contents s

/-- Aligning the classes and then copying succeeds, and doing both again changes nothing. -/
def Adopts (g other : Generation) (naming : TableNaming) (s : CellStore) : Prop :=
  ∃ g₁ s₁ g₂ s₂, g.syncClasses other s = .ok (g₁, s₁) ∧ g.Aligned other s g₁ s₁ ∧
    g₁.copyFrom other naming s₁ = (.ok (), g₂, s₂) ∧ g.Adopted other s g₂ s₂ ∧
    g₂.syncClasses other s₂ = .ok (g₂, s₂) ∧
    ∀ naming', g₂.copyFrom other naming' s₂ = (.ok (), g₂, s₂)

variable {g g₁ other : Generation} {s s₁ : CellStore}

theorem copyCells_self (naming : TableNaming) {es : List (ClassId × CellId)}
    (hm : ∀ e ∈ es, (s.read e.2).mutable = true)
    (hsame : ∀ e ∈ es, (other.cell? e.1).map s.mapping = some (s.mapping e.2)) :
    copyCells other naming es s = (.ok (), s) := by
  induction es with
  | nil => rfl
  | cons e es ih =>
    obtain ⟨source, hsource, heq⟩ := Option.map_eq_some_iff.mp (hsame e List.mem_cons_self)
    have hcopy := CellStore.copyFrom_self (hm e List.mem_cons_self) heq.symm
    rw [copyCells]
    simp only [hsource, hcopy]
    exact ih (fun e' he' => hm e' (List.mem_cons_of_mem _ he'))
      fun e' he' => hsame e' (List.mem_cons_of_mem _ he')

theorem Live.copyFrom_self (h : g.Live s) (hversion : g.version = other.version)
    (hmappings : g.mappings s = other.mappings s) (naming : TableNaming) :
    g.copyFrom other naming s = (.ok (), g, s) := by
  have hentry : ∀ e ∈ g.cells.entries, g.cell? e.1 = some e.2 := fun e he =>
    SortedMap.mem_entries_iff.mp he
  have hsame : ∀ e ∈ g.cells.entries, (other.cell? e.1).map s.mapping = some (s.mapping e.2) := by
    intro e he
    rw [← get?_mappings, ← hmappings, get?_mappings, hentry e he]
    rfl
  have hcopy := copyCells_self naming (fun e he => h.cells e.1 e.2 (hentry e he)) hsame
  rw [Generation.copyFrom, if_pos h.mutable, hcopy, ← hversion]

theorem syncClasses_self (hm : g.mutable = true)
    (hsame : ∀ id, (g.cell? id).isSome = (other.cell? id).isSome) :
    g.syncClasses other s = .ok (g, s) := by
  have hjoining : g.joining other s = .empty := by
    apply SortedMap.eq_of_get?
    intro id
    rw [get?_joining, hsame]
    cases other.cell? id <;> rfl
  have hstore : (s.addAll (g.joining other s)).2 = s := by
    rw [hjoining]
    exact congrArg CellStore.mk (List.append_nil _)
  have hcells : (g.synced other s).cells = g.cells := by
    apply SortedMap.eq_of_get?
    intro id
    change (g.synced other s).cell? id = g.cell? id
    cases hi : g.cell? id with
    | some i =>
      rw [cell?_synced_of_some hi, ← hsame, hi]
      rfl
    | none =>
      rw [cell?_synced_of_none hi, hjoining]
      rfl
  have hsynced : g.synced other s = g := congrArg (Generation.mk g.version · g.mutable) hcells
  rw [syncClasses, if_pos hm]
  exact congrArg Except.ok (Prod.ext hsynced hstore)

theorem Live.aligned (h : g.Live s) (other : Generation) :
    ∃ g₁ s₁, g.syncClasses other s = .ok (g₁, s₁) ∧ g₁.Live s₁ ∧ g.Aligned other s g₁ s₁ := by
  obtain ⟨g₁, s₁, hsync, hversion, hlive, hgrows, hsame, hstays, hwhence⟩ := syncClasses_spec h other
  exact ⟨g₁, s₁, hsync, hlive, hversion, hsame, hstays, hwhence, hgrows⟩

section Aligned

variable (h : g.Aligned other s g₁ s₁) (hmade : ∀ id i, other.cell? id = some i → i.index < s.size)

include h

theorem Aligned.dropped (hg : g.Live s) {id : ClassId} {i : CellId} (hi : g.cell? id = some i)
    (hnone : other.cell? id = none) (id' : ClassId) : g₁.cell? id' ≠ some i := by
  intro hi'
  rcases h.whence id' i hi' with hold | hnew
  · obtain rfl := hg.distinct id id' i hi hold
    have hsome := h.classes id
    rw [hi', hnone] at hsome
    cases hsome
  · exact absurd (hg.index_lt hi) (Nat.not_lt.mpr hnew)

include hmade

theorem Aligned.apart (ha : g.Apart other) : g₁.Apart other := by
  intro id id' i hi hi'
  rcases h.whence id i hi with hold | hnew
  · exact ha id id' i hold hi'
  · exact absurd (hmade id' i hi') (Nat.not_lt.mpr hnew)

theorem Aligned.joins {id : ClassId} {i : CellId} (hnone : g.cell? id = none)
    (hi : g₁.cell? id = some i) : s.size ≤ i.index ∧ ∀ id', other.cell? id' ≠ some i := by
  rcases h.whence id i hi with hold | hnew
  · rw [hnone] at hold
    cases hold
  · exact ⟨hnew, fun id' hi' => absurd (hmade id' i hi') (Nat.not_lt.mpr hnew)⟩

end Aligned

/-- Once the classes are aligned every class has a counterpart, so copying adopts all of them. -/
theorem Live.adopts (h : g.Live s) (ha : g.Apart other)
    (hmade : ∀ id i, other.cell? id = some i → i.index < s.size) (naming : TableNaming) :
    g.Adopts other naming s := by
  obtain ⟨g₁, s₁, hsync, hlive₁, haligned⟩ := h.aligned other
  obtain ⟨s₂, hcopy, hcopied⟩ := hlive₁.copied_all (haligned.apart hmade ha)
    (fun e he => haligned.classes e.1 ▸ isSome_of_mem he) naming
  have hlive₂ := hlive₁.copyFrom other naming
  rw [hcopy] at hlive₂
  have hkept : ∀ id i, other.cell? id = some i → s₁.read i = s.read i := fun id i hi =>
    haligned.grows.read i (hmade id i hi)
  have hsource : other.contents s₂ = other.contents s := hcopied.source.trans (contents_congr hkept)
  have hmappings : g₁.mappings s₂ = other.mappings s :=
    (hcopied.mappings haligned.classes).trans (by rw [mappings_eq, mappings_eq, contents_congr hkept])
  have hagain : g₁.mappings s₂ = other.mappings s₂ := by
    rw [hmappings, mappings_eq, mappings_eq, hsource]
  refine ⟨g₁, s₁, _, s₂, hsync, haligned, hcopy,
    ⟨rfl, hmappings, hlive₂, haligned.stays, fun _ _ => haligned.joins hmade, ?_, hsource⟩,
    syncClasses_self hlive₁.mutable haligned.classes, hlive₂.copyFrom_self rfl hagain⟩
  intro id i hi hnone
  have hout := haligned.dropped h hi hnone
  exact ⟨(hcopied.outside i hout).trans (haligned.grows.read i (h.index_lt hi)), hout⟩

end Generation

/-- Any generation that can change takes over any other one completely when its classes are aligned
first. Doing both again changes nothing. -/
theorem sync_then_copy_adopts (acts : List Act) {k k' : Keeper} {g other : Generation}
    (hg : (Holdings.empty.run acts).generation? k = some g) (hm : g.mutable = true)
    (hother : (Holdings.empty.run acts).generation? k' = some other) (naming : TableNaming) :
    g.Adopts other naming (Holdings.empty.run acts).cells := by
  have hs := Holdings.Separate.empty.run acts
  have hlive := Holdings.live_of_generation? hg hm
  exact hlive.adopts (hs.apart_of_live hg hother hlive)
    (fun id i hi => hs.made k' i ⟨other, id, hother, hi⟩) naming

theorem gathering_sync_then_copy : ∃ g other,
    (Holdings.empty.run gathering).generation? (.own 0) = some g ∧ g.mutable = true ∧
    (Holdings.empty.run gathering).generation? (.own 1) = some other ∧
    g.Adopts other authorNaming (Holdings.empty.run gathering).cells := by
  have hg : (Holdings.empty.run gathering).generation? (.own 0) = some _ := rfl
  have hother : (Holdings.empty.run gathering).generation? (.own 1) = some _ := rfl
  exact ⟨_, _, hg, rfl, hother, sync_then_copy_adopts gathering hg rfl hother authorNaming⟩

end ColumnAtlas
