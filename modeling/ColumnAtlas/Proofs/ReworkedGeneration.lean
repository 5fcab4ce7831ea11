import ColumnAtlas.Cache
import ColumnAtlas.Proofs.AdoptedGeneration

namespace ColumnAtlas

/-- The cells of a generation were made after the cells of a store, with its mutability. -/
def Generation.MadeIn (g : Generation) (s s' : CellStore) : Prop :=
  ∀ id i, g.cell? id = some i →
    s.size ≤ i.index ∧ i.index < s'.size ∧ (s'.read i).mutable = g.mutable

/-- A generation that takes the place of another one: its cells are old ones of the same classes or
new ones, and it is the other one if that cannot change. -/
structure Generation.Succeeds (g : Generation) (s : CellStore) (g' : Generation) (s' : CellStore) :
    Prop where
  whence : ∀ id i, g'.cell? id = some i →
    g.cell? id = some i ∨ (s.size ≤ i.index ∧ i.index < s'.size)
  mutable : g'.mutable = g.mutable
  immutable : g.mutable = false → g' = g

/-- Only mutable cells of the generation were written, and cells were made. -/
structure Generation.Reworked (g : Generation) (s : CellStore) (g' : Generation) (s' : CellStore) :
    Prop extends g.Succeeds s g' s' where
  size : s.size ≤ s'.size
  read : ∀ i, i.index < s.size → (∀ id, g.cell? id ≠ some i) ∨ (s.read i).mutable = false →
    s'.read i = s.read i
  mutable_read : ∀ i, i.index < s.size → (s'.read i).mutable = (s.read i).mutable

namespace CellStore

variable {s s' : CellStore}

theorem mutable_of_copyFrom {target source : CellId} (h : s.copyFrom target source = .ok s') :
    (s.read target).mutable = true := by
  unfold copyFrom at h
  split at h
  next hm => exact hm
  next => cases h

theorem mutable_copyFrom {target source : CellId} (h : s.copyFrom target source = .ok s')
    (i : CellId) : (s'.read i).mutable = (s.read i).mutable := by
  have htarget := mutable_of_copyFrom h
  rw [read_copyFrom h]
  split
  next hi => rw [hi, htarget]
  next => rfl

theorem read_copyFrom_of_immutable {target source i : CellId} (h : s.copyFrom target source = .ok s')
    (hi : (s.read i).mutable = false) : s'.read i = s.read i := by
  have hne : i ≠ target := by
    rintro rfl
    rw [mutable_of_copyFrom h] at hi
    cases hi
  rw [read_copyFrom h, if_neg hne]

theorem grows_add (s : CellStore) (c : Cell) : s.Grows (s.add c).2 where
  size := by simp [add, size]
  read i hi := by
    rw [read_add, if_neg (Nat.ne_of_lt hi)]

theorem Grows.refl (s : CellStore) : s.Grows s := ⟨Nat.le_refl _, fun _ _ => rfl⟩

section AddAll

variable {κ : Type} [LE κ] [LT κ] [DecidableEq κ] [Std.LawfulOrderLT κ]

theorem index_lt_addAll {m : SortedMap κ Cell} {k : κ} {i : CellId}
    (h : (s.addAll m).1.get? k = some i) : i.index < (s.addAll m).2.size := by
  obtain ⟨j, c, hc, rfl⟩ := get?_addAll.mp h
  have hj : j < m.entries.length := (List.getElem?_eq_some_iff.mp hc).1
  have hsize : (s.addAll m).2.size = s.size + m.entries.length := by
    simp [addAll, size, SortedMap.values]
  have hi : (⟨s.size + j⟩ : CellId).index = s.size + j := rfl
  omega

end AddAll

end CellStore

namespace Generation

variable {g other : Generation} {s s' : CellStore}

theorem madeIn_addAll {m : SortedMap ClassId Cell} {mutable : Bool} (version : Int)
    (hm : ∀ id c, m.get? id = some c → c.mutable = mutable) :
    Generation.MadeIn ⟨version, (s.addAll m).1, mutable⟩ s (s.addAll m).2 := by
  intro id i hi
  obtain ⟨hle, hread⟩ := CellStore.read_addAll hi
  exact ⟨hle, CellStore.index_lt_addAll hi, hm id _ hread⟩

theorem madeIn_new (version : Int) (classes : List (ClassId × Cell)) (s : CellStore) :
    (new version classes s).1.MadeIn s (new version classes s).2 := by
  refine madeIn_addAll version fun id c hc => ?_
  rw [SortedMap.get?_map] at hc
  obtain ⟨_, _, rfl⟩ := Option.map_eq_some_iff.mp hc
  rfl

theorem madeIn_snapshot (g : Generation) (mutable : Bool) (s : CellStore) :
    (g.snapshot mutable s).1.MadeIn s (g.snapshot mutable s).2 := by
  refine madeIn_addAll g.version fun id c hc => ?_
  rw [SortedMap.get?_map] at hc
  obtain ⟨_, _, rfl⟩ := Option.map_eq_some_iff.mp hc
  rfl

/-- Copying into cells changes the mappings of these cells at most, also where it stops early. -/
theorem copyCells_frame (other : Generation) (naming : TableNaming) (es : List (ClassId × CellId))
    (s : CellStore) : (copyCells other naming es s).2.size = s.size ∧
      (∀ i, ((copyCells other naming es s).2.read i).mutable = (s.read i).mutable) ∧
      ∀ i, (∀ e ∈ es, e.2 ≠ i) ∨ (s.read i).mutable = false →
        (copyCells other naming es s).2.read i = s.read i := by
  induction es generalizing s with
  | nil => exact ⟨rfl, fun _ => rfl, fun _ _ => rfl⟩
  | cons e es ih =>
    unfold copyCells
    split
    next => exact ⟨rfl, fun _ => rfl, fun _ _ => rfl⟩
    next source _ =>
      split
      next => exact ⟨rfl, fun _ => rfl, fun _ _ => rfl⟩
      next s₁ hs₁ =>
        obtain ⟨hsize, hmutable, hread⟩ := ih s₁
        have hflag := CellStore.mutable_copyFrom hs₁
        refine ⟨hsize.trans (CellStore.size_copyFrom hs₁), fun i => (hmutable i).trans (hflag i), ?_⟩
        intro i hi
        rcases hi with hout | hfixed
        · have hne : i ≠ e.2 := Ne.symm (hout e List.mem_cons_self)
          rw [hread i (.inl fun e' he' => hout e' (List.mem_cons_of_mem _ he')),
            CellStore.read_copyFrom hs₁, if_neg hne]
        · rw [hread i (.inr ((hflag i).trans hfixed)), CellStore.read_copyFrom_of_immutable hs₁ hfixed]

theorem Succeeds.refl (g : Generation) (s s' : CellStore) : g.Succeeds s g s' :=
  ⟨fun _ _ h => .inl h, rfl, fun _ => rfl⟩

theorem Reworked.refl (g : Generation) (s : CellStore) : g.Reworked s g s :=
  ⟨.refl g s s, Nat.le_refl _, fun _ _ _ => rfl, fun _ _ => rfl⟩

theorem reworked_copyFrom (g other : Generation) (naming : TableNaming) (s : CellStore) :
    g.Reworked s (g.copyFrom other naming s).2.1 (g.copyFrom other naming s).2.2 := by
  obtain ⟨hsize, hmutable, hread⟩ := copyCells_frame other naming g.cells.entries s
  have hout {i : CellId} (hi : (∀ id, g.cell? id ≠ some i) ∨ (s.read i).mutable = false) :
      (∀ e ∈ g.cells.entries, e.2 ≠ i) ∨ (s.read i).mutable = false :=
    hi.imp_left fun h e he heq => h e.1 (heq ▸ SortedMap.mem_entries_iff.mp he)
  unfold copyFrom
  split
  next hm =>
    have hno : g.mutable = false → False := fun h => by
      rw [hm] at h
      cases h
    cases hcopy : copyCells other naming g.cells.entries s with
    | mk result s' =>
      rw [hcopy] at hsize hmutable hread
      cases result with
      | error e =>
        exact ⟨.refl g s s', Nat.le_of_eq hsize.symm, fun i _ hi => hread i (hout hi),
          fun i _ => hmutable i⟩
      | ok =>
        exact ⟨⟨fun _ _ h => .inl h, rfl, fun h => (hno h).elim⟩, Nat.le_of_eq hsize.symm,
          fun i _ hi => hread i (hout hi), fun i _ => hmutable i⟩
  next => exact .refl g s

theorem reworked_syncClasses {g' : Generation} (h : g.syncClasses other s = .ok (g', s')) :
    g.Reworked s g' s' := by
  unfold syncClasses at h
  split at h
  next hm =>
    obtain ⟨rfl, rfl⟩ := Prod.mk.inj (Except.ok.inj h)
    have hgrows : s.Grows (s.addAll (g.joining other s)).2 := CellStore.grows_addAll
    refine ⟨⟨fun id i hi => ?_, rfl, fun h => ?_⟩, hgrows.size, fun i hi _ => hgrows.read i hi,
      fun i hi => congrArg Cell.mutable (hgrows.read i hi)⟩
    · exact (cell?_synced_cases hi).imp_right fun ha =>
        ⟨(CellStore.read_addAll ha).1, CellStore.index_lt_addAll ha⟩
    · rw [hm] at h
      cases h
  next => cases h

end Generation

end ColumnAtlas
