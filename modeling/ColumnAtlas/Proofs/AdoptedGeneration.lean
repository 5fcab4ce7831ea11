import ColumnAtlas.Generation
import ColumnAtlas.Proofs.MapEntries

namespace ColumnAtlas

theorem CellId.eq_iff {i j : CellId} : i = j ↔ i.index = j.index := by
  cases i; cases j; simp

theorem Cell.eq_of_mapping {c c' : Cell} (hmapping : c.mapping = c'.mapping)
    (hmutable : c.mutable = c'.mutable) : c = c' := by
  cases c; cases c'; cases hmapping; cases hmutable; rfl

/-- A generation that can change: its cells can, and no two classes share one. -/
structure Generation.Live (g : Generation) (s : CellStore) : Prop where
  mutable : g.mutable = true
  cells : ∀ id i, g.cell? id = some i → (s.read i).mutable = true
  distinct : ∀ id id' i, g.cell? id = some i → g.cell? id' = some i → id = id'

def Generation.contents (g : Generation) (s : CellStore) : SortedMap ClassId Cell :=
  g.cells.map fun _ i => s.read i

/-- A cell that two generations share belongs to the same class in both. -/
def Generation.Apart (g other : Generation) : Prop :=
  ∀ id id' i, g.cell? id = some i → other.cell? id' = some i → id = id'

/-- Some classes of a generation took over the mappings that they have in another one, and no other
cell is changed. -/
structure Generation.Copied (g other : Generation) (s s' : CellStore) (reached : ClassId → Prop) :
    Prop where
  adopted : ∀ id i, g.cell? id = some i → reached id →
    (other.cell? id).map s.mapping = some (s'.mapping i)
  unreached : ∀ id i, g.cell? id = some i → ¬reached id → s'.read i = s.read i
  outside : ∀ i, (∀ id, g.cell? id ≠ some i) → s'.read i = s.read i
  mutable : ∀ i, (s'.read i).mutable = (s.read i).mutable
  size : s'.size = s.size
  source : other.contents s' = other.contents s

/-- A generation that took the place of another one. Its cells are old ones of the same classes or
new ones, and all cells outside of it are as they were. -/
structure Generation.Follows (g : Generation) (s : CellStore) (g' : Generation) (s' : CellStore) :
    Prop where
  size : s.size ≤ s'.size
  whence : ∀ id i, g'.cell? id = some i → g.cell? id = some i ∨ s.size ≤ i.index
  frame : ∀ i, i.index < s.size → (∀ id, g'.cell? id ≠ some i) → s'.read i = s.read i

/-- The cells of one store are in another one as they were. -/
structure CellStore.Grows (s s' : CellStore) : Prop where
  size : s.size ≤ s'.size
  read : ∀ i, i.index < s.size → s'.read i = s.read i

namespace CellStore

variable {s : CellStore}

/-- An immutable cell stands for every cell that was never made. -/
theorem index_lt_of_mutable {i : CellId} (h : (s.read i).mutable = true) : i.index < s.size := by
  refine Nat.lt_of_not_le fun hle => ?_
  rw [read, List.getElem?_eq_none hle] at h
  cases h

theorem copyFrom_exists {target : CellId} (h : (s.read target).mutable = true) (source : CellId) :
    ∃ s', s.copyFrom target source = .ok s' :=
  ⟨_, if_pos h⟩

section AddAll

theorem grows_addAll {κ : Type} [LT κ] {m : SortedMap κ Cell} : s.Grows (s.addAll m).2 where
  size := by simp [addAll, size]
  read i hi := by simp [addAll, CellStore.read, List.getElem?_append_left hi]

variable {κ : Type} [LE κ] [LT κ] [DecidableEq κ] [Std.LawfulOrderLT κ] {m : SortedMap κ Cell}
  {k k' : κ} {i : CellId}

theorem get?_addAll : (s.addAll m).1.get? k = some i ↔
    ∃ j c, m.entries[j]? = some (k, c) ∧ i = ⟨s.size + j⟩ := by
  have hread : (s.addAll m).1.get? k = (m.number.get? k).map fun j => (⟨s.size + j⟩ : CellId) :=
    SortedMap.get?_map ..
  rw [hread, Option.map_eq_some_iff]
  constructor
  · rintro ⟨j, hj, rfl⟩
    obtain ⟨c, hc⟩ := SortedMap.get?_number.mp hj
    exact ⟨j, c, hc, rfl⟩
  · rintro ⟨j, c, hc, rfl⟩
    exact ⟨j, SortedMap.get?_number.mpr ⟨c, hc⟩, rfl⟩

theorem read_addAll (h : (s.addAll m).1.get? k = some i) :
    s.size ≤ i.index ∧ m.get? k = some ((s.addAll m).2.read i) := by
  obtain ⟨j, c, hc, rfl⟩ := get?_addAll.mp h
  refine ⟨Nat.le_add_right _ _, ?_⟩
  have hvalue : m.values[j]? = some c := by simp [SortedMap.values, hc]
  have hread : (s.addAll m).2.read ⟨s.size + j⟩ = c := by
    simp [addAll, read, size, List.getElem?_append_right, hvalue]
  rw [hread]
  exact SortedMap.mem_entries_iff.mp (List.mem_of_getElem? hc)

theorem addAll_exists {c : Cell} (h : m.get? k = some c) :
    ∃ i, (s.addAll m).1.get? k = some i ∧ (s.addAll m).2.read i = c := by
  obtain ⟨j, hj⟩ := List.mem_iff_getElem?.mp (SortedMap.mem_of_get? h)
  have hi : (s.addAll m).1.get? k = some ⟨s.size + j⟩ := get?_addAll.mpr ⟨j, c, hj, rfl⟩
  exact ⟨_, hi, Option.some.inj ((read_addAll hi).2.symm.trans h)⟩

theorem addAll_distinct (h : (s.addAll m).1.get? k = some i) (h' : (s.addAll m).1.get? k' = some i) :
    k = k' := by
  obtain ⟨j, c, hc, rfl⟩ := get?_addAll.mp h
  obtain ⟨j', c', hc', he⟩ := get?_addAll.mp h'
  have hj : j = j' := by
    have := CellId.eq_iff.mp he
    simp only at this
    omega
  subst hj
  exact (Prod.mk.inj (Option.some.inj (hc.symm.trans hc'))).1

theorem get?_addAll_map_read :
    ((s.addAll m).1.get? k).map (s.addAll m).2.read = m.get? k := by
  cases hc : m.get? k with
  | some c =>
    obtain ⟨i, hi, hr⟩ := addAll_exists (s := s) hc
    rw [hi, ← hr]
    rfl
  | none =>
    cases hi : (s.addAll m).1.get? k with
    | none => rfl
    | some i => exact absurd ((read_addAll hi).2.symm.trans hc) (by simp)

end AddAll

end CellStore

namespace Generation

variable {g other : Generation} {s s' : CellStore}

theorem get?_mappings (g : Generation) (s : CellStore) (id : ClassId) :
    (g.mappings s).get? id = (g.cell? id).map s.mapping :=
  SortedMap.get?_map ..

theorem mappings_eq (g : Generation) (s : CellStore) :
    g.mappings s = (g.contents s).map fun _ c => c.mapping := by
  apply SortedMap.eq_of_get?
  intro id
  rw [get?_mappings, SortedMap.get?_map, contents, SortedMap.get?_map, Option.map_map]
  rfl

theorem contents_congr (h : ∀ id i, g.cell? id = some i → s'.read i = s.read i) :
    g.contents s' = g.contents s := by
  apply SortedMap.eq_of_get?
  intro id
  rw [contents, contents, SortedMap.get?_map, SortedMap.get?_map]
  cases hi : g.cells.get? id with
  | none => rfl
  | some i => exact congrArg some (h id i hi)

theorem mappings_of_grows (hs : s.Grows s') (h : ∀ id i, g.cell? id = some i → i.index < s.size) :
    g.mappings s' = g.mappings s := by
  rw [mappings_eq, mappings_eq, contents_congr fun id i hi => hs.read i (h id i hi)]

theorem Live.index_lt (h : g.Live s) {id : ClassId} {i : CellId} (hi : g.cell? id = some i) :
    i.index < s.size :=
  CellStore.index_lt_of_mutable (h.cells id i hi)

theorem Live.of_grows (h : g.Live s) (hs : s.Grows s') : g.Live s' where
  mutable := h.mutable
  cells id i hi := by
    rw [hs.read i (h.index_lt hi)]
    exact h.cells id i hi
  distinct := h.distinct

theorem live_addAll {m : SortedMap ClassId Cell} {version : Int}
    (hm : ∀ id c, m.get? id = some c → c.mutable = true) :
    Generation.Live ⟨version, (s.addAll m).1, true⟩ (s.addAll m).2 where
  mutable := rfl
  cells id _ hi := hm id _ (CellStore.read_addAll hi).2
  distinct _ _ _ h h' := CellStore.addAll_distinct h h'

theorem mappings_addAll {m : SortedMap ClassId Cell} {version : Int} {mutable : Bool} (id : ClassId) :
    ((⟨version, (s.addAll m).1, mutable⟩ : Generation).mappings (s.addAll m).2).get? id =
      (m.get? id).map Cell.mapping := by
  rw [get?_mappings, ← CellStore.get?_addAll_map_read (s := s), Option.map_map]
  rfl

theorem live_new (version : Int) (classes : List (ClassId × Cell)) (s : CellStore) :
    (new version classes s).1.Live (new version classes s).2 := by
  refine live_addAll fun id c hc => ?_
  rw [SortedMap.get?_map] at hc
  obtain ⟨_, _, rfl⟩ := Option.map_eq_some_iff.mp hc
  rfl

theorem new_spec {classes : List (ClassId × Cell)} (hn : (classes.map Prod.fst).Nodup) (version : Int)
    (s : CellStore) : (new version classes s).1.version = version ∧
      (new version classes s).1.Live (new version classes s).2 ∧ s.Grows (new version classes s).2 ∧
      (∀ id i, (new version classes s).1.cell? id = some i → s.size ≤ i.index) ∧
      ∀ id, ((new version classes s).1.mappings (new version classes s).2).get? id =
        (SortedMap.find id classes).map Cell.mapping := by
  refine ⟨rfl, live_new version classes s, CellStore.grows_addAll,
    fun id i hi => (CellStore.read_addAll hi).1, fun id => ?_⟩
  refine (mappings_addAll id).trans ?_
  rw [SortedMap.get?_map, SortedMap.get?_ofList hn, Option.map_map]
  rfl

/-- A copy in new cells has the same mappings, whether it can change or not. -/
theorem mappings_snapshot (g : Generation) (mutable : Bool) (s : CellStore) :
    (g.snapshot mutable s).1.mappings (g.snapshot mutable s).2 = g.mappings s := by
  apply SortedMap.eq_of_get?
  intro id
  refine (mappings_addAll id).trans ?_
  rw [SortedMap.get?_map, Option.map_map, get?_mappings]
  rfl

theorem snapshot_spec (g : Generation) (s : CellStore) :
    (g.snapshot true s).1.version = g.version ∧ (g.snapshot true s).1.Live (g.snapshot true s).2 ∧
      s.Grows (g.snapshot true s).2 ∧ (g.snapshot true s).1.mappings (g.snapshot true s).2 = g.mappings s := by
  refine ⟨rfl, live_addAll ?_, CellStore.grows_addAll, g.mappings_snapshot true s⟩
  intro id c hc
  rw [SortedMap.get?_map] at hc
  obtain ⟨i, _, rfl⟩ := Option.map_eq_some_iff.mp hc
  rfl

/-- Copying into different mutable cells goes on to the cells after them when every source is found
and is none of the others. It changes nothing but these cells. -/
theorem copyCells_spec (naming : TableNaming) {es : List (ClassId × CellId)}
    (hm : ∀ e ∈ es, (s.read e.2).mutable = true) (hd : (es.map Prod.snd).Nodup)
    (hs : ∀ e ∈ es, ∃ source, other.cell? e.1 = some source ∧ ∀ e' ∈ es, source = e'.2 → e' = e)
    (rest : List (ClassId × CellId)) :
    ∃ s', copyCells other naming (es ++ rest) s = copyCells other naming rest s' ∧
      s'.size = s.size ∧
      (∀ e ∈ es, (other.cell? e.1).map s.mapping = some (s'.mapping e.2) ∧
        (s'.read e.2).mutable = true) ∧
      ∀ i, (∀ e ∈ es, i ≠ e.2) → s'.read i = s.read i := by
  induction es generalizing s with
  | nil => exact ⟨s, rfl, rfl, by simp, fun _ _ => rfl⟩
  | cons e es ih =>
    obtain ⟨hne, hd'⟩ := List.nodup_cons.mp hd
    obtain ⟨source, hsource, _⟩ := hs e List.mem_cons_self
    obtain ⟨s₁, hs₁⟩ := CellStore.copyFrom_exists (hm e List.mem_cons_self) source
    have hread := CellStore.read_copyFrom hs₁
    have hother : ∀ e' ∈ es, e'.2 ≠ e.2 := fun e' he' heq => hne (heq ▸ List.mem_map.mpr ⟨e', he', rfl⟩)
    have hm' : ∀ e' ∈ es, (s₁.read e'.2).mutable = true := by
      intro e' he'
      rw [hread, if_neg (hother e' he')]
      exact hm e' (List.mem_cons_of_mem _ he')
    have hs' : ∀ e' ∈ es, ∃ source', other.cell? e'.1 = some source' ∧
        ∀ e'' ∈ es, source' = e''.2 → e'' = e' := by
      intro e' he'
      obtain ⟨source', hsource', hout'⟩ := hs e' (List.mem_cons_of_mem _ he')
      exact ⟨source', hsource', fun e'' he'' => hout' e'' (List.mem_cons_of_mem _ he'')⟩
    obtain ⟨s', hcopy, hsize, hcells, hframe⟩ := ih hm' hd' hs'
    refine ⟨s', ?_, hsize.trans (CellStore.size_copyFrom hs₁), ?_, ?_⟩
    · simp only [List.cons_append, copyCells, hsource, hs₁]
      exact hcopy
    · intro e' he'
      rcases List.mem_cons.mp he' with rfl | he'
      · have hfinal : s'.read e'.2 = ⟨s.mapping source, true⟩ := by
          rw [hframe e'.2 fun e'' he'' => Ne.symm (hother e'' he''), hread, if_pos rfl]
        rw [hsource, CellStore.mapping, hfinal]
        exact ⟨rfl, rfl⟩
      · obtain ⟨hmapping, hmutable⟩ := hcells e' he'
        refine ⟨?_, hmutable⟩
        obtain ⟨source', hsource', hout'⟩ := hs e' (List.mem_cons_of_mem _ he')
        have hintact : source' ≠ e.2 := fun heq =>
          hother e' he' (congrArg Prod.snd (hout' e List.mem_cons_self heq)).symm
        rw [← hmapping, hsource']
        simp only [Option.map_some, Option.some.injEq, CellStore.mapping]
        rw [hread, if_neg hintact]
    · intro i hi
      rw [hframe i fun e' he' => hi e' (List.mem_cons_of_mem _ he'), hread,
        if_neg (hi e List.mem_cons_self)]

theorem cell?_eq_none_of_isSome_eq {id : ClassId}
    (hsame : (g.cell? id).isSome = (other.cell? id).isSome) (hi : g.cell? id = none) :
    other.cell? id = none := by
  rw [hi] at hsame
  exact Option.not_isSome_iff_eq_none.mp (by simp [← hsame])

theorem isSome_of_mem {e : ClassId × CellId} (he : e ∈ g.cells.entries) : (g.cell? e.1).isSome :=
  Option.isSome_iff_exists.mpr ⟨e.2, SortedMap.mem_entries_iff.mp he⟩

theorem Live.nodup_cells (h : g.Live s) : (g.cells.entries.map Prod.snd).Nodup := by
  have hasc := g.cells.ascending
  refine List.pairwise_map.mpr (List.Pairwise.imp_of_mem ?_ hasc)
  intro a b ha hb hlt heq
  have ha' : g.cell? a.1 = some a.2 := SortedMap.mem_entries_iff.mp ha
  have hb' : g.cell? b.1 = some b.2 := SortedMap.mem_entries_iff.mp hb
  have hid := h.distinct a.1 b.1 a.2 ha' (heq ▸ hb')
  rw [hid] at hlt
  exact Std.lt_irrefl hlt

/-- Copying into the cells of the first classes goes on to the rest. -/
theorem Live.copied (h : g.Live s) (ha : g.Apart other) (reached : ClassId → Prop)
    {es : List (ClassId × CellId)} (hsub : es.Sublist g.cells.entries)
    (hes : ∀ id i, g.cell? id = some i → ((id, i) ∈ es ↔ reached id))
    (hsome : ∀ e ∈ es, (other.cell? e.1).isSome) (naming : TableNaming)
    (rest : List (ClassId × CellId)) :
    ∃ s', copyCells other naming (es ++ rest) s = copyCells other naming rest s' ∧
      g.Copied other s s' reached := by
  have hentry : ∀ e ∈ es, g.cell? e.1 = some e.2 := fun e he =>
    SortedMap.mem_entries_iff.mp (hsub.subset he)
  have hmutable : ∀ e ∈ es, (s.read e.2).mutable = true := fun e he => h.cells e.1 e.2 (hentry e he)
  have hsource : ∀ e ∈ es, ∃ source, other.cell? e.1 = some source ∧
      ∀ e' ∈ es, source = e'.2 → e' = e := by
    intro e he
    obtain ⟨source, hsource⟩ := Option.isSome_iff_exists.mp (hsome e he)
    refine ⟨source, hsource, ?_⟩
    rintro e' he' rfl
    have hid := ha e'.1 e.1 e'.2 (hentry e' he') hsource
    have hcell := hentry e' he'
    rw [hid, hentry e he] at hcell
    exact Prod.ext hid (Option.some.inj hcell).symm
  obtain ⟨s', hcopy, hsize, hcells, hframe⟩ :=
    copyCells_spec naming hmutable (h.nodup_cells.sublist (hsub.map _)) hsource rest
  have hflag (i : CellId) : (s'.read i).mutable = (s.read i).mutable := by
    by_cases hi : ∃ e ∈ es, i = e.2
    · obtain ⟨e, he, rfl⟩ := hi
      exact (hcells e he).2.trans (hmutable e he).symm
    · rw [hframe i fun e he heq => hi ⟨e, he, heq⟩]
  refine ⟨s', hcopy, ⟨?_, ?_, ?_, hflag, hsize, ?_⟩⟩
  · intro id i hi hr
    exact (hcells (id, i) ((hes id i hi).mpr hr)).1
  · intro id i hi hr
    refine hframe i fun e he heq => hr ?_
    have hid := h.distinct id e.1 i hi (heq ▸ hentry e he)
    subst hid heq
    exact (hes e.1 e.2 hi).mp he
  · intro i hi
    exact hframe i fun e he heq => hi e.1 (heq ▸ hentry e he)
  · refine contents_congr fun id i hi => ?_
    by_cases hheld : ∃ e ∈ es, i = e.2
    · -- The cell is its own source.
      obtain ⟨e, he, rfl⟩ := hheld
      have hmapping := (hcells e he).1
      rw [ha e.1 id e.2 (hentry e he) hi, hi] at hmapping
      exact Cell.eq_of_mapping (Option.some.inj hmapping).symm (hflag e.2)
    · exact hframe i fun e he heq => hheld ⟨e, he, heq⟩

/-- With a counterpart for every class, copying reaches all of them. -/
theorem Live.copied_all (h : g.Live s) (ha : g.Apart other)
    (hsome : ∀ e ∈ g.cells.entries, (other.cell? e.1).isSome) (naming : TableNaming) :
    ∃ s', g.copyFrom other naming s = (.ok (), { g with version := other.version }, s') ∧
      g.Copied other s s' fun _ => True := by
  obtain ⟨s', hcopy, hcopied⟩ := h.copied ha (fun _ => True) (List.Sublist.refl _)
    (fun id i hi => iff_true_intro (SortedMap.mem_entries_iff.mpr hi)) hsome naming []
  rw [List.append_nil] at hcopy
  refine ⟨s', ?_, hcopied⟩
  rw [Generation.copyFrom, if_pos h.mutable, hcopy]
  rfl

theorem Copied.mappings (h : g.Copied other s s' fun _ => True)
    (hsame : ∀ id, (g.cell? id).isSome = (other.cell? id).isSome) :
    g.mappings s' = other.mappings s := by
  apply SortedMap.eq_of_get?
  intro id
  rw [get?_mappings, get?_mappings]
  cases hi : g.cell? id with
  | some i => exact (h.adopted id i hi trivial).symm
  | none =>
    rw [cell?_eq_none_of_isSome_eq (hsame id) hi]
    rfl

/-- A generation takes over another one with the same classes, whose cells are not its own. -/
theorem copyFrom_spec (naming : TableNaming) (h : g.Live s)
    (hsame : ∀ id, (g.cell? id).isSome = (other.cell? id).isSome)
    (hout : ∀ id id' i, other.cell? id = some i → g.cell? id' ≠ some i) :
    ∃ g' s', g.copyFrom other naming s = (.ok (), g', s') ∧ g'.version = other.version ∧
      g'.cells = g.cells ∧ g'.Live s' ∧ g'.mappings s' = other.mappings s ∧ s'.size = s.size ∧
      ∀ i, (∀ id, g.cell? id ≠ some i) → s'.read i = s.read i := by
  have hapart : g.Apart other := fun id id' i hi hi' => absurd hi (hout id' id i hi')
  obtain ⟨s', hcopy, hcopied⟩ := h.copied_all hapart (fun e he => hsame e.1 ▸ isSome_of_mem he) naming
  refine ⟨{ g with version := other.version }, s', hcopy, rfl, rfl, ⟨h.mutable, ?_, h.distinct⟩,
    hcopied.mappings hsame, hcopied.size, hcopied.outside⟩
  intro id i hi
  rw [hcopied.mutable]
  exact h.cells id i hi

section Synced

/-- The contents of new cells for the classes that only another generation has. -/
def joining (g other : Generation) (s : CellStore) : SortedMap ClassId Cell :=
  (other.cells.filter fun id _ => !g.cells.contains id).map fun _ i => (s.read i).copy true

/-- A generation with the classes of another one, in its own cells or in new ones. -/
def synced (g other : Generation) (s : CellStore) : Generation :=
  let kept := g.cells.filter fun id _ => other.cells.contains id
  { g with cells := kept.insertAll (s.addAll (g.joining other s)).1.entries }

variable {id id' : ClassId} {i : CellId}

theorem get?_joining (g other : Generation) (s : CellStore) (id : ClassId) :
    (g.joining other s).get? id =
      ((other.cell? id).filter fun _ => !(g.cell? id).isSome).map fun i => (s.read i).copy true := by
  refine (SortedMap.get?_map ..).trans ?_
  rw [SortedMap.get?_filter]
  rfl

theorem cell?_synced (g other : Generation) (s : CellStore) (id : ClassId) :
    (g.synced other s).cell? id = ((s.addAll (g.joining other s)).1.get? id).or
      ((g.cell? id).filter fun _ => (other.cell? id).isSome) := by
  refine (SortedMap.get?_insertAll_entries ..).trans ?_
  rw [SortedMap.get?_filter]
  rfl

theorem cell?_synced_of_some (hi : g.cell? id = some i) :
    (g.synced other s).cell? id = if (other.cell? id).isSome then some i else none := by
  have hmap := CellStore.get?_addAll_map_read (s := s) (m := g.joining other s) (k := id)
  have hnone : (g.joining other s).get? id = none := by simp [get?_joining, hi]
  rw [hnone, Option.map_eq_none_iff] at hmap
  rw [cell?_synced, hmap, hi, Option.none_or, Option.filter_some]

theorem cell?_synced_of_none (hi : g.cell? id = none) :
    (g.synced other s).cell? id = (s.addAll (g.joining other s)).1.get? id := by
  rw [cell?_synced, hi, Option.filter_none, Option.or_none]

/-- A cell is an old one of the same class, or a new one. -/
theorem cell?_synced_cases (hi : (g.synced other s).cell? id = some i) :
    g.cell? id = some i ∨ (s.addAll (g.joining other s)).1.get? id = some i := by
  cases hg : g.cell? id with
  | some j =>
    rw [cell?_synced_of_some hg] at hi
    split at hi
    next => exact .inl hi
    next => cases hi
  | none =>
    rw [cell?_synced_of_none hg] at hi
    exact .inr hi

theorem isSome_synced (g other : Generation) (s : CellStore) (id : ClassId) :
    ((g.synced other s).cell? id).isSome = (other.cell? id).isSome := by
  cases hg : g.cell? id with
  | some i =>
    rw [cell?_synced_of_some hg]
    cases (other.cell? id).isSome <;> rfl
  | none =>
    have hmap := CellStore.get?_addAll_map_read (s := s) (m := g.joining other s) (k := id)
    have hsome := congrArg Option.isSome hmap
    rw [Option.isSome_map, get?_joining, hg] at hsome
    rw [cell?_synced_of_none hg]
    simpa using hsome

theorem Live.synced (h : g.Live s) (other : Generation) :
    (g.synced other s).Live (s.addAll (g.joining other s)).2 where
  mutable := h.mutable
  cells id i hi := by
    rcases cell?_synced_cases hi with hg | ha
    · rw [CellStore.grows_addAll.read i (h.index_lt hg)]
      exact h.cells id i hg
    · have hvalue := (CellStore.read_addAll ha).2
      rw [get?_joining] at hvalue
      obtain ⟨j, _, hj⟩ := Option.map_eq_some_iff.mp hvalue
      rw [← hj]
      rfl
  distinct id id' i hi hi' := by
    rcases cell?_synced_cases hi with hg | ha <;> rcases cell?_synced_cases hi' with hg' | ha'
    · exact h.distinct id id' i hg hg'
    · exact absurd (h.index_lt hg) (Nat.not_lt.mpr (CellStore.read_addAll ha').1)
    · exact absurd (h.index_lt hg') (Nat.not_lt.mpr (CellStore.read_addAll ha).1)
    · exact CellStore.addAll_distinct ha ha'

end Synced

/-- Aligning the classes keeps the cells of the classes that stay, makes new ones for those that
join and leaves all older cells alone. -/
theorem syncClasses_spec (h : g.Live s) (other : Generation) :
    ∃ g₁ s₁, g.syncClasses other s = .ok (g₁, s₁) ∧ g₁.version = g.version ∧ g₁.Live s₁ ∧
      s.Grows s₁ ∧ (∀ id, (g₁.cell? id).isSome = (other.cell? id).isSome) ∧
      (∀ id i, g.cell? id = some i → (other.cell? id).isSome → g₁.cell? id = some i) ∧
      ∀ id i, g₁.cell? id = some i → g.cell? id = some i ∨ s.size ≤ i.index := by
  refine ⟨g.synced other s, (s.addAll (g.joining other s)).2, ?_, rfl, h.synced other,
    CellStore.grows_addAll, isSome_synced g other s, ?_, ?_⟩
  · rw [syncClasses, if_pos h.mutable]
    rfl
  · intro id i hi ho
    rw [cell?_synced_of_some hi, if_pos ho]
  · intro id i hi
    exact (cell?_synced_cases hi).imp_right fun ha => (CellStore.read_addAll ha).1

theorem Live.syncClasses (h : g.Live s) {g' : Generation} (hsync : g.syncClasses other s = .ok (g', s')) :
    g'.Live s' := by
  obtain ⟨_, _, hspec, _, hlive, _⟩ := syncClasses_spec h other
  obtain ⟨rfl, rfl⟩ := Prod.mk.inj (Except.ok.inj (hspec.symm.trans hsync))
  exact hlive

end Generation

end ColumnAtlas
