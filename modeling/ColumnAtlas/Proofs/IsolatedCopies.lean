import ColumnAtlas.Proofs.HoldingsSteps

namespace ColumnAtlas

/-- No cell belongs to two generations, and the cells of an immutable generation are immutable. -/
structure Holdings.Separate (w : Holdings) : Prop where
  made : ∀ k i, w.Holds k i → i.index < w.cells.size
  apart : ∀ k k' i, w.Holds k i → w.Holds k' i → k = k'
  fixed : ∀ k g id i, w.generation? k = some g → g.mutable = false → g.cell? id = some i →
    (w.cells.read i).mutable = false
  cached : ∀ n g, w.generation? (.cache n) = some g → g.mutable = true

namespace Holdings

variable {w w' : Holdings} {act : Act} {k : Keeper} {i : CellId} {item : Item} {c : Contents}

/-- Every cell that a generation got was made just now, and only one generation gets cells. -/
theorem Evolves.holds_cases (h : w.Evolves act w') : ∃ k₀, ∀ k i, w'.Holds k i →
    w.Holds k i ∨ (k = k₀ ∧ w.cells.size ≤ i.index ∧ i.index < w'.cells.size) := by
  obtain ⟨k₀, hwhence⟩ := h.whence
  refine ⟨k₀, fun k i ⟨g', id, hg', hi⟩ => ?_⟩
  rcases hwhence k g' hg' with hsame | ⟨hk, ⟨g, hg, hsucceeds⟩ | ⟨hmade, _⟩⟩
  · exact .inl ⟨g', id, hsame, hi⟩
  · rcases hsucceeds.whence id i hi with hold | hnew
    · exact .inl ⟨g, id, hg, hold⟩
    · exact .inr ⟨hk, hnew⟩
  · obtain ⟨hle, hlt, _⟩ := hmade id i hi
    exact .inr ⟨hk, hle, hlt⟩

theorem Evolves.holds_of_made (h : w.Evolves act w') (hi : i.index < w.cells.size)
    (hheld : w'.Holds k i) : w.Holds k i := by
  obtain ⟨k₀, hcases⟩ := h.holds_cases
  rcases hcases k i hheld with hold | ⟨_, hle, _⟩
  · exact hold
  · omega

theorem Separate.empty : Holdings.empty.Separate := by
  have hnone (k : Keeper) (g : Generation) : Holdings.empty.generation? k ≠ some g := by
    cases k <;> simp [generation?, Holdings.empty]
  refine ⟨fun k _ hi => ?_, fun k _ _ hi => ?_, fun k g _ _ hg => absurd hg (hnone k g),
    fun n g hg => absurd hg (hnone (.cache n) g)⟩
  · obtain ⟨g, _, hg, _⟩ := hi
    exact absurd hg (hnone k g)
  · obtain ⟨g, _, hg, _⟩ := hi
    exact absurd hg (hnone k g)

theorem Separate.evolves (hs : w.Separate) (h : w.Evolves act w') : w'.Separate where
  made k i hi := by
    obtain ⟨k₀, hcases⟩ := h.holds_cases
    rcases hcases k i hi with hold | ⟨_, _, hlt⟩
    · exact Nat.lt_of_lt_of_le (hs.made k i hold) h.size
    · exact hlt
  apart k k' i hi hi' := by
    obtain ⟨k₀, hcases⟩ := h.holds_cases
    -- An old cell stays with the generation that it is in, and a new one is in the changed one.
    rcases hcases k i hi with hold | ⟨hk, hle, _⟩
    · have hlt := hs.made k i hold
      exact hs.apart k k' i hold (h.holds_of_made hlt hi')
    · rcases hcases k' i hi' with hold' | ⟨hk', _⟩
      · have hlt := hs.made k' i hold'
        omega
      · exact hk.trans hk'.symm
  fixed k g' id i hg' hm hi := by
    have hold {g : Generation} (hg : w.generation? k = some g) (hgm : g.mutable = false)
        (hgi : g.cell? id = some i) : (w'.cells.read i).mutable = false := by
      rw [h.mutable_read i (hs.made k i ⟨g, id, hg, hgi⟩)]
      exact hs.fixed k g id i hg hgm hgi
    obtain ⟨k₀, hwhence⟩ := h.whence
    rcases hwhence k g' hg' with hsame | ⟨_, ⟨g, hg, hsucceeds⟩ | ⟨hmade, _⟩⟩
    · exact hold hsame hm hi
    · have hgm : g.mutable = false := hsucceeds.mutable.symm.trans hm
      rw [hsucceeds.immutable hgm] at hi
      exact hold hg hgm hi
    · exact (hmade id i hi).2.2.trans hm
  cached n g' hg' := by
    obtain ⟨k₀, hwhence⟩ := h.whence
    rcases hwhence _ g' hg' with hsame | ⟨_, ⟨g, hg, hsucceeds⟩ | ⟨_, hcached⟩⟩
    · exact hs.cached n g' hsame
    · exact hsucceeds.mutable.trans (hs.cached n g hg)
    · exact hcached n rfl

theorem Separate.reaches_generation (hs : w.Separate) (hi : w.Holds k i)
    (hr : w.Reaches act (.cell i)) : w.Reaches act (.generation k) := by
  rcases hr with htarget | ⟨k', hk', hi'⟩
  · exact .inr ⟨i, htarget, hi⟩
  · obtain rfl := hs.apart k k' i hi hi'
    exact .inl hk'

theorem Evolves.contents_generation (h : w.Evolves act w') (hs : w.Separate) {g : Generation}
    (hg : w.generation? k = some g) (hr : ¬ w.Reaches act (.generation k) ∨ g.mutable = false) :
    g.contents w'.cells = g.contents w.cells := by
  refine Generation.contents_congr fun id i hi => ?_
  have hheld : w.Holds k i := ⟨g, id, hg, hi⟩
  have hout : ¬ w.Reaches act (.cell i) ∨ (w.cells.read i).mutable = false := by
    rcases hr with hr | hfixed
    · exact .inl fun hreach => hr (hs.reaches_generation hheld hreach)
    · exact .inr (hs.fixed k g id i hg hfixed hi)
  exact h.read i (hs.made k i hheld) hout

/-- An act changes nothing but the objects that it reaches, and among these no fixed one. -/
theorem Evolves.contents (h : w.Evolves act w') (hs : w.Separate) (hc : w.contents? item = some c)
    (hr : ¬ w.Reaches act item ∨ c.Fixed) :
    w'.contents? item = some c ∨ (¬ c.Fixed ∧ act.Closes item) := by
  cases item with
  | cell i =>
    simp only [contents?] at hc
    split at hc
    next hi =>
      obtain rfl := Option.some.inj hc
      have hi' : i.index < w'.cells.size := Nat.lt_of_lt_of_le hi h.size
      exact .inl (by rw [contents?, if_pos hi', h.read i hi hr])
    next => cases hc
  | generation k =>
    obtain ⟨g, hg, rfl⟩ := Option.map_eq_some_iff.mp hc
    rcases h.stays k g hg hr with hstay | hclose
    · left
      rw [contents?, hstay, Option.map_some, h.contents_generation hs hg hr]
    · right
      obtain ⟨n, hact, hk⟩ := hclose
      obtain rfl := Item.generation.inj hk
      refine ⟨fun hfixed => ?_, n, hact, rfl⟩
      have hfrozen : g.mutable = false := hfixed
      rw [hs.cached n g hg] at hfrozen
      cases hfrozen
  | frozen n =>
    obtain ⟨g, hg, rfl⟩ := Option.map_eq_some_iff.mp hc
    obtain ⟨hn, rfl⟩ := List.getElem?_eq_some_iff.mp hg
    have hkept := List.prefix_iff_getElem?.mp h.taken.1 n hn
    exact .inl (Option.map_eq_some_iff.mpr ⟨_, hkept, rfl⟩)
  | mapping n =>
    obtain ⟨m, hm, rfl⟩ := Option.map_eq_some_iff.mp hc
    obtain ⟨hn, rfl⟩ := List.getElem?_eq_some_iff.mp hm
    have hkept := List.prefix_iff_getElem?.mp h.taken.2 n hn
    exact .inl (Option.map_eq_some_iff.mpr ⟨_, hkept, rfl⟩)

theorem Affected.cons {acts : List Act} (h : (w.step act).Affected acts item) :
    w.Affected (act :: acts) item := by
  obtain ⟨done, act', rest, rfl, hr⟩ := h
  exact ⟨act :: done, act', rest, rfl, hr⟩

theorem Separate.run (hs : w.Separate) (acts : List Act) : (w.run acts).Separate := by
  induction acts generalizing w with
  | nil => exact hs
  | cons act acts ih => exact ih (hs.evolves (evolves_step w act))

theorem holds_of_holds_run (acts : List Act) (hi : i.index < w.cells.size)
    (h : (w.run acts).Holds k i) : w.Holds k i := by
  induction acts generalizing w with
  | nil => exact h
  | cons act acts ih =>
    have hevolves := evolves_step w act
    have hi' := Nat.lt_of_lt_of_le hi hevolves.size
    exact hevolves.holds_of_made hi (ih hi' h)

theorem Separate.contents_run (hs : w.Separate) (hc : w.contents? item = some c) (acts : List Act) :
    (w.run acts).contents? item = some c ∨
      (¬ c.Fixed ∧ (w.Affected acts item ∨ ∃ act ∈ acts, act.Closes item)) := by
  induction acts generalizing w with
  | nil => exact .inl hc
  | cons act acts ih =>
    have hevolves := evolves_step w act
    by_cases hr : ¬ w.Reaches act item ∨ c.Fixed
    · rcases hevolves.contents hs hc hr with hc' | ⟨hfixed, hclose⟩
      · rcases ih (hs.evolves hevolves) hc' with hend | ⟨hfixed, hlater | ⟨act', hmem, hclose⟩⟩
        · exact .inl hend
        · exact .inr ⟨hfixed, .inl hlater.cons⟩
        · exact .inr ⟨hfixed, .inr ⟨act', List.mem_cons_of_mem _ hmem, hclose⟩⟩
      · exact .inr ⟨hfixed, .inr ⟨act, List.mem_cons_self, hclose⟩⟩
    · obtain ⟨hreach, hfixed⟩ := not_or.mp hr
      exact .inr ⟨hfixed, .inl ⟨[], act, acts, rfl, Classical.not_not.mp hreach⟩⟩

end Holdings

/-- A cell never belongs to two generations, not even at different moments of a run. What can be read
through an object stays as it is unless an act is applied to it or to a cell that it holds, or to the
generation that holds it; what is immutable, frozen or taken out stays as it is in any case. A closed
cache has no generation to read. -/
theorem copies_isolated (before after : List Act) :
    (∀ k k' i, (Holdings.empty.run before).Holds k i →
      ((Holdings.empty.run before).run after).Holds k' i → k = k') ∧
    ∀ item c, (Holdings.empty.run before).contents? item = some c →
      ((Holdings.empty.run before).run after).contents? item = some c ∨
        (¬ c.Fixed ∧ ((Holdings.empty.run before).Affected after item ∨
          ∃ act ∈ after, act.Closes item)) := by
  have hs := Holdings.Separate.empty.run before
  refine ⟨fun k k' i hi hi' => ?_, fun item c hc => hs.contents_run hc after⟩
  have hlt := hs.made k i hi
  exact hs.apart k k' i hi (Holdings.holds_of_holds_run after hlt hi')

def authorCell : Cell := ⟨⟨"Author", .ofList [("name", .column 0 .string none)]⟩, true⟩

def writerCell : Cell := ⟨⟨"Writer", .ofList [("name", .column 1 .string none)]⟩, true⟩

/-- A cache gets a copy of a generation, and an immutable and a frozen copy of this are made. -/
def copying : List Act :=
  [.gather 1 [(⟨0⟩, authorCell)], .openCache, .install 0 (.own 0), .snapshot (.cache 0) false,
    .freeze (.cache 0), .takeMapping ⟨1⟩, .gather 2 [(⟨0⟩, writerCell)]]

def updating : List Act :=
  [.updateCache 0 (.own 2) ⟨fun _ => "class_Author", "class_"⟩, .copyCell ⟨0⟩ ⟨1⟩, .closeCache 0]

/-- The immutable copy outlives an update of the cache that it was made from, whose cell no other
generation gets. -/
theorem updated_cache_isolated : ∃ c,
    (Holdings.empty.run copying).contents? (.generation (.own 1)) = some c ∧
    ((Holdings.empty.run copying).run updating).contents? (.generation (.own 1)) = some c ∧
    ((Holdings.empty.run copying).run updating).cells.read ⟨1⟩ = writerCell ∧
    ¬ ((Holdings.empty.run copying).run updating).Holds (.own 0) ⟨1⟩ := by
  obtain ⟨happart, hcontents⟩ := copies_isolated copying updating
  refine ⟨_, rfl, ?_, by decide +kernel, fun hheld => ?_⟩
  · rcases hcontents (.generation (.own 1)) _ rfl with hsame | ⟨hfixed, _⟩
    · exact hsame
    · exact absurd rfl hfixed
  · have hcached : (Holdings.empty.run copying).Holds (.cache 0) ⟨1⟩ := ⟨_, ⟨0⟩, rfl, rfl⟩
    have hkeeper : Keeper.cache 0 = Keeper.own 0 := happart _ _ _ hcached hheld
    cases hkeeper

end ColumnAtlas
