import ColumnAtlas.Proofs.CacheLifecycle

namespace ColumnAtlas

namespace Generation

/-- The first class of a generation, in ascending order, that another one lacks. -/
structure FirstMissing (g other : Generation) (id : ClassId) : Prop where
  cached : (g.cell? id).isSome
  missing : other.cell? id = none
  before : ∀ id', id' < id → (g.cell? id').isSome → (other.cell? id').isSome

/-- What copying from another generation comes to, and with which effect. The classes keep their cells
in any case. -/
inductive Copies (g other : Generation) (naming : TableNaming) (s : CellStore) :
    Except Error Unit × Generation × CellStore → Prop
  | immutable (hm : g.mutable = false) : Copies g other naming s (.error (.state .immutableCache), g, s)
  | complete {s' : CellStore} (hm : g.mutable = true)
      (hall : ∀ id, (g.cell? id).isSome → (other.cell? id).isSome)
      (hcopied : g.Copied other s s' fun _ => True) :
      Copies g other naming s (.ok (), { g with version := other.version }, s')
  | mismatch {s' : CellStore} {m : ClassId} (hm : g.mutable = true) (hmissing : g.FirstMissing other m)
      (hcopied : g.Copied other s s' (· < m)) :
      Copies g other naming s (.error (.state (.classSetMismatch (naming.className m))), g, s')

variable {g other : Generation} {s : CellStore}

theorem isSome_of_missing? (h : g.missing? other = none) :
    ∀ e ∈ g.cells.entries, (other.cell? e.1).isSome := by
  intro e he
  simpa [Option.isSome_iff_ne_none] using List.find?_eq_none.mp h e he

/-- The classes before the first missing one are the smaller ones, and the other generation has them. -/
theorem split_of_missing? {m : ClassId} {i : CellId} (h : g.missing? other = some (m, i)) :
    ∃ before rest, g.cells.entries = before ++ (m, i) :: rest ∧ other.cell? m = none ∧
      (∀ e ∈ before, (other.cell? e.1).isSome) ∧
      ∀ id j, g.cell? id = some j → ((id, j) ∈ before ↔ id < m) := by
  obtain ⟨hnone, before, rest, hsplit, hbefore⟩ := List.find?_eq_some_iff_append.mp h
  have hordered := g.cells.ascending
  rw [hsplit, List.pairwise_append, List.pairwise_cons] at hordered
  obtain ⟨_, ⟨hafter, _⟩, hacross⟩ := hordered
  refine ⟨before, rest, hsplit, Option.isNone_iff_eq_none.mp hnone, ?_, ?_⟩
  · intro e he
    simpa [Option.isSome_iff_ne_none] using hbefore e he
  · intro id j hj
    refine ⟨fun hmem => hacross _ hmem _ List.mem_cons_self, fun hlt => ?_⟩
    have hmem : (id, j) ∈ g.cells.entries := SortedMap.mem_entries_iff.mpr hj
    rw [hsplit, List.mem_append, List.mem_cons] at hmem
    rcases hmem with hmem | heq | hmem
    · exact hmem
    · rw [(Prod.mk.inj heq).1] at hlt
      exact absurd hlt Std.lt_irrefl
    · exact absurd (Std.lt_trans hlt (hafter _ hmem)) Std.lt_irrefl

theorem Live.copies (h : g.Live s) (ha : g.Apart other) (naming : TableNaming) :
    g.Copies other naming s (g.copyFrom other naming s) := by
  cases hmissing : g.missing? other with
  | none =>
    have hall := isSome_of_missing? hmissing
    obtain ⟨s', hresult, hcopied⟩ := h.copied_all ha hall naming
    rw [hresult]
    refine .complete h.mutable (fun id hid => ?_) hcopied
    obtain ⟨i, hi⟩ := Option.isSome_iff_exists.mp hid
    exact hall (id, i) (SortedMap.mem_entries_iff.mpr hi)
  | some e =>
    obtain ⟨before, rest, hsplit, hmiss, hsome, hreached⟩ := split_of_missing? hmissing
    have hsub : before.Sublist g.cells.entries := hsplit ▸ List.sublist_append_left _ _
    obtain ⟨s', hcopy, hcopied⟩ := h.copied ha (· < e.1) hsub hreached hsome naming (e :: rest)
    have hresult : g.copyFrom other naming s =
        (.error (.state (.classSetMismatch (naming.className e.1))), g, s') := by
      rw [Generation.copyFrom, if_pos h.mutable, hsplit, hcopy, copyCells, hmiss]
    rw [hresult]
    have hcached : g.cell? e.1 = some e.2 := SortedMap.mem_entries_iff.mp (by simp [hsplit])
    refine .mismatch h.mutable ⟨by rw [hcached]; rfl, hmiss, fun id hlt hid => ?_⟩ hcopied
    obtain ⟨j, hj⟩ := Option.isSome_iff_exists.mp hid
    exact hsome (id, j) ((hreached id j hj).mpr hlt)

end Generation

namespace Holdings

variable {w w' : Holdings} {act : Act}

/-- The generations of callers that can change are live. -/
def Lively (w : Holdings) : Prop :=
  ∀ g ∈ w.generations, g.mutable = true → g.Live w.cells

namespace Lively

theorem of_same (h : w.Lively) (he : w.Evolves act w') (hsame : w'.generations = w.generations) :
    w'.Lively := by
  intro g hg hm
  exact he.live (h g (hsame ▸ hg) hm)

theorem keep (h : w.Lively) {made : Generation × CellStore} (he : w.Evolves act (w.keep made))
    (hlive : made.1.mutable = true → made.1.Live made.2) : (w.keep made).Lively := by
  intro g hg hm
  rcases List.mem_append.mp hg with hg | hg
  · exact he.live (h g hg hm)
  · obtain rfl := List.mem_singleton.mp hg
    exact hlive hm

theorem withGeneration (h : w.Lively) {n : Nat} {made : Generation × CellStore}
    (he : w.Evolves act (w.withGeneration n made))
    (hlive : made.1.mutable = true → made.1.Live made.2) : (w.withGeneration n made).Lively := by
  intro g hg hm
  rcases List.mem_or_eq_of_mem_set hg with hg | rfl
  · exact he.live (h g hg hm)
  · exact hlive hm

theorem perform (h : w.Lively) (hp : w.perform? act = some w') : w'.Lively := by
  have he := evolves_perform hp
  cases perform?_eq_some_iff.mp hp with
  | gather version classes => exact h.keep he fun _ => Generation.live_new version classes w.cells
  | @snapshot _ g mutable =>
    refine h.keep he fun hm => ?_
    obtain rfl : mutable = true := hm
    exact (g.snapshot_spec w.cells).2.1
  | @copyGeneration _ _ g other naming hg =>
    refine h.withGeneration he fun hm => ?_
    have hbefore := (g.reworked_copyFrom other naming w.cells).mutable.symm.trans hm
    exact (h g (List.mem_of_getElem? hg) hbefore).copyFrom other naming
  | @syncGeneration _ _ g _ _ hg _ hsync =>
    refine h.withGeneration he fun hm => ?_
    have hbefore := (Generation.reworked_syncClasses hsync).mutable.symm.trans hm
    exact (h g (List.mem_of_getElem? hg) hbefore).syncClasses hsync
  | _ => exact h.of_same he rfl

theorem run (h : w.Lively) (acts : List Act) : (w.run acts).Lively := by
  induction acts generalizing w with
  | nil => exact h
  | cons act acts ih =>
    refine ih (w := w.step act) ?_
    unfold step
    cases hp : w.perform? act with
    | none => exact h
    | some w' => exact h.perform hp

end Lively

theorem live_of_generation? {acts : List Act} {k : Keeper} {g : Generation}
    (hg : (Holdings.empty.run acts).generation? k = some g) (hm : g.mutable = true) :
    g.Live (Holdings.empty.run acts).cells := by
  cases k with
  | own n =>
    have hlively : (Holdings.empty.run acts).Lively :=
      Lively.run (fun _ hg => absurd hg List.not_mem_nil) acts
    exact hlively g (List.mem_of_getElem? hg) hm
  | cache n =>
    obtain ⟨c, hc, hinstalled⟩ := Option.bind_eq_some_iff.mp hg
    have hchronicled := (Chronicled.empty n).run acts
    exact hchronicled.live g ((cacheAt_eq hc).symm ▸ hinstalled)

theorem Separate.apart_of_live (hs : w.Separate) {k k' : Keeper} {g other : Generation}
    (hg : w.generation? k = some g) (hother : w.generation? k' = some other) (h : g.Live w.cells) :
    g.Apart other := by
  intro id id' i hi hi'
  obtain rfl := hs.apart k k' i ⟨g, id, hg, hi⟩ ⟨other, id', hother, hi'⟩
  obtain rfl := Option.some.inj (hg.symm.trans hother)
  exact h.distinct id id' i hi hi'

end Holdings

/-- Copying into an immutable generation is refused. Otherwise the classes are visited in ascending
order up to the first one that the other generation lacks: those before it take over their mappings,
and the version follows only when there is none. -/
theorem copy_partial (acts : List Act) {k k' : Keeper} {g other : Generation}
    (hg : (Holdings.empty.run acts).generation? k = some g)
    (hother : (Holdings.empty.run acts).generation? k' = some other) (naming : TableNaming) :
    g.Copies other naming (Holdings.empty.run acts).cells
      (g.copyFrom other naming (Holdings.empty.run acts).cells) := by
  cases hm : g.mutable with
  | false =>
    rw [Generation.copyFrom, if_neg (by simp [hm])]
    exact .immutable hm
  | true =>
    have hlive := Holdings.live_of_generation? hg hm
    exact hlive.copies ((Holdings.Separate.empty.run acts).apart_of_live hg hother hlive) naming

/-- Two generations, of which the second one has no counterpart for the class in the middle of the
first one. -/
def gathering : List Act :=
  [.gather 1 [(⟨0⟩, authorCell), (⟨1⟩, authorCell), (⟨2⟩, authorCell)],
    .gather 2 [(⟨0⟩, writerCell), (⟨2⟩, writerCell), (⟨3⟩, writerCell)]]

def authorNaming : TableNaming := ⟨fun _ => "class_Author", "class_"⟩

theorem gathering_copy_partial : ∃ g other s,
    (Holdings.empty.run gathering).generation? (.own 0) = some g ∧
    (Holdings.empty.run gathering).generation? (.own 1) = some other ∧
    g.copyFrom other authorNaming (Holdings.empty.run gathering).cells =
      (.error (.state (.classSetMismatch "Author")), g, s) ∧
    s.cells = [writerCell, authorCell, authorCell, writerCell, writerCell, writerCell] ∧
    g.Copies other authorNaming (Holdings.empty.run gathering).cells
      (.error (.state (.classSetMismatch "Author")), g, s) := by
  have hg : (Holdings.empty.run gathering).generation? (.own 0) = some _ := rfl
  have hother : (Holdings.empty.run gathering).generation? (.own 1) = some _ := rfl
  exact ⟨_, _, _, hg, hother, rfl, rfl, copy_partial gathering hg hother authorNaming⟩

end ColumnAtlas
