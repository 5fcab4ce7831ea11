import ColumnAtlas.Proofs.HoldingsSteps

namespace ColumnAtlas

/-- A property of the mapping in every cell. A cell that was never made has an empty mapping. -/
def CellStore.Every (s : CellStore) (P : Mapping → Prop) : Prop := ∀ i, P (s.mapping i)

/-- A property of every mapping that a program has in a cell or has taken out of one. -/
structure Holdings.Every (w : Holdings) (P : Mapping → Prop) : Prop where
  cells : w.cells.Every P
  frozen : ∀ g ∈ w.frozen, ∀ id m, g.mapping? id = some m → P m
  taken : ∀ m ∈ w.mappings, P m

/-- The cells whose contents an act does not find in the program. -/
def Act.brought : Act → List Cell
  | .make c => [c]
  | .gather _ classes => classes.map Prod.snd
  | .installCells _ _ classes => classes.map Prod.snd
  | _ => []

namespace SortedMap

variable {κ ν : Type} [LE κ] [LT κ] [DecidableEq κ] [DecidableLT κ] [Std.IsLinearOrder κ]
  [Std.LawfulOrderLT κ]

theorem mem_insertAll {m : SortedMap κ ν} {es : List (κ × ν)} {e : κ × ν}
    (h : e ∈ (m.insertAll es).entries) : e ∈ m.entries ∨ e ∈ es := by
  induction es generalizing m with
  | nil => exact .inl h
  | cons x xs ih =>
    rcases ih (m := m.insert x.1 x.2) h with h | h
    · rcases mem_place h with rfl | h
      · exact .inr List.mem_cons_self
      · exact .inl h
    · exact .inr (List.mem_cons_of_mem _ h)

theorem mem_ofList {es : List (κ × ν)} {e : κ × ν} (h : e ∈ (ofList es).entries) : e ∈ es :=
  (mem_insertAll h).resolve_left List.not_mem_nil

end SortedMap

namespace CellStore.Every

variable {P : Mapping → Prop} {s s' : CellStore} {g other : Generation}

theorem add (h : s.Every P) {c : Cell} (hc : P c.mapping) : (s.add c).2.Every P := by
  intro i
  rw [mapping, read_add]
  split
  next => exact hc
  next => exact h i

theorem addAll {κ : Type} [LT κ] (h : s.Every P) {m : SortedMap κ Cell}
    (hm : ∀ c ∈ m.values, P c.mapping) : (s.addAll m).2.Every P := by
  intro i
  have hi := h i
  simp only [mapping, read, CellStore.addAll, List.getElem?_append] at hi ⊢
  split
  next => exact hi
  next hle =>
    cases hc : m.values[i.index - s.cells.length]? with
    | some c => exact hm c (List.mem_of_getElem? hc)
    | none =>
      -- Past the new cells as past the old ones, every identity reads as the empty cell.
      rw [List.getElem?_eq_none (Nat.not_lt.mp hle)] at hi
      exact hi

theorem copyFrom (h : s.Every P) {target source : CellId} (hs : s.copyFrom target source = .ok s') :
    s'.Every P := by
  intro i
  rw [mapping, read_copyFrom hs]
  split
  next => exact h source
  next => exact h i

theorem new (h : s.Every P) (version : Int) {classes : List (ClassId × Cell)}
    (hc : ∀ e ∈ classes, P e.2.mapping) : (Generation.new version classes s).2.Every P := by
  refine h.addAll fun c hmem => ?_
  obtain ⟨_, hentry, rfl⟩ := List.mem_map.mp hmem
  obtain ⟨e, he, rfl⟩ := List.mem_map.mp hentry
  exact hc e (SortedMap.mem_ofList he)

theorem addAll_copies (h : s.Every P) (mutable : Bool) (cells : SortedMap ClassId CellId) :
    (s.addAll (cells.map fun _ i => (s.read i).copy mutable)).2.Every P := by
  refine h.addAll fun c hmem => ?_
  obtain ⟨_, hentry, rfl⟩ := List.mem_map.mp hmem
  obtain ⟨e, _, rfl⟩ := List.mem_map.mp hentry
  exact h e.2

theorem snapshot (h : s.Every P) (g : Generation) (mutable : Bool) : (g.snapshot mutable s).2.Every P :=
  h.addAll_copies mutable g.cells

theorem freeze (h : s.Every P) (g : Generation) {id : ClassId} {m : Mapping}
    (hm : (g.freeze s).mapping? id = some m) : P m := by
  obtain ⟨i, _, rfl⟩ := Option.map_eq_some_iff.mp ((Generation.get?_mappings g s id).symm.trans hm)
  exact h i

/-- However far copying gets, it only brings mappings of other cells. -/
theorem copyCells (h : s.Every P) (other : Generation) (naming : TableNaming)
    (es : List (ClassId × CellId)) : (Generation.copyCells other naming es s).2.Every P := by
  induction es generalizing s with
  | nil => exact h
  | cons e es ih =>
    unfold Generation.copyCells
    split
    next => exact h
    next source _ =>
      split
      next => exact h
      next s₁ hs₁ => exact ih (h.copyFrom hs₁)

theorem copyGeneration (h : s.Every P) (g other : Generation) (naming : TableNaming) :
    (g.copyFrom other naming s).2.2.Every P := by
  have hcopied := h.copyCells other naming g.cells.entries
  unfold Generation.copyFrom
  split
  next =>
    cases hcopy : Generation.copyCells other naming g.cells.entries s with
    | mk result s' =>
      rw [hcopy] at hcopied
      cases result with
      | error e => exact hcopied
      | ok => exact hcopied
  next => exact h

theorem syncClasses (h : s.Every P) {g' : Generation} (hs : g.syncClasses other s = .ok (g', s')) :
    s'.Every P := by
  unfold Generation.syncClasses at hs
  split at hs
  next =>
    obtain ⟨_, rfl⟩ := Prod.mk.inj (Except.ok.inj hs)
    exact h.addAll_copies true _
  next => cases hs

theorem installed {made : Generation × CellStore} {installed : Cache × CellStore} {c : Cache}
    (h : made.2.Every P) (hc : c.install made = .ok installed) : installed.2.Every P := by
  obtain ⟨_, _, hs⟩ := Cache.install_spec hc
  rw [hs]
  exact h

theorem updateCache (h : s.Every P) (c : Cache) (next : Generation) (naming : TableNaming) :
    (c.update next naming s).2.2.Every P := by
  cases hg : c.installed with
  | none =>
    rw [Cache.update_of_none hg]
    exact h
  | some g =>
    rw [Cache.update_of_some hg]
    exact h.copyGeneration g next naming

theorem syncCache (h : s.Every P) {c : Cache} {next : Generation} {made : Cache × CellStore}
    (hs : c.syncClasses next s = .ok made) : made.2.Every P := by
  obtain ⟨_, _, _, _, hsync⟩ := Cache.syncClasses_spec hs
  exact h.syncClasses hsync

end CellStore.Every

namespace Holdings.Every

variable {P : Mapping → Prop} {w w' : Holdings} {act : Act}

theorem perform (h : w.Every P) (hact : ∀ c ∈ act.brought, P c.mapping)
    (hp : w.perform? act = some w') : w'.Every P := by
  cases perform?_eq_some_iff.mp hp with
  | make c => exact ⟨h.cells.add (hact c List.mem_cons_self), h.frozen, h.taken⟩
  | copy i mutable => exact ⟨h.cells.add (h.cells i), h.frozen, h.taken⟩
  | copyCell hcopy => exact ⟨h.cells.copyFrom hcopy, h.frozen, h.taken⟩
  | takeMapping i =>
    refine ⟨h.cells, h.frozen, fun m hm => ?_⟩
    rcases List.mem_append.mp hm with hm | hm
    · exact h.taken m hm
    · obtain rfl := List.mem_singleton.mp hm
      exact h.cells i
  | @freeze _ g =>
    refine ⟨h.cells, fun f hf id m hm => ?_, h.taken⟩
    rcases List.mem_append.mp hf with hf | hf
    · exact h.frozen f hf id m hm
    · obtain rfl := List.mem_singleton.mp hf
      exact h.cells.freeze g hm
  | gather version classes =>
    exact ⟨h.cells.new version fun e he => hact e.2 (List.mem_map_of_mem he), h.frozen, h.taken⟩
  | @snapshot _ g mutable => exact ⟨h.cells.snapshot g mutable, h.frozen, h.taken⟩
  | @copyGeneration _ _ g other naming =>
    exact ⟨h.cells.copyGeneration g other naming, h.frozen, h.taken⟩
  | syncGeneration _ _ hsync => exact ⟨h.cells.syncClasses hsync, h.frozen, h.taken⟩
  | openCache => exact ⟨h.cells, h.frozen, h.taken⟩
  | @install _ _ _ g _ _ _ hinstall =>
    exact ⟨(h.cells.snapshot g true).installed hinstall, h.frozen, h.taken⟩
  | @installCells _ version _ _ _ _ hinstall =>
    have hnew := h.cells.new version fun e he => hact e.2 (List.mem_map_of_mem he)
    exact ⟨hnew.installed hinstall, h.frozen, h.taken⟩
  | @updateCache _ _ c other naming =>
    exact ⟨h.cells.updateCache c other naming, h.frozen, h.taken⟩
  | syncCache _ _ hsync => exact ⟨h.cells.syncCache hsync, h.frozen, h.taken⟩
  | closeCache => exact ⟨h.cells, h.frozen, h.taken⟩

/-- An act only carries on what the program has and what the act brings. -/
theorem step (h : w.Every P) (hact : ∀ c ∈ act.brought, P c.mapping) : (w.step act).Every P := by
  unfold Holdings.step
  cases hp : w.perform? act with
  | none => exact h
  | some w' => exact h.perform hact hp

end Holdings.Every

end ColumnAtlas
