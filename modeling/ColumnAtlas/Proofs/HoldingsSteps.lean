import ColumnAtlas.Proofs.Holdings

namespace ColumnAtlas

/-- A generation that came to a keeper: it takes the place of the one that was there, or all of its
cells were made for it. -/
def Holdings.Yields (w : Holdings) (k : Keeper) (g' : Generation) (s' : CellStore) : Prop :=
  (∃ g, w.generation? k = some g ∧ g.Succeeds w.cells g' s') ∨
    (g'.MadeIn w.cells s' ∧ ∀ n, k = .cache n → g'.mutable = true)

/-- What an act may do. Only the cells that it reaches can have other contents, only the generation of
one keeper can be another one, and all that was taken out before is there. -/
structure Holdings.Evolves (w : Holdings) (act : Act) (w' : Holdings) : Prop where
  size : w.cells.size ≤ w'.cells.size
  read : ∀ i, i.index < w.cells.size →
    ¬ w.Reaches act (.cell i) ∨ (w.cells.read i).mutable = false → w'.cells.read i = w.cells.read i
  mutable_read : ∀ i, i.index < w.cells.size → (w'.cells.read i).mutable = (w.cells.read i).mutable
  whence : ∃ k₀, ∀ k g', w'.generation? k = some g' →
    w.generation? k = some g' ∨ (k = k₀ ∧ w.Yields k g' w'.cells)
  stays : ∀ k g, w.generation? k = some g → ¬ w.Reaches act (.generation k) ∨ g.mutable = false →
    w'.generation? k = some g ∨ act.Closes (.generation k)
  taken : w.frozen <+: w'.frozen ∧ w.mappings <+: w'.mappings

namespace Cache

variable {c : Cache} {installed : Cache × CellStore}

theorem generation_eq_ok_iff {g : Generation} : c.generation = .ok g ↔ c.installed = some g := by
  unfold generation
  split
  next g' hg' => rw [hg', Except.ok.injEq, Option.some.injEq]
  next hnone => simp [hnone]

theorem install_spec {made : Generation × CellStore} (h : c.install made = .ok installed) :
    c.installed = none ∧ installed.1.installed = some made.1 ∧ installed.2 = made.2 := by
  unfold install at h
  split at h
  next hfresh =>
    obtain rfl := Except.ok.inj h
    unfold isFresh at hfresh
    rw [Bool.and_eq_true] at hfresh
    exact ⟨Option.isNone_iff_eq_none.mp hfresh.1, rfl, rfl⟩
  next => cases h

theorem syncClasses_spec {next : Generation} {s : CellStore} (h : c.syncClasses next s = .ok installed) :
    ∃ g g', c.installed = some g ∧ installed.1.installed = some g' ∧
      g.syncClasses next s = .ok (g', installed.2) := by
  obtain ⟨g, hg, h⟩ := bind_eq_ok_iff.mp h
  obtain ⟨⟨g', s'⟩, hsync, h⟩ := bind_eq_ok_iff.mp h
  obtain rfl := Except.ok.inj h
  exact ⟨g, g', generation_eq_ok_iff.mp hg, rfl, hsync⟩

theorem update_of_none (hg : c.installed = none) (next : Generation) (naming : TableNaming)
    (s : CellStore) : (c.update next naming s).2 = (c, s) := by
  simp only [update, hg]

theorem update_of_some {g : Generation} (hg : c.installed = some g) (next : Generation)
    (naming : TableNaming) (s : CellStore) : (c.update next naming s).2 =
      ({ c with installed := some (g.copyFrom next naming s).2.1 }, (g.copyFrom next naming s).2.2) := by
  simp only [update, hg]

end Cache

namespace Holdings

variable {w w' : Holdings} {act : Act}

section Evolving

theorem Evolves.of_same (hcells : w.cells.Grows w'.cells)
    (hgen : ∀ k, w'.generation? k = w.generation? k)
    (htaken : w.frozen <+: w'.frozen ∧ w.mappings <+: w'.mappings) : w.Evolves act w' where
  size := hcells.size
  read i hi _ := hcells.read i hi
  mutable_read i hi := congrArg Cell.mutable (hcells.read i hi)
  whence := ⟨.own 0, fun k _ hg => .inl ((hgen k).symm.trans hg)⟩
  stays k _ hg _ := .inl ((hgen k).trans hg)
  taken := htaken

theorem Evolves.of_made {k₀ : Keeper} {g' : Generation} (hcells : w.cells.Grows w'.cells)
    (hvacant : w.generation? k₀ = none)
    (hgen : ∀ k, w'.generation? k = if k = k₀ then some g' else w.generation? k)
    (hmade : g'.MadeIn w.cells w'.cells) (hcached : ∀ n, k₀ = .cache n → g'.mutable = true)
    (htaken : w.frozen <+: w'.frozen ∧ w.mappings <+: w'.mappings) : w.Evolves act w' where
  size := hcells.size
  read i hi _ := hcells.read i hi
  mutable_read i hi := congrArg Cell.mutable (hcells.read i hi)
  whence := by
    refine ⟨k₀, fun k g hg => ?_⟩
    rw [hgen] at hg
    split at hg
    next hk =>
      obtain rfl := Option.some.inj hg
      exact .inr ⟨hk, .inr ⟨hmade, hk ▸ hcached⟩⟩
    next => exact .inl hg
  stays k g hg _ := by
    have hne : k ≠ k₀ := by
      rintro rfl
      rw [hvacant] at hg
      cases hg
    exact .inl (by rw [hgen, if_neg hne, hg])
  taken := htaken

theorem Evolves.of_reworked {k₀ : Keeper} {g g' : Generation} (hk : act.keeper? = some k₀)
    (hg : w.generation? k₀ = some g)
    (hgen : ∀ k, w'.generation? k = if k = k₀ then some g' else w.generation? k)
    (hr : g.Reworked w.cells g' w'.cells)
    (htaken : w.frozen <+: w'.frozen ∧ w.mappings <+: w'.mappings) : w.Evolves act w' where
  size := hr.size
  read i hi h := by
    refine hr.read i hi (h.imp_left fun hout id hid => hout (.inr ⟨k₀, hk, g, id, hg, hid⟩))
  mutable_read := hr.mutable_read
  whence := by
    refine ⟨k₀, fun k g₁ hg₁ => ?_⟩
    rw [hgen] at hg₁
    split at hg₁
    next hk =>
      obtain rfl := Option.some.inj hg₁
      exact .inr ⟨hk, .inl ⟨g, hk ▸ hg, hr.toSucceeds⟩⟩
    next => exact .inl hg₁
  stays k g₁ hg₁ h := by
    rw [hgen]
    split
    next he =>
      subst he
      obtain rfl := Option.some.inj (hg₁.symm.trans hg)
      rcases h with hout | hfixed
      · exact absurd (.inl hk) hout
      · rw [hr.immutable hfixed]
        exact .inl rfl
    next => exact .inl hg₁
  taken := htaken

theorem evolves_copyCell {target source : CellId} {s' : CellStore}
    (h : w.cells.copyFrom target source = .ok s') :
    w.Evolves (.copyCell target source) { w with cells := s' } where
  size := Nat.le_of_eq (CellStore.size_copyFrom h).symm
  read i _ hi := by
    rcases hi with hout | hfixed
    · have hne : i ≠ target := by
        rintro rfl
        exact hout (.inl rfl)
      exact (CellStore.read_copyFrom h i).trans (if_neg hne)
    · exact CellStore.read_copyFrom_of_immutable h hfixed
  mutable_read i _ := CellStore.mutable_copyFrom h i
  whence := ⟨.own 0, fun _ _ hg => .inl hg⟩
  stays _ _ hg _ := .inl hg
  taken := ⟨List.prefix_rfl, List.prefix_rfl⟩

theorem evolves_closeCache {n : Nat} {c : Cache} (hc : w.caches[n]? = some c) :
    w.Evolves (.closeCache n) (w.withCache n (c.close, w.cells)) where
  size := Nat.le_refl _
  read _ _ _ := rfl
  mutable_read _ _ := rfl
  whence := by
    refine ⟨.own 0, fun k g hg => ?_⟩
    rw [generation?_withCache hc] at hg
    split at hg
    next => cases hg
    next => exact .inl hg
  stays k g hg _ := by
    rw [generation?_withCache hc]
    split
    next hk => exact .inr ⟨n, rfl, congrArg Item.generation hk⟩
    next => exact .inl hg
  taken := ⟨List.prefix_rfl, List.prefix_rfl⟩

theorem evolves_keep {made : Generation × CellStore} (hcells : w.cells.Grows made.2)
    (hmade : made.1.MadeIn w.cells made.2) : w.Evolves act (w.keep made) := by
  have hvacant : w.generation? (.own w.generations.length) = none :=
    List.getElem?_eq_none (Nat.le_refl _)
  have hown : ∀ n, Keeper.own w.generations.length = .cache n → made.1.mutable = true :=
    fun _ h => nomatch h
  exact .of_made hcells hvacant (generation?_keep w made) hmade hown
    ⟨List.prefix_rfl, List.prefix_rfl⟩

theorem evolves_install {n : Nat} {c : Cache} {made : Generation × CellStore}
    {installed : Cache × CellStore} (hc : w.caches[n]? = some c) (h : c.install made = .ok installed)
    (hcells : w.cells.Grows made.2) (hmade : made.1.MadeIn w.cells made.2)
    (hmutable : made.1.mutable = true) : w.Evolves act (w.withCache n installed) := by
  obtain ⟨hnone, hcache, hs⟩ := Cache.install_spec h
  have hvacant : w.generation? (.cache n) = none := by
    simp only [generation?, hc, Option.bind_some, hnone]
  have hgen (k : Keeper) : (w.withCache n installed).generation? k =
      if k = .cache n then some made.1 else w.generation? k := by
    rw [generation?_withCache hc, hcache]
  have hcells' : (w.withCache n installed).cells = made.2 := hs
  exact .of_made (hcells' ▸ hcells) hvacant hgen (hcells' ▸ hmade) (fun _ _ => hmutable)
    ⟨List.prefix_rfl, List.prefix_rfl⟩

theorem evolves_withGeneration {n : Nat} {g : Generation} {made : Generation × CellStore}
    (hk : act.keeper? = some (.own n)) (hg : w.generations[n]? = some g)
    (hr : g.Reworked w.cells made.1 made.2) : w.Evolves act (w.withGeneration n made) :=
  .of_reworked hk hg (generation?_withGeneration hg made) hr ⟨List.prefix_rfl, List.prefix_rfl⟩

theorem evolves_withCache {n : Nat} {c : Cache} {g g' : Generation} {made : Cache × CellStore}
    (hk : act.keeper? = some (.cache n)) (hc : w.caches[n]? = some c) (hg : c.installed = some g)
    (hg' : made.1.installed = some g') (hr : g.Reworked w.cells g' made.2) :
    w.Evolves act (w.withCache n made) := by
  have hinstalled : w.generation? (.cache n) = some g := by
    simp only [generation?, hc, Option.bind_some, hg]
  have hgen (k : Keeper) : (w.withCache n made).generation? k =
      if k = .cache n then some g' else w.generation? k := by
    rw [generation?_withCache hc, hg']
  exact .of_reworked hk hinstalled hgen hr ⟨List.prefix_rfl, List.prefix_rfl⟩

theorem evolves_updateCache {n : Nat} {c : Cache} (hc : w.caches[n]? = some c) (source : Keeper)
    (other : Generation) (naming : TableNaming) :
    w.Evolves (.updateCache n source naming) (w.withCache n (c.update other naming w.cells).2) := by
  cases hg : c.installed with
  | none =>
    -- There is nothing to update, and the cache is put back as it was.
    rw [Cache.update_of_none hg]
    have hgen (k : Keeper) : (w.withCache n (c, w.cells)).generation? k = w.generation? k := by
      rw [generation?_withCache hc]
      split
      next hk => simp only [hk, generation?, hc, Option.bind_some]
      next => rfl
    exact .of_same (.refl _) hgen ⟨List.prefix_rfl, List.prefix_rfl⟩
  | some g =>
    rw [Cache.update_of_some hg]
    exact evolves_withCache rfl hc hg rfl (g.reworked_copyFrom other naming w.cells)

theorem evolves_perform (h : w.perform? act = some w') : w.Evolves act w' := by
  cases perform?_eq_some_iff.mp h with
  | make | copy =>
    exact .of_same (CellStore.grows_add _ _) (generation?_congr rfl rfl)
      ⟨List.prefix_rfl, List.prefix_rfl⟩
  | copyCell hcopy => exact evolves_copyCell hcopy
  | takeMapping i =>
    exact .of_same (.refl _) (generation?_congr rfl rfl) ⟨List.prefix_rfl, List.prefix_append _ _⟩
  | freeze =>
    exact .of_same (.refl _) (generation?_congr rfl rfl) ⟨List.prefix_append _ _, List.prefix_rfl⟩
  | gather version classes =>
    exact evolves_keep CellStore.grows_addAll (Generation.madeIn_new version classes w.cells)
  | @snapshot _ g mutable =>
    exact evolves_keep CellStore.grows_addAll (g.madeIn_snapshot mutable w.cells)
  | @copyGeneration _ _ g other naming hg =>
    exact evolves_withGeneration rfl hg (g.reworked_copyFrom other naming w.cells)
  | syncGeneration hg _ hsync =>
    exact evolves_withGeneration rfl hg (Generation.reworked_syncClasses hsync)
  | openCache =>
    exact .of_same (.refl _) (generation?_openCache w) ⟨List.prefix_rfl, List.prefix_rfl⟩
  | @install _ _ _ g _ hc _ hinstall =>
    have hmade := g.madeIn_snapshot true w.cells
    exact evolves_install hc hinstall CellStore.grows_addAll hmade rfl
  | @installCells _ version classes _ _ hc hinstall =>
    have hmade := Generation.madeIn_new version classes w.cells
    exact evolves_install hc hinstall CellStore.grows_addAll hmade rfl
  | @updateCache _ source _ other naming hc => exact evolves_updateCache hc source other naming
  | syncCache hc _ hsync =>
    obtain ⟨g, g', hg, hg', hsync⟩ := Cache.syncClasses_spec hsync
    exact evolves_withCache rfl hc hg hg' (Generation.reworked_syncClasses hsync)
  | closeCache hc => exact evolves_closeCache hc

theorem evolves_step (w : Holdings) (act : Act) : w.Evolves act (w.step act) := by
  unfold step
  cases h : w.perform? act with
  | none => exact .of_same (.refl _) (fun _ => rfl) ⟨List.prefix_rfl, List.prefix_rfl⟩
  | some w' => exact evolves_perform h

end Evolving

end Holdings

end ColumnAtlas
