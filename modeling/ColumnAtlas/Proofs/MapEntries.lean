import ColumnAtlas.SortedMapLemmas
import Mathlib.Data.List.Nodup

namespace ColumnAtlas

/-- A list whose members strictly ascend by a key is the only way to sort them by it. -/
theorem mergeSort_eq_of_ascending {α κ : Type} [LE κ] [LT κ] [Std.IsLinearOrder κ]
    [Std.LawfulOrderLT κ] [DecidableLE κ] {key : α → κ} {listed sorted : List α}
    (hperm : listed.Perm sorted) (h : sorted.Pairwise fun a b => key a < key b) :
    (listed.mergeSort fun a b => key a ≤ key b) = sorted := by
  have hperm' := (List.mergeSort_perm listed fun a b => decide (key a ≤ key b)).trans hperm
  have hsorted : sorted.Pairwise fun a b => decide (key a ≤ key b) = true :=
    h.imp fun hlt => decide_eq_true (Std.le_of_lt hlt)
  have hmerged : (listed.mergeSort fun a b => key a ≤ key b).Pairwise fun a b =>
      decide (key a ≤ key b) = true := by
    refine List.pairwise_mergeSort (fun a b c hab hbc => ?_) (fun a b => ?_) listed
    · exact decide_eq_true (Std.le_trans (of_decide_eq_true hab) (of_decide_eq_true hbc))
    · rw [← Bool.decide_or]
      exact decide_eq_true Std.le_total
  -- The keys alone are compared, and no two members have the same one.
  have hdistinct : (sorted.map key).Nodup := by
    refine List.pairwise_map.mpr (h.imp ?_)
    intro a b hlt heq
    exact Std.lt_irrefl (heq ▸ hlt)
  refine List.Perm.eq_of_pairwise (fun a b ha hb hle hle' => ?_) hmerged hsorted hperm'
  have hkey := Std.le_antisymm (of_decide_eq_true hle) (of_decide_eq_true hle')
  exact List.inj_on_of_nodup_map hdistinct (hperm'.mem_iff.mp ha) hb hkey

end ColumnAtlas

namespace ColumnAtlas.SortedMap

variable {κ ν : Type} [LT κ]

theorem nodup_keys [LE κ] [Std.LawfulOrderLT κ] (m : SortedMap κ ν) :
    (m.entries.map Prod.fst).Nodup := by
  refine List.Pairwise.imp ?_ (keys_ascending m)
  intro a b h heq
  exact Std.lt_irrefl (heq ▸ h)

theorem contains_iff [DecidableEq κ] {m : SortedMap κ ν} {k : κ} :
    m.contains k ↔ ∃ v, m.get? k = some v :=
  Option.isSome_iff_exists

section Scan

variable {α β : Type} {m : SortedMap κ ν} {p : ν → Bool} {items : ν → List α} {q : α → Bool}
  {report : ν → α → β}

/-- A scan of the items of some values, in the order of the keys, reports the first item that is
picked in the first value that has one. -/
theorem head?_scan :
    ((m.values.filter p).flatMap fun v => ((items v).filter q).map (report v)).head? =
      m.values.findSome? fun v => if p v then ((items v).find? q).map (report v) else none := by
  rw [List.head?_flatMap]
  simp only [List.head?_map, List.head?_filter]
  induction m.values with
  | nil => rfl
  | cons v vs ih =>
    rw [List.filter_cons, List.findSome?_cons]
    split
    next => rw [List.findSome?_cons, ih]
    next => exact ih

theorem scanned_eq_none_iff {v : ν} :
    (if p v then ((items v).find? q).map (report v) else none) = none ↔
      (p v → ∀ x ∈ items v, ¬q x) := by
  split
  next hv =>
    rw [Option.map_eq_none_iff, List.find?_eq_none]
    exact ⟨fun h _ => h, fun h => h hv⟩
  next hv => exact ⟨fun _ h => absurd h hv, fun _ => rfl⟩

variable [LE κ] [DecidableEq κ] [Std.LawfulOrderLT κ]

theorem mem_values_iff {m : SortedMap κ ν} {v : ν} : v ∈ m.values ↔ ∃ k, m.get? k = some v := by
  simp [values, ← mem_entries_iff]

theorem findSome?_values_eq_none {α : Type} {m : SortedMap κ ν} {g : ν → Option α} :
    m.values.findSome? g = none ↔ ∀ k v, m.get? k = some v → g v = none := by
  rw [List.findSome?_eq_none_iff]
  constructor
  · intro h k v hv
    exact h v (mem_values_iff.mpr ⟨k, hv⟩)
  · intro h v hv
    obtain ⟨k, hk⟩ := mem_values_iff.mp hv
    exact h k v hk

theorem head?_scan_eq_none_iff :
    ((m.values.filter p).flatMap fun v => ((items v).filter q).map (report v)).head? = none ↔
      ∀ k v, m.get? k = some v → p v → ∀ x ∈ items v, ¬q x := by
  rw [head?_scan, findSome?_values_eq_none]
  simp only [scanned_eq_none_iff]

variable [Std.IsLinearOrder κ]

/-- The first answer over the values is the one under the smallest key that has an answer. -/
theorem findSome?_values_eq_some {α : Type} {m : SortedMap κ ν} {g : ν → Option α} {a : α} :
    m.values.findSome? g = some a ↔ ∃ k v, m.get? k = some v ∧ g v = some a ∧
      ∀ k' v', k' < k → m.get? k' = some v' → g v' = none := by
  have hfound {a : α} (h : m.values.findSome? g = some a) : ∃ k v, m.get? k = some v ∧
      g v = some a ∧ ∀ k' v', k' < k → m.get? k' = some v' → g v' = none := by
    rw [values, List.findSome?_map, List.findSome?_eq_some_iff] at h
    obtain ⟨before, ⟨k, v⟩, after, hentries, hv, hnone⟩ := h
    have hk : (k, v) ∈ m.entries := by simp [hentries]
    refine ⟨k, v, mem_entries_iff.mp hk, hv, fun k' v' hlt hk' => ?_⟩
    have hsorted := m.ascending
    rw [hentries] at hsorted
    have hmem := mem_entries_iff.mpr hk'
    rw [hentries] at hmem
    rcases List.mem_append.mp hmem with hmem | hmem
    · exact hnone _ hmem
    · rcases List.mem_cons.mp hmem with heq | hmem
      · exact absurd ((Prod.mk.inj heq).1 ▸ hlt) Std.lt_irrefl
      · have hlater := (List.pairwise_cons.mp (List.pairwise_append.mp hsorted).2.1).1 _ hmem
        exact absurd (Std.lt_trans hlt hlater) Std.lt_irrefl
  constructor
  · exact hfound
  · rintro ⟨k, v, hk, hv, hleast⟩
    cases h : m.values.findSome? g with
    | none =>
      rw [findSome?_values_eq_none.mp h k v hk] at hv
      cases hv
    | some a' =>
      obtain ⟨k', v', hk', hv', hleast'⟩ := hfound h
      have heq : k' = k := by
        rcases Std.lt_trichotomy k' k with hlt | heq | hlt
        · rw [hleast k' v' hlt hk'] at hv'
          cases hv'
        · exact heq
        · rw [hleast' k v hlt hk] at hv
          cases hv
      subst heq
      obtain rfl := Option.some.inj (hk.symm.trans hk')
      rw [← hv, hv']

theorem head?_scan_eq_some_iff {a : β} :
    ((m.values.filter p).flatMap fun v => ((items v).filter q).map (report v)).head? = some a ↔
      ∃ k v x, m.get? k = some v ∧ p v ∧ (items v).find? q = some x ∧ report v x = a ∧
        ∀ k' v', k' < k → m.get? k' = some v' → p v' → ∀ x ∈ items v', ¬q x := by
  rw [head?_scan, findSome?_values_eq_some]
  simp only [scanned_eq_none_iff]
  constructor
  · rintro ⟨k, v, hk, ha, hleast⟩
    split at ha
    next hv =>
      obtain ⟨x, hx, hreport⟩ := Option.map_eq_some_iff.mp ha
      exact ⟨k, v, x, hk, hv, hx, hreport, hleast⟩
    next => cases ha
  · rintro ⟨k, v, x, hk, hv, hx, hreport, hleast⟩
    exact ⟨k, v, hk, by rw [if_pos hv, hx, Option.map_some, hreport], hleast⟩

end Scan

section Ordered

variable [LE κ] [DecidableEq κ] [Std.LawfulOrderLT κ]

theorem get?_number {m : SortedMap κ ν} {k : κ} {i : Nat} :
    m.number.get? k = some i ↔ ∃ v, m.entries[i]? = some (k, v) := by
  rw [← mem_entries_iff]
  constructor
  · intro h
    obtain ⟨⟨e, j⟩, he, heq⟩ := List.mem_map.mp h
    obtain ⟨rfl, rfl⟩ := Prod.mk.inj heq
    exact ⟨e.2, (List.mk_mem_zipIdx_iff_getElem?).mp he⟩
  · rintro ⟨v, h⟩
    exact List.mem_map.mpr ⟨((k, v), i), List.mk_mem_zipIdx_iff_getElem?.mpr h, rfl⟩

variable [Std.IsLinearOrder κ]

/-- Two maps with look-ups in the same places list the same keys. -/
theorem keys_eq_of_isSome {μ : Type} {m : SortedMap κ ν} {n : SortedMap κ μ}
    (h : ∀ k, (m.get? k).isSome = (n.get? k).isSome) : m.keys = n.keys := by
  have key (k : κ) : ((m.map fun _ _ => ()).get? k) = ((n.map fun _ _ => ()).get? k) := by
    have hk := h k
    rw [get?_map, get?_map]
    cases hm : m.get? k <;> cases hn : n.get? k <;> simp_all
  have heq := congrArg keys (eq_of_get? key)
  simpa [keys, map, Function.comp_def] using heq

variable [DecidableLT κ]

theorem get?_insertAll (m : SortedMap κ ν) {es : List (κ × ν)} (hn : (es.map Prod.fst).Nodup)
    (k : κ) : (m.insertAll es).get? k = (find k es).or (m.get? k) := by
  induction es generalizing m with
  | nil => simp [insertAll, find]
  | cons e es ih =>
    obtain ⟨hne, hn'⟩ := List.nodup_cons.mp hn
    have hstep : m.insertAll (e :: es) = (m.insert e.1 e.2).insertAll es := rfl
    rw [hstep, ih _ hn', get?_insert]
    by_cases hk : e.1 = k
    · subst hk
      have hf : find e.1 es = none := find_eq_none fun x hx heq =>
        hne (heq ▸ List.mem_map.mpr ⟨x, hx, rfl⟩)
      simp [find, hf]
    · simp [find, hk]

theorem get?_insertAll_entries (m n : SortedMap κ ν) (k : κ) :
    (m.insertAll n.entries).get? k = (n.get? k).or (m.get? k) :=
  get?_insertAll m (nodup_keys n) k

theorem get?_ofList {es : List (κ × ν)} (hn : (es.map Prod.fst).Nodup) (k : κ) :
    (ofList es).get? k = find k es := by
  simp [ofList, get?_insertAll empty hn, get?_empty]

theorem erase_insert {m : SortedMap κ ν} {k : κ} (v : ν) (h : m.get? k = none) :
    (m.insert k v).erase k = m := by
  apply eq_of_get?
  intro q
  rw [get?_erase, get?_insert]
  by_cases hq : q = k
  · simp [hq, h]
  · simp [hq, Ne.symm hq]

end Ordered

end ColumnAtlas.SortedMap
