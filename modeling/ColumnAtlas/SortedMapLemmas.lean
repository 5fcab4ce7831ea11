import ColumnAtlas.SortedMap

namespace ColumnAtlas.SortedMap

section Shape

variable {κ ν : Type} [LT κ]

theorem mem_keys {m : SortedMap κ ν} {k : κ} : k ∈ m.keys ↔ ∃ v, (k, v) ∈ m.entries := by
  simp [keys]

theorem keys_ascending (m : SortedMap κ ν) : m.keys.Pairwise (· < ·) :=
  List.pairwise_map.mpr m.ascending

end Shape

section Lists

variable {κ ν : Type} [DecidableEq κ]

theorem mem_of_find {k : κ} {v : ν} {es : List (κ × ν)} (h : find k es = some v) :
    (k, v) ∈ es := by
  induction es with
  | nil => simp [find] at h
  | cons e es ih =>
    simp only [find] at h
    split at h
    next he =>
      cases Option.some.inj h
      exact List.mem_cons.mpr (.inl (by rw [← he]))
    next => exact List.mem_cons_of_mem _ (ih h)

theorem find_eq_none {k : κ} {es : List (κ × ν)} (h : ∀ e ∈ es, e.1 ≠ k) : find k es = none := by
  induction es with
  | nil => rfl
  | cons e es ih =>
    have he := h e (by simp)
    have hes := ih fun x hx => h x (List.mem_cons_of_mem _ hx)
    simp [find, he, hes]

theorem find_map {μ : Type} (f : κ → ν → μ) (k : κ) (es : List (κ × ν)) :
    find k (es.map fun e => (e.1, f e.1 e.2)) = (find k es).map (f k) := by
  induction es with
  | nil => rfl
  | cons e es ih =>
    simp only [List.map_cons, find]
    split
    next he => subst he; rfl
    next => exact ih

variable [LT κ] [DecidableLT κ]

theorem find_place (k k' : κ) (v : ν) (es : List (κ × ν)) :
    find k' (place k v es) = if k = k' then some v else find k' es := by
  induction es with
  | nil => simp [place, find]
  | cons e es ih =>
    simp only [place]
    split
    next => simp [find]
    next =>
      split
      next he => simp only [find, ← he]; split <;> rfl
      next he =>
        simp only [find, ih]
        by_cases hk : k = k'
        · subst hk
          simp [Ne.symm he]
        · simp [hk]

end Lists

section Reading

variable {κ ν : Type} [LT κ] [DecidableEq κ]

theorem get?_empty (k : κ) : (empty : SortedMap κ ν).get? k = none := rfl

theorem get?_map {μ : Type} (f : κ → ν → μ) (m : SortedMap κ ν) (k : κ) :
    (m.map f).get? k = (m.get? k).map (f k) :=
  find_map f k m.entries

theorem mem_of_get? {m : SortedMap κ ν} {k : κ} {v : ν} (h : m.get? k = some v) :
    (k, v) ∈ m.entries :=
  mem_of_find h

/-- The head of an ascending list is below what a later look-up finds. -/
theorem head_lt_of_find {e : κ × ν} {k : κ} {v : ν} {es : List (κ × ν)}
    (ha : (e :: es).Pairwise fun a b => a.1 < b.1) (h : find k es = some v) : e.1 < k :=
  (List.pairwise_cons.mp ha).1 _ (mem_of_find h)

end Reading

section Ordered

variable {κ ν : Type} [LE κ] [LT κ] [DecidableEq κ] [Std.LawfulOrderLT κ]

theorem find_of_mem {k : κ} {v : ν} {es : List (κ × ν)}
    (ha : es.Pairwise fun a b => a.1 < b.1) (h : (k, v) ∈ es) : find k es = some v := by
  induction es with
  | nil => simp at h
  | cons e es ih =>
    obtain ⟨he, hes⟩ := List.pairwise_cons.mp ha
    rcases List.mem_cons.mp h with rfl | h
    · simp [find]
    · have hlt := he _ h
      have hne : e.1 ≠ k := fun heq => Std.lt_irrefl (heq ▸ hlt)
      simp [find, hne, ih hes h]

/-- The entries are exactly what look-ups find. -/
theorem mem_entries_iff {m : SortedMap κ ν} {k : κ} {v : ν} :
    (k, v) ∈ m.entries ↔ m.get? k = some v :=
  ⟨find_of_mem m.ascending, mem_of_get?⟩

theorem find_filter {p : κ → ν → Bool} {k : κ} {es : List (κ × ν)}
    (ha : es.Pairwise fun a b => a.1 < b.1) :
    find k (es.filter fun e => p e.1 e.2) = (find k es).filter (p k) := by
  induction es with
  | nil => rfl
  | cons e es ih =>
    obtain ⟨he, hes⟩ := List.pairwise_cons.mp ha
    have hrest := ih hes
    by_cases hk : e.1 = k
    · subst hk
      have hnone : find e.1 es = none :=
        find_eq_none fun x hx heq => Std.lt_irrefl (heq ▸ he x hx)
      by_cases hp : p e.1 e.2
      · simp [find, hp, Option.filter]
      · simp [find, hp, hrest, hnone, Option.filter]
    · by_cases hp : p e.1 e.2 <;> simp [find, hp, hk, hrest]

theorem get?_filter (p : κ → ν → Bool) (m : SortedMap κ ν) (k : κ) :
    (m.filter p).get? k = (m.get? k).filter (p k) :=
  find_filter m.ascending

theorem get?_erase (m : SortedMap κ ν) (k k' : κ) :
    (m.erase k).get? k' = if k' = k then none else m.get? k' := by
  unfold erase
  rw [get?_filter]
  by_cases h : k' = k <;> cases m.get? k' <;> simp [h, Option.filter]

variable [Std.IsLinearOrder κ]

theorem eq_of_find {es fs : List (κ × ν)} (he : es.Pairwise fun a b => a.1 < b.1)
    (hf : fs.Pairwise fun a b => a.1 < b.1) (h : ∀ k, find k es = find k fs) : es = fs := by
  induction es generalizing fs with
  | nil =>
    cases fs with
    | nil => rfl
    | cons f fs => simpa [find] using h f.1
  | cons e es ih =>
    cases fs with
    | nil => simpa [find] using h e.1
    | cons f fs =>
      have hef := h e.1
      have hfe := h f.1
      have hk : e.1 = f.1 := by
        rcases Classical.em (e.1 = f.1) with hk | hk
        · exact hk
        · simp only [find, if_true, if_neg hk, if_neg (Ne.symm hk)] at hef hfe
          have h₁ := head_lt_of_find hf hef.symm
          have h₂ := head_lt_of_find he hfe
          exact absurd (Std.lt_trans h₁ h₂) Std.lt_irrefl
      have hv : e.2 = f.2 := by simpa [find, hk] using hef
      have heq : e = f := Prod.ext hk hv
      subst heq
      have hrest : es = fs := by
        apply ih (List.pairwise_cons.mp he).2 (List.pairwise_cons.mp hf).2
        intro k
        have hh := h k
        by_cases hk' : e.1 = k
        · subst hk'
          have h₁ : find e.1 es = none := find_eq_none fun x hx heq =>
            Std.lt_irrefl (heq ▸ (List.pairwise_cons.mp he).1 x hx)
          have h₂ : find e.1 fs = none := find_eq_none fun x hx heq =>
            Std.lt_irrefl (heq ▸ (List.pairwise_cons.mp hf).1 x hx)
          rw [h₁, h₂]
        · simpa [find, hk'] using hh
      rw [hrest]

/-- A map is determined by its look-ups. -/
theorem eq_of_get? {m n : SortedMap κ ν} (h : ∀ k, m.get? k = n.get? k) : m = n :=
  eq_of_entries (eq_of_find m.ascending n.ascending h)

variable [DecidableLT κ]

theorem get?_insert (m : SortedMap κ ν) (k k' : κ) (v : ν) :
    (m.insert k v).get? k' = if k = k' then some v else m.get? k' :=
  find_place k k' v m.entries

end Ordered

end ColumnAtlas.SortedMap
