import ColumnAtlas.TomlReader
import Mathlib.Data.List.Nodup

namespace ColumnAtlas.Toml

/-- Each table in a node has its keys once. -/
inductive Node.Keyed : Node → Prop
  | value (v : Value) : Keyed (.value v)
  | table (origin : Origin) {es : Entries} (hdistinct : (es.map Prod.fst).Nodup)
      (hnodes : ∀ e ∈ es, Node.Keyed e.2) : Keyed (.table origin es)
  | tables {es : Entries} (hdistinct : (es.map Prod.fst).Nodup)
      (hnodes : ∀ e ∈ es, Node.Keyed e.2) : Keyed (.tables es)

namespace Entries

/-- A table has its keys once, and so has each table in it. -/
structure Keyed (es : Entries) : Prop where
  distinct : (es.map Prod.fst).Nodup
  nodes : ∀ e ∈ es, e.2.Keyed

/-- What one line of a document may do to a table, or to one that is reached from it. -/
inductive Changed : Entries → Entries → Prop
  | assigned {es : Entries} {k : String} (v : Value) (h : es.get? k = none) :
      Changed es (es.put k (.value v))
  | opened {es : Entries} {k : String} {n : Node} (h : startTable (es.get? k) = some n) :
      Changed es (es.put k n)
  | begun {es : Entries} {k : String} {n : Node} (h : startTables (es.get? k) = some n) :
      Changed es (es.put k n)
  | made {es sub : Entries} {k : String} (origin : Origin) (h : es.get? k = none)
      (hsub : Changed [] sub) : Changed es (es.put k (.table origin sub))
  | inTable {es sub sub' : Entries} {k : String} {origin : Origin}
      (h : es.get? k = some (.table origin sub)) (hsub : Changed sub sub') :
      Changed es (es.put k (.table origin sub'))
  | inTables {es sub sub' : Entries} {k : String} (h : es.get? k = some (.tables sub))
      (hsub : Changed sub sub') : Changed es (es.put k (.tables sub'))

variable {es es' : Entries} {k : String} {n : Node} {v : Value}

section Put

theorem mem_of_get? (h : es.get? k = some n) : (k, n) ∈ es := by
  obtain ⟨e, he, rfl⟩ := Option.map_eq_some_iff.mp h
  have hk : e.1 = k := by simpa using List.find?_some he
  rw [← hk]
  exact List.mem_of_find?_eq_some he

theorem get?_isSome_iff : (es.get? k).isSome ↔ k ∈ es.map Prod.fst := by
  simp [get?]

theorem get?_append_single (es : Entries) (k : String) (n : Node) (k' : String) :
    Entries.get? (es ++ [(k, n)]) k' = (es.get? k').or (if k = k' then some n else none) := by
  rw [get?, get?, List.find?_append, List.find?_singleton, Option.map_or]
  by_cases hk : k = k' <;> simp [hk]

theorem get?_put (es : Entries) (k : String) (n : Node) (k' : String) :
    (es.put k n).get? k' = if k = k' then some n else es.get? k' := by
  unfold put
  split
  next hsome =>
    have hkey (e : String × Node) : (if e.1 = k then (k, n) else e).1 = e.1 := by
      split
      next he => exact he.symm
      next => rfl
    rw [get?, get?, List.find?_map]
    simp only [Function.comp_def, hkey]
    cases hfound : es.find? fun e => e.1 = k' with
    | none =>
      have hne : k ≠ k' := by
        rintro rfl
        rw [get?, hfound] at hsome
        cases hsome
      rw [if_neg hne]
      rfl
    | some e =>
      obtain rfl : e.1 = k' := by simpa using List.find?_some hfound
      by_cases hk : k = e.1
      · simp [hk]
      · simp [hk, Ne.symm hk]
  next hnone =>
    rw [get?_append_single]
    by_cases hk : k = k'
    · subst hk
      simp [Option.not_isSome_iff_eq_none.mp hnone]
    · simp [hk]

theorem keys_put (es : Entries) (k : String) (n : Node) : (es.put k n).map Prod.fst =
    if (es.get? k).isSome then es.map Prod.fst else es.map Prod.fst ++ [k] := by
  unfold put
  split
  next =>
    rw [List.map_map]
    refine List.map_congr_left fun e _ => ?_
    rw [Function.comp_apply]
    split
    next he => exact he.symm
    next => rfl
  next => rw [List.map_append, List.map_singleton]

theorem nodup_keys_put (h : (es.map Prod.fst).Nodup) (k : String) (n : Node) :
    ((es.put k n).map Prod.fst).Nodup := by
  rw [keys_put]
  split
  next => exact h
  next hnone =>
    have hnew : k ∉ es.map Prod.fst := mt get?_isSome_iff.mpr hnone
    exact List.nodup_append_comm.mp (List.nodup_cons.mpr ⟨hnew, h⟩)

theorem mem_put {e : String × Node} (h : e ∈ es.put k n) : e = (k, n) ∨ e ∈ es := by
  unfold put at h
  split at h
  next =>
    obtain ⟨e', he', rfl⟩ := List.mem_map.mp h
    split
    next => exact .inl rfl
    next => exact .inr he'
  next =>
    rcases List.mem_append.mp h with h | h
    · exact .inr h
    · exact .inl (List.mem_singleton.mp h)

end Put

namespace Keyed

theorem empty : Keyed [] := ⟨.nil, fun _ he => absurd he List.not_mem_nil⟩

theorem of_get? (h : es.Keyed) (hn : es.get? k = some n) : n.Keyed :=
  h.nodes _ (mem_of_get? hn)

theorem put (h : es.Keyed) (hn : n.Keyed) : (es.put k n).Keyed where
  distinct := nodup_keys_put h.distinct k n
  nodes e he := by
    rcases mem_put he with rfl | he
    · exact hn
    · exact h.nodes e he

end Keyed

theorem keyed_table_iff {origin : Origin} : (Node.table origin es).Keyed ↔ es.Keyed := by
  constructor
  · intro h
    cases h with
    | table _ hdistinct hnodes => exact ⟨hdistinct, hnodes⟩
  · intro h
    exact .table origin h.distinct h.nodes

theorem keyed_tables_iff : (Node.tables es).Keyed ↔ es.Keyed := by
  constructor
  · intro h
    cases h with
    | tables hdistinct hnodes => exact ⟨hdistinct, hnodes⟩
  · intro h
    exact .tables h.distinct h.nodes

section Changes

theorem startTable_spec {before : Option Node} (h : startTable before = some n) :
    (before = none ∧ n = .table .header []) ∨
      ∃ sub, before = some (.table .implied sub) ∧ n = .table .header sub := by
  unfold startTable at h
  split at h
  next => exact .inl ⟨rfl, (Option.some.inj h).symm⟩
  next sub => exact .inr ⟨sub, rfl, (Option.some.inj h).symm⟩
  next => cases h

theorem startTables_spec {before : Option Node} (h : startTables before = some n) :
    (before = none ∨ ∃ sub, before = some (.tables sub)) ∧ n = .tables [] := by
  unfold startTables at h
  split at h
  next => exact ⟨.inl rfl, (Option.some.inj h).symm⟩
  next sub => exact ⟨.inr ⟨sub, rfl⟩, (Option.some.inj h).symm⟩
  next => cases h

theorem Changed.keyed (h : es.Changed es') (hes : es.Keyed) : es'.Keyed := by
  induction h with
  | assigned v _ => exact hes.put (.value v)
  | opened h =>
    rcases startTable_spec h with ⟨_, rfl⟩ | ⟨sub, hsub, rfl⟩
    · exact hes.put (keyed_table_iff.mpr .empty)
    · exact hes.put (keyed_table_iff.mpr (keyed_table_iff.mp (hes.of_get? hsub)))
  | begun h =>
    obtain ⟨_, rfl⟩ := startTables_spec h
    exact hes.put (keyed_tables_iff.mpr .empty)
  | made origin _ _ ih => exact hes.put (keyed_table_iff.mpr (ih .empty))
  | inTable h _ ih =>
    exact hes.put (keyed_table_iff.mpr (ih (keyed_table_iff.mp (hes.of_get? h))))
  | inTables h _ ih =>
    exact hes.put (keyed_tables_iff.mpr (ih (keyed_tables_iff.mp (hes.of_get? h))))

/-- A change puts a node in a place that holds no value. -/
theorem Changed.put_exists (h : es.Changed es') :
    ∃ k n, es' = es.put k n ∧ ∀ v, es.get? k ≠ some (.value v) := by
  cases h with
  | assigned v h => exact ⟨_, _, rfl, fun v => by simp [h]⟩
  | opened h =>
    refine ⟨_, _, rfl, fun v => ?_⟩
    rcases startTable_spec h with ⟨hnone, _⟩ | ⟨sub, hsub, _⟩
    · simp [hnone]
    · simp [hsub]
  | begun h =>
    refine ⟨_, _, rfl, fun v => ?_⟩
    rcases (startTables_spec h).1 with hnone | ⟨sub, hsub⟩
    · simp [hnone]
    · simp [hsub]
  | made origin h => exact ⟨_, _, rfl, fun v => by simp [h]⟩
  | inTable h => exact ⟨_, _, rfl, fun v => by simp [h]⟩
  | inTables h => exact ⟨_, _, rfl, fun v => by simp [h]⟩

/-- No change takes a value away or replaces it. -/
theorem Changed.get?_value (h : es.Changed es') (hv : es.get? k = some (.value v)) :
    es'.get? k = some (.value v) := by
  obtain ⟨k', n, rfl, hfree⟩ := h.put_exists
  have hne : k' ≠ k := by
    rintro rfl
    exact hfree v hv
  rw [get?_put, if_neg hne, hv]

theorem changed_addValue {last : String} {path : List String}
    (h : es.addValue v last path = some es') : es.Changed es' := by
  induction path generalizing es es' with
  | nil =>
    unfold addValue at h
    split at h
    next => cases h
    next hnone =>
      obtain rfl := Option.some.inj h
      exact .assigned v (Option.not_isSome_iff_eq_none.mp hnone)
  | cons k ks ih =>
    unfold addValue at h
    split at h
    next hnone =>
      obtain ⟨sub, hsub, rfl⟩ := Option.map_eq_some_iff.mp h
      exact .made .dotted hnone (ih hsub)
    next origin sub hk =>
      split at h
      next => cases h
      next =>
        obtain ⟨sub', hsub, rfl⟩ := Option.map_eq_some_iff.mp h
        exact .inTable hk (ih hsub)
    next sub hk =>
      split at h
      next => cases h
      next =>
        obtain ⟨sub', hsub, rfl⟩ := Option.map_eq_some_iff.mp h
        exact .inTables hk (ih hsub)
    next => cases h

theorem changed_openAt {start : Option Node → Option Node}
    (hstart : start = startTable ∨ start = startTables) {last : String} {path : List String}
    (h : es.openAt start last path = some es') : es.Changed es' := by
  induction path generalizing es es' with
  | nil =>
    obtain ⟨n, hn, rfl⟩ := Option.map_eq_some_iff.mp h
    rcases hstart with rfl | rfl
    · exact .opened hn
    · exact .begun hn
  | cons k ks ih =>
    unfold openAt at h
    split at h
    next hnone =>
      obtain ⟨sub, hsub, rfl⟩ := Option.map_eq_some_iff.mp h
      exact .made .implied hnone (ih hsub)
    next origin sub hk =>
      obtain ⟨sub', hsub, rfl⟩ := Option.map_eq_some_iff.mp h
      exact .inTable hk (ih hsub)
    next sub hk =>
      obtain ⟨sub', hsub, rfl⟩ := Option.map_eq_some_iff.mp h
      exact .inTables hk (ih hsub)
    next => cases h

theorem changed_within {change : Entries → Option Entries}
    (hchange : ∀ es es', change es = some es' → es.Changed es') {path : List String}
    (h : es.within change path = some es') : es.Changed es' := by
  induction path generalizing es es' with
  | nil => exact hchange es es' h
  | cons k ks ih =>
    unfold within at h
    split at h
    next origin sub hk =>
      obtain ⟨sub', hsub, rfl⟩ := Option.map_eq_some_iff.mp h
      exact .inTable hk (ih hsub)
    next sub hk =>
      obtain ⟨sub', hsub, rfl⟩ := Option.map_eq_some_iff.mp h
      exact .inTables hk (ih hsub)
    next => cases h

end Changes

end Entries

section Lines

variable {p p' : Progress} {cs rest : List Char} {es : Entries}

theorem changed_readHeader {start : Option Node → Option Node} {closing : List Char}
    (hstart : start = Entries.startTable ∨ start = Entries.startTables)
    (h : readHeader p start closing cs = some (p', rest)) : p.root.Changed p'.root := by
  obtain ⟨⟨⟨path, last⟩, cs'⟩, _, h⟩ := Option.bind_eq_some_iff.mp h
  dsimp only at h
  split at h
  next => cases h
  next =>
    obtain ⟨_, _, h⟩ := Option.bind_eq_some_iff.mp h
    obtain ⟨root, hroot, h⟩ := Option.bind_eq_some_iff.mp h
    obtain ⟨rfl, rfl⟩ := Prod.mk.inj (Option.some.inj h)
    exact Entries.changed_openAt hstart hroot

theorem changed_readAssignment (h : readAssignment p cs = some (p', rest)) :
    p.root.Changed p'.root := by
  obtain ⟨⟨⟨path, last⟩, cs'⟩, _, h⟩ := Option.bind_eq_some_iff.mp h
  dsimp only at h
  split at h
  next =>
    obtain ⟨⟨v, cs''⟩, _, h⟩ := Option.bind_eq_some_iff.mp h
    obtain ⟨_, _, h⟩ := Option.bind_eq_some_iff.mp h
    obtain ⟨root, hroot, h⟩ := Option.bind_eq_some_iff.mp h
    obtain ⟨rfl, rfl⟩ := Prod.mk.inj (Option.some.inj h)
    exact Entries.changed_within (fun _ _ hadd => Entries.changed_addValue hadd) hroot
  next => cases h

/-- What every change preserves holds of the tables of a whole document. -/
theorem readLines_induction {P : Entries → Prop}
    (hstep : ∀ es es', es.Changed es' → P es → P es') {fuel : Nat} (hp : P p.root)
    (h : readLines fuel p cs = some es) : P es := by
  induction fuel generalizing p cs with
  | zero => cases h
  | succ fuel ih =>
    unfold readLines at h
    split at h
    next =>
      obtain rfl := Option.some.inj h
      exact hp
    next =>
      obtain ⟨⟨p', cs'⟩, hheader, h⟩ := Option.bind_eq_some_iff.mp h
      exact ih (hstep _ _ (changed_readHeader (.inr rfl) hheader) hp) h
    next =>
      obtain ⟨⟨p', cs'⟩, hheader, h⟩ := Option.bind_eq_some_iff.mp h
      exact ih (hstep _ _ (changed_readHeader (.inl rfl) hheader) hp) h
    next =>
      split at h
      next =>
        obtain ⟨cs', _, h⟩ := Option.bind_eq_some_iff.mp h
        exact ih hp h
      next =>
        obtain ⟨⟨p', cs'⟩, hassignment, h⟩ := Option.bind_eq_some_iff.mp h
        exact ih (hstep _ _ (changed_readAssignment hassignment) hp) h

/-- In a document that can be read no table has a key twice. -/
theorem keyed_of_read? {text : String} (h : read? text = some es) : es.Keyed :=
  readLines_induction (fun _ _ hchanged hes => hchanged.keyed hes) .empty h

/-- A value outside the tables stays as it is while the rest of the document is read. -/
theorem get?_readLines {fuel : Nat} {k : String} {v : Value}
    (hv : p.root.get? k = some (.value v)) (h : readLines fuel p cs = some es) :
    es.get? k = some (.value v) :=
  readLines_induction (P := fun es => es.get? k = some (.value v))
    (fun _ _ hchanged hes => hchanged.get?_value hes) hv h

end Lines

end ColumnAtlas.Toml
