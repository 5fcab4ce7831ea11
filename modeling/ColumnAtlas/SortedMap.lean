namespace ColumnAtlas

/-- A finite map whose entries are listed in strictly ascending key order. Two maps with the same
entries are equal, however they were built. -/
structure SortedMap (κ ν : Type) [LT κ] where
  entries : List (κ × ν)
  ascending : entries.Pairwise fun a b => a.1 < b.1

namespace SortedMap

theorem eq_of_entries {κ ν : Type} [LT κ] {m n : SortedMap κ ν} (h : m.entries = n.entries) :
    m = n := by
  cases m; cases n; cases h; rfl

instance {κ ν : Type} [LT κ] [DecidableEq κ] [DecidableEq ν] : DecidableEq (SortedMap κ ν) :=
  fun m n => decidable_of_iff (m.entries = n.entries) ⟨eq_of_entries, fun h => h ▸ rfl⟩

section Shape

variable {κ ν : Type} [LT κ]

def empty : SortedMap κ ν := ⟨[], .nil⟩

def keys (m : SortedMap κ ν) : List κ := m.entries.map Prod.fst

def values (m : SortedMap κ ν) : List ν := m.entries.map Prod.snd

def size (m : SortedMap κ ν) : Nat := m.entries.length

def isEmpty (m : SortedMap κ ν) : Bool := m.entries.isEmpty

/-- Applies a function to every value and leaves the keys alone. -/
def map {μ : Type} (f : κ → ν → μ) (m : SortedMap κ ν) : SortedMap κ μ where
  entries := m.entries.map fun e => (e.1, f e.1 e.2)
  ascending := List.pairwise_map.mpr (m.ascending.imp id)

/-- The place of every key in the order of the keys. -/
def number (m : SortedMap κ ν) : SortedMap κ Nat where
  entries := m.entries.zipIdx.map fun e => (e.1.1, e.2)
  ascending := by
    have h : (m.entries.zipIdx.map Prod.fst).Pairwise fun a b => a.1 < b.1 := by
      simpa using m.ascending
    have h' := List.pairwise_map.mp h
    exact List.pairwise_map.mpr h'

/-- Keeps the entries that pass a test. -/
def filter (p : κ → ν → Bool) (m : SortedMap κ ν) : SortedMap κ ν where
  entries := m.entries.filter fun e => p e.1 e.2
  ascending := m.ascending.sublist List.filter_sublist

end Shape

/-- The value of a key in a list of entries. -/
def find {κ ν : Type} [DecidableEq κ] (k : κ) : List (κ × ν) → Option ν
  | [] => none
  | e :: es => if e.1 = k then some e.2 else find k es

section Reading

variable {κ ν : Type} [LT κ] [DecidableEq κ]

def get? (m : SortedMap κ ν) (k : κ) : Option ν := find k m.entries

def contains (m : SortedMap κ ν) (k : κ) : Bool := (m.get? k).isSome

def erase (m : SortedMap κ ν) (k : κ) : SortedMap κ ν :=
  m.filter fun k' _ => k' ≠ k

end Reading

section Writing

variable {κ ν : Type} [LT κ] [DecidableEq κ] [DecidableLT κ]

/-- Puts an entry in its place, instead of the one with the same key. -/
def place (k : κ) (v : ν) : List (κ × ν) → List (κ × ν)
  | [] => [(k, v)]
  | e :: es =>
    if k < e.1 then (k, v) :: e :: es
    else if k = e.1 then (k, v) :: es
    else e :: place k v es

theorem mem_place {k : κ} {v : ν} {e : κ × ν} {es : List (κ × ν)} (h : e ∈ place k v es) :
    e = (k, v) ∨ e ∈ es := by
  induction es with
  | nil => simpa [place] using h
  | cons x xs ih =>
    simp only [place] at h
    split at h
    · simpa using h
    · split at h
      · rcases List.mem_cons.mp h with h | h
        · exact .inl h
        · exact .inr (List.mem_cons_of_mem _ h)
      · rcases List.mem_cons.mp h with h | h
        · exact .inr (h ▸ List.mem_cons_self)
        · exact (ih h).imp_right (List.mem_cons_of_mem _)

variable [LE κ] [Std.IsLinearOrder κ] [Std.LawfulOrderLT κ]

theorem pairwise_place {k : κ} {v : ν} {es : List (κ × ν)}
    (h : es.Pairwise fun a b => a.1 < b.1) : (place k v es).Pairwise fun a b => a.1 < b.1 := by
  induction es with
  | nil => simp [place]
  | cons x xs ih =>
    obtain ⟨hx, hxs⟩ := List.pairwise_cons.mp h
    simp only [place]
    split
    next hlt =>
      refine List.pairwise_cons.mpr ⟨fun e he => ?_, h⟩
      rcases List.mem_cons.mp he with rfl | he
      · exact hlt
      · exact Std.lt_trans hlt (hx e he)
    next hlt =>
      split
      next heq => exact List.pairwise_cons.mpr ⟨fun e he => heq ▸ hx e he, hxs⟩
      next heq =>
        refine List.pairwise_cons.mpr ⟨fun e he => ?_, ih hxs⟩
        rcases mem_place he with rfl | he
        · exact Std.lt_of_le_of_ne (Std.not_lt.mp hlt) (Ne.symm heq)
        · exact hx e he

def insert (m : SortedMap κ ν) (k : κ) (v : ν) : SortedMap κ ν where
  entries := place k v m.entries
  ascending := pairwise_place m.ascending

/-- Inserts a list of entries in order, so that the last of several with one key stays. -/
def insertAll (m : SortedMap κ ν) (es : List (κ × ν)) : SortedMap κ ν :=
  es.foldl (fun m e => m.insert e.1 e.2) m

def ofList (es : List (κ × ν)) : SortedMap κ ν := empty.insertAll es

end Writing

end SortedMap

end ColumnAtlas
