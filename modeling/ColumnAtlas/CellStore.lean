import ColumnAtlas.Error
import ColumnAtlas.Mapping

namespace ColumnAtlas

/-- The identity of a cell, which handles to it share. -/
structure CellId where
  index : Nat
  deriving DecidableEq

/-- A place for the mapping of a class. -/
structure Cell where
  mapping : Mapping
  mutable : Bool
  deriving DecidableEq

/-- Every cell made so far, in the order of their identities. -/
structure CellStore where
  cells : List Cell

namespace Cell

/-- Another cell with the same mapping. -/
def copy (c : Cell) (mutable : Bool) : Cell := ⟨c.mapping, mutable⟩

def text (c : Cell) : String := c.mapping.text c.mutable

end Cell

namespace CellStore

def empty : CellStore := ⟨[]⟩

def size (s : CellStore) : Nat := s.cells.length

/-- The contents of a cell; an identity that no cell has reads as an empty immutable cell. -/
def read (s : CellStore) (i : CellId) : Cell :=
  (s.cells[i.index]?).getD ⟨.empty "", false⟩

def mapping (s : CellStore) (i : CellId) : Mapping := (s.read i).mapping

def add (s : CellStore) (c : Cell) : CellId × CellStore :=
  (⟨s.size⟩, ⟨s.cells ++ [c]⟩)

/-- Makes new cells for the values of a map. -/
def addAll {κ : Type} [LT κ] (s : CellStore) (m : SortedMap κ Cell) :
    SortedMap κ CellId × CellStore :=
  (m.number.map fun _ i => ⟨s.size + i⟩, ⟨s.cells ++ m.values⟩)

/-- Replaces the mapping of a mutable cell by the one of another cell. -/
def copyFrom (s : CellStore) (target source : CellId) : Except Error CellStore :=
  if (s.read target).mutable then
    .ok ⟨s.cells.set target.index ⟨s.mapping source, true⟩⟩
  else .error (.state .immutableCache)

theorem read_add (s : CellStore) (c : Cell) (i : CellId) :
    (s.add c).2.read i = if i.index = s.size then c else s.read i := by
  simp only [add, read, size]
  by_cases h : i.index < s.cells.length
  · have hn : i.index ≠ s.cells.length := by omega
    simp [hn, List.getElem?_append_left h]
  · by_cases he : i.index = s.cells.length
    · simp [he]
    · have hl : s.cells.length + 1 ≤ i.index := by omega
      simp [he, List.getElem?_eq_none (show (s.cells ++ [c]).length ≤ i.index by simpa using hl),
        List.getElem?_eq_none (show s.cells.length ≤ i.index by omega)]

/-- Only the target of a copy changes, and only its mapping. -/
theorem read_copyFrom {s s' : CellStore} {target source : CellId}
    (h : s.copyFrom target source = .ok s') (i : CellId) :
    s'.read i = if i = target then ⟨s.mapping source, true⟩ else s.read i := by
  unfold copyFrom at h
  split at h
  next hm =>
    cases h
    have hlt : target.index < s.cells.length := by
      by_cases hl : target.index < s.cells.length
      · exact hl
      · have hn : s.cells[target.index]? = none := List.getElem?_eq_none (by omega)
        simp [read, hn] at hm
    by_cases hi : i = target
    · subst hi
      simp [read, hlt]
    · have hn : target.index ≠ i.index := fun heq => hi (by cases i; cases target; cases heq; rfl)
      simp [read, hi, List.getElem?_set_ne hn]
  next => cases h

theorem size_copyFrom {s s' : CellStore} {target source : CellId}
    (h : s.copyFrom target source = .ok s') : s'.size = s.size := by
  unfold copyFrom at h
  split at h
  next => cases h; simp [size]
  next => cases h

end CellStore

end ColumnAtlas
