namespace ColumnAtlas

/-- The identifier of a model class, handed out once and never reused. -/
structure ClassId where
  raw : UInt32
  deriving DecidableEq

namespace ClassId

def text (id : ClassId) : String :=
  "class#" ++ toString id.raw.toNat

instance : LE ClassId := ⟨fun a b => a.raw ≤ b.raw⟩

instance : LT ClassId := ⟨fun a b => a.raw < b.raw⟩

instance : DecidableLT ClassId := fun a b => inferInstanceAs (Decidable (a.raw < b.raw))

theorem le_iff {a b : ClassId} : a ≤ b ↔ a.raw ≤ b.raw := Iff.rfl

theorem lt_iff {a b : ClassId} : a < b ↔ a.raw < b.raw := Iff.rfl

theorem ext_raw {a b : ClassId} (h : a.raw = b.raw) : a = b := by
  cases a; cases b; cases h; rfl

instance : Std.IsLinearOrder ClassId where
  le_refl a := UInt32.le_refl a.raw
  le_trans _ _ _ := UInt32.le_trans
  le_antisymm _ _ h h' := ext_raw (UInt32.le_antisymm h h')
  le_total a b := UInt32.le_total a.raw b.raw

instance : Std.LawfulOrderLT ClassId where
  lt_iff a b := by simpa [le_iff, lt_iff] using UInt32.le_of_lt

end ClassId

end ColumnAtlas
