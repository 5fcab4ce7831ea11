import ColumnAtlas.Proofs.TomlLiterals
import Mathlib

namespace ColumnAtlas.Toml

open Json (isDigit decimal isDigit_iff decimal_concat isDigit_of_mem_toDigits)

/-- Halfway from the largest double to the next power of two. -/
def doubleLimit : Nat := Nat.pow 2 1024 - Nat.pow 2 970

section Decimals

variable {cs : List Char}

theorem decimal_append (cs ds : List Char) :
    decimal (cs ++ ds) = decimal cs * 10 ^ ds.length + decimal ds := by
  induction ds using List.reverseRecOn with
  | nil => simp [decimal]
  | append_singleton ds d ih =>
    rw [← List.append_assoc, decimal_concat, decimal_concat, ih, List.length_append,
      List.length_singleton, Nat.pow_succ, Nat.add_mul, Nat.mul_assoc, Nat.add_assoc]

theorem decimal_lt (h : ∀ c ∈ cs, isDigit c) : decimal cs < 10 ^ cs.length := by
  induction cs using List.reverseRecOn with
  | nil => exact Nat.one_pos
  | append_singleton cs c ih =>
    have hc := isDigit_iff.mp (h c (by simp))
    have hcs := ih fun d hd => h d (List.mem_append_left [c] hd)
    rw [decimal_concat, List.length_append, List.length_singleton, Nat.pow_succ]
    omega

theorem le_decimal {c : Char} (h : isDigit c) (hc : c ≠ '0') (cs : List Char) :
    10 ^ cs.length ≤ decimal (c :: cs) := by
  have hpos : 0 < decimal [c] := by
    have hrange := isDigit_iff.mp h
    have hne : c.toNat ≠ 48 := fun he => hc (Char.toNat_inj.mp he)
    rw [← List.nil_append [c], decimal_concat]
    omega
  calc 10 ^ cs.length ≤ decimal [c] * 10 ^ cs.length := Nat.le_mul_of_pos_left _ hpos
    _ ≤ decimal [c] * 10 ^ cs.length + decimal cs := Nat.le_add_right _ _
    _ = decimal (c :: cs) := (decimal_append [c] cs).symm

theorem decimal_dropWhile (cs : List Char) : decimal (cs.dropWhile (· = '0')) = decimal cs := by
  induction cs with
  | nil => rfl
  | cons c cs ih =>
    by_cases hc : c = '0'
    · subst hc
      exact ih
    · rw [List.dropWhile_cons_of_neg (by simpa using hc)]

end Decimals

section Doubles

theorem le_doubleLimit : 10 ^ 308 ≤ doubleLimit := by decide +kernel

theorem doubleLimit_le : doubleLimit ≤ 10 ^ 309 := by decide +kernel

variable {v length places u d : Nat}

theorem below_doubleLimit (hlimit : 10 ^ places ≤ doubleLimit) (hv : v < 10 ^ length)
    (h : length + u ≤ places + d) : v * 10 ^ u < doubleLimit * 10 ^ d :=
  calc v * 10 ^ u < 10 ^ length * 10 ^ u :=
        Nat.mul_lt_mul_of_pos_right hv (Nat.pow_pos (by decide))
    _ = 10 ^ (length + u) := (Nat.pow_add 10 length u).symm
    _ ≤ 10 ^ (places + d) := Nat.pow_le_pow_right (by decide) h
    _ = 10 ^ places * 10 ^ d := Nat.pow_add 10 places d
    _ ≤ doubleLimit * 10 ^ d := Nat.mul_le_mul_right _ hlimit

theorem above_doubleLimit (hlimit : doubleLimit ≤ 10 ^ places) (hv : 10 ^ length ≤ v)
    (h : places + d ≤ length + u) : doubleLimit * 10 ^ d ≤ v * 10 ^ u :=
  calc doubleLimit * 10 ^ d ≤ 10 ^ places * 10 ^ d := Nat.mul_le_mul_right _ hlimit
    _ = 10 ^ (places + d) := (Nat.pow_add 10 places d).symm
    _ ≤ 10 ^ (length + u) := Nat.pow_le_pow_right (by decide) h
    _ = 10 ^ length * 10 ^ u := Nat.pow_add 10 length u
    _ ≤ v * 10 ^ u := Nat.mul_le_mul_right _ hv

/-- The count of the digits is looked at first. It never gives another answer than the digits. At
most one of the two powers of ten is not one. -/
theorem exceedsDouble_iff {cs : List Char} (h : ∀ c ∈ cs, isDigit c) (exponent : Int) :
    exceedsDouble cs exponent ↔
      doubleLimit * 10 ^ (-exponent).toNat ≤ decimal cs * 10 ^ exponent.toNat := by
  have hdigits : ∀ c ∈ cs.dropWhile (· = '0'), isDigit c := fun c hc =>
    h c ((List.dropWhile_suffix _).subset hc)
  have hhead (c : Char) (hc : (cs.dropWhile (· = '0')).head? = some c) : c ≠ '0' := by
    have hnot := List.head?_dropWhile_not (· = '0') cs
    rw [hc] at hnot
    simpa using hnot
  rw [← decimal_dropWhile cs]
  unfold exceedsDouble
  dsimp only
  generalize cs.dropWhile (· = '0') = ds at hdigits hhead
  cases ds with
  | nil =>
    have hlimit : 0 < doubleLimit := Nat.lt_of_lt_of_le (Nat.pow_pos (by decide)) le_doubleLimit
    have hpos : 0 < doubleLimit * 10 ^ (-exponent).toNat :=
      Nat.mul_pos hlimit (Nat.pow_pos (by decide))
    simpa [decimal] using Nat.pos_iff_ne_zero.mp hpos
  | cons c ds =>
    have hlow := le_decimal (hdigits c List.mem_cons_self) (hhead c rfl) ds
    have hhigh := decimal_lt hdigits
    simp only [List.isEmpty_cons, Bool.false_or, decide_eq_true_eq, List.length_cons] at hhigh ⊢
    split
    next hshort =>
      have hbelow := below_doubleLimit (u := exponent.toNat) (d := (-exponent).toNat)
        le_doubleLimit hhigh (by omega)
      exact iff_of_false Bool.false_ne_true (Nat.not_le.mpr hbelow)
    split
    next =>
      have habove := above_doubleLimit (u := exponent.toNat) (d := (-exponent).toNat)
        doubleLimit_le hlow (by omega)
      exact iff_of_true rfl habove
    next =>
      rw [← doubleLimit, decide_eq_true_iff]
      exact Iff.rfl

end Doubles

section Fractions

variable {n : Nat} {ds : List Char}

theorem isFloat_of_splitSign (hne : ds ≠ []) (hd : ∀ c ∈ ds, isDigit c) {cs : List Char}
    {negative : Bool} (hcs : splitSign cs = (negative, Nat.toDigits 10 n ++ '.' :: ds)) :
    isFloat cs = (negative || !exceedsDouble (Nat.toDigits 10 n ++ ds) (0 - ds.length)) := by
  have hword : ¬[['i', 'n', 'f'], ['n', 'a', 'n']].contains (Nat.toDigits 10 n ++ '.' :: ds) := by
    have hdot : '.' ∈ Nat.toDigits 10 n ++ '.' :: ds := by simp
    intro hword
    rcases List.mem_pair.mp (List.contains_iff_mem.mp hword) with he | he
    · rw [he] at hdot
      exact absurd hdot (by decide)
    · rw [he] at hdot
      exact absurd hdot (by decide)
  have hwhole : ∀ c ∈ Nat.toDigits 10 n, isDigit c || c = '_' := fun c hc => by
    simp [isDigit_of_mem_toDigits hc]
  have hplain : ∀ c ∈ '.' :: ds, c ≠ 'e' && c ≠ 'E' := by
    intro c hc
    rcases List.mem_cons.mp hc with rfl | hc
    · rfl
    · have hother {d : Char} (hd' : ¬isDigit d) : c ≠ d := by
        rintro rfl
        exact hd' (hd c hc)
      simp [hother (d := 'e') (by decide), hother (d := 'E') (by decide)]
  have hpoint : ∀ c, ('.' :: ds).head? = some c → (isDigit c || c = '_') = false := by
    rintro c hc
    obtain rfl := Option.some.inj hc
    rfl
  have hend : ∀ c, [].head? = some c → (c ≠ 'e' && c ≠ 'E') = false := fun c hc => nomatch hc
  obtain ⟨htake, hdrop⟩ := Json.takeWhile_word hwhole hpoint
  obtain ⟨hfraction, hexponent⟩ := Json.takeWhile_word hplain hend
  rw [List.append_nil] at hfraction hexponent
  unfold isFloat
  rw [hcs]
  dsimp only
  rw [if_neg hword, htake, hdrop, hfraction, hexponent, if_neg (by simp), wholeDigits?_toDigits]
  simp [fractionDigits?, digitGroups?_digits hne hd, exponentValue?]

/-- A decimal fraction is a number unless it is too large for a double. -/
theorem isFloat_fraction (hne : ds ≠ []) (hd : ∀ c ∈ ds, isDigit c) :
    isFloat (Nat.toDigits 10 n ++ '.' :: ds) ↔
      decimal (Nat.toDigits 10 n ++ ds) < doubleLimit * 10 ^ ds.length := by
  have hall : ∀ c ∈ Nat.toDigits 10 n ++ ds, isDigit c := fun c hc =>
    (List.mem_append.mp hc).elim (fun hc => isDigit_of_mem_toDigits hc) (hd c)
  have hsplit : splitSign (Nat.toDigits 10 n ++ '.' :: ds) = _ := splitSign_unsigned fun c hc => by
    rw [List.head?_append_of_ne_nil _ Nat.toDigits_ne_nil] at hc
    exact isDigit_of_mem_toDigits (List.mem_of_head? hc)
  rw [isFloat_of_splitSign hne hd hsplit, Bool.false_or, Bool.not_eq_true', ← Bool.not_eq_true,
    exceedsDouble_iff hall, Nat.not_le]
  simp

/-- However far it is below zero, a negative one is let through. -/
theorem isFloat_negative (hne : ds ≠ []) (hd : ∀ c ∈ ds, isDigit c) :
    isFloat ('-' :: (Nat.toDigits 10 n ++ '.' :: ds)) := by
  have hsplit : splitSign ('-' :: (Nat.toDigits 10 n ++ '.' :: ds)) = (true, _) := rfl
  rw [isFloat_of_splitSign hne hd hsplit]
  rfl

end Fractions

end ColumnAtlas.Toml
