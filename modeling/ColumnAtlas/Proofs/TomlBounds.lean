import ColumnAtlas.TomlReader
import Mathlib.Data.List.TakeWhile

namespace ColumnAtlas.Toml

/-- A reader leaves an end of its text, and not all of it. -/
structure Leaves (cs rest : List Char) : Prop where
  suffix : rest <:+ cs
  shorter : rest.length < cs.length

variable {cs ds rest : List Char}

namespace Leaves

theorem cons (c : Char) (cs : List Char) : Leaves (c :: cs) cs :=
  ⟨List.suffix_cons c cs, Nat.lt_succ_self cs.length⟩

theorem extend (h : Leaves cs rest) (hs : cs <:+ ds) : Leaves ds rest :=
  ⟨h.suffix.trans hs, Nat.lt_of_lt_of_le h.shorter hs.length_le⟩

theorem onward (h : Leaves cs ds) (hs : rest <:+ ds) : Leaves cs rest :=
  ⟨hs.trans h.suffix, Nat.lt_of_le_of_lt hs.length_le h.shorter⟩

theorem append (h : Leaves cs rest) (before : List Char) : Leaves (before ++ cs) rest :=
  h.extend (List.suffix_append before cs)

end Leaves

section Results

variable {α β : Type} {b b' : β}

theorem read_of_bind {r : Option (α × List Char)} {f : α × List Char → β}
    (h : (r.bind fun a => some (f a, a.2)) = some (b, rest)) : ∃ a, r = some (a, rest) := by
  obtain ⟨⟨a, _⟩, hr, h⟩ := Option.bind_eq_some_iff.mp h
  obtain ⟨_, rfl⟩ := Prod.mk.inj (Option.some.inj h)
  exact ⟨a, hr⟩

theorem read_of_map {r : Option (α × List Char)} {f : α × List Char → β}
    (h : (r.map fun a => (f a, a.2)) = some (b, rest)) : ∃ a, r = some (a, rest) :=
  read_of_bind (Option.map_eq_bind ▸ h)

theorem left_of_map {r : Option (List Char)} (h : (r.map fun cs => (b, cs)) = some (b', rest)) :
    r = some rest := by
  obtain ⟨_, hr, h⟩ := Option.map_eq_some_iff.mp h
  obtain ⟨_, rfl⟩ := Prod.mk.inj h
  exact hr

end Results

section Texts

variable {text : List Char}

theorem leaves_readBasic (h : readBasic cs = some (text, rest)) : Leaves cs rest := by
  fun_induction readBasic cs generalizing text rest with
  | case1 => cases h
  | case2 cs =>
    obtain ⟨_, rfl⟩ := Prod.mk.inj (Option.some.inj h)
    exact .cons '"' cs
  | case3 a b c d cs ih =>
    obtain ⟨x, _, h⟩ := Option.bind_eq_some_iff.mp h
    obtain ⟨_, hr⟩ := read_of_bind h
    exact (ih hr).append ['\\', 'u', a, b, c, d]
  | case4 a b c d e f g h' cs ih =>
    obtain ⟨x, _, h⟩ := Option.bind_eq_some_iff.mp h
    obtain ⟨_, hr⟩ := read_of_bind h
    exact (ih hr).append ['\\', 'U', a, b, c, d, e, f, g, h']
  | case5 e cs _ _ ih =>
    obtain ⟨x, _, h⟩ := Option.bind_eq_some_iff.mp h
    obtain ⟨_, hr⟩ := read_of_bind h
    exact (ih hr).append ['\\', e]
  | case6 => cases h
  | case7 c cs =>
    rename_i ih
    obtain ⟨_, hr⟩ := read_of_bind h
    exact (ih hr).append [c]

theorem leaves_readBasicBlock {skipping : Bool}
    (h : readBasicBlock skipping cs = some (text, rest)) : Leaves cs rest := by
  fun_induction readBasicBlock skipping cs generalizing text rest with
  | case1 => cases h
  -- Up to two quotes of the text may stand right before the three that close it.
  | case2 _ cs =>
    obtain ⟨_, rfl⟩ := Prod.mk.inj (Option.some.inj h)
    exact (Leaves.cons '"' cs).append ['"', '"', '"', '"']
  | case3 _ cs =>
    obtain ⟨_, rfl⟩ := Prod.mk.inj (Option.some.inj h)
    exact (Leaves.cons '"' cs).append ['"', '"', '"']
  | case4 _ cs =>
    obtain ⟨_, rfl⟩ := Prod.mk.inj (Option.some.inj h)
    exact (Leaves.cons '"' cs).append ['"', '"']
  | case5 _ cs ih =>
    obtain ⟨_, hr⟩ := read_of_bind h
    exact (ih hr).append ['\r', '\n']
  | case6 _ cs ih =>
    obtain ⟨_, hr⟩ := read_of_bind h
    exact (ih hr).append ['\n']
  | case7 _ a b c d cs ih =>
    obtain ⟨x, _, h⟩ := Option.bind_eq_some_iff.mp h
    obtain ⟨_, hr⟩ := read_of_bind h
    exact (ih hr).append ['\\', 'u', a, b, c, d]
  | case8 _ a b c d e f g h' cs ih =>
    obtain ⟨x, _, h⟩ := Option.bind_eq_some_iff.mp h
    obtain ⟨_, hr⟩ := read_of_bind h
    exact (ih hr).append ['\\', 'U', a, b, c, d, e, f, g, h']
  | case9 _ e cs _ _ _ ih => exact (ih h).append ['\\']
  | case10 _ e cs _ _ _ ih =>
    obtain ⟨x, _, h⟩ := Option.bind_eq_some_iff.mp h
    obtain ⟨_, hr⟩ := read_of_bind h
    exact (ih hr).append ['\\', e]
  | case11 _ c cs _ _ _ _ _ _ _ _ _ ih => exact (ih h).append [c]
  | case12 => cases h
  | case13 _ c cs =>
    rename_i ih
    obtain ⟨_, hr⟩ := read_of_bind h
    exact (ih hr).append [c]

theorem leaves_readLiteral (h : readLiteral cs = some (text, rest)) : Leaves cs rest := by
  fun_induction readLiteral cs generalizing text rest with
  | case1 => cases h
  | case2 cs =>
    obtain ⟨_, rfl⟩ := Prod.mk.inj (Option.some.inj h)
    exact .cons '\'' cs
  | case3 => cases h
  | case4 c cs =>
    rename_i ih
    obtain ⟨_, hr⟩ := read_of_bind h
    exact (ih hr).append [c]

theorem leaves_readLiteralBlock (h : readLiteralBlock cs = some (text, rest)) :
    Leaves cs rest := by
  fun_induction readLiteralBlock cs generalizing text rest with
  | case1 => cases h
  | case2 cs =>
    obtain ⟨_, rfl⟩ := Prod.mk.inj (Option.some.inj h)
    exact (Leaves.cons '\'' cs).append ['\'', '\'', '\'', '\'']
  | case3 cs =>
    obtain ⟨_, rfl⟩ := Prod.mk.inj (Option.some.inj h)
    exact (Leaves.cons '\'' cs).append ['\'', '\'', '\'']
  | case4 cs =>
    obtain ⟨_, rfl⟩ := Prod.mk.inj (Option.some.inj h)
    exact (Leaves.cons '\'' cs).append ['\'', '\'']
  | case5 cs ih =>
    obtain ⟨_, hr⟩ := read_of_bind h
    exact (ih hr).append ['\r', '\n']
  | case6 => cases h
  | case7 c cs =>
    rename_i ih
    obtain ⟨_, hr⟩ := read_of_bind h
    exact (ih hr).append [c]

theorem skipBreak_suffix (cs : List Char) : skipBreak cs <:+ cs := by
  unfold skipBreak
  split
  next cs => exact List.suffix_cons '\n' cs
  next cs => exact List.suffix_append ['\r', '\n'] cs
  next => exact List.suffix_refl cs

theorem leaves_readText (h : readText cs = some (text, rest)) : Leaves cs rest := by
  unfold readText at h
  split at h
  next cs =>
    exact ((leaves_readBasicBlock h).extend (skipBreak_suffix cs)).append ['"', '"', '"']
  next => exact (leaves_readBasic h).append ['"']
  next cs =>
    exact ((leaves_readLiteralBlock h).extend (skipBreak_suffix cs)).append ['\'', '\'', '\'']
  next => exact (leaves_readLiteral h).append ['\'']
  next => cases h

end Texts

section Words

theorem leaves_dropWhile {p : Char → Bool} (h : cs.takeWhile p ≠ []) :
    Leaves cs (cs.dropWhile p) := by
  cases cs with
  | nil => exact absurd rfl h
  | cons c cs =>
    by_cases hc : p c
    · rw [List.dropWhile_cons_of_pos hc]
      exact (Leaves.cons c cs).onward (List.dropWhile_suffix p)
    · exact absurd (List.takeWhile_cons_of_neg hc) h

theorem readScalar_suffix {v : Value} (h : readScalar cs = some (v, rest)) :
    rest <:+ cs.dropWhile isScalarChar := by
  have hsame {v' : Value} (h : some (v', cs.dropWhile isScalarChar) = some (v, rest)) :
      rest <:+ cs.dropWhile isScalarChar := by
    obtain ⟨_, rfl⟩ := Prod.mk.inj (Option.some.inj h)
    exact List.suffix_refl _
  unfold readScalar at h
  dsimp only at h
  split at h
  next => exact hsame h
  split at h
  next => exact hsame h
  split at h
  next => exact hsame h
  split at h
  next => exact hsame h
  split at h
  next =>
    split at h
    next after hafter =>
      split at h
      next => exact hsame h
      split at h
      next =>
        obtain ⟨_, rfl⟩ := Prod.mk.inj (Option.some.inj h)
        rw [hafter]
        exact (List.dropWhile_suffix isScalarChar).trans (List.suffix_cons ' ' after)
      next => cases h
    next => exact hsame h
  next => cases h

theorem leaves_readScalar {v : Value} (h : readScalar cs = some (v, rest)) : Leaves cs rest := by
  have hword : cs.takeWhile isScalarChar ≠ [] := by
    intro hnil
    have hnone : readScalar cs = none := by
      rw [readScalar, hnil]
      rfl
    rw [hnone] at h
    cases h
  exact (leaves_dropWhile hword).onward (readScalar_suffix h)

end Words

section Keys

variable {path : List String} {part last : String}

theorem leaves_readKeyPart (h : readKeyPart cs = some (part, rest)) : Leaves cs rest := by
  unfold readKeyPart at h
  split at h
  next =>
    obtain ⟨_, hr⟩ := read_of_map h
    exact (leaves_readBasic hr).append ['"']
  next =>
    obtain ⟨_, hr⟩ := read_of_map h
    exact (leaves_readLiteral hr).append ['\'']
  next =>
    dsimp only at h
    split at h
    next => cases h
    next hword =>
      obtain ⟨_, rfl⟩ := Prod.mk.inj (Option.some.inj h)
      exact leaves_dropWhile (mt List.isEmpty_iff.mpr hword)

theorem skipBlanks_suffix (cs : List Char) : skipBlanks cs <:+ cs :=
  List.dropWhile_suffix isBlank

theorem leaves_readKeyParts {fuel : Nat} {parts : List String}
    (h : readKeyParts fuel cs = some (parts, rest)) : Leaves cs rest := by
  induction fuel generalizing cs parts rest with
  | zero => cases h
  | succ fuel ih =>
    obtain ⟨⟨part, cs'⟩, hpart, h⟩ := Option.bind_eq_some_iff.mp h
    have hleaves := (leaves_readKeyPart hpart).extend (skipBlanks_suffix cs)
    have hskip := skipBlanks_suffix cs'
    dsimp only at h
    split at h
    next ds hdot =>
      obtain ⟨_, hr⟩ := read_of_map h
      rw [hdot] at hskip
      exact hleaves.onward (((ih hr).append ['.']).suffix.trans hskip)
    next =>
      obtain ⟨_, rfl⟩ := Prod.mk.inj (Option.some.inj h)
      exact hleaves.onward hskip

theorem readKeyParts_alike {fuel fuel' : Nat} (h : cs.length ≤ fuel) (h' : cs.length ≤ fuel') :
    readKeyParts fuel cs = readKeyParts fuel' cs := by
  induction fuel generalizing cs fuel' with
  | zero =>
    obtain rfl := List.length_eq_zero_iff.mp (Nat.le_zero.mp h)
    cases fuel' <;> rfl
  | succ fuel ih =>
    cases fuel' with
    | zero =>
      obtain rfl := List.length_eq_zero_iff.mp (Nat.le_zero.mp h')
      rfl
    | succ fuel' =>
      refine Option.bind_congr fun ⟨part, ds⟩ hpart => ?_
      have hleft := ((leaves_readKeyPart hpart).extend (skipBlanks_suffix cs)).shorter
      have hskip := (skipBlanks_suffix ds).length_le
      dsimp only
      split
      next ds' hdot =>
        rw [hdot, List.length_cons] at hskip
        have hsame : readKeyParts fuel ds' = readKeyParts fuel' ds' := ih (by omega) (by omega)
        rw [hsame]
      next => rfl

/-- A key has no more parts than its text has characters. -/
theorem readKeyParts_enough {fuel : Nat} (h : cs.length ≤ fuel) :
    readKeyParts fuel cs = readKeyParts cs.length cs :=
  readKeyParts_alike h (Nat.le_refl cs.length)

theorem leaves_readKey (h : readKey cs = some ((path, last), rest)) : Leaves cs rest := by
  obtain ⟨⟨parts, cs'⟩, hparts, h⟩ := Option.bind_eq_some_iff.mp h
  dsimp only at h
  split at h
  next => cases h
  next =>
    obtain ⟨_, _, h⟩ := Option.bind_eq_some_iff.mp h
    obtain ⟨_, rfl⟩ := Prod.mk.inj (Option.some.inj h)
    exact leaves_readKeyParts hparts

end Keys

section Ends

theorem skipLayout_suffix (comment : Bool) (cs : List Char) : skipLayout comment cs <:+ cs := by
  fun_induction skipLayout comment cs with
  | case1 => exact List.suffix_refl []
  | case2 _ cs ih => exact ih.trans (List.suffix_cons '\n' cs)
  | case3 _ cs ih => exact ih.trans (List.suffix_append ['\r', '\n'] cs)
  | case4 c cs _ _ _ ih => exact ih.trans (List.suffix_cons c cs)
  | case5 c cs => exact List.suffix_refl (c :: cs)
  | case6 _ c cs _ _ _ _ ih => exact ih.trans (List.suffix_cons c cs)
  | case7 _ cs _ _ _ _ ih => exact ih.trans (List.suffix_cons '#' cs)
  | case8 _ c cs => exact List.suffix_refl (c :: cs)

theorem endLine_spec (h : endLine cs = some rest) : rest = [] ∨ ∃ c, c :: rest <:+ cs := by
  have hline : (if (skipBlanks cs).head? = some '#' then (skipBlanks cs).dropWhile isPrintable
      else skipBlanks cs) <:+ cs := by
    split
    next => exact (List.dropWhile_suffix isPrintable).trans (skipBlanks_suffix cs)
    next => exact skipBlanks_suffix cs
  unfold endLine at h
  dsimp only at h
  split at h
  next => exact .inl (Option.some.inj h).symm
  next ds hds =>
    obtain rfl := Option.some.inj h
    exact .inr ⟨'\n', hds ▸ hline⟩
  next ds hds =>
    obtain rfl := Option.some.inj h
    exact .inr ⟨'\n', (List.suffix_cons '\r' _).trans (hds ▸ hline)⟩
  next => cases h

theorem endLine_suffix (h : endLine cs = some rest) : rest <:+ cs := by
  rcases endLine_spec h with rfl | ⟨c, hc⟩
  · exact List.nil_suffix
  · exact (List.suffix_cons c rest).trans hc

theorem leaves_endLine (hne : cs ≠ []) (h : endLine cs = some rest) : Leaves cs rest := by
  rcases endLine_spec h with rfl | ⟨c, hc⟩
  · exact ⟨List.nil_suffix, List.length_pos_iff.mpr hne⟩
  · exact (Leaves.cons c rest).extend hc

end Ends

section Values

variable {fuel fuel' : Nat}

/-- What is left of any value, of an array and of an inline table. -/
structure Advancing (fuel : Nat) : Prop where
  value {depth : Nat} {cs rest : List Char} {v : Value}
    (h : readValue fuel depth cs = some (v, rest)) : Leaves cs rest
  items {depth : Nat} {cs rest : List Char}
    (h : readItems fuel depth cs = some rest) : Leaves cs rest
  members {depth : Nat} {es : Entries} {cs rest : List Char}
    (h : readMembers fuel depth es cs = some rest) : Leaves cs rest

/-- Two bounds give the same readings of all texts that are short enough for both. A bracket costs
two calls, one for the value and one for the list behind it. -/
structure Alike (fuel fuel' : Nat) : Prop where
  value (depth : Nat) {cs : List Char} (h : 2 * cs.length < fuel) (h' : 2 * cs.length < fuel') :
    readValue fuel depth cs = readValue fuel' depth cs
  items (depth : Nat) {cs : List Char} (h : 2 * cs.length + 1 < fuel)
    (h' : 2 * cs.length + 1 < fuel') : readItems fuel depth cs = readItems fuel' depth cs
  members (depth : Nat) (es : Entries) {cs : List Char} (h : 2 * cs.length + 1 < fuel)
    (h' : 2 * cs.length + 1 < fuel') : readMembers fuel depth es cs = readMembers fuel' depth es cs

variable {depth : Nat} {v : Value} {es : Entries}

theorem Advancing.readValue (ih : Advancing fuel)
    (h : readValue (fuel + 1) depth cs = some (v, rest)) : Leaves cs rest := by
  unfold Toml.readValue at h
  split at h
  next =>
    split at h
    next => cases h
    next => exact (ih.items (left_of_map h)).append ['[']
  next cs =>
    have hskip := skipBlanks_suffix cs
    split at h
    next => cases h
    split at h
    next hclose =>
      obtain ⟨_, rfl⟩ := Prod.mk.inj (Option.some.inj h)
      rw [hclose] at hskip
      exact ((Leaves.cons '}' _).extend hskip).append ['{']
    next => exact ((ih.members (left_of_map h)).extend hskip).append ['{']
  next =>
    obtain ⟨_, hr⟩ := read_of_map h
    exact leaves_readText hr
  next =>
    obtain ⟨_, hr⟩ := read_of_map h
    exact leaves_readText hr
  next => exact leaves_readScalar h

theorem Advancing.readItems (ih : Advancing fuel)
    (h : readItems (fuel + 1) depth cs = some rest) : Leaves cs rest := by
  have hskip := skipLayout_suffix false cs
  unfold Toml.readItems at h
  split at h
  next hclose =>
    obtain rfl := Option.some.inj h
    rw [hclose] at hskip
    exact (Leaves.cons ']' _).extend hskip
  next =>
    obtain ⟨⟨v, ds⟩, hr, h⟩ := Option.bind_eq_some_iff.mp h
    have hvalue := (ih.value hr).extend hskip
    have hnext := skipLayout_suffix false ds
    dsimp only at h
    split at h
    next hcomma =>
      rw [hcomma] at hnext
      exact hvalue.onward (((ih.items h).append [',']).suffix.trans hnext)
    next hclose =>
      obtain rfl := Option.some.inj h
      rw [hclose] at hnext
      exact hvalue.onward ((List.suffix_cons ']' _).trans hnext)
    next => cases h

theorem Advancing.readMembers (ih : Advancing fuel)
    (h : readMembers (fuel + 1) depth es cs = some rest) : Leaves cs rest := by
  unfold Toml.readMembers at h
  obtain ⟨⟨⟨path, last⟩, ds⟩, hkey, h⟩ := Option.bind_eq_some_iff.mp h
  dsimp only at h
  split at h
  next ds =>
    obtain ⟨⟨v, ds'⟩, hr, h⟩ := Option.bind_eq_some_iff.mp h
    obtain ⟨es', _, h⟩ := Option.bind_eq_some_iff.mp h
    have hafter := ((ih.value hr).extend (skipBlanks_suffix ds)).append ['=']
    have hvalue := (leaves_readKey hkey).onward hafter.suffix
    have hnext := skipBlanks_suffix ds'
    dsimp only at h
    split at h
    next hcomma =>
      rw [hcomma] at hnext
      exact hvalue.onward (((ih.members h).append [',']).suffix.trans hnext)
    next hclose =>
      obtain rfl := Option.some.inj h
      rw [hclose] at hnext
      exact hvalue.onward ((List.suffix_cons '}' _).trans hnext)
    next => cases h
  next => cases h

theorem advancing (fuel : Nat) : Advancing fuel := by
  induction fuel with
  | zero => refine ⟨fun h => ?_, fun h => ?_, fun h => ?_⟩ <;> cases h
  | succ fuel ih => exact ⟨ih.readValue, ih.readItems, ih.readMembers⟩

theorem Alike.readValue (ih : Alike fuel fuel') (h : 2 * cs.length < fuel + 1)
    (h' : 2 * cs.length < fuel' + 1) :
    readValue (fuel + 1) depth cs = readValue (fuel' + 1) depth cs := by
  unfold Toml.readValue
  split
  next =>
    rw [List.length_cons] at h h'
    rw [ih.items (depth + 1) (by omega) (by omega)]
  next cs =>
    have hskip := (skipBlanks_suffix cs).length_le
    rw [List.length_cons] at h h'
    split
    next => rfl
    split
    next => rfl
    next => rw [ih.members (depth + 1) [] (by omega) (by omega)]
  next => rfl
  next => rfl
  next => rfl

/-- An array loses a value and a comma before its next value is read. -/
theorem Alike.readItems (ih : Alike fuel fuel') (h : 2 * cs.length + 1 < fuel + 1)
    (h' : 2 * cs.length + 1 < fuel' + 1) :
    readItems (fuel + 1) depth cs = readItems (fuel' + 1) depth cs := by
  have hskip := (skipLayout_suffix false cs).length_le
  unfold Toml.readItems
  split
  next => rfl
  next =>
    rw [ih.value depth (by omega) (by omega)]
    refine Option.bind_congr fun r hr => ?_
    have hleft := ((advancing fuel').value hr).shorter
    have hnext := (skipLayout_suffix false r.2).length_le
    dsimp only
    split
    next hcomma =>
      rw [hcomma, List.length_cons] at hnext
      exact ih.items depth (by omega) (by omega)
    next => rfl
    next => rfl

theorem Alike.readMembers (ih : Alike fuel fuel') (h : 2 * cs.length + 1 < fuel + 1)
    (h' : 2 * cs.length + 1 < fuel' + 1) :
    readMembers (fuel + 1) depth es cs = readMembers (fuel' + 1) depth es cs := by
  unfold Toml.readMembers
  refine Option.bind_congr fun ⟨⟨path, last⟩, ds⟩ hkey => ?_
  have hkeyed := (leaves_readKey hkey).shorter
  dsimp only
  split
  next ds =>
    have hskip := (skipBlanks_suffix ds).length_le
    rw [List.length_cons] at hkeyed
    rw [ih.value depth (by omega) (by omega)]
    refine Option.bind_congr fun r' hr => Option.bind_congr fun es' _ => ?_
    have hleft := ((advancing fuel').value hr).shorter
    have hnext := (skipBlanks_suffix r'.2).length_le
    split
    next hcomma =>
      rw [hcomma, List.length_cons] at hnext
      exact ih.members depth es' (by omega) (by omega)
    next => rfl
    next => rfl
  next => rfl

theorem alike (fuel fuel' : Nat) : Alike fuel fuel' := by
  induction fuel generalizing fuel' with
  -- No text is short enough for the bound zero.
  | zero => refine ⟨fun _ _ h => ?_, fun _ _ h => ?_, fun _ _ _ h => ?_⟩ <;> cases h
  | succ fuel ih =>
    cases fuel' with
    | zero => refine ⟨fun _ _ _ h => ?_, fun _ _ _ h => ?_, fun _ _ _ _ h => ?_⟩ <;> cases h
    | succ fuel' =>
      have ih := ih fuel'
      exact ⟨fun _ => ih.readValue, fun _ => ih.readItems, fun _ _ => ih.readMembers⟩

/-- Two calls for each character are enough for every value. -/
theorem readValue_enough (h : 2 * cs.length < fuel) :
    readValue fuel depth cs = readValue (2 * cs.length + 1) depth cs :=
  (alike _ _).value depth h (Nat.lt_succ_self _)

end Values

section Lines

variable {p p' : Progress}

theorem leaves_readHeader {start : Option Node → Option Node} {closing : List Char}
    (h : readHeader p start closing cs = some (p', rest)) : Leaves cs rest := by
  obtain ⟨⟨⟨path, last⟩, ds⟩, hkey, h⟩ := Option.bind_eq_some_iff.mp h
  dsimp only at h
  split at h
  next => cases h
  next =>
    obtain ⟨_, hend, h⟩ := Option.bind_eq_some_iff.mp h
    obtain ⟨_, _, h⟩ := Option.bind_eq_some_iff.mp h
    obtain ⟨_, rfl⟩ := Prod.mk.inj (Option.some.inj h)
    exact (leaves_readKey hkey).onward ((endLine_suffix hend).trans (List.drop_suffix _ _))

theorem leaves_readAssignment (h : readAssignment p cs = some (p', rest)) : Leaves cs rest := by
  obtain ⟨⟨⟨path, last⟩, ds⟩, hkey, h⟩ := Option.bind_eq_some_iff.mp h
  dsimp only at h
  split at h
  next ds =>
    obtain ⟨⟨v, ds'⟩, hr, h⟩ := Option.bind_eq_some_iff.mp h
    obtain ⟨_, hend, h⟩ := Option.bind_eq_some_iff.mp h
    obtain ⟨_, _, h⟩ := Option.bind_eq_some_iff.mp h
    obtain ⟨_, rfl⟩ := Prod.mk.inj (Option.some.inj h)
    have hvalue := (((advancing _).value hr).extend (skipBlanks_suffix ds)).append ['=']
    exact (leaves_readKey hkey).onward ((endLine_suffix hend).trans hvalue.suffix)
  next => cases h

theorem readLines_alike {fuel fuel' : Nat} (h : cs.length < fuel) (h' : cs.length < fuel') :
    readLines fuel p cs = readLines fuel' p cs := by
  induction fuel generalizing p cs fuel' with
  | zero => cases h
  | succ fuel ih =>
    obtain ⟨fuel', rfl⟩ := Nat.exists_eq_succ_of_ne_zero (Nat.ne_zero_of_lt h')
    have hskip := (skipBlanks_suffix cs).length_le
    have hrest {ds rest : List Char} {p : Progress} (hds : skipBlanks cs = ds)
        (hleaves : Leaves ds rest) : readLines fuel p rest = readLines fuel' p rest := by
      have hleft := hleaves.shorter
      rw [hds] at hskip
      exact ih (by omega) (by omega)
    unfold readLines
    split
    next => rfl
    next hhead =>
      exact Option.bind_congr fun r hr => hrest hhead ((leaves_readHeader hr).append ['[', '['])
    next hhead =>
      exact Option.bind_congr fun r hr => hrest hhead ((leaves_readHeader hr).append ['['])
    next c ds _ _ hhead =>
      split
      next =>
        exact Option.bind_congr fun r hr =>
          hrest hhead (leaves_endLine (List.cons_ne_nil c ds) hr)
      next => exact Option.bind_congr fun r hr => hrest hhead (leaves_readAssignment hr)

/-- As many lines as the text has characters, and one more, are enough for every document. -/
theorem readLines_enough {fuel : Nat} (h : cs.length < fuel) :
    readLines fuel p cs = readLines (cs.length + 1) p cs :=
  readLines_alike h (Nat.lt_succ_self cs.length)

end Lines

end ColumnAtlas.Toml
