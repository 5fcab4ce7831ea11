import ColumnAtlas.JsonReader

namespace ColumnAtlas.Json

/-- What comes after a value: the end of the text, another value or the end of the enclosing one. -/
def Follows (rest : List Char) : Prop :=
  ∀ c, rest.head? = some c → c = ',' ∨ c = ']' ∨ c = '}'

theorem follows_nil : Follows [] := nofun

theorem follows_cons {c : Char} (h : c = ',' ∨ c = ']' ∨ c = '}') (cs : List Char) :
    Follows (c :: cs) := by
  intro c' hc
  exact Option.some.inj hc ▸ h

section Numbers

theorem isDigit_iff {c : Char} : isDigit c ↔ 48 ≤ c.toNat ∧ c.toNat ≤ 57 := by
  simp [isDigit, Char.le_def, UInt32.le_iff_toNat_le]

theorem isDigit_of_mem_toDigits {n : Nat} {c : Char} (h : c ∈ Nat.toDigits 10 n) : isDigit c := by
  have hdigit : c.isDigit := Nat.isDigit_of_mem_toDigits (by decide) (by decide) h
  exact isDigit_iff.mpr (Char.isDigit_iff_toNat.mp hdigit)

theorem decimal_concat (cs : List Char) (c : Char) :
    decimal (cs ++ [c]) = decimal cs * 10 + (c.toNat - 48) := by
  rw [decimal, List.foldl_append]
  rfl

theorem decimal_toDigits (n : Nat) : decimal (Nat.toDigits 10 n) = n := by
  have hvalue : Nat.ofDigitChars 10 (Nat.toDigits 10 n) 0 = n := Nat.ofDigitChars_ten_toDigits
  rw [Nat.ofDigitChars_eq_foldl] at hvalue
  simpa only [decimal, Nat.mul_comm] using hvalue

/-- A number has no leading zero unless it is zero. -/
theorem head?_toDigits {n : Nat} (h : n ≠ 0) : (Nat.toDigits 10 n).head? ≠ some '0' := by
  induction n using Nat.strongRecOn with
  | _ n ih =>
    rw [Nat.toDigits_eq_if (by decide)]
    split
    next hlt => simpa using h
    next hlt =>
      have hsmaller : n / 10 < n := by omega
      have hpositive : n / 10 ≠ 0 := by omega
      have hhead := ih (n / 10) hsmaller hpositive
      rw [List.head?_append, Option.or_of_isSome (by simp)]
      exact hhead

/-- A word of characters of one kind ends where a character of another kind follows. -/
theorem takeWhile_word {p : Char → Bool} {word rest : List Char} (hw : ∀ c ∈ word, p c)
    (hr : ∀ c, rest.head? = some c → p c = false) :
    (word ++ rest).takeWhile p = word ∧ (word ++ rest).dropWhile p = rest := by
  have hstop : rest.takeWhile p = [] ∧ rest.dropWhile p = rest := by
    cases rest with
    | nil => exact ⟨rfl, rfl⟩
    | cons c cs =>
      have hc := hr c rfl
      rw [List.takeWhile_cons, List.dropWhile_cons, hc]
      exact ⟨rfl, rfl⟩
  rw [List.takeWhile_append_of_pos hw, List.dropWhile_append_of_pos hw, hstop.1, hstop.2]
  exact ⟨List.append_nil word, rfl⟩

theorem takeWhile_isDigit {ds rest : List Char} (hd : ∀ c ∈ ds, isDigit c) (hr : Follows rest) :
    (ds ++ rest).takeWhile isDigit = ds ∧ (ds ++ rest).dropWhile isDigit = rest := by
  refine takeWhile_word hd fun c hc => ?_
  rcases hr c hc with rfl | rfl | rfl <;> rfl

theorem readWhole_toDigits {rest : List Char} (n : Nat) (hr : Follows rest) :
    readWhole (Nat.toDigits 10 n ++ rest) = some (Nat.toDigits 10 n, rest) := by
  have hd : ∀ c ∈ Nat.toDigits 10 n, isDigit c := fun c hc => isDigit_of_mem_toDigits hc
  obtain ⟨htake, hdrop⟩ := takeWhile_isDigit hd hr
  have hdigits : readDigits (Nat.toDigits 10 n ++ rest) = some (Nat.toDigits 10 n, rest) := by
    rw [readDigits, htake, hdrop, if_neg (by simp)]
  have hzero : ¬((Nat.toDigits 10 n).head? = some '0' ∧ 1 < (Nat.toDigits 10 n).length) := by
    rintro ⟨hhead, hlong⟩
    by_cases hn : n = 0
    · subst hn
      exact absurd hlong (by decide)
    · exact head?_toDigits hn hhead
  simp only [readWhole, hdigits, Option.bind_eq_bind, Option.bind_some, if_neg hzero]
  rfl

theorem readFraction_follows {rest : List Char} (hr : Follows rest) :
    readFraction rest = some (false, rest) := by
  cases rest with
  | nil => rfl
  | cons c cs => rcases hr c rfl with rfl | rfl | rfl <;> rfl

theorem readExponent_follows {rest : List Char} (hr : Follows rest) :
    readExponent rest = some (false, rest) := by
  cases rest with
  | nil => rfl
  | cons c cs => rcases hr c rfl with rfl | rfl | rfl <;> rfl

theorem readUnsigned_toDigits (negative : Bool) {n : Nat} {rest : List Char}
    (hn : negative → n ≠ 0) (hr : Follows rest) : readUnsigned negative (Nat.toDigits 10 n ++ rest) =
      some (int (if negative then -(n : Int) else n), rest) := by
  have hplain : ¬(false || false || (negative && decide (n = 0))) := by
    cases negative with
    | false => simp
    | true => simpa using hn rfl
  simp only [readUnsigned, readWhole_toDigits n hr, readFraction_follows hr, readExponent_follows hr,
    Option.bind_eq_bind, Option.bind_some, decimal_toDigits, if_neg hplain]
  rfl

theorem readNumber_digits {cs : List Char} (h : cs.head? ≠ some '-') :
    readNumber cs = readUnsigned false cs := by
  unfold readNumber
  split
  next => exact absurd rfl h
  next => rfl

theorem readNumber_printInt {rest : List Char} (n : Int) (hr : Follows rest) :
    readNumber (printInt n ++ rest) = some (int n, rest) := by
  unfold printInt
  split
  next hn =>
    have hne : n.natAbs ≠ 0 := by omega
    have hvalue : -(n.natAbs : Int) = n := by omega
    have hread := readUnsigned_toDigits true (fun _ => hne) hr
    rw [if_pos rfl, hvalue] at hread
    exact hread
  next hn =>
    have hvalue : (n.natAbs : Int) = n := by omega
    have hread := readUnsigned_toDigits false (n := n.natAbs) nofun hr
    rw [if_neg Bool.false_ne_true, hvalue] at hread
    rw [readNumber_digits, hread]
    obtain ⟨c, cs, hc⟩ := List.exists_cons_of_ne_nil (Nat.toDigits_ne_nil (n := n.natAbs) (b := 10))
    have hdigit : isDigit c := isDigit_of_mem_toDigits (hc ▸ List.mem_cons_self)
    rw [hc]
    intro hminus
    obtain rfl : c = '-' := Option.some.inj hminus
    exact absurd hdigit (by decide)

end Numbers

section Texts

theorem hexNumber?_control : ∀ n, n < 0x20 →
    hexNumber? ['0', '0', Nat.digitChar (n / 16), Nat.digitChar (n % 16)] = some n := by
  decide

theorem readUnits_escape {e c : Char} (he : e ≠ 'u') (hc : escaped? e = some c) (cs : List Char) :
    readUnits ('\\' :: e :: cs) = (readUnits cs).map fun r => (.char c :: r.1, r.2) := by
  rw [readUnits]
  · rw [hc]
    cases readUnits cs <;> rfl
  · exact fun _ _ _ _ _ hu => absurd hu he

theorem readUnits_plain {c : Char} (hquote : c ≠ '"') (hback : c ≠ '\\') (hc : ¬c.toNat < 0x20)
    (cs : List Char) : readUnits (c :: cs) = (readUnits cs).map fun r => (.char c :: r.1, r.2) := by
  have hallowed : ¬(c.toNat < 0x20 ∨ c = '\\') := by simp [hc, hback]
  rw [readUnits]
  · rw [if_neg hallowed]
    cases readUnits cs <;> rfl
  · exact hquote
  · exact fun _ _ _ _ _ hb => absurd hb hback
  · exact fun _ _ hb => absurd hb hback

/-- The characters that are escaped by a letter. -/
def lettered : List Char := ['"', '\\', '\x08', '\t', '\n', '\x0c', '\r']

theorem printChar_lettered {c : Char} (h : c ∈ lettered) :
    ∃ e, e ≠ 'u' ∧ escaped? e = some c ∧ printChar c = ['\\', e] := by
  simp only [lettered, List.mem_cons, List.not_mem_nil, or_false] at h
  rcases h with rfl | rfl | rfl | rfl | rfl | rfl | rfl <;> exact ⟨_, by decide, rfl, rfl⟩

theorem printChar_of_not_lettered {c : Char} (h : c ∉ lettered) : printChar c =
    if c.toNat < 0x20 then
      ['\\', 'u', '0', '0', Nat.digitChar (c.toNat / 16), Nat.digitChar (c.toNat % 16)]
    else [c] := by
  simp only [lettered, List.mem_cons, List.not_mem_nil, or_false, not_or] at h
  simp only [printChar, h, if_false]

/-- A printed character is read back as one unit. -/
theorem readUnits_printChar (c : Char) (cs : List Char) : readUnits (printChar c ++ cs) =
    (readUnits cs).map fun r => (.char c :: r.1, r.2) := by
  by_cases hl : c ∈ lettered
  · obtain ⟨e, he, hc, hprinted⟩ := printChar_lettered hl
    rw [hprinted]
    exact readUnits_escape he hc cs
  · rw [printChar_of_not_lettered hl]
    split
    next hcontrol =>
      have hcode : TextUnit.ofCode c.toNat = .char c := by
        rw [TextUnit.ofCode, if_neg (by omega), Char.ofNat_toNat]
      simp only [List.cons_append, List.nil_append, readUnits, hexNumber?_control c.toNat hcontrol,
        Option.bind_eq_bind, Option.bind_some, hcode]
      cases readUnits cs <;> rfl
    next hcontrol =>
      have hquote : c ≠ '"' := fun he => hl (he ▸ by decide)
      have hback : c ≠ '\\' := fun he => hl (he ▸ by decide)
      exact readUnits_plain hquote hback hcontrol cs

theorem readUnits_printed (cs rest : List Char) : readUnits (cs.flatMap printChar ++ '"' :: rest) =
    some (cs.map .char, rest) := by
  induction cs with
  | nil => rfl
  | cons c cs ih => rw [List.flatMap_cons, List.append_assoc, readUnits_printChar, ih]; rfl

theorem joinUnits_char (cs : List Char) : joinUnits (cs.map .char) = some cs := by
  induction cs with
  | nil => rfl
  | cons c cs ih => rw [List.map_cons, joinUnits, ih]; rfl

theorem printText_some (s : String) : printText (some s) = '"' :: s.toList.flatMap printChar ++ ['"'] :=
  rfl

theorem printText_none : printText none = ['"', '\\', 'u', 'd', '8', '0', '0', '"'] :=
  String.toList_ofList

/-- A printed string is its opening quote and a text from which the string is read back. -/
theorem readText_printText (s : Option String) (rest : List Char) :
    ∃ cs, printText s ++ rest = '"' :: cs ∧ readText cs = some (s, rest) := by
  cases s with
  | none =>
    have hhex : hexNumber? ['d', '8', '0', '0'] = some 0xD800 := by decide
    refine ⟨'\\' :: 'u' :: 'd' :: '8' :: '0' :: '0' :: '"' :: rest, ?_, ?_⟩
    · rw [printText_none]
      rfl
    · simp only [readText, readUnits, hhex]
      rfl
  | some s =>
    refine ⟨s.toList.flatMap printChar ++ '"' :: rest, ?_, ?_⟩
    · rw [printText_some]
      simp
    · simp [readText, readUnits_printed, joinUnits_char]

end Texts

section Values

theorem skipGap_cons {c : Char} (h : isGap c = false) (cs : List Char) :
    skipGap (c :: cs) = c :: cs := by
  simp [skipGap, h]

theorem isGap_number {c : Char} (h : c = '-' ∨ isDigit c) : isGap c = false := by
  refine Bool.eq_false_iff.mpr fun hg => ?_
  simp only [isGap, Bool.or_eq_true, decide_eq_true_eq] at hg
  rcases hg with ((rfl | rfl) | rfl) | rfl <;> exact absurd h (by decide)

theorem readValue_number {c : Char} (h : c = '-' ∨ isDigit c) (fuel : Nat) (cs : List Char) :
    readValue (fuel + 1) (c :: cs) = readNumber (c :: cs) := by
  have hgap : isGap c = false := isGap_number h
  have hne {d : Char} {ds : List Char} (heq : c :: cs = d :: ds)
      (hd : ¬(d = '-' ∨ isDigit d)) : False :=
    hd ((List.cons.inj heq).1 ▸ h)
  rw [readValue, skipGap_cons hgap]
  split
  next heq => exact (hne heq (by decide)).elim
  next heq => exact (hne heq (by decide)).elim
  next heq => exact (hne heq (by decide)).elim
  next heq => exact (hne heq (by decide)).elim
  next heq => exact (hne heq (by decide)).elim
  next heq => exact (hne heq (by decide)).elim
  next => rfl

theorem printInt_cons (n : Int) : ∃ c cs, printInt n = c :: cs ∧ (c = '-' ∨ isDigit c) := by
  unfold printInt
  split
  next => exact ⟨_, _, rfl, .inl rfl⟩
  next =>
    obtain ⟨c, cs, hc⟩ := List.exists_cons_of_ne_nil (Nat.toDigits_ne_nil (n := n.natAbs) (b := 10))
    exact ⟨c, cs, hc, .inr (isDigit_of_mem_toDigits (hc ▸ List.mem_cons_self))⟩

/-- A printed value begins neither with a blank nor with the end of a list. -/
theorem print_cons (v : Json) : ∃ c cs, print v = c :: cs ∧ isGap c = false ∧ c ≠ ']' := by
  cases v with
  | null => exact ⟨'n', ['u', 'l', 'l'], rfl, rfl, by decide⟩
  | bool b =>
    cases b with
    | true => exact ⟨'t', ['r', 'u', 'e'], rfl, rfl, by decide⟩
    | false => exact ⟨'f', ['a', 'l', 's', 'e'], rfl, rfl, by decide⟩
  | int n =>
    obtain ⟨c, cs, hc, hnumber⟩ := printInt_cons n
    refine ⟨c, cs, hc, isGap_number hnumber, ?_⟩
    rintro rfl
    exact absurd hnumber (by decide)
  | real => exact ⟨'-', ['0'], rfl, rfl, by decide⟩
  | str s =>
    obtain ⟨cs, hcs, _⟩ := readText_printText s []
    rw [List.append_nil] at hcs
    exact ⟨'"', cs, hcs, rfl, by decide⟩
  | arr items => exact ⟨'[', _, rfl, rfl, by decide⟩
  | obj members => exact ⟨'{', _, rfl, rfl, by decide⟩

theorem printItems_cons_cons (v w : Json) (ws : List Json) :
    printItems (v :: w :: ws) = print v ++ ',' :: printItems (w :: ws) :=
  rfl

theorem printMembers_cons_cons (k : Option String) (v : Json) (m : Option String × Json)
    (ms : List (Option String × Json)) : printMembers ((k, v) :: m :: ms) =
      printText k ++ ':' :: print v ++ ',' :: printMembers (m :: ms) :=
  rfl

theorem printMembers_cons (m : Option String × Json) (ms : List (Option String × Json)) :
    ∃ cs, printMembers (m :: ms) = '"' :: cs := by
  obtain ⟨k, v⟩ := m
  obtain ⟨cs, hcs, _⟩ := readText_printText k []
  rw [List.append_nil] at hcs
  cases ms with
  | nil => exact ⟨_, by rw [printMembers, hcs, List.cons_append]⟩
  | cons m ms => exact ⟨_, by rw [printMembers_cons_cons, hcs, List.cons_append, List.cons_append]⟩

theorem printItems_cons (v : Json) (vs : List Json) :
    ∃ c cs, printItems (v :: vs) = c :: cs ∧ isGap c = false ∧ c ≠ ']' := by
  obtain ⟨c, cs, hc, hgap, hne⟩ := print_cons v
  cases vs with
  | nil => exact ⟨c, cs, hc, hgap, hne⟩
  | cons w ws => exact ⟨c, _, by rw [printItems_cons_cons, hc, List.cons_append], hgap, hne⟩

theorem readUnsigned_minus_zero {rest : List Char} (hr : Follows rest) :
    readUnsigned true ('0' :: rest) = some (real, rest) := by
  have hwhole := readWhole_toDigits 0 hr
  rw [Nat.toDigits_zero] at hwhole
  simp only [List.cons_append, List.nil_append] at hwhole
  simp only [readUnsigned, hwhole, readFraction_follows hr, readExponent_follows hr,
    Option.bind_eq_bind, Option.bind_some]
  rfl

/-- The reader takes the items between two brackets. -/
theorem readValue_arr {fuel : Nat} {cs cs' rest : List Char} {items : List Json} {c : Char}
    (hc : cs = c :: cs') (hgap : isGap c = false) (hne : c ≠ ']')
    (h : readItems fuel cs = some (items, rest)) :
    readValue (fuel + 1) ('[' :: cs) = some (arr items, rest) := by
  subst hc
  rw [readValue, skipGap_cons rfl]
  simp only [skipGap_cons hgap]
  split
  next heq => exact absurd (List.cons.inj heq).1 hne
  next => rw [h]; rfl

theorem readValue_obj {fuel : Nat} {cs rest : List Char} {members : List (Option String × Json)}
    (h : readMembers fuel ('"' :: cs) = some (members, rest)) :
    readValue (fuel + 1) ('{' :: '"' :: cs) = some (obj members, rest) := by
  rw [readValue, skipGap_cons rfl]
  simp only [skipGap_cons (c := '"') rfl]
  split
  next heq => exact absurd (List.cons.inj heq).1 (by decide)
  next => rw [h]; rfl

theorem readItems_last {fuel : Nat} {cs rest : List Char} {v : Json}
    (h : readValue fuel cs = some (v, ']' :: rest)) : readItems (fuel + 1) cs = some ([v], rest) := by
  rw [readItems, h]
  simp only [Option.bind_eq_bind, Option.bind_some, skipGap_cons (c := ']') rfl]

theorem readItems_more {fuel : Nat} {cs cs' rest : List Char} {v : Json} {vs : List Json}
    (h : readValue fuel cs = some (v, ',' :: cs')) (hrest : readItems fuel cs' = some (vs, rest)) :
    readItems (fuel + 1) cs = some (v :: vs, rest) := by
  rw [readItems, h]
  simp only [Option.bind_eq_bind, Option.bind_some, skipGap_cons (c := ',') rfl, hrest, Option.map_some]

theorem readMembers_last {fuel : Nat} {cs rest : List Char} {v : Json} (k : Option String)
    (h : readValue fuel cs = some (v, '}' :: rest)) :
    readMembers (fuel + 1) (printText k ++ ':' :: cs) = some ([(k, v)], rest) := by
  obtain ⟨ks, hks, hread⟩ := readText_printText k (':' :: cs)
  rw [hks, readMembers, skipGap_cons rfl]
  simp only [hread, Option.bind_eq_bind, Option.bind_some, skipGap_cons (c := ':') rfl, h,
    skipGap_cons (c := '}') rfl]

theorem readMembers_more {fuel : Nat} {cs cs' rest : List Char} {v : Json}
    {ms : List (Option String × Json)} (k : Option String)
    (h : readValue fuel cs = some (v, ',' :: cs')) (hrest : readMembers fuel cs' = some (ms, rest)) :
    readMembers (fuel + 1) (printText k ++ ':' :: cs) = some ((k, v) :: ms, rest) := by
  obtain ⟨ks, hks, hread⟩ := readText_printText k (':' :: cs)
  rw [hks, readMembers, skipGap_cons rfl]
  simp only [hread, Option.bind_eq_bind, Option.bind_some, skipGap_cons (c := ':') rfl, h,
    skipGap_cons (c := ',') rfl, hrest, Option.map_some]

-- A level of fuel is spent for each item and each enclosing list, and every one of them has a
-- character of its own in the text, so twice the length of the text is enough.
mutual

theorem readValue_print : ∀ (v : Json) {fuel : Nat} {rest : List Char},
    2 * (print v).length ≤ fuel → Follows rest → readValue fuel (print v ++ rest) = some (v, rest)
  | null, fuel + 1, rest, _, _ => rfl
  | bool true, fuel + 1, rest, _, _ => rfl
  | bool false, fuel + 1, rest, _, _ => rfl
  | int n, fuel + 1, rest, _, hr => by
    obtain ⟨c, cs, hc, hnumber⟩ := printInt_cons n
    have hread := readNumber_printInt n hr
    rw [hc] at hread
    rw [print, hc]
    exact (readValue_number hnumber fuel _).trans hread
  | real, fuel + 1, rest, _, hr =>
    (readValue_number (.inl rfl) fuel ('0' :: rest)).trans (readUnsigned_minus_zero hr)
  | str s, fuel + 1, rest, _, _ => by
    obtain ⟨cs, hcs, hread⟩ := readText_printText s rest
    rw [print, hcs, readValue, skipGap_cons rfl]
    simp only [hread, Option.map_some]
  | arr [], fuel + 1, rest, _, _ => rfl
  | arr (v :: vs), fuel + 1, rest, h, _ => by
    have hlength : 2 * (printItems (v :: vs)).length + 1 ≤ fuel := by
      simp only [print, List.length_cons, List.length_append, List.length_nil] at h
      omega
    have hitems : readItems fuel (printItems (v :: vs) ++ ']' :: rest) = some (v :: vs, rest) :=
      readItems_print v vs hlength
    obtain ⟨c, cs, hc, hgap, hne⟩ := printItems_cons v vs
    rw [print, List.cons_append, List.cons_append, List.append_assoc]
    exact readValue_arr (by rw [hc, List.cons_append]) hgap hne hitems
  | obj [], fuel + 1, rest, _, _ => rfl
  | obj (m :: ms), fuel + 1, rest, h, _ => by
    have hlength : 2 * (printMembers (m :: ms)).length + 1 ≤ fuel := by
      simp only [print, List.length_cons, List.length_append, List.length_nil] at h
      omega
    have hmembers : readMembers fuel (printMembers (m :: ms) ++ '}' :: rest) = some (m :: ms, rest) :=
      readMembers_print m ms hlength
    obtain ⟨cs, hcs⟩ := printMembers_cons m ms
    rw [hcs, List.cons_append] at hmembers
    rw [print, hcs]
    simp only [List.cons_append, List.append_assoc, List.nil_append]
    exact readValue_obj hmembers
  | v, 0, _, h, _ => by
    obtain ⟨c, cs, hc, _⟩ := print_cons v
    simp [hc] at h

theorem readItems_print : ∀ (v : Json) (vs : List Json) {fuel : Nat} {rest : List Char},
    2 * (printItems (v :: vs)).length + 1 ≤ fuel →
      readItems fuel (printItems (v :: vs) ++ ']' :: rest) = some (v :: vs, rest)
  | v, [], fuel + 1, rest, h =>
    readItems_last (readValue_print v (Nat.le_of_succ_le_succ h) (follows_cons (.inr (.inl rfl)) rest))
  | v, w :: ws, fuel + 1, rest, h => by
    rw [printItems_cons_cons, List.length_append, List.length_cons] at h
    have hfirst : 2 * (print v).length ≤ fuel := by omega
    have hothers : 2 * (printItems (w :: ws)).length + 1 ≤ fuel := by omega
    have hv := readValue_print v hfirst
      (follows_cons (.inl rfl) (printItems (w :: ws) ++ ']' :: rest))
    have hrest : readItems fuel (printItems (w :: ws) ++ ']' :: rest) = some (w :: ws, rest) :=
      readItems_print w ws hothers
    rw [printItems_cons_cons, List.append_assoc]
    exact readItems_more hv hrest
  | _, _, 0, _, h => absurd h (Nat.not_succ_le_zero _)

theorem readMembers_print : ∀ (m : Option String × Json) (ms : List (Option String × Json))
    {fuel : Nat} {rest : List Char}, 2 * (printMembers (m :: ms)).length + 1 ≤ fuel →
      readMembers fuel (printMembers (m :: ms) ++ '}' :: rest) = some (m :: ms, rest)
  | (k, v), [], fuel + 1, rest, h => by
    rw [printMembers, List.length_append, List.length_cons] at h
    have hlength : 2 * (print v).length ≤ fuel := by omega
    have hv := readValue_print v hlength (follows_cons (.inr (.inr rfl)) rest)
    rw [printMembers, List.append_assoc]
    exact readMembers_last k hv
  | (k, v), m :: ms, fuel + 1, rest, h => by
    rw [printMembers_cons_cons] at h
    simp only [List.length_append, List.length_cons] at h
    have hfirst : 2 * (print v).length ≤ fuel := by omega
    have hothers : 2 * (printMembers (m :: ms)).length + 1 ≤ fuel := by omega
    have hv := readValue_print v hfirst
      (follows_cons (.inl rfl) (printMembers (m :: ms) ++ '}' :: rest))
    have hrest : readMembers fuel (printMembers (m :: ms) ++ '}' :: rest) = some (m :: ms, rest) :=
      readMembers_print m ms hothers
    rw [printMembers_cons_cons]
    simp only [List.append_assoc, List.cons_append]
    exact readMembers_more k hv hrest
  | _, _, 0, _, h => absurd h (Nat.not_succ_le_zero _)

end

/-- Every document is read back from its text. -/
theorem read?_render (v : Json) : read? v.render = some v := by
  have hfuel : 2 * v.print.length ≤ 2 * v.render.length + 1 := by
    rw [render, String.length_ofList]
    omega
  have hread := readValue_print v hfuel follows_nil
  rw [List.append_nil] at hread
  rw [read?, render, String.toList_ofList, ← render, hread]
  rfl

end Values

end ColumnAtlas.Json
