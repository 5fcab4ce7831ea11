import ColumnAtlas.TomlReader
import ColumnAtlas.Proofs.PrintedJson

namespace ColumnAtlas.Toml

open Json (isDigit decimal hexValue? hexNumber? printInt isDigit_of_mem_toDigits decimal_toDigits
  head?_toDigits printInt_cons)

/-- The eight hexadecimal digits of the number of a character. -/
def codeDigits (code : Nat) : List Char :=
  [code / 0x10000000 % 16, code / 0x1000000 % 16, code / 0x100000 % 16, code / 0x10000 % 16,
    code / 0x1000 % 16, code / 0x100 % 16, code / 0x10 % 16, code % 16].map Nat.digitChar

/-- A character inside a basic string, by its number if it cannot stand there itself. -/
def quoteChar (c : Char) : List Char :=
  if c = '"' ∨ c = '\\' ∨ !isPrintable c then '\\' :: 'U' :: codeDigits c.toNat else [c]

/-- A value that a program writes into a document. -/
inductive Literal where
  | text (s : String)
  | flag (b : Bool)
  | number (n : Int)

namespace Literal

def value : Literal → Value
  | text s => .text s
  | flag b => .flag b
  | number _ => .number

/-- Integers have 64 bits. -/
def Fits : Literal → Prop
  | text _ => True
  | flag _ => True
  | number n => -(largestInteger + 1 : Int) ≤ n ∧ n ≤ largestInteger

def print : Literal → List Char
  | text s => '"' :: s.toList.flatMap quoteChar ++ ['"']
  | flag true => "true".toList
  | flag false => "false".toList
  | number n => printInt n

end Literal

section Texts

theorem hexValue?_digitChar : ∀ d, d < 16 → hexValue? (Nat.digitChar d) = some d := by
  decide

theorem hexNumber?_codeDigits {code : Nat} (h : code < 0x100000000) :
    hexNumber? (codeDigits code) = some code := by
  have hdigit (n : Nat) : hexValue? (Nat.digitChar (n % 16)) = some (n % 16) :=
    hexValue?_digitChar _ (Nat.mod_lt n (by decide))
  simp only [hexNumber?, codeDigits, List.map_cons, List.map_nil, List.foldlM_cons, List.foldlM_nil,
    hdigit, Option.map_some, Option.bind_eq_bind, Option.bind_some, Option.pure_def,
    Option.some.injEq]
  omega

theorem scalar?_toNat (c : Char) : scalar? c.toNat = some c := by
  have hvalid : c.toNat < 0xD800 ∨ (0xDFFF < c.toNat ∧ c.toNat < 0x110000) := c.valid
  rw [scalar?, if_pos (by omega), Char.ofNat_toNat]

theorem readBasic_code (c : Char) (cs : List Char) :
    readBasic ('\\' :: 'U' :: codeDigits c.toNat ++ cs) =
      (readBasic cs).map fun r => (c :: r.1, r.2) := by
  have hvalid : c.toNat < 0xD800 ∨ (0xDFFF < c.toNat ∧ c.toNat < 0x110000) := c.valid
  have hcode : hexNumber? (codeDigits c.toNat) = some c.toNat := hexNumber?_codeDigits (by omega)
  simp only [codeDigits, List.map_cons, List.map_nil] at hcode
  simp only [codeDigits, List.map_cons, List.map_nil, List.cons_append, List.nil_append]
  rw [readBasic, hcode, Option.bind_some, scalar?_toNat]
  cases readBasic cs <;> rfl

theorem readBasic_plain {c : Char} (hquote : c ≠ '"') (hback : c ≠ '\\') (hc : isPrintable c)
    (cs : List Char) : readBasic (c :: cs) = (readBasic cs).map fun r => (c :: r.1, r.2) := by
  have hallowed : ¬(c = '\\' ∨ !isPrintable c) := by simp [hc, hback]
  rw [readBasic]
  · rw [if_neg hallowed]
    cases readBasic cs <;> rfl
  · exact hquote
  · exact fun _ _ _ _ _ hb => absurd hb hback
  · exact fun _ _ _ _ _ _ _ _ _ hb => absurd hb hback
  · exact fun _ _ hb => absurd hb hback

theorem readBasic_quoteChar (c : Char) (cs : List Char) :
    readBasic (quoteChar c ++ cs) = (readBasic cs).map fun r => (c :: r.1, r.2) := by
  unfold quoteChar
  split
  next => exact readBasic_code c cs
  next h =>
    simp only [not_or, Bool.not_eq_true', Bool.not_eq_false] at h
    exact readBasic_plain h.1 h.2.1 h.2.2 cs

theorem readBasic_quoted (cs rest : List Char) :
    readBasic (cs.flatMap quoteChar ++ '"' :: rest) = some (cs, rest) := by
  induction cs with
  | nil => rfl
  | cons c cs ih =>
    rw [List.flatMap_cons, List.append_assoc, readBasic_quoteChar, ih]
    rfl

theorem head?_quoteChar (c : Char) (cs : List Char) : (quoteChar c ++ cs).head? ≠ some '"' := by
  unfold quoteChar
  split
  next => simp
  next h =>
    have hquote : c ≠ '"' := fun he => h (.inl he)
    simpa using hquote

theorem readText_basic {cs : List Char} (h : ∀ cs', cs ≠ '"' :: '"' :: cs') :
    readText ('"' :: cs) = readBasic cs := by
  rw [readText]
  exact h

/-- Two quotes with no third one behind them are an empty string, not the start of a longer one. -/
theorem readText_quoted (cs : List Char) {rest : List Char} (h : rest.head? ≠ some '"') :
    readText ('"' :: (cs.flatMap quoteChar ++ '"' :: rest)) = some (cs, rest) := by
  rw [← readBasic_quoted cs rest]
  refine readText_basic fun cs' he => ?_
  cases cs with
  | nil =>
    refine h ?_
    rw [(List.cons.inj he).2]
    rfl
  | cons c cs =>
    rw [List.flatMap_cons, List.append_assoc] at he
    refine head?_quoteChar c (cs.flatMap quoteChar ++ '"' :: rest) ?_
    rw [he]
    rfl

end Texts

section Scalars

theorem digitGroups?_digits {ds : List Char} (hne : ds ≠ []) (hd : ∀ c ∈ ds, isDigit c) :
    digitGroups? isDigit ds = some ds := by
  induction ds with
  | nil => exact absurd rfl hne
  | cons c cs ih =>
    have hc : isDigit c := hd c List.mem_cons_self
    cases cs with
    | nil => exact if_pos hc
    | cons d ds =>
      have hrest := ih (List.cons_ne_nil d ds) fun e he => hd e (List.mem_cons_of_mem c he)
      have hseparator : d ≠ '_' := by
        rintro rfl
        exact absurd (hd '_' (List.mem_cons_of_mem c List.mem_cons_self)) (by decide)
      rw [digitGroups?]
      · rw [if_pos hc, hrest]
        rfl
      · exact fun h => nomatch h
      · exact fun _ h => hseparator (List.cons.inj h).1

theorem wholeDigits?_toDigits (n : Nat) :
    wholeDigits? (Nat.toDigits 10 n) = some (Nat.toDigits 10 n) := by
  have hdigits := digitGroups?_digits (Nat.toDigits_ne_nil (n := n) (b := 10)) fun c hc =>
    isDigit_of_mem_toDigits hc
  have hzero : ¬((Nat.toDigits 10 n).head? = some '0' ∧ Nat.toDigits 10 n ≠ ['0']) := by
    rintro ⟨hhead, hlong⟩
    by_cases hn : n = 0
    · subst hn
      exact hlong rfl
    · exact head?_toDigits hn hhead
  rw [wholeDigits?, hdigits, Option.bind_eq_bind, Option.bind_some, if_neg hzero]
  rfl

theorem splitSign_unsigned {cs : List Char} (h : ∀ c, cs.head? = some c → isDigit c) :
    splitSign cs = (false, cs) := by
  unfold splitSign
  split
  next => exact absurd (h '-' rfl) (by decide)
  next => exact absurd (h '+' rfl) (by decide)
  next => rfl

/-- A number without a letter in second place is written in base ten. -/
theorem isInteger_decimal {cs : List Char} (h : ∀ c ∈ cs.tail, isDigit c) : isInteger cs =
    (wholeDigits? (splitSign cs).2).any fun digits =>
      decimal digits ≤ if (splitSign cs).1 then largestInteger + 1 else largestInteger := by
  unfold isInteger
  split
  next => exact absurd (h 'x' List.mem_cons_self) (by decide)
  next => exact absurd (h 'o' List.mem_cons_self) (by decide)
  next => exact absurd (h 'b' List.mem_cons_self) (by decide)
  next => rfl

theorem isInteger_printInt (n : Int) :
    isInteger (printInt n) ↔ -(largestInteger + 1 : Int) ≤ n ∧ n ≤ largestInteger := by
  have hd : ∀ c ∈ Nat.toDigits 10 n.natAbs, isDigit c := fun c hc => isDigit_of_mem_toDigits hc
  unfold printInt
  split
  next hn =>
    have hsplit : splitSign ('-' :: Nat.toDigits 10 n.natAbs) = (true, Nat.toDigits 10 n.natAbs) :=
      rfl
    have htail : ∀ c ∈ ('-' :: Nat.toDigits 10 n.natAbs).tail, isDigit c := hd
    rw [isInteger_decimal htail, hsplit, wholeDigits?_toDigits]
    simp only [Option.any_some, decimal_toDigits, if_true, decide_eq_true_eq]
    omega
  next hn =>
    have htail : ∀ c ∈ (Nat.toDigits 10 n.natAbs).tail, isDigit c := fun c hc =>
      hd c (List.mem_of_mem_tail hc)
    have hsplit := splitSign_unsigned fun c hc => hd c (List.mem_of_head? hc)
    rw [isInteger_decimal htail, hsplit, wholeDigits?_toDigits]
    simp only [Option.any_some, decimal_toDigits, Bool.false_eq_true, if_false, decide_eq_true_eq]
    omega

/-- The line, and with it the value, ends here. -/
def Ends (rest : List Char) : Prop := ∀ c, rest.head? = some c → c = '\n'

theorem readScalar_word {word rest : List Char} (hw : ∀ c ∈ word, isScalarChar c) (hr : Ends rest) :
    (word ++ rest).takeWhile isScalarChar = word ∧
      (word ++ rest).dropWhile isScalarChar = rest := by
  refine Json.takeWhile_word hw fun c hc => ?_
  rw [hr c hc]
  decide

theorem isScalarChar_of_mem_printInt {n : Int} {c : Char} (h : c ∈ printInt n) :
    isScalarChar c := by
  unfold printInt at h
  split at h
  next =>
    rcases List.mem_cons.mp h with rfl | h
    · decide
    · simp [isScalarChar, isDigit_of_mem_toDigits h]
  next => simp [isScalarChar, isDigit_of_mem_toDigits h]

theorem toList_true : "true".toList = ['t', 'r', 'u', 'e'] := String.toList_ofList

theorem toList_false : "false".toList = ['f', 'a', 'l', 's', 'e'] := String.toList_ofList

theorem readScalar_flag (b : Bool) {rest : List Char} (hr : Ends rest) :
    readScalar ((Literal.flag b).print ++ rest) = some (.flag b, rest) := by
  cases b with
  | true =>
    have hword : ∀ c ∈ ['t', 'r', 'u', 'e'], isScalarChar c := by simp [isScalarChar]
    obtain ⟨htake, hdrop⟩ := readScalar_word hword hr
    rw [Literal.print, readScalar, toList_true, htake, hdrop, if_pos rfl]
  | false =>
    have hword : ∀ c ∈ ['f', 'a', 'l', 's', 'e'], isScalarChar c := by simp [isScalarChar]
    obtain ⟨htake, hdrop⟩ := readScalar_word hword hr
    rw [Literal.print, readScalar, toList_true, toList_false, htake, hdrop, if_neg (by decide),
      if_pos rfl]

theorem readScalar_number {n : Int} (h : isInteger (printInt n)) {rest : List Char}
    (hr : Ends rest) : readScalar (printInt n ++ rest) = some (.number, rest) := by
  have hword : ∀ c ∈ printInt n, isScalarChar c := fun c hc => isScalarChar_of_mem_printInt hc
  obtain ⟨htake, hdrop⟩ := readScalar_word hword hr
  obtain ⟨c, cs, hc, hnumber⟩ := printInt_cons n
  have hne {d : Char} {ds : List Char} (hd : ¬(d = '-' ∨ isDigit d)) : printInt n ≠ d :: ds := by
    rw [hc]
    intro he
    exact hd ((List.cons.inj he).1 ▸ hnumber)
  rw [readScalar, toList_true, toList_false, htake, hdrop, if_neg (hne (by decide)),
    if_neg (hne (by decide)), if_pos (by simp [h])]

end Scalars

section Values

theorem print_flag_cons (b : Bool) :
    ∃ c cs, (Literal.flag b).print = c :: cs ∧ isScalarChar c := by
  cases b with
  | true => exact ⟨_, _, toList_true, by decide⟩
  | false => exact ⟨_, _, toList_false, by decide⟩

theorem print_number_cons (n : Int) :
    ∃ c cs, (Literal.number n).print = c :: cs ∧ isScalarChar c := by
  obtain ⟨c, cs, hc, _⟩ := printInt_cons n
  exact ⟨c, cs, hc, isScalarChar_of_mem_printInt (n := n) (hc ▸ List.mem_cons_self)⟩

/-- A character with which neither a string nor an array nor an inline table begins. -/
theorem readValue_scalar {c : Char} (h : isScalarChar c) (fuel depth : Nat) (cs : List Char) :
    readValue (fuel + 1) depth (c :: cs) = readScalar (c :: cs) := by
  have hne {d : Char} (hd : ¬isScalarChar d) : c ≠ d := by
    rintro rfl
    exact hd h
  rw [readValue]
  · exact fun _ he => hne (by decide) (List.cons.inj he).1
  · exact fun _ he => hne (by decide) (List.cons.inj he).1
  · exact fun _ he => hne (by decide) (List.cons.inj he).1
  · exact fun _ he => hne (by decide) (List.cons.inj he).1

/-- A value that was written at the end of a line is read back. -/
theorem readValue_print {l : Literal} (h : l.Fits) (fuel depth : Nat) {rest : List Char}
    (hr : Ends rest) : readValue (fuel + 1) depth (l.print ++ rest) = some (l.value, rest) := by
  cases l with
  | text s =>
    have hquote : rest.head? ≠ some '"' := fun he => absurd (hr '"' he) (by decide)
    have hread := readText_quoted s.toList hquote
    have hprint : (Literal.text s).print ++ rest =
        '"' :: (s.toList.flatMap quoteChar ++ '"' :: rest) := by
      simp [Literal.print]
    rw [hprint, readValue, hread]
    simp [Literal.value]
  | flag b =>
    have hread := readScalar_flag b hr
    obtain ⟨c, cs, hc, hscalar⟩ := print_flag_cons b
    rw [hc, List.cons_append] at hread ⊢
    rw [readValue_scalar hscalar, hread]
    rfl
  | number n =>
    have hread := readScalar_number (isInteger_printInt n |>.mpr h) hr
    obtain ⟨c, cs, hc, hscalar⟩ := print_number_cons n
    rw [Literal.print] at hc ⊢
    rw [hc, List.cons_append] at hread ⊢
    rw [readValue_scalar hscalar, hread]
    rfl

theorem isBlank_of_word {p : Char → Bool} {c : Char} (hspace : ¬p ' ') (htab : ¬p '\t') (h : p c) :
    isBlank c = false := by
  refine Bool.eq_false_iff.mpr fun hblank => ?_
  simp only [isBlank, Bool.or_eq_true, decide_eq_true_eq] at hblank
  rcases hblank with rfl | rfl
  · exact hspace h
  · exact htab h

/-- A written value does not begin with a blank. -/
theorem print_cons (l : Literal) : ∃ c cs, l.print = c :: cs ∧ isBlank c = false := by
  have hscalar {c : Char} (h : isScalarChar c) : isBlank c = false :=
    isBlank_of_word (by decide) (by decide) h
  cases l with
  | text s => exact ⟨'"', s.toList.flatMap quoteChar ++ ['"'], rfl, rfl⟩
  | flag b =>
    obtain ⟨c, cs, hc, h⟩ := print_flag_cons b
    exact ⟨c, cs, hc, hscalar h⟩
  | number n =>
    obtain ⟨c, cs, hc, h⟩ := print_number_cons n
    exact ⟨c, cs, hc, hscalar h⟩

end Values

end ColumnAtlas.Toml
