import ColumnAtlas.Proofs.TomlLiterals
import ColumnAtlas.Proofs.TomlTables
import ColumnAtlas.Proofs.UsableSettings

namespace ColumnAtlas

namespace Toml

/-- An assignment that can be written without quotes around its key. -/
structure Writable (e : String × Literal) : Prop where
  filled : e.1.toList ≠ []
  bare : ∀ c ∈ e.1.toList, isBareKeyChar c
  fits : e.2.Fits

/-- An assignment on a line of its own. -/
def line (e : String × Literal) : List Char :=
  e.1.toList ++ ' ' :: '=' :: ' ' :: (e.2.print ++ ['\n'])

/-- A document of assignments, without tables. -/
def document (es : List (String × Literal)) : String := String.ofList (es.flatMap line)

def entry (e : String × Literal) : String × Node := (e.1, .value e.2.value)

section Keys

theorem skipBlanks_of_bare {c : Char} (h : isBareKeyChar c) (cs : List Char) :
    skipBlanks (c :: cs) = c :: cs := by
  have hblank : isBlank c = false := isBlank_of_word (by decide) (by decide) h
  rw [skipBlanks, List.dropWhile_cons, hblank]
  rfl

variable {e : String × Literal}

theorem Writable.key_cons (h : Writable e) :
    ∃ c cs, e.1.toList = c :: cs ∧ isBareKeyChar c := by
  obtain ⟨c, cs, hc⟩ := List.exists_cons_of_ne_nil h.filled
  exact ⟨c, cs, hc, h.bare c (hc ▸ List.mem_cons_self)⟩

theorem readKeyPart_bare (h : Writable e) (rest : List Char) :
    readKeyPart (e.1.toList ++ ' ' :: rest) = some (e.1, ' ' :: rest) := by
  have hstop : ∀ c, (' ' :: rest).head? = some c → isBareKeyChar c = false := by
    rintro c hc
    obtain rfl := Option.some.inj hc
    decide
  obtain ⟨htake, hdrop⟩ := Json.takeWhile_word h.bare hstop
  obtain ⟨c, cs, hc, hbare⟩ := h.key_cons
  have hne {d : Char} (hd : ¬isBareKeyChar d) : c ≠ d := by
    rintro rfl
    exact hd hbare
  rw [readKeyPart]
  · rw [htake, hdrop, if_neg (by simp [h.filled]), String.ofList_toList]
  · rw [hc]
    exact fun _ he => hne (by decide) (List.cons.inj he).1
  · rw [hc]
    exact fun _ he => hne (by decide) (List.cons.inj he).1

theorem readKey_bare (h : Writable e) (rest : List Char) :
    readKey (e.1.toList ++ ' ' :: '=' :: rest) = some (([], e.1), '=' :: rest) := by
  have hpart := readKeyPart_bare h ('=' :: rest)
  obtain ⟨c, cs, hc, hbare⟩ := h.key_cons
  rw [hc, List.cons_append] at hpart ⊢
  have hparts : readKeyParts ((c :: (cs ++ ' ' :: '=' :: rest)).length)
      (c :: (cs ++ ' ' :: '=' :: rest)) = some ([e.1], '=' :: rest) := by
    rw [List.length_cons, readKeyParts, skipBlanks_of_bare hbare, hpart]
    rfl
  rw [readKey, hparts]
  rfl

end Keys

section Lines

variable {e : String × Literal} {es : List (String × Literal)} {root : Entries}

theorem readAssignment_line (h : Writable e) (p : Progress) (cs : List Char) :
    readAssignment p (line e ++ cs) =
      (p.root.within (fun es => es.addValue e.2.value e.1 []) p.path).map fun root =>
        (⟨root, p.path⟩, cs) := by
  have hline : line e ++ cs = e.1.toList ++ ' ' :: '=' :: ' ' :: (e.2.print ++ '\n' :: cs) := by
    simp [line]
  have hends : Ends ('\n' :: cs) := fun c hc => (Option.some.inj hc).symm
  have hvalue (fuel : Nat) := readValue_print h.fits fuel 0 hends
  have hblanks : skipBlanks (' ' :: (e.2.print ++ '\n' :: cs)) = e.2.print ++ '\n' :: cs := by
    obtain ⟨c, ds, hc, hblank⟩ := print_cons e.2
    rw [hc, List.cons_append, skipBlanks, List.dropWhile_cons, List.dropWhile_cons, hblank]
    rfl
  have hend : endLine ('\n' :: cs) = some cs := rfl
  rw [hline, readAssignment, readKey_bare h]
  simp only [Option.bind_eq_bind, Option.bind_some, hblanks, hvalue, hend]
  cases p.root.within (fun es => es.addValue e.2.value e.1 []) p.path <;> rfl

/-- A line that begins with a character of a bare key is an assignment. -/
theorem readLines_bare {c : Char} (h : isBareKeyChar c) (fuel : Nat) (p : Progress)
    (cs : List Char) : readLines (fuel + 1) p (c :: cs) =
      (readAssignment p (c :: cs)).bind fun r => readLines fuel r.1 r.2 := by
  have hne {d : Char} (hd : ¬isBareKeyChar d) : c ≠ d := by
    rintro rfl
    exact hd h
  have hplain : ¬['#', '\n', '\r'].contains c := by
    simp [hne (d := '#') (by decide), hne (d := '\n') (by decide), hne (d := '\r') (by decide)]
  rw [readLines, skipBlanks_of_bare h]
  split
  next he => cases he
  next he => exact absurd (List.cons.inj he).1 (hne (by decide))
  next he => exact absurd (List.cons.inj he).1 (hne (by decide))
  next he =>
    obtain ⟨rfl, rfl⟩ := List.cons.inj he
    rw [if_neg hplain]
    rfl

theorem readLines_line (h : Writable e) (fuel : Nat) (cs : List Char) :
    readLines (fuel + 1) ⟨root, []⟩ (line e ++ cs) =
      (root.addValue e.2.value e.1 []).bind fun root => readLines fuel ⟨root, []⟩ cs := by
  have hread := readAssignment_line h ⟨root, []⟩ cs
  obtain ⟨c, ds, hc, hbare⟩ := h.key_cons
  rw [line, hc, List.cons_append, List.cons_append] at hread ⊢
  rw [readLines_bare hbare, hread, Option.bind_map]
  rfl

theorem put_new {k : String} (h : k ∉ root.map Prod.fst) (n : Node) :
    root.put k n = root ++ [(k, n)] :=
  if_neg (mt Entries.get?_isSome_iff.mp h)

theorem addValue_new {k : String} (h : k ∉ root.map Prod.fst) (v : Value) :
    root.addValue v k [] = some (root.put k (.value v)) :=
  if_neg (mt Entries.get?_isSome_iff.mp h)

theorem addValue_present {k : String} (h : k ∈ root.map Prod.fst) (v : Value) :
    root.addValue v k [] = none :=
  if_pos (Entries.get?_isSome_iff.mpr h)

/-- Assignments to new keys are added to the table in their order. -/
theorem readLines_distinct (h : ∀ e ∈ es, Writable e)
    (hn : (root.map Prod.fst ++ es.map Prod.fst).Nodup) {fuel : Nat} (hfuel : es.length < fuel) :
    readLines fuel ⟨root, []⟩ (es.flatMap line) = some (root ++ es.map entry) := by
  induction es generalizing root fuel with
  | nil =>
    obtain ⟨fuel, rfl⟩ := Nat.exists_eq_succ_of_ne_zero (Nat.ne_zero_of_lt hfuel)
    rw [List.map_nil, List.append_nil]
    rfl
  | cons e es ih =>
    obtain ⟨fuel, rfl⟩ := Nat.exists_eq_succ_of_ne_zero (Nat.ne_zero_of_lt hfuel)
    have hnew : e.1 ∉ root.map Prod.fst := fun hmem =>
      (List.nodup_append.mp hn).2.2 e.1 hmem e.1 List.mem_cons_self rfl
    have hput := put_new hnew (.value e.2.value)
    have hn' : ((root.put e.1 (.value e.2.value)).map Prod.fst ++ es.map Prod.fst).Nodup := by
      rw [hput]
      simpa using hn
    have hrest := ih (fun e' he' => h e' (List.mem_cons_of_mem e he')) hn'
      (Nat.lt_of_succ_lt_succ hfuel)
    rw [List.flatMap_cons, readLines_line (h e List.mem_cons_self), addValue_new hnew,
      Option.bind_some, hrest, hput, List.append_assoc]
    rfl

/-- A second assignment to a key is refused. -/
theorem readLines_repeated (h : ∀ e ∈ es, Writable e) (hroot : (root.map Prod.fst).Nodup)
    (hn : ¬(root.map Prod.fst ++ es.map Prod.fst).Nodup) (fuel : Nat) :
    readLines fuel ⟨root, []⟩ (es.flatMap line) = none := by
  induction es generalizing root fuel with
  | nil => exact absurd (by simpa using hroot) hn
  | cons e es ih =>
    cases fuel with
    | zero => rfl
    | succ fuel =>
      rw [List.flatMap_cons, readLines_line (h e List.mem_cons_self)]
      by_cases hmem : e.1 ∈ root.map Prod.fst
      · rw [addValue_present hmem]
        rfl
      · have hput := put_new hmem (.value e.2.value)
        have hn' : ¬((root.put e.1 (.value e.2.value)).map Prod.fst ++ es.map Prod.fst).Nodup := by
          rw [hput]
          simpa using hn
        rw [addValue_new hmem, Option.bind_some]
        exact ih (fun e' he' => h e' (List.mem_cons_of_mem e he'))
          (Entries.nodup_keys_put hroot e.1 _) hn' fuel

theorem length_le_lines (es : List (String × Literal)) : es.length ≤ (es.flatMap line).length := by
  induction es with
  | nil => exact Nat.le_refl 0
  | cons e es ih =>
    have hline : 0 < (line e).length := by
      rw [line, List.length_append, List.length_cons]
      omega
    rw [List.flatMap_cons, List.length_append, List.length_cons]
    omega

theorem head?_lines (h : ∀ e ∈ es, Writable e) : (es.flatMap line).head? ≠ some '\uFEFF' := by
  cases es with
  | nil => exact fun hmark => nomatch hmark
  | cons e es =>
    obtain ⟨c, cs, hc, hbare⟩ := (h e List.mem_cons_self).key_cons
    rw [List.flatMap_cons, line, hc]
    intro hmark
    obtain rfl := Option.some.inj hmark
    exact absurd hbare (by decide)

/-- A document of assignments is read if no key occurs twice in it. -/
theorem read?_document (h : ∀ e ∈ es, Writable e) : read? (document es) =
    if (es.map Prod.fst).Nodup then some (es.map entry) else none := by
  have htext : (document es).toList = es.flatMap line := String.toList_ofList
  have hfuel : es.length < (es.flatMap line).length + 1 := Nat.lt_succ_of_le (length_le_lines es)
  rw [read?, htext, if_neg (head?_lines h)]
  split
  next hn => exact @readLines_distinct es [] h hn _ hfuel
  next hn => exact @readLines_repeated es [] h List.nodup_nil hn _

end Lines

section Values

variable {es : List (String × Literal)}

def Literal.text? : Literal → Option String
  | text s => some s
  | flag _ => none
  | number _ => none

def Literal.flag? : Literal → Option Bool
  | text _ => none
  | flag b => some b
  | number _ => none

theorem get?_entries (es : List (String × Literal)) (k : String) :
    Entries.get? (es.map entry) k = (es.lookup k).map fun l => .value l.value := by
  induction es with
  | nil => rfl
  | cons e es ih =>
    rw [List.map_cons, Entries.get?, List.find?_cons, List.lookup_cons]
    by_cases hk : e.1 = k
    · obtain rfl := hk
      simp [entry]
    · have hfound : decide ((entry e).1 = k) = false := decide_eq_false hk
      have hlooked : (k == e.1) = false := beq_eq_false_iff_ne.mpr (Ne.symm hk)
      simp only [hfound, hlooked]
      exact ih

theorem textAt?_entries (es : List (String × Literal)) (k other : String) :
    Entries.textAt? (es.map entry) k other = (es.lookup k).elim (some other) Literal.text? := by
  rw [Entries.textAt?, get?_entries]
  cases es.lookup k with
  | none => rfl
  | some l => cases l <;> rfl

theorem flagAt?_entries (es : List (String × Literal)) (k : String) (other : Bool) :
    Entries.flagAt? (es.map entry) k other = (es.lookup k).elim (some other) Literal.flag? := by
  rw [Entries.flagAt?, get?_entries]
  cases es.lookup k with
  | none => rfl
  | some l => cases l <;> rfl

end Values

end Toml

namespace Settings

open Toml (Literal Writable document entry)

variable {es : List (String × Literal)} {s : Settings}

/-- Settings are taken from the two keys of a document, wherever they stand among others. A key that
is not there leaves the default. -/
theorem documented_document (h : ∀ e ∈ es, Writable e) (hn : (es.map Prod.fst).Nodup)
    (hp : (es.lookup "table_prefix").elim (some default.tablePrefix) Literal.text? =
      some s.tablePrefix)
    (hv : (es.lookup "verify_column_types").elim (some default.verifyColumnTypes)
      Literal.flag? = some s.verifyColumnTypes) : Documented (document es) s (es.map entry) where
  read := by rw [Toml.read?_document h, if_pos hn]
  tablePrefix := by rw [Toml.textAt?_entries, hp]
  verifyColumnTypes := by rw [Toml.flagAt?_entries, hv]

/-- No settings are taken from a document in which one of the two keys has a value of another
type. -/
theorem ofToml_mistyped (h : ∀ e ∈ es, Writable e) (hn : (es.map Prod.fst).Nodup)
    (hvalue : (es.lookup "table_prefix").elim (some default.tablePrefix) Literal.text? = none ∨
      (es.lookup "verify_column_types").elim (some default.verifyColumnTypes) Literal.flag? =
        none) :
    ofToml (document es) =
      .error (.settings (.malformed "a setting has a value of another type")) := by
  have hmistyped : Mistyped (document es) (es.map entry) :=
    ⟨by rw [Toml.read?_document h, if_pos hn], by rwa [Toml.textAt?_entries, Toml.flagAt?_entries]⟩
  exact hmistyped.ofToml

/-- The document that sets every field. -/
def toToml (s : Settings) : String :=
  document
    [("table_prefix", .text s.tablePrefix), ("verify_column_types", .flag s.verifyColumnTypes)]

/-- Written settings are read back if they pass the check, whatever characters the prefix has, and
otherwise refused by it. -/
theorem ofToml_toToml (s : Settings) : ofToml s.toToml = s.validated := by
  have hp : Writable ("table_prefix", .text s.tablePrefix) :=
    ⟨by simp, by simp [Toml.isBareKeyChar], trivial⟩
  have hv : Writable ("verify_column_types", .flag s.verifyColumnTypes) :=
    ⟨by simp, by simp [Toml.isBareKeyChar], trivial⟩
  have hkeys : ∀ e ∈ [("table_prefix", .text s.tablePrefix),
      ("verify_column_types", .flag s.verifyColumnTypes)], Writable e := by
    simp [hp, hv]
  have hdistinct : ["table_prefix", "verify_column_types"].Nodup := by simp
  refine Documented.ofToml (documented_document hkeys hdistinct ?_ ?_)
  · rfl
  · rfl

/-- A key that is set twice makes a document unreadable, whichever key it is. -/
theorem ofToml_repeated (h : ∀ e ∈ es, Writable e) (hn : ¬(es.map Prod.fst).Nodup) :
    ofToml (document es) = .error (.settings (.malformed "not a TOML document")) := by
  have hread : Toml.read? (document es) = none := by rw [Toml.read?_document h, if_neg hn]
  exact (outcomes_ofToml _).error _ (.unreadable hread)

end Settings

end ColumnAtlas
