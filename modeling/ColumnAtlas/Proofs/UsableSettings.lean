import ColumnAtlas.SettingsDocument
import ColumnAtlas.Proofs.Outcome
import Mathlib.Data.List.TakeWhile

namespace ColumnAtlas

/-- The field that an error of the settings names. Only an unreadable document has none. -/
def SettingsError.field? : SettingsError → Option String
  | missingRequired field => some field
  | invalidValue field _ _ => some field
  | malformed _ => none

section Blanks

theorem isBlank_eq_false {c : Char} (hlow : 0x20 < c.toNat) (hhigh : c.toNat < 0x85) :
    isBlank c = false := by
  simp [isBlank, blankRanges]
  omega

theorem isBlank_toLower (c : Char) : isBlank c.toLower = isBlank c := by
  by_cases h : c.val ≥ 'A'.val ∧ c.val ≤ 'Z'.val
  · have hcode : 0x41 ≤ c.toNat ∧ c.toNat ≤ 0x5A := h
    have hlower : c.toLower.toNat = c.toNat + 32 := by
      have hsum : c.toLower.toNat = (c.toNat + 32) % 2 ^ 32 := congrArg Char.toNat (dif_pos h)
      omega
    rw [isBlank_eq_false (by omega) (by omega), isBlank_eq_false (by omega) (by omega)]
  · exact congrArg isBlank (dif_neg h)

/-- More blanks at the ends make no difference. -/
theorem trimBlanks_append {before cs after : List Char} (hb : ∀ c ∈ before, isBlank c)
    (ha : ∀ c ∈ after, isBlank c) : trimBlanks (before ++ cs ++ after) = trimBlanks cs := by
  have ha' : ∀ c ∈ after.reverse, isBlank c := fun c hc => ha c (List.mem_reverse.mp hc)
  rw [trimBlanks, List.append_assoc, List.dropWhile_append_of_pos hb, List.dropWhile_append]
  split
  next hnil =>
    have hafter : after.dropWhile isBlank = [] := List.dropWhile_eq_nil_iff.mpr ha
    rw [hafter, trimBlanks, List.isEmpty_iff.mp hnil]
  next => rw [List.reverse_append, List.dropWhile_append_of_pos ha', trimBlanks]

theorem trimBlanks_toLower (cs : List Char) :
    trimBlanks (cs.map Char.toLower) = (trimBlanks cs).map Char.toLower := by
  have hlower : isBlank ∘ Char.toLower = isBlank := funext isBlank_toLower
  simp only [trimBlanks, List.dropWhile_map, hlower, ← List.map_reverse]

end Blanks

namespace Settings

/-- A way to settings succeeds under one condition and fails for the causes of one kind, and nothing
else happens. -/
structure Outcomes {α : Type} (x : Except Error α) (good : α → Prop) (bad : SettingsError → Prop) :
    Prop where
  ok : ∀ a, good a → x = .ok a
  error : ∀ cause, bad cause → x = .error (.settings cause)
  total : (∃ a, good a) ∨ ∃ cause, bad cause

/-- The prefix can be used to name tables. -/
structure Usable (s : Settings) : Prop where
  filled : s.tablePrefix ≠ ""
  unseparated : '.' ∉ s.tablePrefix.toList

inductive Unusable (s : Settings) : SettingsError → Prop
  | empty (h : s.tablePrefix = "") : Unusable s (.missingRequired "table_prefix")
  | separated (h : '.' ∈ s.tablePrefix.toList) :
      Unusable s (.invalidValue "table_prefix" s.tablePrefix "must not contain '.'")

/-- The word of a switch, without the blanks around it and in lower case. -/
def switchWord (raw : String) : String :=
  String.ofList ((trimBlanks raw.toList).map Char.toLower)

def switchWords : Bool → List String
  | true => ["1", "true", "yes", "on"]
  | false => ["0", "false", "no", "off"]

inductive Unswitched (field raw : String) : SettingsError → Prop
  | unknown (h : ∀ b, switchWord raw ∉ switchWords b) :
      Unswitched field raw (.invalidValue field raw "expected a boolean")

/-- The state of a switch that an environment variable gives; an unset one leaves the default. -/
def Switched (value : Option ByteArray) (b : Bool) : Prop :=
  match variableText value with
  | none => b = default.verifyColumnTypes
  | some raw => switchWord raw ∈ switchWords b

/-- The settings that environment variables give. -/
structure Surrounded (tablePrefix verifyColumnTypes : Option ByteArray) (s : Settings) : Prop where
  tablePrefix : s.tablePrefix = (variableText tablePrefix).getD default.tablePrefix
  verifyColumnTypes : Switched verifyColumnTypes s.verifyColumnTypes

/-- What is wrong with environment variables. The switch is looked at first. -/
inductive FaultyEnvironment (tablePrefix verifyColumnTypes : Option ByteArray) :
    SettingsError → Prop
  | switch {raw : String} {cause : SettingsError} (hraw : variableText verifyColumnTypes = some raw)
      (h : Unswitched "verify_column_types" raw cause) :
      FaultyEnvironment tablePrefix verifyColumnTypes cause
  | settings {s : Settings} {cause : SettingsError}
      (hs : Surrounded tablePrefix verifyColumnTypes s) (h : s.Unusable cause) :
      FaultyEnvironment tablePrefix verifyColumnTypes cause

/-- The settings that a document gives. A missing key stands for its default. -/
structure Documented (text : String) (s : Settings) (es : Toml.Entries) : Prop where
  read : Toml.read? text = some es
  tablePrefix : es.textAt? "table_prefix" default.tablePrefix = some s.tablePrefix
  verifyColumnTypes :
    es.flagAt? "verify_column_types" default.verifyColumnTypes = some s.verifyColumnTypes

/-- One of the settings has a value of another type in a document. -/
structure Mistyped (text : String) (es : Toml.Entries) : Prop where
  read : Toml.read? text = some es
  value : es.textAt? "table_prefix" default.tablePrefix = none ∨
    es.flagAt? "verify_column_types" default.verifyColumnTypes = none

/-- What is wrong with a document. -/
inductive FaultyDocument (text : String) : SettingsError → Prop
  | unreadable (h : Toml.read? text = none) :
      FaultyDocument text (.malformed "not a TOML document")
  | mistyped {es : Toml.Entries} (h : Mistyped text es) :
      FaultyDocument text (.malformed "a setting has a value of another type")
  | settings {s : Settings} {es : Toml.Entries} {cause : SettingsError} (hs : Documented text s es)
      (h : s.Unusable cause) : FaultyDocument text cause

namespace Outcomes

variable {α : Type} {x : Except Error α} {good : α → Prop} {bad : SettingsError → Prop}

theorem eq_ok_iff (h : Outcomes x good bad) {a : α} : x = .ok a ↔ good a := by
  refine ⟨fun hx => ?_, h.ok a⟩
  rcases h.total with ⟨a', ha'⟩ | ⟨cause, hcause⟩
  · rw [h.ok a' ha'] at hx
    obtain rfl := Except.ok.inj hx
    exact ha'
  · rw [h.error cause hcause] at hx
    cases hx

theorem eq_error_iff (h : Outcomes x good bad) {e : Error} :
    x = .error e ↔ ∃ cause, bad cause ∧ e = .settings cause := by
  constructor
  · intro hx
    rcases h.total with ⟨a, ha⟩ | ⟨cause, hcause⟩
    · rw [h.ok a ha] at hx
      cases hx
    · exact ⟨cause, hcause, Except.error.inj (hx.symm.trans (h.error cause hcause))⟩
  · rintro ⟨cause, hcause, rfl⟩
    exact h.error cause hcause

end Outcomes

section Validation

variable {s : Settings} {cause : SettingsError}

theorem usable_default : default.Usable :=
  ⟨by decide, by decide⟩

theorem Usable.validate (h : s.Usable) : s.validate = .ok () := by
  have hfilled : ¬s.tablePrefix.isEmpty := by simpa using h.filled
  have hunseparated : ¬s.tablePrefix.toList.contains '.' := by simpa using h.unseparated
  rw [Settings.validate, if_neg hfilled, if_neg hunseparated]

theorem Unusable.validate (h : s.Unusable cause) : s.validate = .error (.settings cause) := by
  cases h with
  | empty h => rw [Settings.validate, if_pos (by simpa using h)]
  | separated h =>
    have hfilled : ¬s.tablePrefix.isEmpty := by
      intro hempty
      have hnil : s.tablePrefix = "" := by simpa using hempty
      rw [hnil] at h
      exact absurd h List.not_mem_nil
    rw [Settings.validate, if_neg hfilled, if_pos (by simpa using h)]

theorem usable_or_unusable (s : Settings) : s.Usable ∨ ∃ cause, s.Unusable cause := by
  by_cases hempty : s.tablePrefix = ""
  · exact .inr ⟨_, .empty hempty⟩
  · by_cases hdot : '.' ∈ s.tablePrefix.toList
    · exact .inr ⟨_, .separated hdot⟩
    · exact .inl ⟨hempty, hdot⟩

theorem outcomes_validate (s : Settings) : Outcomes s.validate (fun _ => s.Usable) s.Unusable where
  ok _ h := h.validate
  error _ h := h.validate
  total := s.usable_or_unusable.imp_left fun h => ⟨(), h⟩

theorem outcomes_validated (s : Settings) :
    Outcomes s.validated (fun s' => s.Usable ∧ s' = s) s.Unusable where
  ok := by
    rintro _ ⟨h, rfl⟩
    rw [validated, h.validate]
    rfl
  error cause h := by
    rw [validated, h.validate]
    rfl
  total := s.usable_or_unusable.imp_left fun h => ⟨s, h, rfl⟩

end Validation

section Switch

variable {field raw raw' : String} {b : Bool}

theorem not_mem_switchWords {word : String} (h : word ∈ switchWords b) : word ∉ switchWords !b := by
  cases b <;> simp only [switchWords, List.mem_cons, List.not_mem_nil, or_false] at h <;>
    rcases h with rfl | rfl | rfl | rfl <;> decide

theorem switched_or_unswitched (field raw : String) :
    (∃ b, switchWord raw ∈ switchWords b) ∨ ∃ cause, Unswitched field raw cause := by
  by_cases h : ∃ b, switchWord raw ∈ switchWords b
  · exact .inl h
  · exact .inr ⟨_, .unknown fun b hb => h ⟨b, hb⟩⟩

theorem outcomes_readSwitch (field raw : String) : Outcomes (readSwitch field raw)
    (fun b => switchWord raw ∈ switchWords b) (Unswitched field raw) where
  ok b h := by
    cases b with
    | true => exact if_pos (List.contains_iff_mem.mpr h)
    | false =>
      have htrue : ¬(switchWords true).contains (switchWord raw) :=
        mt List.contains_iff_mem.mp (not_mem_switchWords h)
      exact (if_neg htrue).trans (if_pos (List.contains_iff_mem.mpr h))
  error := by
    rintro _ ⟨h⟩
    have htrue : ¬(switchWords true).contains (switchWord raw) :=
      mt List.contains_iff_mem.mp (h true)
    have hfalse : ¬(switchWords false).contains (switchWord raw) :=
      mt List.contains_iff_mem.mp (h false)
    exact (if_neg htrue).trans (if_neg hfalse)
  total := switched_or_unswitched field raw

/-- Blanks around the word of a switch make no difference. -/
theorem readSwitch_padded {before after : String} (hb : ∀ c ∈ before.toList, isBlank c)
    (ha : ∀ c ∈ after.toList, isBlank c) :
    readSwitch field (before ++ raw ++ after) = .ok b ↔ readSwitch field raw = .ok b := by
  have hword : switchWord (before ++ raw ++ after) = switchWord raw := by
    rw [switchWord, switchWord, String.toList_append, String.toList_append, trimBlanks_append hb ha]
  rw [(outcomes_readSwitch _ _).eq_ok_iff, (outcomes_readSwitch _ _).eq_ok_iff, hword]

/-- The case of ASCII letters in the word of a switch makes no difference. -/
theorem readSwitch_recased (h : raw.toList.map Char.toLower = raw'.toList.map Char.toLower) :
    readSwitch field raw = .ok b ↔ readSwitch field raw' = .ok b := by
  have hword : switchWord raw = switchWord raw' := by
    rw [switchWord, switchWord, ← trimBlanks_toLower, ← trimBlanks_toLower, h]
  rw [(outcomes_readSwitch _ _).eq_ok_iff, (outcomes_readSwitch _ _).eq_ok_iff, hword]

end Switch

section Environment

variable {tablePrefix verifyColumnTypes : Option ByteArray} {s : Settings} {cause : SettingsError}

theorem Surrounded.ofEnvironment (h : Surrounded tablePrefix verifyColumnTypes s) :
    ofEnvironment tablePrefix verifyColumnTypes = s.validated := by
  have hswitched := h.verifyColumnTypes
  unfold Switched at hswitched
  unfold Settings.ofEnvironment
  rw [← h.tablePrefix]
  cases hv : variableText verifyColumnTypes with
  | none =>
    rw [hv] at hswitched
    rw [← hswitched]
    rfl
  | some raw =>
    rw [hv] at hswitched
    simp only [(outcomes_readSwitch "verify_column_types" raw).ok _ hswitched]
    rfl

theorem ofEnvironment_unswitched {raw : String} (hraw : variableText verifyColumnTypes = some raw)
    (h : Unswitched "verify_column_types" raw cause) :
    ofEnvironment tablePrefix verifyColumnTypes = .error (.settings cause) := by
  unfold ofEnvironment
  rw [hraw]
  simp only [(outcomes_readSwitch "verify_column_types" raw).error cause h]
  rfl

theorem surrounded_or_unswitched (tablePrefix verifyColumnTypes : Option ByteArray) :
    (∃ s, Surrounded tablePrefix verifyColumnTypes s) ∨
      ∃ raw cause, variableText verifyColumnTypes = some raw ∧
        Unswitched "verify_column_types" raw cause := by
  have hsurrounded {b : Bool} (hb : Switched verifyColumnTypes b) :
      ∃ s, Surrounded tablePrefix verifyColumnTypes s :=
    ⟨⟨(variableText tablePrefix).getD default.tablePrefix, b⟩, rfl, hb⟩
  unfold Switched at hsurrounded
  cases hv : variableText verifyColumnTypes with
  | none =>
    rw [hv] at hsurrounded
    exact .inl (hsurrounded rfl)
  | some raw =>
    rw [hv] at hsurrounded
    rcases switched_or_unswitched "verify_column_types" raw with ⟨b, hb⟩ | ⟨cause, hcause⟩
    · exact .inl (hsurrounded hb)
    · exact .inr ⟨raw, cause, rfl, hcause⟩

theorem outcomes_ofEnvironment (tablePrefix verifyColumnTypes : Option ByteArray) :
    Outcomes (ofEnvironment tablePrefix verifyColumnTypes)
      (fun s => s.Usable ∧ Surrounded tablePrefix verifyColumnTypes s)
      (FaultyEnvironment tablePrefix verifyColumnTypes) where
  ok s := by
    rintro ⟨husable, hs⟩
    rw [hs.ofEnvironment]
    exact s.outcomes_validated.ok s ⟨husable, rfl⟩
  error cause h := by
    cases h with
    | switch hraw h => exact ofEnvironment_unswitched hraw h
    | @settings s _ hs h =>
      rw [hs.ofEnvironment]
      exact s.outcomes_validated.error cause h
  total := by
    rcases surrounded_or_unswitched tablePrefix verifyColumnTypes with
      ⟨s, hs⟩ | ⟨raw, cause, hraw, h⟩
    · rcases s.usable_or_unusable with husable | ⟨cause, h⟩
      · exact .inl ⟨s, husable, hs⟩
      · exact .inr ⟨cause, .settings hs h⟩
    · exact .inr ⟨cause, .switch hraw h⟩

/-- Without the variables the settings are the default ones. -/
theorem ofEnvironment_unset (hp : variableText tablePrefix = none)
    (hv : variableText verifyColumnTypes = none) :
    ofEnvironment tablePrefix verifyColumnTypes = .ok default := by
  refine (outcomes_ofEnvironment _ _).ok default ⟨usable_default, ?_, ?_⟩
  · rw [hp]
    rfl
  · rw [Switched, hv]

end Environment

section Documents

variable {text : String} {s : Settings} {es : Toml.Entries}

theorem Documented.ofToml (h : Documented text s es) : ofToml text = s.validated := by
  rw [Settings.ofToml, h.read]
  simp only [h.tablePrefix, h.verifyColumnTypes]

theorem Mistyped.ofToml (h : Mistyped text es) : ofToml text =
    .error (.settings (.malformed "a setting has a value of another type")) := by
  rw [Settings.ofToml, h.read]
  rcases h.value with hvalue | hvalue
  · simp only [hvalue]
  · simp only [hvalue]
    split
    next hverify => cases hverify
    next => rfl

theorem documented_or_mistyped (h : Toml.read? text = some es) :
    (∃ s, Documented text s es) ∨ Mistyped text es := by
  cases htext : es.textAt? "table_prefix" default.tablePrefix with
  | none => exact .inr ⟨h, .inl htext⟩
  | some tablePrefix =>
    cases hflag : es.flagAt? "verify_column_types" default.verifyColumnTypes with
    | none => exact .inr ⟨h, .inr hflag⟩
    | some verify => exact .inl ⟨⟨tablePrefix, verify⟩, h, htext, hflag⟩

theorem outcomes_ofToml (text : String) : Outcomes (ofToml text)
    (fun s => s.Usable ∧ ∃ es, Documented text s es) (FaultyDocument text) where
  ok s := by
    rintro ⟨husable, es, hs⟩
    rw [hs.ofToml]
    exact s.outcomes_validated.ok s ⟨husable, rfl⟩
  error cause h := by
    cases h with
    | unreadable hnone => rw [ofToml, hnone]
    | mistyped h => exact h.ofToml
    | @settings s _ _ hs h =>
      rw [hs.ofToml]
      exact s.outcomes_validated.error cause h
  total := by
    cases hread : Toml.read? text with
    | none => exact .inr ⟨_, .unreadable hread⟩
    | some es =>
      rcases documented_or_mistyped hread with ⟨s, hs⟩ | hmistyped
      · rcases s.usable_or_unusable with husable | ⟨cause, h⟩
        · exact .inl ⟨s, husable, es, hs⟩
        · exact .inr ⟨cause, .settings hs h⟩
      · exact .inr ⟨_, .mistyped hmistyped⟩

end Documents

section Fields

variable {s : Settings} {e : Error} {cause : SettingsError}

theorem Unusable.field? (h : s.Unusable cause) : cause.field? = some "table_prefix" := by
  cases h with
  | empty => rfl
  | separated => rfl

theorem validate_default : default.validate = .ok () :=
  usable_default.validate

/-- Settings come out of the environment only if they pass the check. -/
theorem validate_of_ofEnvironment {tablePrefix verifyColumnTypes : Option ByteArray}
    (h : ofEnvironment tablePrefix verifyColumnTypes = .ok s) : s.validate = .ok () :=
  ((outcomes_ofEnvironment _ _).eq_ok_iff.mp h).1.validate

/-- Settings come out of a document only if they pass the check. -/
theorem validate_of_ofToml {text : String} (h : ofToml text = .ok s) : s.validate = .ok () :=
  ((outcomes_ofToml text).eq_ok_iff.mp h).1.validate

theorem field?_of_validate (h : s.validate = .error e) :
    ∃ cause, e = .settings cause ∧ cause.field? = some "table_prefix" := by
  obtain ⟨cause, hcause, rfl⟩ := s.outcomes_validate.eq_error_iff.mp h
  exact ⟨cause, rfl, hcause.field?⟩

/-- An error of the environment names the field of one of the variables. -/
theorem field?_of_ofEnvironment {tablePrefix verifyColumnTypes : Option ByteArray}
    (h : ofEnvironment tablePrefix verifyColumnTypes = .error e) :
    ∃ cause, e = .settings cause ∧ ∃ field ∈ shape.fields, cause.field? = some field := by
  obtain ⟨cause, hcause, rfl⟩ := (outcomes_ofEnvironment _ _).eq_error_iff.mp h
  refine ⟨cause, rfl, ?_⟩
  cases hcause with
  | switch _ h =>
    obtain ⟨_⟩ := h
    exact ⟨"verify_column_types", by simp [shape], rfl⟩
  | settings _ h => exact ⟨"table_prefix", by simp [shape], h.field?⟩

/-- An error of a document names the prefix, unless the settings cannot be read from it. -/
theorem field?_of_ofToml {text : String} (h : ofToml text = .error e) :
    ∃ cause, e = .settings cause ∧ (cause.field? = some "table_prefix" ∨
      cause.field? = none ∧ ¬∃ s es, Documented text s es) := by
  obtain ⟨cause, hcause, rfl⟩ := (outcomes_ofToml text).eq_error_iff.mp h
  refine ⟨cause, rfl, ?_⟩
  cases hcause with
  | unreadable hnone =>
    refine .inr ⟨rfl, fun ⟨_, _, hs⟩ => ?_⟩
    rw [hs.read] at hnone
    cases hnone
  | mistyped hmistyped =>
    refine .inr ⟨rfl, fun ⟨_, _, hs⟩ => ?_⟩
    obtain rfl := Option.some.inj (hmistyped.read.symm.trans hs.read)
    have hvalue := hmistyped.value
    rw [hs.tablePrefix, hs.verifyColumnTypes] at hvalue
    rcases hvalue with hvalue | hvalue <;> cases hvalue
  | settings _ h => exact .inl h.field?

end Fields

end Settings

end ColumnAtlas
