import ColumnAtlas.Proofs.BuiltMapping
import Mathlib.Data.List.Induction
import Mathlib.Data.List.Nodup

namespace ColumnAtlas

section

variable (b : MappingBuilder) (s : Storage) (f : FieldDecl)

/-- Where a declared field is stored, for a builder on the table of its class. -/
inductive FieldDecl.Placed : Placement → Prop
  | column {index : Int} {linked : Option String} : f.backlink = none →
      (s.table b.table).columnIndex? f.name = some index →
      (b.settings.verifyColumnTypes → (s.table b.table).columnType index = f.fieldType) →
      s.Links b.table index linked →
      Placed (.column index ((s.table b.table).columnType index) linked)
  | backlink {read : BacklinkDecl} {t : TableId} {index : Int} : f.backlink = some read →
      s.tableNamed? b.database (b.settings.tableName read.sourceClass) = some t →
      (s.table t).columnIndex? read.sourceField = some index →
      (b.settings.verifyColumnTypes → ((s.table t).columnType index).isLink ∧
        ∃ u, s.linkTarget? t index = some u ∧ (s.table u).className = b.className) →
      Placed (.backlink index read.sourceClass read.sourceField)

/-- What is wrong with a declared field that has no place. -/
inductive FieldDecl.Faulty : MigrationError → Prop
  | missingField : f.backlink = none → (s.table b.table).columnIndex? f.name = none →
      Faulty (.missingField (s.database b.database).path b.className f.name)
  | typeMismatch {index : Int} : f.backlink = none →
      (s.table b.table).columnIndex? f.name = some index → b.settings.verifyColumnTypes →
      (s.table b.table).columnType index ≠ f.fieldType →
      Faulty (.typeMismatch (s.database b.database).path b.className f.name f.fieldType
        ((s.table b.table).columnType index))
  | missingLinkTarget {index : Int} : f.backlink = none →
      (s.table b.table).columnIndex? f.name = some index →
      (b.settings.verifyColumnTypes → (s.table b.table).columnType index = f.fieldType) →
      ((s.table b.table).columnType index).isLink → s.linkTarget? b.table index = none →
      Faulty (.missingLinkTarget (s.database b.database).path b.className f.name)
  | missingSourceTable {read : BacklinkDecl} : f.backlink = some read →
      s.tableNamed? b.database (b.settings.tableName read.sourceClass) = none →
      Faulty (.missingBacklinkSource (s.database b.database).path b.className f.name
        read.sourceClass read.sourceField)
  | missingSourceField {read : BacklinkDecl} {t : TableId} : f.backlink = some read →
      s.tableNamed? b.database (b.settings.tableName read.sourceClass) = some t →
      (s.table t).columnIndex? read.sourceField = none →
      Faulty (.missingBacklinkSource (s.database b.database).path b.className f.name
        read.sourceClass read.sourceField)
  | sourceWithoutLink {read : BacklinkDecl} {t : TableId} {index : Int} :
      f.backlink = some read →
      s.tableNamed? b.database (b.settings.tableName read.sourceClass) = some t →
      (s.table t).columnIndex? read.sourceField = some index → b.settings.verifyColumnTypes →
      ((s.table t).columnType index).isLink = false →
      Faulty (.typeMismatch (s.database b.database).path read.sourceClass read.sourceField .object
        ((s.table t).columnType index))
  | linkElsewhere {read : BacklinkDecl} {t : TableId} {index : Int} : f.backlink = some read →
      s.tableNamed? b.database (b.settings.tableName read.sourceClass) = some t →
      (s.table t).columnIndex? read.sourceField = some index → b.settings.verifyColumnTypes →
      ((s.table t).columnType index).isLink →
      (∀ u, s.linkTarget? t index = some u → (s.table u).className ≠ b.className) →
      Faulty (.missingBacklinkSource (s.database b.database).path b.className f.name
        read.sourceClass read.sourceField)

end

namespace FieldDecl

variable {b : MappingBuilder} {s : Storage} {f : FieldDecl}

theorem placement_eq_ok_iff {p : Placement} : f.placement b s = .ok p ↔ f.Placed b s p := by
  unfold placement
  split
  next read hread =>
    rw [MappingBuilder.backlinkPlacement_eq_ok_iff]
    constructor
    · rintro ⟨t, index, ht, hi, hlinked, rfl⟩
      exact .backlink hread ht hi hlinked
    · rintro (⟨hnone, _⟩ | ⟨hread', ht, hi, hlinked⟩)
      · rw [hread] at hnone
        cases hnone
      · obtain rfl := Option.some.inj (hread.symm.trans hread')
        exact ⟨_, _, ht, hi, hlinked, rfl⟩
  next hnone =>
    rw [MappingBuilder.columnPlacement_eq_ok_iff]
    constructor
    · rintro ⟨index, linked, hi, htype, hlinks, rfl⟩
      exact .column hnone hi htype hlinks
    · rintro (⟨_, hi, htype, hlinks⟩ | ⟨hread, _⟩)
      · exact ⟨_, _, hi, htype, hlinks, rfl⟩
      · rw [hnone] at hread
        cases hread

theorem Faulty.placement {cause : MigrationError} (h : f.Faulty b s cause) :
    f.placement b s = .error (.migration cause) := by
  unfold FieldDecl.placement
  cases h with
  | missingField hnone hi =>
    rw [hnone]
    simp only [MappingBuilder.columnPlacement, hi]
  | typeMismatch hnone hi hverify htype =>
    rw [hnone]
    simp only [MappingBuilder.columnPlacement, hi]
    rw [if_pos ⟨hverify, htype⟩]
  | missingLinkTarget hnone hi htype hlink htarget =>
    rw [hnone]
    simp only [MappingBuilder.columnPlacement, hi, htarget]
    rw [if_neg fun hv => hv.2 (htype hv.1), if_pos hlink]
  | missingSourceTable hread ht =>
    rw [hread]
    simp only [MappingBuilder.backlinkPlacement, ht]
  | missingSourceField hread ht hi =>
    rw [hread]
    simp only [MappingBuilder.backlinkPlacement, ht, hi]
  | sourceWithoutLink hread ht hi hverify hlink =>
    rw [hread]
    simp only [MappingBuilder.backlinkPlacement, ht, hi]
    rw [if_pos ⟨hverify, by rw [hlink]; rfl⟩]
  | @linkElsewhere read t index hread ht hi hverify hlink helse =>
    have hany : ((s.linkTarget? t index).any fun u => (s.table u).className = b.className) = false := by
      rw [Bool.eq_false_iff, ne_eq, Option.any_eq_true]
      rintro ⟨u, hu, hclass⟩
      exact helse u hu (of_decide_eq_true hclass)
    rw [hread]
    simp only [MappingBuilder.backlinkPlacement, ht, hi, hlink, hany]
    rw [if_neg (by simp), if_pos ⟨hverify, rfl⟩]

theorem placed_or_faulty (b : MappingBuilder) (s : Storage) (f : FieldDecl) :
    (∃ p, f.Placed b s p) ∨ ∃ cause, f.Faulty b s cause := by
  cases hread : f.backlink with
  | none =>
    cases hi : (s.table b.table).columnIndex? f.name with
    | none => exact .inr ⟨_, .missingField hread hi⟩
    | some index =>
      by_cases htype : b.settings.verifyColumnTypes → (s.table b.table).columnType index = f.fieldType
      · cases hlink : ((s.table b.table).columnType index).isLink with
        | false =>
          have hlinks : s.Links b.table index none := by
            unfold Storage.Links
            rw [hlink]
            rfl
          exact .inl ⟨_, .column hread hi htype hlinks⟩
        | true =>
          cases hu : s.linkTarget? b.table index with
          | none => exact .inr ⟨_, .missingLinkTarget hread hi htype hlink hu⟩
          | some u =>
            have hlinks : s.Links b.table index (some (s.table u).className) := by
              unfold Storage.Links
              rw [if_pos hlink]
              exact ⟨u, hu, rfl⟩
            exact .inl ⟨_, .column hread hi htype hlinks⟩
      · obtain ⟨hverify, hne⟩ := Classical.not_imp.mp htype
        exact .inr ⟨_, .typeMismatch hread hi hverify hne⟩
  | some read =>
    cases ht : s.tableNamed? b.database (b.settings.tableName read.sourceClass) with
    | none => exact .inr ⟨_, .missingSourceTable hread ht⟩
    | some t =>
      cases hi : (s.table t).columnIndex? read.sourceField with
      | none => exact .inr ⟨_, .missingSourceField hread ht hi⟩
      | some index =>
        by_cases hverify : b.settings.verifyColumnTypes
        · cases hlink : ((s.table t).columnType index).isLink with
          | false => exact .inr ⟨_, .sourceWithoutLink hread ht hi hverify hlink⟩
          | true =>
            by_cases hu : ∃ u, s.linkTarget? t index = some u ∧ (s.table u).className = b.className
            · exact .inl ⟨_, .backlink hread ht hi fun _ => ⟨hlink, hu⟩⟩
            · have helse : ∀ u, s.linkTarget? t index = some u → (s.table u).className ≠ b.className :=
                fun u ht hclass => hu ⟨u, ht, hclass⟩
              exact .inr ⟨_, .linkElsewhere hread ht hi hverify hlink helse⟩
        · exact .inl ⟨_, .backlink hread ht hi fun hv => absurd hv hverify⟩

end FieldDecl

section

variable (b : MappingBuilder) (s : Storage)

/-- Declared fields that are all placed and have different names. -/
structure MappingBuilder.Settled (fs : List FieldDecl) : Prop where
  distinct : (fs.map FieldDecl.name).Nodup
  placed : ∀ f ∈ fs, ∃ p, f.Placed b s p

/-- What is wrong with a declared field that comes after others. -/
inductive FieldDecl.Offends (before : List FieldDecl) (f : FieldDecl) : Error → Prop
  | repeated : f.name ∈ before.map FieldDecl.name →
      Offends before f (.argument (.duplicateField b.className f.name))
  | faulty {cause : MigrationError} : f.name ∉ before.map FieldDecl.name → f.Faulty b s cause →
      Offends before f (.migration cause)

end

namespace MappingBuilder

variable {b b' : MappingBuilder} {s : Storage}

/-- Tries to add a field; one that fails is passed over. -/
def attempt (b : MappingBuilder) (s : Storage) (f : FieldDecl) : MappingBuilder :=
  match b.addField s f with
  | .ok (_, b') => b'
  | .error _ => b

def attempts (b : MappingBuilder) (s : Storage) (fs : List FieldDecl) : MappingBuilder :=
  fs.foldl (fun b f => b.attempt s f) b

theorem settled_nil : b.Settled s [] := ⟨List.nodup_nil, nofun⟩

theorem Settled.concat {fs : List FieldDecl} {f : FieldDecl} {p : Placement} (h : b.Settled s fs)
    (hn : f.name ∉ fs.map FieldDecl.name) (hp : f.Placed b s p) : b.Settled s (fs ++ [f]) := by
  refine ⟨?_, ?_⟩
  · rw [List.map_append, List.nodup_append_comm]
    exact List.nodup_cons.mpr ⟨hn, h.distinct⟩
  · intro g hg
    rcases List.mem_append.mp hg with hg | hg
    · exact h.placed g hg
    · obtain rfl := List.mem_singleton.mp hg
      exact ⟨p, hp⟩

/-- Either all fields are placed, or there is a first one that offends. -/
theorem settled_or_offended (b : MappingBuilder) (s : Storage) (fs : List FieldDecl) :
    b.Settled s fs ∨ ∃ before f after e, fs = before ++ f :: after ∧ b.Settled s before ∧
      f.Offends b s before e := by
  induction fs using List.reverseRecOn with
  | nil => exact .inl settled_nil
  | append_singleton fs f ih =>
    rcases ih with h | ⟨before, g, after, e, rfl, h, hg⟩
    · by_cases hn : f.name ∈ fs.map FieldDecl.name
      · exact .inr ⟨fs, f, [], _, rfl, h, .repeated hn⟩
      · rcases f.placed_or_faulty b s with ⟨p, hp⟩ | ⟨cause, hcause⟩
        · exact .inl (h.concat hn hp)
        · exact .inr ⟨fs, f, [], _, rfl, h, .faulty hn hcause⟩
    · exact .inr ⟨before, g, after ++ [f], e, List.append_assoc _ _ _, h, hg⟩

theorem addFields_append (fs gs : List FieldDecl) :
    b.addFields s (fs ++ gs) = b.addFields s fs >>= fun b => b.addFields s gs := by
  induction fs generalizing b with
  | nil => rfl
  | cons f fs ih =>
    rw [List.cons_append, addFields, addFields]
    cases b.addField s f with
    | error e => rfl
    | ok r => exact ih

/-- What was added before does not change where a field is placed. -/
theorem addFields_placement {fs : List FieldDecl} (h : b.addFields s fs = .ok b') (g : FieldDecl) :
    g.placement b' s = g.placement b s := by
  induction fs generalizing b with
  | nil =>
    obtain rfl := Except.ok.inj h
    rfl
  | cons f fs ih =>
    obtain ⟨_, p, _, hr⟩ := addFields_cons_eq_ok_iff.mp h
    exact (ih hr).trans (placement_record g f.name p)

theorem addField_repeated {f : FieldDecl} (h : b.mapping.get? f.name ≠ none) :
    b.addField s f = .error (.argument (.duplicateField b.className f.name)) := by
  have hcontains : b.mapping.fields.contains f.name := Option.isSome_iff_ne_none.mpr h
  rw [addField_eq, add, if_pos hcontains]
  rfl

theorem addField_unplaced {f : FieldDecl} {e : Error} (h : b.mapping.get? f.name = none)
    (he : f.placement b s = .error e) : b.addField s f = .error e := by
  have hcontains : ¬b.mapping.fields.contains f.name := Option.not_isSome_iff_eq_none.mpr h
  rw [addField_eq, add, if_neg hcontains, he]
  rfl

section Fresh

variable {fs : List FieldDecl} (hfresh : ∀ field, b.mapping.get? field = none)

include hfresh

theorem addFields_settled (h : b.Settled s fs) : ∃ b', b.addFields s fs = .ok b' := by
  refine addFields_exists h.distinct (fun f _ => hfresh f.name) fun f hf => ?_
  obtain ⟨p, hp⟩ := h.placed f hf
  exact ⟨p, FieldDecl.placement_eq_ok_iff.mpr hp⟩

/-- Fields are added up to the first one that offends, whose error is reported. -/
theorem addFields_offended {before : List FieldDecl} {f : FieldDecl} {e : Error}
    (h : b.Settled s before) (hf : f.Offends b s before e) (after : List FieldDecl) :
    b.addFields s (before ++ f :: after) = .error e := by
  obtain ⟨b', hb'⟩ := addFields_settled hfresh h
  obtain ⟨hclass, _, hplaced, hother⟩ := addFields_placed hb'
  -- The builder now has the fields before and no others, so it knows which names are taken.
  have herror : b'.addField s f = .error e := by
    cases hf with
    | repeated hn =>
      obtain ⟨g, hg, hname⟩ := List.mem_map.mp hn
      obtain ⟨_, p, _, hget⟩ := hplaced g hg
      have hsome : b'.mapping.get? f.name ≠ none := by
        rw [← hname, hget]
        exact nofun
      have hrepeated := addField_repeated (s := s) hsome
      rwa [className, hclass] at hrepeated
    | faulty hn hfault =>
      have hnone : b'.mapping.get? f.name = none := by
        rw [hother f.name fun g hg he => hn (he ▸ List.mem_map_of_mem hg)]
        exact hfresh f.name
      exact addField_unplaced hnone ((addFields_placement hb' f).trans hfault.placement)
  rw [addFields_append, hb']
  change (b'.addField s f >>= fun r => r.2.addFields s after) = _
  rw [herror]
  rfl

end Fresh

theorem attempt_cases (b : MappingBuilder) (s : Storage) (f : FieldDecl) :
    (b.mapping.get? f.name = none ∧
      ∃ p, f.placement b s = .ok p ∧ b.attempt s f = b.record f.name p) ∨
    (b.mapping.get? f.name = none → ∃ e, f.placement b s = .error e) ∧ b.attempt s f = b := by
  unfold attempt
  split
  next i b' h =>
    rw [addField_eq] at h
    obtain ⟨hn, p, hp, _, rfl⟩ := add_eq_ok_iff.mp h
    exact .inl ⟨hn, p, hp, rfl⟩
  next e h =>
    refine .inr ⟨fun hn => ?_, rfl⟩
    cases hp : f.placement b s with
    | error e => exact ⟨e, rfl⟩
    | ok p =>
      rw [addField_eq, add_eq_ok_iff.mpr ⟨hn, p, hp, rfl, rfl⟩] at h
      cases h

theorem attempt_placement (f g : FieldDecl) : g.placement (b.attempt s f) s = g.placement b s := by
  rcases attempt_cases b s f with ⟨_, p, _, heq⟩ | ⟨_, heq⟩
  · rw [heq, placement_record]
  · rw [heq]

theorem get?_attempt (f : FieldDecl) (field : String) : (b.attempt s f).mapping.get? field =
    (b.mapping.get? field).or (if f.name = field then (f.placement b s).toOption else none) := by
  rcases attempt_cases b s f with ⟨hn, p, hp, heq⟩ | ⟨herror, heq⟩
  · rw [heq, get?_record, hp]
    split
    next hname =>
      rw [← hname, hn]
      rfl
    next => rw [Option.or_none]
  · rw [heq]
    split
    next hname =>
      subst hname
      cases hget : b.mapping.get? f.name with
      | some p => rfl
      | none =>
        obtain ⟨e, he⟩ := herror hget
        rw [he]
        rfl
    next => rw [Option.or_none]

/-- After any attempts a field is placed as before, or else as the first attempt that succeeds
places it. The attempts that fail leave no trace. -/
theorem get?_attempts (fs : List FieldDecl) (field : String) :
    (b.attempts s fs).mapping.get? field = (b.mapping.get? field).or
      (fs.findSome? fun f => if f.name = field then (f.placement b s).toOption else none) := by
  induction fs generalizing b with
  | nil => exact Option.or_none.symm
  | cons f fs ih =>
    change ((b.attempt s f).attempts s fs).mapping.get? field = _
    rw [ih, get?_attempt, Option.or_assoc, List.findSome?_cons]
    simp only [attempt_placement]
    cases (if f.name = field then (f.placement b s).toOption else none) <;> rfl

end MappingBuilder

namespace ClassDecl

variable {c : ClassDecl} {s : Storage} {d : DatabaseId} {settings : Settings} {t : TableId}

theorem buildMapping_missing (h : s.tableNamed? d (settings.tableName c.className) = none) :
    c.buildMapping s d settings =
      .error (.migration (.missingClass (s.database d).path c.className)) := by
  rw [buildMapping, MappingBuilder.start, h]
  rfl

theorem buildMapping_tabled (h : s.tableNamed? d (settings.tableName c.className) = some t) :
    c.buildMapping s d settings =
      ((c.builder d settings t).addFields s c.fields).map MappingBuilder.mapping := by
  rw [buildMapping, MappingBuilder.start, h]
  change ((c.builder d settings t).addFields s c.fields >>= _) = _
  cases (c.builder d settings t).addFields s c.fields <;> rfl

theorem buildMapping_settled (h : s.tableNamed? d (settings.tableName c.className) = some t)
    (hall : (c.builder d settings t).Settled s c.fields) :
    ∃ m, c.buildMapping s d settings = .ok m := by
  obtain ⟨b', hb'⟩ := MappingBuilder.addFields_settled (fun _ => rfl) hall
  exact ⟨b'.mapping, by rw [buildMapping_tabled h, hb']; rfl⟩

theorem builds_iff_settled : (∃ m, c.buildMapping s d settings = .ok m) ↔
    ∃ t, s.tableNamed? d (settings.tableName c.className) = some t ∧
      (c.builder d settings t).Settled s c.fields := by
  constructor
  · rintro ⟨m, hm⟩
    have hmapped := buildMapping_eq_ok_iff.mp hm
    obtain ⟨t, ht, hplaced⟩ := hmapped.placed
    refine ⟨t, ht, hmapped.distinct, fun f hf => ?_⟩
    obtain ⟨p, hp, _⟩ := hplaced f hf
    exact ⟨p, FieldDecl.placement_eq_ok_iff.mp hp⟩
  · rintro ⟨t, ht, hall⟩
    exact buildMapping_settled ht hall

theorem buildMapping_offended (h : s.tableNamed? d (settings.tableName c.className) = some t)
    {before after : List FieldDecl} {f : FieldDecl} {e : Error} (hc : c.fields = before ++ f :: after)
    (hbefore : (c.builder d settings t).Settled s before)
    (hf : f.Offends (c.builder d settings t) s before e) : c.buildMapping s d settings = .error e := by
  have hstop := MappingBuilder.addFields_offended (fun _ => rfl) hbefore hf after
  rw [buildMapping_tabled h, hc, hstop]
  rfl

theorem buildMapping_eq_error_iff {e : Error} : c.buildMapping s d settings = .error e ↔
    (s.tableNamed? d (settings.tableName c.className) = none ∧
      e = .migration (.missingClass (s.database d).path c.className)) ∨
    ∃ t before f after, s.tableNamed? d (settings.tableName c.className) = some t ∧
      c.fields = before ++ f :: after ∧ (c.builder d settings t).Settled s before ∧
      f.Offends (c.builder d settings t) s before e := by
  constructor
  · intro he
    cases ht : s.tableNamed? d (settings.tableName c.className) with
    | none =>
      rw [buildMapping_missing ht] at he
      exact .inl ⟨rfl, (Except.error.inj he).symm⟩
    | some t =>
      rcases MappingBuilder.settled_or_offended (c.builder d settings t) s c.fields with
        hall | ⟨before, f, after, e', hc, hbefore, hf⟩
      · obtain ⟨m, hm⟩ := buildMapping_settled ht hall
        rw [hm] at he
        cases he
      · rw [buildMapping_offended ht hc hbefore hf] at he
        obtain rfl := Except.error.inj he
        exact .inr ⟨t, before, f, after, rfl, hc, hbefore, hf⟩
  · rintro (⟨ht, rfl⟩ | ⟨t, before, f, after, ht, hc, hbefore, hf⟩)
    · exact buildMapping_missing ht
    · exact buildMapping_offended ht hc hbefore hf

/-- A mapping lists every declared field once. -/
theorem Mapped.keys_perm {m : Mapping} (h : c.Mapped s d settings m) :
    m.fields.keys.Perm (c.fields.map FieldDecl.name) := by
  refine (List.perm_ext_iff_of_nodup (SortedMap.nodup_keys m.fields) h.distinct).mpr fun field => ?_
  constructor
  · intro hkey
    obtain ⟨p, hp⟩ := SortedMap.mem_keys.mp hkey
    obtain ⟨f, hf, rfl⟩ := h.declared field p (SortedMap.mem_entries_iff.mp hp)
    exact List.mem_map_of_mem hf
  · intro hname
    obtain ⟨f, hf, rfl⟩ := List.mem_map.mp hname
    obtain ⟨t, _, hplaced⟩ := h.placed
    obtain ⟨p, _, hget⟩ := hplaced f hf
    exact SortedMap.mem_keys.mpr ⟨p, SortedMap.mem_entries_iff.mpr hget⟩

/-- A mapping is built exactly when the table exists and every field is placed under a name of its
own. It then lists each field where it is placed; otherwise the first field that offends is
reported. A builder keeps what it has through the fields that fail. -/
theorem buildMapping_exact (c : ClassDecl) (s : Storage) (d : DatabaseId) (settings : Settings) :
    ((∃ m, c.buildMapping s d settings = .ok m) ↔
      ∃ t, s.tableNamed? d (settings.tableName c.className) = some t ∧
        (c.builder d settings t).Settled s c.fields) ∧
    (∀ m, c.buildMapping s d settings = .ok m →
      m.className = c.className ∧ m.fields.keys.Perm (c.fields.map FieldDecl.name) ∧
      ∃ t, s.tableNamed? d (settings.tableName c.className) = some t ∧
        ∀ f ∈ c.fields, ∃ p, m.get? f.name = some p ∧ f.Placed (c.builder d settings t) s p) ∧
    (∀ e, c.buildMapping s d settings = .error e ↔
      (s.tableNamed? d (settings.tableName c.className) = none ∧
        e = .migration (.missingClass (s.database d).path c.className)) ∨
      ∃ t before f after, s.tableNamed? d (settings.tableName c.className) = some t ∧
        c.fields = before ++ f :: after ∧ (c.builder d settings t).Settled s before ∧
        f.Offends (c.builder d settings t) s before e) ∧
    ∀ (b : MappingBuilder) (fs : List FieldDecl) (field : String),
      (b.attempts s fs).mapping.get? field = (b.mapping.get? field).or
        (fs.findSome? fun f => if f.name = field then (f.placement b s).toOption else none) := by
  refine ⟨builds_iff_settled, fun m hm => ?_, fun e => buildMapping_eq_error_iff,
    fun b fs field => MappingBuilder.get?_attempts fs field⟩
  have hmapped := buildMapping_eq_ok_iff.mp hm
  obtain ⟨t, ht, hplaced⟩ := hmapped.placed
  refine ⟨hmapped.className, hmapped.keys_perm, t, ht, fun f hf => ?_⟩
  obtain ⟨p, hp, hget⟩ := hplaced f hf
  exact ⟨p, hget, FieldDecl.placement_eq_ok_iff.mp hp⟩

end ClassDecl

end ColumnAtlas
