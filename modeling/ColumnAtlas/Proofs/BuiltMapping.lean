import ColumnAtlas.Proofs.ClassRenaming
import ColumnAtlas.Proofs.StorageReads

namespace ColumnAtlas

/-- The class that a column of a table links to, if its type is one of a link. -/
def Storage.Links (s : Storage) (t : TableId) (index : Int) (linked : Option String) : Prop :=
  if ((s.table t).columnType index).isLink then
    ∃ u, s.linkTarget? t index = some u ∧ linked = some (s.table u).className
  else linked = none

/-- The placement of a declared field for a builder that has not added it yet. -/
def FieldDecl.placement (f : FieldDecl) (b : MappingBuilder) (s : Storage) : Except Error Placement :=
  match f.backlink with
  | some source => b.backlinkPlacement s f.name source.sourceClass source.sourceField
  | none => b.columnPlacement s f.name f.fieldType

/-- The builder of a class on its table, before any field. -/
def ClassDecl.builder (c : ClassDecl) (d : DatabaseId) (settings : Settings) (t : TableId) :
    MappingBuilder :=
  ⟨d, settings, t, .empty c.className⟩

/-- A mapping places exactly the declared fields, as they are stored. -/
structure ClassDecl.Mapped (c : ClassDecl) (s : Storage) (d : DatabaseId) (settings : Settings)
    (m : Mapping) : Prop where
  className : m.className = c.className
  distinct : (c.fields.map FieldDecl.name).Nodup
  placed : ∃ t, s.tableNamed? d (settings.tableName c.className) = some t ∧
    ∀ f ∈ c.fields, ∃ p, f.placement (c.builder d settings t) s = .ok p ∧ m.get? f.name = some p
  declared : ∀ field p, m.get? field = some p → ∃ f ∈ c.fields, f.name = field

namespace MappingBuilder

variable {b b' : MappingBuilder} {s : Storage}

theorem columnPlacement_eq_ok_iff {field : String} {expected : FieldType} {p : Placement} :
    b.columnPlacement s field expected = .ok p ↔
      ∃ index linked, (s.table b.table).columnIndex? field = some index ∧
        (b.settings.verifyColumnTypes → (s.table b.table).columnType index = expected) ∧
        s.Links b.table index linked ∧
        p = .column index ((s.table b.table).columnType index) linked := by
  dsimp only [columnPlacement, Storage.Links]
  cases hi : (s.table b.table).columnIndex? field with
  | none => simp
  | some index =>
    simp only [Option.some.injEq]
    split
    next hv =>
      constructor
      · intro h
        cases h
      · rintro ⟨_, _, rfl, ht, _⟩
        exact absurd (ht hv.1) hv.2
    next hv =>
      have ht : b.settings.verifyColumnTypes → (s.table b.table).columnType index = expected :=
        fun hb => Decidable.not_not.mp fun hne => hv ⟨hb, hne⟩
      split
      next hl =>
        cases hu : s.linkTarget? b.table index with
        | none =>
          constructor
          · intro h
            cases h
          · rintro ⟨_, _, rfl, _, hlinks, _⟩
            simp [hl, hu] at hlinks
        | some u =>
          constructor
          · intro h
            cases h
            exact ⟨index, _, rfl, ht, by rw [if_pos hl]; exact ⟨u, hu, rfl⟩, rfl⟩
          · rintro ⟨_, linked, rfl, _, hlinks, rfl⟩
            rw [if_pos hl] at hlinks
            obtain ⟨u', hu', rfl⟩ := hlinks
            rw [Option.some.inj (hu.symm.trans hu')]
      next hl =>
        constructor
        · intro h
          cases h
          exact ⟨index, none, rfl, ht, by rw [if_neg hl], rfl⟩
        · rintro ⟨_, linked, rfl, _, hlinks, rfl⟩
          rw [if_neg hl] at hlinks
          rw [hlinks]

theorem backlinkPlacement_eq_ok_iff {field sourceClass sourceField : String} {p : Placement} :
    b.backlinkPlacement s field sourceClass sourceField = .ok p ↔
      ∃ source index,
        s.tableNamed? b.database (b.settings.tableName sourceClass) = some source ∧
        (s.table source).columnIndex? sourceField = some index ∧
        (b.settings.verifyColumnTypes → ((s.table source).columnType index).isLink ∧
          ∃ u, s.linkTarget? source index = some u ∧ (s.table u).className = b.className) ∧
        p = .backlink index sourceClass sourceField := by
  dsimp only [backlinkPlacement]
  cases ht : s.tableNamed? b.database (b.settings.tableName sourceClass) with
  | none => simp
  | some source =>
    dsimp only
    cases hi : (s.table source).columnIndex? sourceField with
    | none => simp [hi]
    | some index =>
      have hany : ((s.linkTarget? source index).any fun t => (s.table t).className = b.className) ↔
          ∃ u, s.linkTarget? source index = some u ∧ (s.table u).className = b.className := by
        simp [Option.any_eq_true]
      simp only [Option.some.injEq]
      split
      next hv =>
        constructor
        · intro h
          cases h
        · rintro ⟨_, _, rfl, hi', hb, _⟩
          obtain rfl := Option.some.inj (hi.symm.trans hi')
          have hn := hv.2
          simp [(hb hv.1).1] at hn
      next hv =>
        split
        next hp =>
          constructor
          · intro h
            cases h
          · rintro ⟨_, _, rfl, hi', hb, _⟩
            obtain rfl := Option.some.inj (hi.symm.trans hi')
            have hn := hp.2
            simp [hany.mpr (hb hp.1).2] at hn
        next hp =>
          constructor
          · intro h
            cases h
            refine ⟨source, index, rfl, hi, fun hb => ⟨?_, hany.mp ?_⟩, rfl⟩
            · simpa [hb] using hv
            · simpa [hb] using hp
          · rintro ⟨_, _, rfl, hi', _, rfl⟩
            rw [Option.some.inj (hi.symm.trans hi')]

theorem addField_eq (f : FieldDecl) : b.addField s f = b.add f.name (f.placement b s) := by
  unfold addField FieldDecl.placement
  cases f.backlink <;> rfl

theorem placement_record (f : FieldDecl) (field : String) (p : Placement) :
    f.placement (b.record field p) s = f.placement b s := by
  unfold FieldDecl.placement
  cases f.backlink <;> rfl

theorem get?_record (field field' : String) (p : Placement) :
    (b.record field p).mapping.get? field' =
      if field = field' then some p else b.mapping.get? field' :=
  SortedMap.get?_insert ..

theorem add_eq_ok_iff {field : String} {placement : Except Error Placement} {i : Int} :
    b.add field placement = .ok (i, b') ↔ b.mapping.get? field = none ∧
      ∃ p, placement = .ok p ∧ i = p.index ∧ b' = b.record field p := by
  unfold add
  cases hc : b.mapping.fields.get? field with
  | some p =>
    have hcontains : b.mapping.fields.contains field := SortedMap.contains_iff.mpr ⟨p, hc⟩
    have hget : b.mapping.get? field = some p := hc
    rw [if_pos hcontains, hget]
    constructor
    · intro h
      cases h
    · rintro ⟨h, _⟩
      cases h
  | none =>
    have hcontains : ¬b.mapping.fields.contains field := by
      rw [SortedMap.contains_iff]
      simp [hc]
    have hget : b.mapping.get? field = none := hc
    rw [if_neg hcontains, hget]
    constructor
    · intro h
      obtain ⟨p, hp, he⟩ := bind_eq_ok_iff.mp h
      obtain ⟨rfl, rfl⟩ := Prod.mk.inj (Except.ok.inj he)
      exact ⟨rfl, p, hp, rfl, rfl⟩
    · rintro ⟨_, p, rfl, rfl, rfl⟩
      rfl

theorem addFields_cons_eq_ok_iff {f : FieldDecl} {fs : List FieldDecl} :
    b.addFields s (f :: fs) = .ok b' ↔ b.mapping.get? f.name = none ∧
      ∃ p, f.placement b s = .ok p ∧ (b.record f.name p).addFields s fs = .ok b' := by
  rw [addFields, addField_eq, bind_eq_ok_iff]
  constructor
  · rintro ⟨⟨i, b₁⟩, h, hr⟩
    obtain ⟨hn, p, hp, _, rfl⟩ := add_eq_ok_iff.mp h
    exact ⟨hn, p, hp, hr⟩
  · rintro ⟨hn, p, hp, hr⟩
    exact ⟨(p.index, b.record f.name p), add_eq_ok_iff.mpr ⟨hn, p, hp, rfl, rfl⟩, hr⟩

/-- Added fields have different names, are placed as declared and leave the other fields alone. -/
theorem addFields_placed {fs : List FieldDecl} (h : b.addFields s fs = .ok b') :
    b'.mapping.className = b.mapping.className ∧ (fs.map FieldDecl.name).Nodup ∧
      (∀ f ∈ fs, b.mapping.get? f.name = none ∧
        ∃ p, f.placement b s = .ok p ∧ b'.mapping.get? f.name = some p) ∧
      ∀ field, (∀ f ∈ fs, f.name ≠ field) → b'.mapping.get? field = b.mapping.get? field := by
  induction fs generalizing b with
  | nil =>
    cases h
    exact ⟨rfl, List.nodup_nil, by simp, fun _ _ => rfl⟩
  | cons f fs ih =>
    obtain ⟨hn, p, hp, hr⟩ := addFields_cons_eq_ok_iff.mp h
    obtain ⟨hclass, hdistinct, hplaced, hother⟩ := ih hr
    have hnot : ∀ g ∈ fs, g.name ≠ f.name := by
      intro g hg heq
      have hgn := (hplaced g hg).1
      rw [get?_record, if_pos heq.symm] at hgn
      cases hgn
    refine ⟨hclass, ?_, ?_, ?_⟩
    · refine List.nodup_cons.mpr ⟨fun hm => ?_, hdistinct⟩
      obtain ⟨g, hg, heq⟩ := List.mem_map.mp hm
      exact hnot g hg heq
    · intro g hg
      rcases List.mem_cons.mp hg with rfl | hg
      · refine ⟨hn, p, hp, ?_⟩
        rw [hother _ hnot, get?_record, if_pos rfl]
      · obtain ⟨hgn, q, hq, hget⟩ := hplaced g hg
        rw [get?_record, if_neg (Ne.symm (hnot g hg))] at hgn
        rw [placement_record] at hq
        exact ⟨hgn, q, hq, hget⟩
    · intro field hf
      rw [hother field fun g hg => hf g (List.mem_cons_of_mem _ hg), get?_record,
        if_neg (hf f List.mem_cons_self)]

theorem addFields_exists {fs : List FieldDecl} (hd : (fs.map FieldDecl.name).Nodup)
    (hn : ∀ f ∈ fs, b.mapping.get? f.name = none)
    (hp : ∀ f ∈ fs, ∃ p, f.placement b s = .ok p) : ∃ b', b.addFields s fs = .ok b' := by
  induction fs generalizing b with
  | nil => exact ⟨b, rfl⟩
  | cons f fs ih =>
    obtain ⟨hf, hd'⟩ := List.nodup_cons.mp hd
    obtain ⟨p, hpf⟩ := hp f List.mem_cons_self
    have hn' : ∀ g ∈ fs, (b.record f.name p).mapping.get? g.name = none := by
      intro g hg
      have hne : f.name ≠ g.name := fun heq => hf (heq ▸ List.mem_map.mpr ⟨g, hg, rfl⟩)
      rw [get?_record, if_neg hne]
      exact hn g (List.mem_cons_of_mem _ hg)
    have hp' : ∀ g ∈ fs, ∃ q, g.placement (b.record f.name p) s = .ok q := by
      intro g hg
      rw [placement_record]
      exact hp g (List.mem_cons_of_mem _ hg)
    obtain ⟨b', hb'⟩ := ih hd' hn' hp'
    exact ⟨b', addFields_cons_eq_ok_iff.mpr ⟨hn f List.mem_cons_self, p, hpf, hb'⟩⟩

end MappingBuilder

namespace ClassDecl

variable {c : ClassDecl} {s s' : Storage} {d : DatabaseId} {settings : Settings} {m : Mapping}

theorem Mapped.unique {m' : Mapping} (h : c.Mapped s d settings m) (h' : c.Mapped s d settings m') :
    m = m' := by
  obtain ⟨t, ht, hplaced⟩ := h.placed
  obtain ⟨t', ht', hplaced'⟩ := h'.placed
  obtain rfl := Option.some.inj (ht.symm.trans ht')
  have hsame : ∀ f ∈ c.fields, m.get? f.name = m'.get? f.name := by
    intro f hf
    obtain ⟨p, hp, hget⟩ := hplaced f hf
    obtain ⟨q, hq, hget'⟩ := hplaced' f hf
    rw [hget, hget', Except.ok.inj (hp.symm.trans hq)]
  have hfields : m.fields = m'.fields := by
    apply SortedMap.eq_of_get?
    intro field
    change m.get? field = m'.get? field
    cases hg : m.get? field with
    | some p =>
      obtain ⟨f, hf, rfl⟩ := h.declared field p hg
      exact hg.symm.trans (hsame f hf)
    | none =>
      cases hg' : m'.get? field with
      | none => rfl
      | some p =>
        obtain ⟨f, hf, rfl⟩ := h'.declared field p hg'
        exact (hg.symm.trans (hsame f hf)).trans hg'
  have hclass := h.className.trans h'.className.symm
  cases m
  cases m'
  cases hclass
  cases hfields
  rfl

/-- Building a mapping succeeds exactly with a mapping of the declared fields as they are stored. -/
theorem buildMapping_eq_ok_iff : c.buildMapping s d settings = .ok m ↔ c.Mapped s d settings m := by
  have hsound : ∀ {m}, c.buildMapping s d settings = .ok m → c.Mapped s d settings m := by
    intro m h
    obtain ⟨b, hb, h⟩ := bind_eq_ok_iff.mp h
    obtain ⟨b', hb', h⟩ := bind_eq_ok_iff.mp h
    obtain rfl := Except.ok.inj h
    unfold MappingBuilder.start at hb
    split at hb
    next => cases hb
    next t ht =>
      obtain rfl := Except.ok.inj hb
      obtain ⟨hclass, hdistinct, hplaced, hother⟩ := MappingBuilder.addFields_placed hb'
      refine ⟨hclass, hdistinct, ⟨t, ht, fun f hf => (hplaced f hf).2⟩, ?_⟩
      intro field p hp
      by_cases hd : ∃ f ∈ c.fields, f.name = field
      · exact hd
      · rw [hother field fun f hf he => hd ⟨f, hf, he⟩] at hp
        cases hp
  constructor
  · exact hsound
  · intro h
    obtain ⟨t, ht, hplaced⟩ := h.placed
    obtain ⟨b', hb'⟩ := MappingBuilder.addFields_exists (b := c.builder d settings t) (s := s)
      h.distinct (fun _ _ => rfl) fun f hf => (hplaced f hf).imp fun _ hp => hp.1
    have hstart : MappingBuilder.start s d settings c.className = .ok (c.builder d settings t) := by
      simp [MappingBuilder.start, ht, builder]
    have hbuilt : c.buildMapping s d settings = .ok b'.mapping :=
      bind_eq_ok_iff.mpr ⟨_, hstart, bind_eq_ok_iff.mpr ⟨b', hb', rfl⟩⟩
    rw [hbuilt, (hsound hbuilt).unique h]

theorem Mapped.get?_eq_none (h : c.Mapped s d settings m) {field : String}
    (hf : (c.fields.find? fun f => f.name = field) = none) : m.get? field = none := by
  cases hp : m.get? field with
  | none => rfl
  | some p =>
    obtain ⟨f, hdeclared, rfl⟩ := h.declared field p hp
    exact absurd (List.find?_eq_none.mp hf f hdeclared) (by simp)

theorem Mapped.forward (h : c.Mapped s d settings m) {f : FieldDecl} (hf : f ∈ c.fields)
    (hb : f.backlink = none) : ∃ t index linked,
      s.tableNamed? d (settings.tableName c.className) = some t ∧
      (s.table t).columnIndex? f.name = some index ∧ s.Links t index linked ∧
      m.get? f.name = some (.column index ((s.table t).columnType index) linked) := by
  obtain ⟨t, ht, hplaced⟩ := h.placed
  obtain ⟨p, hp, hget⟩ := hplaced f hf
  simp only [FieldDecl.placement, hb] at hp
  obtain ⟨index, linked, hi, _, hlinks, rfl⟩ := MappingBuilder.columnPlacement_eq_ok_iff.mp hp
  exact ⟨t, index, linked, ht, hi, hlinks, hget⟩

theorem Mapped.backward (h : c.Mapped s d settings m) {f : FieldDecl} (hf : f ∈ c.fields)
    {b : BacklinkDecl} (hb : f.backlink = some b) : ∃ source index,
      s.tableNamed? d (settings.tableName b.sourceClass) = some source ∧
      (s.table source).columnIndex? b.sourceField = some index ∧
      m.get? f.name = some (.backlink index b.sourceClass b.sourceField) := by
  obtain ⟨t, _, hplaced⟩ := h.placed
  obtain ⟨p, hp, hget⟩ := hplaced f hf
  simp only [FieldDecl.placement, hb] at hp
  obtain ⟨source, index, hsource, hi, _, rfl⟩ := MappingBuilder.backlinkPlacement_eq_ok_iff.mp hp
  exact ⟨source, index, hsource, hi, hget⟩

end ClassDecl

end ColumnAtlas
