import ColumnAtlas.Proofs.DeclaredColumns
import ColumnAtlas.Proofs.ExactMapping
import ColumnAtlas.Proofs.MentionedClasses

namespace ColumnAtlas

theorem ClassDecl.mem_columns_iff {c : ClassDecl} {f : FieldDecl} :
    f ∈ c.columns ↔ f ∈ c.fields ∧ f.backlink = none := by
  rw [columns, List.mem_filter, Option.isNone_iff_eq_none]

theorem ClassDecl.nodup_columns {c : ClassDecl} (h : (c.fields.map FieldDecl.name).Nodup) :
    (c.columns.map FieldDecl.name).Nodup :=
  h.sublist (List.filter_sublist.map FieldDecl.name)

theorem Table.hasColumn_iff {t : Table} {name : String} :
    t.hasColumn name ↔ ∃ i, t.columnIndex? name = some i := by
  rw [hasColumn, ← List.findIdx?_isSome, ← Option.isSome_iff_exists, columnIndex?, Option.isSome_map]

/-- A declared class as it is described when it has just been created. -/
def ClassDecl.summary (c : ClassDecl) : ClassSummary :=
  ⟨c.className, c.columns.map (fun f =>
    ⟨f.name, f.fieldType, if f.fieldType.isLink then f.linkedClass else none⟩) ++ c.backlinks⟩

namespace Workspace

/-- A backlink of a new class reads from a column of the class, or from another class if types are
not compared. -/
inductive Sources (w : Workspace) (c : ClassDecl) (b : BacklinkDecl) : Prop
  | own {f : FieldDecl} : b.sourceClass = c.className → f ∈ c.columns → f.name = b.sourceField →
      (w.registry.settings.verifyColumnTypes →
        f.fieldType ∈ FieldType.links ∧ f.linkedClass = some c.className) → Sources w c b
  | other {t : TableId} : b.sourceClass ≠ c.className →
      w.registry.settings.verifyColumnTypes = false → w.classTable? b.sourceClass = some t →
      (w.storage.table t).hasColumn b.sourceField → Sources w c b

/-- What a declared class needs to be created. -/
structure Admits (w : Workspace) (c : ClassDecl) : Prop where
  named : c.className ≠ ""
  unregistered : w.registry.classId? c.className = none
  untabled : w.classTable? c.className = none
  distinct : (c.fields.map FieldDecl.name).Nodup
  columns : ∀ f ∈ c.columns, f.fieldType ∈ FieldType.scalars ∨ f.fieldType ∈ FieldType.links ∧
    ∃ name, f.linkedClass = some name ∧ (name = c.className ∨ ∃ t, w.classTable? name = some t)
  backlinks : ∀ f ∈ c.fields, ∀ b, f.backlink = some b → w.Sources c b

/-- The class is registered under the next identifier and has its table. -/
def withCreated (w : Workspace) (c : ClassDecl) : Workspace :=
  w.changed (w.storage.withDeclared w.database c) (w.registry.withClass c)

/-- A class has a table with its declared columns, each at its place in the declaration. -/
structure TabledAs (w : Workspace) (c : ClassDecl) (t : TableId) : Prop where
  table : w.classTable? c.className = some t
  count : (w.storage.table t).columnCount = c.columns.length
  placed : ∀ (i : Nat) (f : FieldDecl), c.columns[i]? = some f →
    (w.storage.table t).columnIndex? f.name = some i ∧
    (w.storage.table t).columnType i = f.fieldType ∧
    w.storage.linkTarget? t i = if f.fieldType.isLink then f.linkedClass.bind w.classTable? else none

variable {w : Workspace} {c : ClassDecl}

section Live

variable (h : w.Live)

include h

theorem Live.classTableWith?_eq (name : String) :
    w.storage.classTableWith? w.database c.className name =
      if name = c.className then some ⟨w.storage.tables.length⟩ else w.classTable? name := by
  rw [Storage.classTableWith?, h.classTable?_eq]

/-- A look-up by the name of a class in the database with the new table. -/
theorem Live.tableNamed?_withDeclared (name : String) :
    (w.storage.withDeclared w.database c).tableNamed? w.database (w.registry.settings.tableName name) =
      w.storage.classTableWith? w.database c.className name := by
  have hread := congrFun (Storage.classTable?_withDeclared h.opened c) name
  rw [Storage.classTable?, Storage.withDeclared, Storage.tableName_withTable] at hread
  rw [h.tableName_eq]
  exact hread

theorem Live.storable_iff {f : FieldDecl} :
    f.Storable (w.storage.classTableWith? w.database c.className) ↔
      f.fieldType ∈ FieldType.scalars ∨ f.fieldType ∈ FieldType.links ∧
        ∃ name, f.linkedClass = some name ∧
          (name = c.className ∨ ∃ t, w.classTable? name = some t) := by
  have htarget (name : String) :
      (∃ t, w.storage.classTableWith? w.database c.className name = some t) ↔
        name = c.className ∨ ∃ t, w.classTable? name = some t := by
    rw [h.classTableWith?_eq]
    by_cases hname : name = c.className <;> simp [hname]
  simp only [FieldDecl.Storable, ← htarget, exists_and_left]

/-- What a column of the new table links to is the class that its declaration names. -/
theorem Live.className_target {f : FieldDecl} {u : TableId}
    (hu : (f.columnIn (w.storage.classTableWith? w.database c.className)).target = some u) :
    f.linkedClass = some ((w.storage.withDeclared w.database c).table u).className := by
  obtain ⟨name, hname, ht⟩ := FieldDecl.target_columnIn_of_some hu
  rw [hname]
  rw [h.classTableWith?_eq] at ht
  split at ht
  next he =>
    obtain rfl := Option.some.inj ht
    rw [Storage.withDeclared, Storage.table_withTable_new, he]
  next =>
    have hold := h.classTable?_eq name ▸ ht
    rw [Storage.withDeclared, Storage.table_withTable_old (h.storage.made _ _ _ hold),
      h.className_of_classTable? ht]

theorem Live.shown_target {f : FieldDecl}
    (hstorable : f.Storable (w.storage.classTableWith? w.database c.className)) :
    (((f.columnIn (w.storage.classTableWith? w.database c.className)).target.filter
        (w.storage.withDeclared w.database c).isAlive).map fun u =>
      ((w.storage.withDeclared w.database c).table u).className) =
        if f.fieldType.isLink then f.linkedClass else none := by
  split
  next hlink =>
    obtain ⟨name, u, _, ht, hu⟩ := hstorable.target hlink
    have halive : (w.storage.withDeclared w.database c).isAlive u := by
      rw [← h.tableNamed?_withDeclared] at ht
      exact Storage.isAlive_of_tableNamed? ht
    rw [h.className_target hu, hu, Option.filter_some, if_pos halive]
    rfl
  next hlink =>
    rw [FieldDecl.columnIn, if_neg hlink]
    rfl

/-- The declared columns are placed in the new table. -/
theorem Live.placed_column (hstorable : ∀ f ∈ c.columns,
      f.Storable (w.storage.classTableWith? w.database c.className))
    (hn : (c.columns.map FieldDecl.name).Nodup) {f : FieldDecl} (hf : f ∈ c.columns) :
    ∃ p, f.Placed (c.builder w.database w.registry.settings ⟨w.storage.tables.length⟩)
      (w.storage.withDeclared w.database c) p := by
  obtain ⟨i, hi⟩ := List.mem_iff_getElem?.mp hf
  obtain ⟨hindex, htype, htarget⟩ := Storage.columns_withDeclared h.opened hn hi
  have hback := (ClassDecl.mem_columns_iff.mp hf).2
  have hlinks : ∃ linked,
      (w.storage.withDeclared w.database c).Links ⟨w.storage.tables.length⟩ i linked := by
    unfold Storage.Links
    rw [htype, htarget]
    split
    next hlink =>
      obtain ⟨_, t, _, _, ht⟩ := (hstorable f hf).target hlink
      exact ⟨_, t, ht, rfl⟩
    next => exact ⟨none, rfl⟩
  obtain ⟨linked, hlinked⟩ := hlinks
  exact ⟨_, .column hback hindex (fun _ => htype) hlinked⟩

/-- Every column of the new table is a declared one. -/
theorem Live.declared_column (hn : (c.columns.map FieldDecl.name).Nodup) {name : String} {index : Int}
    (hi : ((w.storage.withDeclared w.database c).table
      ⟨w.storage.tables.length⟩).columnIndex? name = some index) :
    ∃ f ∈ c.columns, f.name = name ∧
      ((w.storage.withDeclared w.database c).table ⟨w.storage.tables.length⟩).columnType index =
        f.fieldType ∧
      (w.storage.withDeclared w.database c).linkTarget? ⟨w.storage.tables.length⟩ index =
        (f.columnIn (w.storage.classTableWith? w.database c.className)).target := by
  obtain ⟨column, hcolumn, hname⟩ := List.any_eq_true.mp (Table.hasColumn_iff.mpr ⟨index, hi⟩)
  rw [Storage.withDeclared, Storage.table_withTable_new] at hcolumn
  obtain ⟨f, hf, rfl⟩ := List.mem_map.mp hcolumn
  obtain rfl : f.name = name := of_decide_eq_true hname
  obtain ⟨i, hat⟩ := List.mem_iff_getElem?.mp hf
  obtain ⟨hindex, hplace⟩ := Storage.columns_withDeclared h.opened hn hat
  obtain rfl := Option.some.inj (hindex.symm.trans hi)
  exact ⟨f, hf, rfl, hplace⟩

end Live

/-- In a database whose links stay inside, only the columns of a new class can link to it. -/
theorem InStep.not_links_new (h : w.InStep) (hfree : w.classTable? c.className = none)
    {name : String} {t u : TableId} {i : Int} (ht : w.classTable? name = some t)
    (hu : (w.storage.withDeclared w.database c).linkTarget? t i = some u) :
    ((w.storage.withDeclared w.database c).table u).className ≠ c.className := by
  intro hclass
  have hmade : t.index < w.storage.tables.length := h.storage.made _ _ _ ht
  obtain ⟨htarget, _⟩ := Storage.linkTarget?_eq_some_iff.mp hu
  rw [Storage.withDeclared, Storage.table_withTable_old hmade] at htarget
  obtain ⟨column, hcolumn, hlink⟩ := Option.bind_eq_some_iff.mp htarget
  obtain ⟨name', hname'⟩ :=
    h.linksInside.stored h.storage ht (Table.mem_columns_of_columnAt? hcolumn) hlink
  rw [Storage.withDeclared, Storage.table_withTable_old (h.storage.made _ _ _ hname')] at hclass
  -- The table that is linked to was there before, while the class had none.
  have hknown := h.classTable?_of_tableNamed? hname'
  rw [hclass, hfree] at hknown
  cases hknown

theorem InStep.placed_backlink_iff (h : w.InStep) (hfree : w.classTable? c.className = none)
    (hstorable : ∀ f ∈ c.columns, f.Storable (w.storage.classTableWith? w.database c.className))
    (hn : (c.columns.map FieldDecl.name).Nodup) {f : FieldDecl} {b : BacklinkDecl}
    (hb : f.backlink = some b) :
    (∃ p, f.Placed (c.builder w.database w.registry.settings ⟨w.storage.tables.length⟩)
      (w.storage.withDeclared w.database c) p) ↔ w.Sources c b := by
  constructor
  · rintro ⟨_, ⟨hnone, _⟩ | ⟨hread, ht, hi, hlinked⟩⟩
    · rw [hb] at hnone
      cases hnone
    · obtain rfl := Option.some.inj (hb.symm.trans hread)
      have hlook := (h.tableNamed?_withDeclared b.sourceClass).symm.trans ht
      rw [h.classTableWith?_eq] at hlook
      split at hlook
      next hsource =>
        obtain rfl := Option.some.inj hlook
        obtain ⟨g, hg, hname, htype, htarget⟩ := h.declared_column hn hi
        refine .own hsource hg hname fun hverify => ?_
        obtain ⟨hlink, u, hu, hclass⟩ := hlinked hverify
        rw [htype] at hlink
        have hlinkedClass := h.className_target (htarget.symm.trans hu)
        exact ⟨FieldType.mem_links_iff.mpr hlink, hlinkedClass.trans (congrArg some hclass)⟩
      next hsource =>
        have hverify : w.registry.settings.verifyColumnTypes = false := by
          refine Bool.eq_false_iff.mpr fun hverify => ?_
          obtain ⟨_, u, hu, hclass⟩ := hlinked hverify
          exact h.not_links_new hfree hlook hu hclass
        have hold := h.storage.made _ _ _ hlook
        rw [Storage.withDeclared, Storage.table_withTable_old hold] at hi
        exact .other hsource hverify hlook (Table.hasColumn_iff.mpr ⟨_, hi⟩)
  · rintro (⟨hsource, hg, hname, hlinked⟩ | ⟨hsource, hverify, ht, hcolumn⟩)
    · have hlook := h.tableNamed?_withDeclared (c := c) b.sourceClass
      rw [h.classTableWith?_eq, if_pos hsource] at hlook
      obtain ⟨i, hi⟩ := List.mem_iff_getElem?.mp hg
      obtain ⟨hindex, htype, htarget⟩ := Storage.columns_withDeclared h.opened hn hi
      rw [hname] at hindex
      refine ⟨_, .backlink hb hlook hindex fun hv => ?_⟩
      obtain ⟨hlink, hclass⟩ := hlinked hv
      rw [FieldType.mem_links_iff] at hlink
      obtain ⟨_, u, _, _, hu⟩ := (hstorable _ hg).target hlink
      have hown := h.className_target hu
      rw [htype, htarget]
      exact ⟨hlink, u, hu, (Option.some.inj (hclass.symm.trans hown)).symm⟩
    · have hlook := h.tableNamed?_withDeclared (c := c) b.sourceClass
      rw [h.classTableWith?_eq, if_neg hsource, ht] at hlook
      obtain ⟨index, hi⟩ := Table.hasColumn_iff.mp hcolumn
      have hold := h.storage.made _ _ _ ht
      rw [← Storage.table_withTable_old hold] at hi
      exact ⟨_, .backlink hb hlook hi fun hv =>
        absurd (hverify.symm.trans hv) Bool.false_ne_true⟩

/-- The mapping of a class can be built on its new table exactly when its names are different and
its backlinks have their sources. -/
theorem InStep.builds_created_iff (h : w.InStep) (hfree : w.classTable? c.className = none)
    (hstorable : ∀ f ∈ c.columns, f.Storable (w.storage.classTableWith? w.database c.className))
    (hn : (c.columns.map FieldDecl.name).Nodup) :
    (∃ m, c.buildMapping (w.storage.withDeclared w.database c) w.database w.registry.settings = .ok m) ↔
      (c.fields.map FieldDecl.name).Nodup ∧
      ∀ f ∈ c.fields, ∀ b, f.backlink = some b → w.Sources c b := by
  have hlook := h.tableNamed?_withDeclared (c := c) c.className
  rw [h.classTableWith?_eq, if_pos rfl] at hlook
  rw [ClassDecl.builds_iff_settled]
  constructor
  · rintro ⟨t, ht, hsettled⟩
    obtain rfl := Option.some.inj (hlook.symm.trans ht)
    refine ⟨hsettled.distinct, fun f hf b hb => ?_⟩
    exact (h.placed_backlink_iff hfree hstorable hn hb).mp (hsettled.placed f hf)
  · rintro ⟨hdistinct, hsources⟩
    refine ⟨_, hlook, hdistinct, fun f hf => ?_⟩
    cases hb : f.backlink with
    | none => exact h.placed_column hstorable hn (ClassDecl.mem_columns_iff.mpr ⟨hf, hb⟩)
    | some b => exact (h.placed_backlink_iff hfree hstorable hn hb).mpr (hsources f hf b hb)

theorem InStep.passes_iff_admits (h : w.InStep) : w.Passes c ↔ w.Admits c := by
  constructor
  · rintro ⟨hnamed, hunregistered, hfree, m, hchecked⟩
    obtain ⟨_, hmade, hbuilt⟩ := bind_eq_ok_iff.mp hchecked
    have hcreated : w.storage.createDeclared w.database c =
        (.ok (), (w.storage.createDeclared w.database c).2) := Prod.ext hmade rfl
    obtain ⟨hstorable, hn, hdeclared⟩ :=
      (Storage.createDeclared_eq_ok_iff h.opened hnamed hfree).mp hcreated
    rw [hdeclared] at hbuilt
    have huntabled := (h.classTable?_eq c.className).trans hfree
    obtain ⟨hdistinct, hsources⟩ := (h.builds_created_iff huntabled hstorable hn).mp ⟨m, hbuilt⟩
    exact ⟨hnamed, hunregistered, huntabled, hdistinct,
      fun f hf => h.storable_iff.mp (hstorable f hf), hsources⟩
  · intro ha
    have hfree := (h.classTable?_eq c.className).symm.trans ha.untabled
    have hstorable := fun f hf => h.storable_iff.mpr (ha.columns f hf)
    have hn := ClassDecl.nodup_columns ha.distinct
    have hmade := (Storage.createDeclared_eq_ok_iff h.opened ha.named hfree).mpr ⟨hstorable, hn, rfl⟩
    obtain ⟨m, hm⟩ := (h.builds_created_iff ha.untabled hstorable hn).mpr ⟨ha.distinct, ha.backlinks⟩
    refine ⟨ha.named, ha.unregistered, hfree, m, ?_⟩
    rw [hmade]
    exact hm

theorem InStep.classTable?_withCreated (h : w.InStep) (name : String) :
    (w.withCreated c).classTable? name = w.storage.classTableWith? w.database c.className name :=
  h.tableNamed?_withDeclared name

/-- A class that was just created is described by its declaration. -/
theorem InStep.described_withCreated (h : w.InStep) (ha : w.Admits c) :
    (w.withCreated c).described c.className = (.ok c.summary, w.withCreated c) := by
  have hdecl : (w.withCreated c).registry.declNamed? c.className = some c := by
    change (w.registry.withClass c).declNamed? c.className = some c
    rw [Registry.declNamed?, Registry.classId?_withClass, if_pos rfl, Option.bind_some,
      Registry.decl?_withClass, if_pos rfl]
  have htable := h.classTable?_withCreated (c := c) c.className
  rw [h.classTableWith?_eq, if_pos rfl] at htable
  have hcolumns : ((w.withCreated c).storage.columnsOf ⟨w.storage.tables.length⟩).map
      (fun f => (⟨f.1, f.2.1, f.2.2⟩ : FieldSummary)) = c.columns.map fun f =>
        ⟨f.name, f.fieldType, if f.fieldType.isLink then f.linkedClass else none⟩ := by
    change ((w.storage.withDeclared w.database c).columnsOf ⟨w.storage.tables.length⟩).map _ = _
    have htable' : ((w.storage.withDeclared w.database c).table ⟨w.storage.tables.length⟩).columns =
        c.columns.map (FieldDecl.columnIn (w.storage.classTableWith? w.database c.className)) := by
      rw [Storage.withDeclared, Storage.table_withTable_new]
    rw [Storage.columnsOf, htable', List.map_map, List.map_map]
    refine List.map_congr_left fun f hf => ?_
    have hlinked := h.shown_target (h.storable_iff.mpr (ha.columns f hf))
    simp only [Function.comp, hlinked]
    rfl
  rw [described, describe?_eq, hdecl, Option.bind_some, htable]
  simp only [Option.map_some, summary, hcolumns]
  rfl

/-- A class that is admitted while there are identifiers is created as declared. -/
theorem InStep.create_admitted (h : w.InStep) (hleft : w.registry.nextId ≠ 0xFFFFFFFF)
    (ha : w.Admits c) : w.create c = (.ok c.summary, w.withCreated c) := by
  have hempty : ¬c.className.isEmpty := fun he => ha.named (String.isEmpty_iff.mp he)
  have hfree := (h.classTable?_eq c.className).symm.trans ha.untabled
  have hexists : ¬((w.registry.classId? c.className).isSome ∨
      (w.storage.classTable? w.database c.className).isSome) := by
    rw [ha.unregistered, hfree]
    exact not_or.mpr ⟨Bool.false_ne_true, Bool.false_ne_true⟩
  have hstorable := fun f hf => h.storable_iff.mpr (ha.columns f hf)
  have hn := ClassDecl.nodup_columns ha.distinct
  have hmade := (Storage.createDeclared_eq_ok_iff h.opened ha.named hfree).mpr ⟨hstorable, hn, rfl⟩
  obtain ⟨m, hm⟩ := (h.builds_created_iff ha.untabled hstorable hn).mpr ⟨ha.distinct, ha.backlinks⟩
  have hregistered : w.registry.register c = .ok (⟨w.registry.nextId⟩, w.registry.withClass c) :=
    Registry.register_eq_ok_iff.mpr ⟨ha.named, ha.unregistered, hleft, rfl, rfl⟩
  rw [Workspace.create, if_neg hempty, if_neg hexists, hmade]
  simp only [Except.bind, hm, hregistered]
  exact h.described_withCreated ha

theorem InStep.tabledAs_withCreated (h : w.InStep) (ha : w.Admits c) :
    (w.withCreated c).TabledAs c ⟨w.storage.tables.length⟩ where
  table := by rw [h.classTable?_withCreated, h.classTableWith?_eq, if_pos rfl]
  count := by
    change ((w.storage.withDeclared w.database c).table _).columns.length = _
    rw [Storage.withDeclared, Storage.table_withTable_new, List.length_map]
  placed i f hf := by
    have hlook : (w.withCreated c).classTable? = w.storage.classTableWith? w.database c.className :=
      funext h.classTable?_withCreated
    rw [hlook]
    exact Storage.columns_withDeclared h.opened (ClassDecl.nodup_columns ha.distinct) hf

theorem InStep.create_ok_iff (h : w.InStep) (hleft : w.registry.nextId ≠ 0xFFFFFFFF) :
    (∃ summary, (w.create c).1 = .ok summary) ↔ w.Admits c := by
  constructor
  · rintro ⟨summary, hok⟩
    rcases create_checked h.storage h.opened c with ⟨_, e, s', he, _⟩ | ⟨hpasses, _⟩
    · rw [he] at hok
      cases hok
    · exact h.passes_iff_admits.mp hpasses
  · intro ha
    exact ⟨c.summary, by rw [h.create_admitted hleft ha]⟩

end Workspace

/-- While there are identifiers, exactly the admitted classes can be created. Such a class is then
registered and described as declared, its table has the declared columns, and the other tables and
their names are what they were. -/
theorem create_exact {s : Storage} {cells : CellStore} {d : DatabaseId} {r : Registry} {first : Int}
    {w : Workspace} (h : Opening s d r) (hl : s.LinksInside d)
    (hw : Workspace.start s cells d r first = .ok w) (changes : List Change)
    (hleft : (w.run changes).registry.nextId ≠ 0xFFFFFFFF) (c : ClassDecl) :
    ((∃ summary, ((w.run changes).create c).1 = .ok summary) ↔ (w.run changes).Admits c) ∧
    ∀ summary w', (w.run changes).create c = (.ok summary, w') →
      summary = c.summary ∧ w' = (w.run changes).withCreated c ∧
      ∃ t, w'.TabledAs c t ∧ (∀ u, u ≠ t → w'.storage.table u = (w.run changes).storage.table u) ∧
        ∀ name, name ≠ c.className → w'.classTable? name = (w.run changes).classTable? name := by
  have hstep := (Workspace.InStep.start h hl hw).run changes
  generalize w.run changes = w at *
  refine ⟨hstep.create_ok_iff hleft, fun summary w' hok => ?_⟩
  have ha := (hstep.create_ok_iff hleft).mp ⟨summary, by rw [hok]⟩
  obtain ⟨hsummary, rfl⟩ := Prod.mk.inj ((hstep.create_admitted hleft ha).symm.trans hok)
  obtain rfl := Except.ok.inj hsummary
  refine ⟨rfl, rfl, _, hstep.tabledAs_withCreated ha, fun u hu => ?_, fun name hname => ?_⟩
  · exact (Storage.table_withTable _ _ u).trans (if_neg fun he => hu (TableId.eq_iff.mpr he))
  · rw [hstep.classTable?_withCreated, hstep.classTableWith?_eq, if_neg hname]

/-- A series of books, of which each may continue another one. -/
def seriesClass : ClassDecl :=
  ⟨"Series", [.column "title" .string, .reverse "sequels" "Series" "prequel",
    .link "prequel" .object "Series", .link "books" .list "Book"]⟩

theorem shelf_create_exact : ∃ w, Workspace.start shelf .empty ⟨0⟩ shelfClasses 1 = .ok w ∧
    (w.run shelfChanges).registry.nextId ≠ 0xFFFFFFFF ∧ (w.run shelfChanges).Admits seriesClass ∧
    ∃ summary w', (w.run shelfChanges).create seriesClass = (.ok summary, w') ∧
      summary = seriesClass.summary ∧ ∃ t, w'.TabledAs seriesClass t := by
  obtain ⟨w, hw, hleft, summary, w', hok⟩ : ∃ w,
      Workspace.start shelf .empty ⟨0⟩ shelfClasses 1 = .ok w ∧
      (w.run shelfChanges).registry.nextId ≠ 0xFFFFFFFF ∧
      ∃ summary w', (w.run shelfChanges).create seriesClass = (.ok summary, w') :=
    ⟨_, rfl, by decide +kernel, _, _, rfl⟩
  have hexact := create_exact shelf_opening (by decide +kernel) hw shelfChanges hleft seriesClass
  obtain ⟨hsummary, _, t, htabled, _⟩ := hexact.2 summary w' hok
  exact ⟨w, hw, hleft, hexact.1.mp ⟨summary, by rw [hok]⟩, summary, w', hok, hsummary, t, htabled⟩

end ColumnAtlas
