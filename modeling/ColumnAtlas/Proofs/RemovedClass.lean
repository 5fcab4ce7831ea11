import ColumnAtlas.Proofs.SchemaInStep

namespace ColumnAtlas

namespace Registry

/-- The first backlink of another class that reads from a class: the classes come in the order of
their identifiers. -/
structure FirstReader (r : Registry) (className : String) (id : ClassId) (c : ClassDecl)
    (f : FieldDecl) : Prop where
  registered : r.decl? id = some c
  other : c.className ≠ className
  first : (c.fields.find? fun g => g.readsFrom className) = some f
  least : ∀ id' c', id' < id → r.decl? id' = some c' → c'.className ≠ className →
    ∀ g ∈ c'.fields, ¬g.readsFrom className

/-- No backlink of another class reads from a class. -/
def Unread (r : Registry) (className : String) : Prop :=
  ∀ id c, r.decl? id = some c → c.className ≠ className → ∀ f ∈ c.fields, ¬f.readsFrom className

variable {r : Registry} {className : String}

theorem head?_backlinksFrom_eq_none :
    (r.backlinksFrom className).head? = none ↔ r.Unread className := by
  rw [backlinksFrom, SortedMap.head?_scan_eq_none_iff]
  simp only [decide_eq_true_eq]
  rfl

theorem head?_backlinksFrom_eq_some {user : String} : (r.backlinksFrom className).head? = some user ↔
    ∃ id c f, r.FirstReader className id c f ∧ c.className ++ "." ++ f.name = user := by
  rw [backlinksFrom, SortedMap.head?_scan_eq_some_iff]
  simp only [decide_eq_true_eq]
  constructor
  · rintro ⟨id, c, f, hc, hne, hf, huser, hleast⟩
    exact ⟨id, c, f, ⟨hc, hne, hf, hleast⟩, huser⟩
  · rintro ⟨id, c, f, ⟨hc, hne, hf, hleast⟩, huser⟩
    exact ⟨id, c, f, hc, hne, hf, huser, hleast⟩

end Registry

namespace Storage

/-- The first column of another table that points at a table: the tables come in the order of their
names. -/
structure FirstLink (s : Storage) (d : DatabaseId) (target : TableId) (name : String) (t : TableId)
    (column : Column) : Prop where
  stored : s.tableNamed? d name = some t
  other : t ≠ target
  first : ((s.table t).columns.find? fun c => c.target = some target) = some column
  least : ∀ name' t', name' < name → s.tableNamed? d name' = some t' → t' ≠ target →
    ∀ c ∈ (s.table t').columns, c.target ≠ some target

/-- No column of another table of the database points at a table. -/
def Unlinked (s : Storage) (d : DatabaseId) (target : TableId) : Prop :=
  ∀ name t, s.tableNamed? d name = some t → t ≠ target →
    ∀ c ∈ (s.table t).columns, c.target ≠ some target

variable {s : Storage} {d : DatabaseId} {className : String} {target : TableId}

/-- The scan for the links to a table of a class. -/
theorem referencing_eq (ht : s.classTable? d className = some target) :
    s.referencing d className =
      ((s.database d).tables.values.filter (· ≠ target)).flatMap fun t =>
        ((s.table t).columns.filter fun c => c.target = some target).map fun c =>
          ((s.table t).className, c.name) := by
  have halive : s.isAlive target := isAlive_of_tableNamed? ht
  have htarget (c : Column) : c.target.filter s.isAlive = some target ↔ c.target = some target := by
    rw [Option.filter_eq_some_iff]
    exact and_iff_left halive
  rw [referencing, ht]
  simp only [linksTo, htarget, List.map_map]
  rfl

theorem head?_referencing_eq_none (ht : s.classTable? d className = some target) :
    (s.referencing d className).head? = none ↔ s.Unlinked d target := by
  rw [referencing_eq ht, SortedMap.head?_scan_eq_none_iff]
  simp only [decide_eq_true_eq]
  rfl

theorem head?_referencing_eq_some (ht : s.classTable? d className = some target)
    {user : String × String} : (s.referencing d className).head? = some user ↔
      ∃ name t column, s.FirstLink d target name t column ∧
        ((s.table t).className, column.name) = user := by
  rw [referencing_eq ht, SortedMap.head?_scan_eq_some_iff]
  simp only [decide_eq_true_eq]
  constructor
  · rintro ⟨name, t, column, hn, hne, hcolumn, huser, hleast⟩
    exact ⟨name, t, column, ⟨hn, hne, hcolumn, hleast⟩, huser⟩
  · rintro ⟨name, t, column, ⟨hn, hne, hcolumn, hleast⟩, huser⟩
    exact ⟨name, t, column, hn, hne, hcolumn, huser, hleast⟩

end Storage

namespace Workspace

/-- What a class needs to be removed. -/
structure Removable (w : Workspace) (className : String) : Prop where
  registered : ∃ id, w.registry.classId? className = some id
  unread : w.registry.Unread className
  unlinked : ∀ t, w.classTable? className = some t → w.storage.Unlinked w.database t

/-- Why a class cannot be removed. -/
inductive Blocked (w : Workspace) (className : String) : Error → Prop
  | unregistered : w.registry.classId? className = none →
      Blocked w className (.state (.classNotFound className))
  | read {id id' : ClassId} {c : ClassDecl} {f : FieldDecl} :
      w.registry.classId? className = some id → w.registry.FirstReader className id' c f →
      Blocked w className (.state (.classStillReferenced className (c.className ++ "." ++ f.name)))
  | linked {id : ClassId} {target t : TableId} {name : String} {column : Column} :
      w.registry.classId? className = some id → w.registry.Unread className →
      w.classTable? className = some target → w.storage.FirstLink w.database target name t column →
      Blocked w className (.state (.classStillReferenced className
        ((w.storage.table t).className ++ "." ++ column.name)))

/-- The class and its table are gone. -/
def withRemoved (w : Workspace) (id : ClassId) (c : ClassDecl) : Workspace :=
  w.changed (w.storage.withoutTable w.database c.className) (w.registry.withoutClass id c)

/-- Nothing but a class and its table is gone, and all other classes are stored where they were. -/
structure Removal (w : Workspace) (id : ClassId) (c : ClassDecl) (w' : Workspace) : Prop where
  registered : w.registry.decl? id = some c
  result : w' = w.withRemoved id c
  tables : ∀ name, w'.classTable? name = if name = c.className then none else w.classTable? name
  contents : ∀ t, w'.storage.table t = w.storage.table t
  classes : ∀ id', w'.registry.decl? id' = if id' = id then none else w.registry.decl? id'
  retired : w'.registry.retired.get? id = some c.className
  mappings : ∀ id' c', id' ≠ id → w.registry.decl? id' = some c' → ∃ m,
    w.registry.buildMapping w.storage w.database id' = .ok m ∧
    w'.registry.buildMapping w'.storage w'.database id' = .ok m

variable {w : Workspace} {className : String} {id : ClassId}

theorem Blocked.remove {e : Error} (h : w.Live) (hb : w.Blocked className e) :
    w.remove className = (.error e, w) := by
  cases hb with
  | unregistered hid => simp only [Workspace.remove, hid]
  | read hid hfirst =>
    have huser := Registry.head?_backlinksFrom_eq_some.mpr ⟨_, _, _, hfirst, rfl⟩
    obtain ⟨rest, hlist⟩ := List.head?_eq_some_iff.mp huser
    simp only [Workspace.remove, hid, hlist]
  | linked hid hunread ht hfirst =>
    have hnone := List.head?_eq_none_iff.mp (Registry.head?_backlinksFrom_eq_none.mpr hunread)
    rw [h.classTable?_eq] at ht
    have huser := (Storage.head?_referencing_eq_some ht).mpr ⟨_, _, _, hfirst, rfl⟩
    obtain ⟨rest, hlist⟩ := List.head?_eq_some_iff.mp huser
    simp only [Workspace.remove, hid, hnone, Storage.removeTable, ht, hlist, Option.isNone_some,
      Bool.false_eq_true, if_false]

theorem InStep.removal (h : w.InStep) {c : ClassDecl} {t : TableId} (hc : w.registry.decl? id = some c)
    (ht : w.storage.classTable? w.database c.className = some t)
    (hread : w.registry.backlinksFrom c.className = [])
    (hlinked : w.storage.referencing w.database c.className = []) :
    w.Removal id c (w.withRemoved id c) where
  registered := hc
  result := rfl
  tables name := by
    change (w.storage.withoutTable w.database c.className).tableNamed? w.database
      (w.registry.settings.tableName name) = _
    rw [h.classTable?_eq, h.tableName_eq, Storage.tableNamed?_withoutTable h.opened]
    by_cases hname : name = c.className
    · rw [if_pos ⟨rfl, by rw [hname]⟩, if_pos hname]
    · rw [if_neg fun he => hname (tableNameOf_inj.mp he.2).symm, if_neg hname]
      rfl
  contents _ := rfl
  classes := Registry.decl?_withoutClass w.registry id c
  retired := (SortedMap.get?_insert w.registry.retired id id c.className).trans (if_pos rfl)
  mappings id' c' hne hc' := by
    obtain ⟨m, hm⟩ := h.builds id' c' hc'
    have hname : c'.className ≠ c.className := fun heq => hne (h.registry.name_inj hc hc' heq)
    -- Nothing that a mapping of another class reads was in the table.
    have hshows (n : String) (hn : n ∈ c'.reads) := Storage.shows_withoutTable h.storage h.linksInside
      h.samePrefix ht hlinked (Registry.ne_of_mem_reads hread hc' hname n hn)
    have hkept : (w.registry.withoutClass id c).decl? id' = some c' := by
      rw [Registry.decl?_withoutClass, if_neg hne, hc']
    exact ⟨m, Registry.buildMapping_eq_ok_iff.mpr ⟨c', hc', hm⟩,
      Registry.buildMapping_eq_ok_iff.mpr ⟨c', hkept, hm.keep hshows⟩⟩

theorem InStep.remove_removable (h : w.InStep) (hr : w.Removable className) :
    ∃ id c, c.className = className ∧ w.remove className = (.ok (), w.withRemoved id c) ∧
      w.Removal id c (w.withRemoved id c) := by
  obtain ⟨id, hid⟩ := hr.registered
  obtain ⟨c, hc, rfl⟩ := (h.registry.named className id).mp hid
  obtain ⟨m, hm⟩ := h.builds id c hc
  obtain ⟨t, ht, _⟩ := hm.placed
  have hread := List.head?_eq_none_iff.mp (Registry.head?_backlinksFrom_eq_none.mpr hr.unread)
  have hstored := (h.classTable?_eq c.className).symm.trans ht
  have hlinked := List.head?_eq_none_iff.mp
    ((Storage.head?_referencing_eq_none hstored).mpr (hr.unlinked t ht))
  have hremoved : w.storage.removeTable w.database c.className =
      .ok (w.storage.withoutTable w.database c.className) :=
    Storage.removeTable_eq_ok_iff.mpr ⟨⟨t, hstored⟩, hlinked, rfl⟩
  have hunregistered : w.registry.unregister id = some (c, w.registry.withoutClass id c) :=
    Registry.unregister_eq_some_iff.mpr ⟨hc, rfl⟩
  refine ⟨id, c, rfl, ?_, h.removal hc hstored hread hlinked⟩
  simp only [Workspace.remove, hid, hread, hremoved, hunregistered]
  rfl

/-- A registered class can be removed, or something blocks it. -/
theorem InStep.removable_or_blocked (h : w.InStep) (className : String) :
    w.Removable className ∨ ∃ e, w.Blocked className e := by
  cases hid : w.registry.classId? className with
  | none => exact .inr ⟨_, .unregistered hid⟩
  | some id =>
    cases hread : (w.registry.backlinksFrom className).head? with
    | some user =>
      obtain ⟨id', c, f, hfirst, _⟩ := Registry.head?_backlinksFrom_eq_some.mp hread
      exact .inr ⟨_, .read hid hfirst⟩
    | none =>
      have hunread := Registry.head?_backlinksFrom_eq_none.mp hread
      obtain ⟨c, hc, rfl⟩ := (h.registry.named className id).mp hid
      obtain ⟨m, hm⟩ := h.builds id c hc
      obtain ⟨t, ht, _⟩ := hm.placed
      have hstored := (h.classTable?_eq c.className).symm.trans ht
      cases hlinked : (w.storage.referencing w.database c.className).head? with
      | some user =>
        obtain ⟨name, t', column, hfirst, _⟩ := (Storage.head?_referencing_eq_some hstored).mp hlinked
        exact .inr ⟨_, .linked hid hunread ht hfirst⟩
      | none =>
        have hunlinked := (Storage.head?_referencing_eq_none hstored).mp hlinked
        refine .inl ⟨⟨id, hid⟩, hunread, fun t' ht' => ?_⟩
        obtain rfl := Option.some.inj (ht.symm.trans ht')
        exact hunlinked

end Workspace

/-- Exactly the registered classes that no other class reads from and no other table links to can be
removed. The removal of any other class is refused for the first thing that blocks it. -/
theorem remove_exact {s : Storage} {cells : CellStore} {d : DatabaseId} {r : Registry} {first : Int}
    {w : Workspace} (h : Opening s d r) (hl : s.LinksInside d)
    (hw : Workspace.start s cells d r first = .ok w) (changes : List Change) (className : String) :
    (((w.run changes).remove className).1 = .ok () ↔ (w.run changes).Removable className) ∧
    (∀ w', (w.run changes).remove className = (.ok (), w') →
      ∃ id c, c.className = className ∧ (w.run changes).Removal id c w') ∧
    ∀ e, ((w.run changes).remove className).1 = .error e ↔ (w.run changes).Blocked className e := by
  have hstep := (Workspace.InStep.start h hl hw).run changes
  generalize w.run changes = w at *
  rcases hstep.removable_or_blocked className with hr | ⟨e, hb⟩
  · obtain ⟨id, c, hname, hremoved, hremoval⟩ := hstep.remove_removable hr
    rw [hremoved]
    refine ⟨⟨fun _ => hr, fun _ => rfl⟩, ?_, ?_⟩
    · intro w' he
      obtain rfl := (Prod.mk.inj he).2
      exact ⟨id, c, hname, hremoval⟩
    · intro e
      refine ⟨nofun, fun hb => ?_⟩
      rw [hb.remove hstep.toLive] at hremoved
      cases hremoved
  · have hblocked := hb.remove hstep.toLive
    rw [hblocked]
    refine ⟨⟨nofun, fun hr => ?_⟩, nofun, ?_⟩
    · obtain ⟨id, c, _, hremoved, _⟩ := hstep.remove_removable hr
      rw [hblocked] at hremoved
      cases hremoved
    · intro e'
      constructor
      · intro he
        obtain rfl := Except.error.inj he
        exact hb
      · intro hb'
        exact congrArg Prod.fst (hblocked.symm.trans (hb'.remove hstep.toLive))

/-- On the shelf the reviews can go, and the books are still the backlink of their writers. -/
theorem shelf_remove_exact : ∃ w, Workspace.start shelf .empty ⟨0⟩ shelfClasses 1 = .ok w ∧
    (w.run shelfChanges).Removable "Review" ∧
    (∃ id c w', (w.run shelfChanges).remove "Review" = (.ok (), w') ∧ c.className = "Review" ∧
      (w.run shelfChanges).Removal id c w') ∧
    (w.run shelfChanges).Blocked "Book" (.state (.classStillReferenced "Book" "Writer.books")) := by
  obtain ⟨w, hw, w', hok, herror⟩ : ∃ w, Workspace.start shelf .empty ⟨0⟩ shelfClasses 1 = .ok w ∧
      ∃ w', (w.run shelfChanges).remove "Review" = (.ok (), w') ∧
        ((w.run shelfChanges).remove "Book").1 =
          .error (.state (.classStillReferenced "Book" "Writer.books")) := ⟨_, rfl, _, rfl, rfl⟩
  have hreview := remove_exact shelf_opening (by decide +kernel) hw shelfChanges "Review"
  have hbook := remove_exact shelf_opening (by decide +kernel) hw shelfChanges "Book"
  obtain ⟨id, c, hname, hremoval⟩ := hreview.2.1 w' hok
  have hreads := (hbook.2.2 _).mp herror
  exact ⟨w, hw, hreview.1.mp (by rw [hok]), ⟨id, c, w', hok, hname, hremoval⟩, hreads⟩

end ColumnAtlas
