import ColumnAtlas.Proofs.CachedHandles
import ColumnAtlas.Proofs.EditedStorage
import ColumnAtlas.Proofs.ShownTables
import ColumnAtlas.Route

namespace ColumnAtlas

/-- Everything that reads a class finds this table, under the prefix of the registry. -/
structure Workspace.ReadsFrom (w : Workspace) (className : String) (t : TableId) : Prop where
  classTable? : w.classTable? className = some t
  table? : w.table? className = some t
  contains : w.contains className = true
  describe? : ∃ backlinks, w.describe? className =
    some ⟨className, (w.storage.columnsOf t).map (fun f => ⟨f.1, f.2.1, f.2.2⟩) ++ backlinks⟩
  across : ∀ source field p, p.linkedClass = some className → p.fieldType.isRelationship = true →
    w.across source field p = .ok (some (className, t))
  start : ∃ b, MappingBuilder.start w.storage w.database w.registry.settings className = .ok b ∧
    b.table = t

/-- Removing and renaming a class act on this table, under the prefix of the database. -/
structure Workspace.ActsOn (w : Workspace) (className : String) (t : TableId) : Prop where
  classTable? : w.storage.classTable? w.database className = some t
  removed : ∀ s', w.storage.removeTable w.database className = .ok s' →
    ∀ d name, s'.tableNamed? d name ≠ some t
  renamed : ∀ new u s', w.storage.renameTable w.database className new = .ok (u, s') → u = t

/-- Every registered class has a table. -/
structure Workspace.Tabled (w : Workspace) : Prop extends Workspace.Live w where
  tabled : ∀ id c, w.registry.decl? id = some c → ∃ t, w.classTable? c.className = some t

namespace Registry

theorem settings_enrol (r : Registry) (e : Registration) : (r.enrol e).settings = r.settings := by
  have hstep := r.enrolment e
  generalize r.enrol e = r' at hstep ⊢
  cases hstep <;> rfl

theorem settings_run (r : Registry) (es : List Registration) : (r.run es).settings = r.settings := by
  induction es generalizing r with
  | nil => rfl
  | cons e es ih => exact (ih (r.enrol e)).trans (settings_enrol r e)

end Registry

namespace Workspace

variable {w w' : Workspace} {id : ClassId} {c : ClassDecl} {className : String} {t : TableId}

theorem readsFrom_of_classTable? (h : w.registry.Coherent) (hc : w.registry.decl? id = some c)
    (ht : w.classTable? c.className = some t) : w.ReadsFrom c.className t := by
  have hid : w.registry.classId? c.className = some id := (h.named _ _).mpr ⟨c, hc, rfl⟩
  have hdecl : w.registry.declNamed? c.className = some c := by
    rw [Registry.declNamed?, hid, Option.bind_some, hc]
  refine ⟨ht, ?_, ?_, ?_, ?_, ?_⟩
  · rw [table?, hid]
    exact ht
  · rw [contains, hid, ht]
    rfl
  · simp only [describe?, hdecl, ht, bind, Option.bind, pure]
    exact ⟨_, rfl⟩
  · intro source field p hp hrelationship
    simp only [across, hp, if_pos hrelationship, ht]
  · have hstored : w.storage.tableNamed? w.database (w.registry.settings.tableName c.className) =
        some t := ht
    rw [MappingBuilder.start, hstored]
    exact ⟨_, rfl, rfl⟩

theorem actsOn_of_classTable? (h : w.storage.Sound)
    (ht : w.storage.classTable? w.database className = some t) : w.ActsOn className t where
  classTable? := ht
  removed s' hs d name hstored := by
    obtain ⟨_, _, rfl⟩ := Storage.removeTable_eq_ok_iff.mp hs
    rw [Storage.tableNamed?_withoutTable (Storage.opened_of_tableNamed? ht)] at hstored
    split at hstored
    next => cases hstored
    next hne =>
      -- A table is in one database only, under the name of its class.
      obtain rfl := h.single _ _ _ _ _ hstored ht
      exact hne ⟨rfl, (h.keyed _ _ t ht).1.trans (h.keyed _ _ t hstored).1.symm⟩
  renamed new u s' hs := by
    obtain ⟨_, _, hu, _⟩ := Storage.renameTable_eq_ok_iff.mp hs
    exact Option.some.inj (hu.symm.trans ht)

theorem prefix_eq_of_shared (h : w.storage.Sound) (hread : w.classTable? className = some t)
    (hacted : w.storage.classTable? w.database className = some t) :
    (w.storage.database w.database).tablePrefix = w.registry.settings.tablePrefix := by
  have hname := (h.keyed _ _ t hacted).1.trans (h.keyed _ _ t hread).1.symm
  have hlist := congrArg String.toList hname
  simp only [Database.tableName, Settings.tableName, tableNameOf, String.toList_append] at hlist
  exact String.toList_injective (List.append_cancel_right hlist)

section Settings

theorem registry_refresh (w : Workspace) (version : Int) :
    (w.refresh version).2.registry = w.registry := by
  unfold refresh
  dsimp only
  split
  next => rfl
  next =>
    split
    next => rfl
    next => rfl

theorem Registers.settings (h : w.Registers w') : w'.registry.settings = w.registry.settings := by
  obtain ⟨_, _, registrations, hr⟩ := h
  rw [hr, Registry.settings_run]

theorem settings_apply (w : Workspace) (change : Change) :
    (w.apply change).registry.settings = w.registry.settings := by
  cases change with
  | create c => exact (registers_create w c).settings
  | remove className => exact (registers_remove w className).settings
  | rename old new => exact (registers_rename w old new).settings
  | refresh version => exact congrArg Registry.settings (registry_refresh w version)

theorem settings_run (w : Workspace) (changes : List Change) :
    (w.run changes).registry.settings = w.registry.settings := by
  induction changes generalizing w with
  | nil => rfl
  | cons change changes ih => exact (ih (w.apply change)).trans (settings_apply w change)

end Settings

namespace Tabled

theorem of_keeps (h : w.Tabled) {s' : Storage} (hlive : Live { w with storage := s' })
    (hk : w.storage.Keeps s' w.database) : Tabled { w with storage := s' } where
  toLive := hlive
  tabled id c hc := by
    obtain ⟨t, ht⟩ := h.tabled id c hc
    exact ⟨t, hk.named _ t ht⟩

theorem of_changed {s' : Storage} {r' : Registry} (hlive : (w.changed s' r').Live)
    (ht : ∀ id c, r'.decl? id = some c → ∃ t,
      s'.tableNamed? w.database (r'.settings.tableName c.className) = some t) :
    (w.changed s' r').Tabled :=
  ⟨hlive, ht⟩

theorem create (h : w.Tabled) (c : ClassDecl) : (w.create c).2.Tabled := by
  have hlive := h.toLive.create c
  rcases create_cases h.toLive c with ⟨e, s', he, hrestored, _⟩ | ⟨columns, hc, hmade⟩
  · rw [he] at hlive ⊢
    exact h.of_keeps hlive (hrestored.keeps h.storage _)
  · have hkeeps := Storage.keeps_withTable h.storage h.opened hc.untabled columns
    rcases hmade with ⟨_, e, he⟩ | ⟨_, summary, he⟩
    · rw [he] at hlive ⊢
      exact h.of_keeps hlive hkeeps
    · rw [he] at hlive ⊢
      refine of_changed hlive fun id c' hc' => ?_
      rw [Registry.decl?_withClass] at hc'
      split at hc'
      next =>
        obtain rfl := Option.some.inj hc'
        refine ⟨⟨w.storage.tables.length⟩, ?_⟩
        rw [Storage.tableNamed?_withTable h.opened, if_pos ⟨rfl, (h.tableName_eq _).symm⟩]
      next =>
        obtain ⟨t, ht⟩ := h.tabled id c' hc'
        exact ⟨t, hkeeps.named _ t ht⟩

theorem remove (h : w.Tabled) (className : String) : (w.remove className).2.Tabled := by
  have hlive := h.toLive.remove className
  rcases remove_cases h.toLive className with ⟨e, he⟩ | ⟨id, c, t, hc, rfl, ht, _, _, he⟩
  · rw [he]
    exact h
  · rw [he] at hlive ⊢
    refine of_changed hlive fun id' c' hc' => ?_
    rw [Registry.decl?_withoutClass] at hc'
    split at hc'
    next => cases hc'
    next hid =>
      obtain ⟨t', ht'⟩ := h.tabled id' c' hc'
      have hne : c'.className ≠ c.className := fun heq => hid (h.registry.name_inj hc hc' heq)
      refine ⟨t', ?_⟩
      rw [Storage.tableNamed?_withoutTable h.opened, if_neg ?_]
      · exact ht'
      · rintro ⟨_, hname⟩
        exact hne (tableNameOf_inj.mp (hname.trans (h.tableName_eq _))).symm

theorem rename (h : w.Tabled) (old new : String) : (w.rename old new).2.Tabled := by
  have hlive := h.toLive.rename old new
  rcases rename_cases h.toLive old new with
    ⟨e, he⟩ | ⟨id, c, t, summary, hc, rfl, _, ht, _, hfree, he⟩
  · rw [he]
    exact h
  · rw [he] at hlive ⊢
    refine of_changed hlive fun id' c' hc' => ?_
    rw [h.registry.decl?_withName hc] at hc'
    obtain ⟨before, hbefore, rfl⟩ := Option.map_eq_some_iff.mp hc'
    obtain ⟨u, hu⟩ := h.tabled id' before hbefore
    rw [h.classTable?_eq] at hu
    have hrenamed := Storage.tableNamed?_withRenamed_renamed ht hfree hu
    rw [← h.tableName_eq] at hrenamed
    exact ⟨u, hrenamed⟩

theorem refresh (h : w.Tabled) (version : Int) : (w.refresh version).2.Tabled := by
  have hlive := h.toLive.refresh version
  obtain ⟨g, hg, hg'⟩ := h.cached
  rcases refresh_cases hg hg' version with ⟨_, e, he⟩ | ⟨g', cells', he, _⟩
  · rw [he]
    exact h
  · rw [he] at hlive ⊢
    exact ⟨hlive, h.tabled⟩

theorem apply (h : w.Tabled) (change : Change) : (w.apply change).Tabled := by
  cases change with
  | create c => exact h.create c
  | remove className => exact h.remove className
  | rename old new => exact h.rename old new
  | refresh version => exact h.refresh version

theorem run (h : w.Tabled) (changes : List Change) : (w.run changes).Tabled := by
  induction changes generalizing w with
  | nil => exact h
  | cons change changes ih => exact ih (h.apply change)

theorem start {s : Storage} {cells : CellStore} {d : DatabaseId} {r : Registry} {version : Int}
    (h : Opening s d r) (hw : start s cells d r version = .ok w) : w.Tabled := by
  have hlive := Live.start h hw
  obtain ⟨g, cells', rfl, _, _, hbuilt⟩ := start_spec hw
  refine ⟨hlive, fun id c hc => ?_⟩
  obtain ⟨m, hm⟩ := hbuilt.builds id c hc
  obtain ⟨t, ht, _⟩ := hm.placed
  exact ⟨t, ht⟩

end Tabled

end Workspace

/-- In every state of a schema, the table that a registered class is read from is the one that changes
of the class act on exactly if the database and the registry were set up with one table prefix. -/
theorem same_table_iff {s : Storage} {cells : CellStore} {d : DatabaseId} {r : Registry} {first : Int}
    {w : Workspace} (hs : s.Reachable) (hd : d.index < s.databases.length) (hr : r.Reachable)
    (hw : Workspace.start s cells d r first = .ok w) (changes : List Change) {id : ClassId}
    {c : ClassDecl} (hc : (w.run changes).registry.decl? id = some c) :
    (∃ t, (w.run changes).ReadsFrom c.className t ∧ (w.run changes).ActsOn c.className t) ↔
      (s.database d).tablePrefix = r.settings.tablePrefix := by
  constructor
  · rintro ⟨t, hread, hacted⟩
    obtain ⟨rfl, rfl, rfl⟩ := Workspace.start_on hw
    obtain ⟨hedited, hdatabase⟩ := Workspace.reworks_run hs.sound changes
    have heq := Workspace.prefix_eq_of_shared (hedited.sound hs.sound) hread.classTable? hacted.classTable?
    rw [hdatabase, (hedited.keepsDatabases _ hd).2, Workspace.settings_run] at heq
    exact heq
  · intro hsame
    have hnow := (Workspace.Tabled.start ⟨hs, hd, hr, hsame⟩ hw).run changes
    obtain ⟨t, ht⟩ := hnow.tabled id c hc
    exact ⟨t, Workspace.readsFrom_of_classTable? hnow.registry hc ht,
      Workspace.actsOn_of_classTable? hnow.storage (hnow.classTable?_eq _ ▸ ht)⟩

theorem shelf_same_table : ∃ w, Workspace.start shelf .empty ⟨0⟩ shelfClasses 1 = .ok w ∧
    ∃ t, (w.run shelfChanges).ReadsFrom "Writer" t ∧ (w.run shelfChanges).ActsOn "Writer" t :=
  ⟨_, rfl, (same_table_iff shelf_opening.stored shelf_opening.opened shelf_opening.registered
    (rfl : Workspace.start shelf .empty ⟨0⟩ shelfClasses 1 = .ok _) shelfChanges
    (rfl : Registry.decl? _ ⟨0⟩ = some _)).mpr rfl⟩

/-- A database with tables for the classes of dogs and of one's own dogs. -/
def kennel : Storage :=
  Storage.empty.run [.openDatabase "main" "class_", .createTable ⟨0⟩ "MyDog", .createTable ⟨0⟩ "Dog"]

/-- The class of dogs, under a prefix that ends in the first part of the other class name. -/
def kennelClasses : Registry :=
  (Registry.new ⟨"class_My", true⟩).run [.register (.named "Dog")]

/-- A schema opens although the prefixes differ. It reads the class from one table, and removing the
class takes away another one. -/
theorem kennel_not_same_table : ∃ w, Workspace.start kennel .empty ⟨0⟩ kennelClasses 1 = .ok w ∧
    w.registry.decl? ⟨0⟩ = some (.named "Dog") ∧ w.table? "Dog" = some ⟨0⟩ ∧
    w.storage.classTable? w.database "Dog" = some ⟨1⟩ ∧ (w.remove "Dog").1 = .ok () ∧
    (w.remove "Dog").2.classTable? "Dog" = some ⟨0⟩ :=
  ⟨_, rfl, rfl, rfl, rfl, rfl, by decide +kernel⟩

end ColumnAtlas
