import ColumnAtlas.Change
import ColumnAtlas.Proofs.CoherentRegistry
import ColumnAtlas.Proofs.CreatedTable
import ColumnAtlas.Proofs.RefreshedCache

namespace ColumnAtlas

/-- What holds of a schema whatever is stored: its registry is coherent, its database is open under
the table prefix of the registry, and its cache is in use. -/
structure Workspace.Live (w : Workspace) : Prop where
  storage : w.storage.Sound
  opened : w.database.index < w.storage.databases.length
  registry : w.registry.Coherent
  samePrefix : (w.storage.database w.database).tablePrefix = w.registry.settings.tablePrefix
  cached : ∃ g, w.schema.cache.installed = some g ∧ g.Live w.cells

/-- A schema is opened on an open database, under the table prefix of its registry. -/
structure Opening (s : Storage) (d : DatabaseId) (r : Registry) : Prop where
  stored : s.Reachable
  opened : d.index < s.databases.length
  registered : r.Reachable
  samePrefix : (s.database d).tablePrefix = r.settings.tablePrefix

/-- A database whose books link to their authors. -/
def shelf : Storage :=
  Storage.empty.run [.openDatabase "main" "class_", .createTable ⟨0⟩ "Author",
    .addColumn ⟨0⟩ "name" .string, .createTable ⟨0⟩ "Book", .addColumn ⟨1⟩ "title" .string,
    .addLink ⟨1⟩ "author" .object ⟨0⟩]

/-- The classes of the shelf, where an author also has the books that link to it. -/
def shelfClasses : Registry :=
  (Registry.new .default).run [
    .register ⟨"Author", [.column "name" .string, .reverse "books" "Book" "author"]⟩,
    .register ⟨"Book", [.column "title" .string, .link "author" .object "Author"]⟩]

/-- Changes of the shelf, of which the removal fails. -/
def shelfChanges : List Change :=
  [.rename "Author" "Writer", .create ⟨"Review", [.column "stars" .integer, .link "book" .object "Book"]⟩,
    .remove "Book", .refresh 2]

theorem shelf_opening : Opening shelf ⟨0⟩ shelfClasses :=
  ⟨⟨_, rfl⟩, by decide +kernel, ⟨_, _, rfl⟩, rfl⟩

namespace Storage

theorem Restored.keepsDatabases {s s' : Storage} (h : s.Restored s') : s.KeepsDatabases s' := by
  intro d hd
  rw [database, database, h.databases]
  exact ⟨hd, rfl⟩

theorem Sound.discardTable {s : Storage} (h : s.Sound) (d : DatabaseId) (className : String) :
    (s.discardTable d className).Sound := by
  unfold Storage.discardTable
  split
  next s' hs =>
    obtain ⟨_, _, rfl⟩ := removeTable_eq_ok_iff.mp hs
    exact h.withoutTable d className
  next => exact h

end Storage

namespace Workspace

variable {w : Workspace}

theorem Live.tableName_eq (h : w.Live) (className : String) :
    w.registry.settings.tableName className = (w.storage.database w.database).tableName className := by
  rw [Settings.tableName, Database.tableName, h.samePrefix]

theorem Live.classTable?_eq (h : w.Live) (className : String) :
    w.classTable? className = w.storage.classTable? w.database className := by
  rw [classTable?, h.tableName_eq]
  rfl

theorem described_exists {className : String} {c : ClassDecl} {t : TableId}
    (hc : w.registry.declNamed? className = some c) (ht : w.classTable? className = some t) :
    ∃ summary, w.described className = (.ok summary, w) := by
  simp only [described, describe?, hc, ht, bind, Option.bind, pure]
  exact ⟨_, rfl⟩

theorem Live.described_created (h : w.Live) (c : ClassDecl) (columns : List Column) :
    ∃ summary, (w.changed (w.storage.withTable w.database c.className columns)
      (w.registry.withClass c)).described c.className = (.ok summary, w.changed
        (w.storage.withTable w.database c.className columns) (w.registry.withClass c)) := by
  have hc : (w.registry.withClass c).declNamed? c.className = some c := by
    rw [Registry.declNamed?, Registry.classId?_withClass, if_pos rfl, Option.bind_some,
      Registry.decl?_withClass, if_pos rfl]
  have ht : (w.storage.withTable w.database c.className columns).tableNamed? w.database
      (w.registry.settings.tableName c.className) = some ⟨w.storage.tables.length⟩ := by
    rw [h.tableName_eq, Storage.tableNamed?_withTable h.opened, if_pos ⟨rfl, rfl⟩]
  exact described_exists hc ht

theorem Live.described_renamed (h : w.Live) {id : ClassId} {c : ClassDecl}
    (hc : w.registry.decl? id = some c) (old new : String) (t : TableId) :
    ∃ summary, (w.changed (w.storage.withRenamed w.database old new t)
      (w.registry.withName id c new)).described new = (.ok summary, w.changed
        (w.storage.withRenamed w.database old new t) (w.registry.withName id c new)) := by
  have hdecl : (w.registry.withName id c new).declNamed? new =
      some (c.mapClasses (renamed c.className new)) := by
    rw [Registry.declNamed?, Registry.classId?_withName, if_pos rfl, Option.bind_some,
      h.registry.decl?_withName hc, hc, Option.map_some]
  have ht : (w.storage.withRenamed w.database old new t).tableNamed? w.database
      (w.registry.settings.tableName new) = some t := by
    rw [h.tableName_eq, Storage.tableNamed?_withRenamed h.opened, if_pos ⟨rfl, rfl⟩]
  exact described_exists hdecl ht

/-- A declared class can be created with the given columns. -/
structure Creates (w : Workspace) (c : ClassDecl) (columns : List Column) : Prop where
  named : c.className ≠ ""
  unregistered : w.registry.classId? c.className = none
  untabled : w.storage.classTable? w.database c.className = none
  sound : (w.storage.withTable w.database c.className columns).Sound
  links : w.storage.LinksAmong w.database columns
  mapped : ∃ m, c.Mapped (w.storage.withTable w.database c.className columns) w.database
    w.registry.settings m

/-- A declared class passes everything that is checked before it gets an identifier. -/
structure Passes (w : Workspace) (c : ClassDecl) : Prop where
  named : c.className ≠ ""
  unregistered : w.registry.classId? c.className = none
  untabled : w.storage.classTable? w.database c.className = none
  checked : ∃ m, ((w.storage.createDeclared w.database c).1.bind fun _ =>
    c.buildMapping (w.storage.createDeclared w.database c).2 w.database w.registry.settings) = .ok m

/-- Making a class fails without a trace unless it passes the checks. Its table is made then, and only
the registry can still refuse it. -/
theorem create_checked (hs : w.storage.Sound) (hd : w.database.index < w.storage.databases.length)
    (c : ClassDecl) :
    (¬ w.Passes c ∧ ∃ e s', w.create c = (.error e, { w with storage := s' }) ∧
      w.storage.Restored s' ∧ s'.Sound) ∨
    w.Passes c ∧ ∃ columns, w.Creates c columns ∧
      (∀ e, w.registry.register c = .error e → w.create c =
        (.error e, { w with storage := w.storage.withTable w.database c.className columns })) ∧
      ∀ id r, w.registry.register c = .ok (id, r) → w.create c =
        (w.changed (w.storage.withTable w.database c.className columns) r).described c.className := by
  have hunchanged {e : Error} (he : w.create c = (.error e, w)) : ∃ e s',
      w.create c = (.error e, { w with storage := s' }) ∧ w.storage.Restored s' ∧ s'.Sound :=
    ⟨e, w.storage, he, .refl _, hs⟩
  by_cases hempty : c.className.isEmpty
  · exact .inl ⟨fun hp => hp.named (String.isEmpty_iff.mp hempty),
      hunchanged (by rw [create, if_pos hempty])⟩
  have hne : c.className ≠ "" := fun he => hempty (String.isEmpty_iff.mpr he)
  by_cases hexists : (w.registry.classId? c.className).isSome ∨
      (w.storage.classTable? w.database c.className).isSome
  · refine .inl ⟨fun hp => ?_, hunchanged (by rw [create, if_neg hempty, if_pos hexists])⟩
    rw [hp.unregistered, hp.untabled] at hexists
    exact hexists.elim Bool.false_ne_true Bool.false_ne_true
  obtain ⟨hid, hfree⟩ := not_or.mp hexists
  rw [Option.not_isSome_iff_eq_none] at hid hfree
  obtain ⟨columns, hmade, hsound, hlinks⟩ := Storage.createDeclared_withTable hs hne hfree
  cases hchecked : (w.storage.createDeclared w.database c).1.bind fun _ =>
      c.buildMapping (w.storage.createDeclared w.database c).2 w.database w.registry.settings with
  | error e =>
    refine .inl ⟨fun hp => ?_, e,
      (w.storage.createDeclared w.database c).2.discardTable w.database c.className, ?_, ?_, ?_⟩
    · obtain ⟨m, hm⟩ := hp.checked
      rw [hchecked] at hm
      cases hm
    · simp only [create, if_neg hempty, if_neg hexists, hchecked]
    · rw [hmade]
      exact Storage.discardTable_withTable hs hd hfree
    · rw [hmade]
      exact hsound.discardTable _ _
  | ok m =>
    have hpasses : w.Passes c := ⟨hne, hid, hfree, m, hchecked⟩
    rw [hmade] at hchecked
    obtain ⟨_, _, hbuilt⟩ := bind_eq_ok_iff.mp hchecked
    have hmapped := ClassDecl.buildMapping_eq_ok_iff.mp hbuilt
    refine .inr ⟨hpasses, columns, ⟨hne, hid, hfree, hsound, hlinks, m, hmapped⟩, ?_, ?_⟩
    · intro e hr
      simp only [create, if_neg hempty, if_neg hexists, hmade, hchecked, hr]
    · intro id r hr
      simp only [create, if_neg hempty, if_neg hexists, hmade, hchecked, hr]

theorem Passes.register_exhausted {c : ClassDecl} (h : w.Passes c)
    (hlast : w.registry.nextId = 0xFFFFFFFF) :
    w.registry.register c = .error (.state .classIdsExhausted) := by
  have hne : ¬ c.className.isEmpty := fun he => h.named (String.isEmpty_iff.mp he)
  have hnone : ¬ w.registry.ids.contains c.className :=
    Option.not_isSome_iff_eq_none.mpr h.unregistered
  rw [Registry.register, if_neg hne, if_neg hnone, if_pos hlast]

/-- Making a class fails without a trace, makes its table and fails for want of an identifier, or
succeeds. -/
theorem create_cases (h : w.Live) (c : ClassDecl) :
    (∃ e s', w.create c = (.error e, { w with storage := s' }) ∧ w.storage.Restored s' ∧ s'.Sound) ∨
    ∃ columns, w.Creates c columns ∧
      ((w.registry.nextId = 0xFFFFFFFF ∧ ∃ e, w.create c =
          (.error e, { w with storage := w.storage.withTable w.database c.className columns })) ∨
        (w.registry.nextId ≠ 0xFFFFFFFF ∧ ∃ summary, w.create c =
          (.ok summary, w.changed (w.storage.withTable w.database c.className columns)
            (w.registry.withClass c)))) := by
  rcases create_checked h.storage h.opened c with ⟨_, hfailed⟩ | ⟨hpasses, columns, hc, hrefused, hmade⟩
  · exact .inl hfailed
  refine .inr ⟨columns, hc, ?_⟩
  by_cases hlast : w.registry.nextId = 0xFFFFFFFF
  · exact .inl ⟨hlast, _, hrefused _ (hpasses.register_exhausted hlast)⟩
  · have hr : w.registry.register c = .ok (⟨w.registry.nextId⟩, w.registry.withClass c) :=
      Registry.register_eq_ok_iff.mpr ⟨hc.named, hc.unregistered, hlast, rfl, rfl⟩
    obtain ⟨summary, hdescribed⟩ := h.described_created c columns
    exact .inr ⟨hlast, summary, (hmade _ _ hr).trans hdescribed⟩

/-- Removing a class fails without a trace, or takes away its table and its declaration, which
nothing else refers to. -/
theorem remove_cases (h : w.Live) (className : String) :
    (∃ e, w.remove className = (.error e, w)) ∨
    ∃ id c t, w.registry.decl? id = some c ∧ c.className = className ∧
      w.storage.classTable? w.database className = some t ∧ w.registry.backlinksFrom className = [] ∧
      w.storage.referencing w.database className = [] ∧
      w.remove className = (.ok (), w.changed (w.storage.withoutTable w.database className)
        (w.registry.withoutClass id c)) := by
  cases hid : w.registry.classId? className with
  | none => exact .inl ⟨_, by simp only [remove, hid]; rfl⟩
  | some id =>
    cases hb : w.registry.backlinksFrom className with
    | cons user _ => exact .inl ⟨_, by simp only [remove, hid, hb]; rfl⟩
    | nil =>
      cases hs : w.storage.removeTable w.database className with
      | error e => exact .inl ⟨e, by simp only [remove, hid, hb, hs]⟩
      | ok s' =>
        obtain ⟨⟨t, ht⟩, hreferencing, rfl⟩ := Storage.removeTable_eq_ok_iff.mp hs
        obtain ⟨c, hc, hname⟩ := (h.registry.named className id).mp hid
        have hr : w.registry.unregister id = some (c, w.registry.withoutClass id c) :=
          Registry.unregister_eq_some_iff.mpr ⟨hc, rfl⟩
        exact .inr ⟨id, c, t, hc, hname, ht, rfl, hreferencing, by simp only [remove, hid, hb, hs, hr]⟩

/-- A class with a table can be renamed to any name that is free in the registry and the database. -/
theorem rename_exists (h : w.Live) {old new : String} {id : ClassId} {c : ClassDecl} {t : TableId}
    (hc : w.registry.decl? id = some c) (hname : c.className = old) (hne : new ≠ "")
    (ht : w.storage.classTable? w.database old = some t) (hnone : w.registry.classId? new = none)
    (hfree : w.storage.classTable? w.database new = none) : ∃ summary, w.rename old new =
      (.ok summary, w.changed (w.storage.withRenamed w.database old new t)
        (w.registry.withName id c new)) := by
  have hid : w.registry.classId? old = some id := (h.registry.named old id).mpr ⟨c, hc, hname⟩
  have hnew : ¬(w.registry.classId? new).isSome := by simp [hnone]
  have hs : w.storage.renameTable w.database old new =
      .ok (t, w.storage.withRenamed w.database old new t) :=
    Storage.renameTable_eq_ok_iff.mpr ⟨hne, hfree, ht, rfl⟩
  have hr : w.registry.rename id new = .ok (w.registry.withName id c new) :=
    Registry.rename_eq_ok_iff.mpr ⟨hnone, c, hc, rfl⟩
  obtain ⟨summary, hdescribed⟩ := h.described_renamed hc old new t
  refine ⟨summary, ?_⟩
  simp only [rename, hid, if_neg hnew, hs, hr]
  exact hdescribed

/-- Renaming a class fails without a trace, or gives its table and its declaration the new name,
which was free in both. -/
theorem rename_cases (h : w.Live) (old new : String) :
    (∃ e, w.rename old new = (.error e, w)) ∨
    ∃ id c t summary, w.registry.decl? id = some c ∧ c.className = old ∧ new ≠ "" ∧
      w.storage.classTable? w.database old = some t ∧ w.registry.classId? new = none ∧
      w.storage.classTable? w.database new = none ∧
      w.rename old new = (.ok summary, w.changed (w.storage.withRenamed w.database old new t)
        (w.registry.withName id c new)) := by
  cases hid : w.registry.classId? old with
  | none => exact .inl ⟨_, by simp only [rename, hid]; rfl⟩
  | some id =>
    by_cases hnew : (w.registry.classId? new).isSome
    · exact .inl ⟨_, by simp only [rename, hid, if_pos hnew]; rfl⟩
    cases hs : w.storage.renameTable w.database old new with
    | error e => exact .inl ⟨e, by simp only [rename, hid, if_neg hnew, hs]⟩
    | ok renamed =>
      obtain ⟨t, s'⟩ := renamed
      obtain ⟨hne, hfree, ht, rfl⟩ := Storage.renameTable_eq_ok_iff.mp hs
      obtain ⟨c, hc, hname⟩ := (h.registry.named old id).mp hid
      have hnone := Option.not_isSome_iff_eq_none.mp hnew
      obtain ⟨summary, he⟩ := rename_exists h hc hname hne ht hnone hfree
      exact .inr ⟨id, c, t, summary, hc, hname, hne, ht, hnone, hfree, he⟩

theorem Live.replace (h : w.Live) {s' : Storage} {r' : Registry} {needsRefresh : Bool}
    (hs : s'.Sound) (hd : w.storage.KeepsDatabases s') (hr : r'.Coherent)
    (hsettings : r'.settings = w.registry.settings) :
    Live ⟨s', w.cells, ⟨w.database, r', w.schema.cache, needsRefresh⟩⟩ where
  storage := hs
  opened := (hd _ h.opened).1
  registry := hr
  samePrefix := ((hd _ h.opened).2.trans h.samePrefix).trans (congrArg Settings.tablePrefix hsettings.symm)
  cached := h.cached

theorem Live.create (h : w.Live) (c : ClassDecl) : (w.create c).2.Live := by
  rcases create_cases h c with ⟨e, s', he, hrestored, hs⟩ | ⟨columns, hc, ⟨_, e, he⟩ | ⟨hleft, summary, he⟩⟩
  · rw [he]
    exact h.replace hs hrestored.keepsDatabases h.registry rfl
  · rw [he]
    exact h.replace hc.sound (Storage.keepsDatabases_withTable _ _ _ _) h.registry rfl
  · rw [he]
    exact h.replace hc.sound (Storage.keepsDatabases_withTable _ _ _ _)
      (h.registry.withClass hc.unregistered hleft) rfl

theorem Live.remove (h : w.Live) (className : String) : (w.remove className).2.Live := by
  rcases remove_cases h className with ⟨e, he⟩ | ⟨id, c, t, hc, _, _, _, _, he⟩
  · rw [he]
    exact h
  · rw [he]
    exact h.replace (h.storage.withoutTable _ _) (Storage.keepsDatabases_setTables _ _ _)
      (h.registry.withoutClass hc) rfl

theorem Live.rename (h : w.Live) (old new : String) : (w.rename old new).2.Live := by
  rcases rename_cases h old new with ⟨e, he⟩ | ⟨id, c, t, summary, hc, _, hne, ht, hfree, _, he⟩
  · rw [he]
    exact h
  · rw [he]
    exact h.replace (h.storage.withRenamed hne ht) (Storage.keepsDatabases_withRenamed _ _ _ _ _)
      (h.registry.withName hc hfree) rfl

theorem Live.refresh (h : w.Live) (version : Int) : (w.refresh version).2.Live := by
  obtain ⟨g, hg, hlive⟩ := h.cached
  rcases refresh_cases hg hlive version with ⟨_, e, he⟩ | ⟨g', cells', he, _, hlive', _⟩
  · rw [he]
    exact h
  · rw [he]
    exact ⟨h.storage, h.opened, h.registry, h.samePrefix, g', rfl, hlive'⟩

theorem Live.apply (h : w.Live) (change : Change) : (w.apply change).Live := by
  cases change with
  | create c => exact h.create c
  | remove className => exact h.remove className
  | rename old new => exact h.rename old new
  | refresh version => exact h.refresh version

theorem Live.edit (h : w.Live) (e : Edit) : Live { w with storage := w.storage.edit e } :=
  h.replace (h.storage.edit e) (Storage.keepsDatabases_edit _ e) h.registry rfl

theorem Live.start {s : Storage} {cells : CellStore} {d : DatabaseId} {r : Registry} {version : Int}
    (h : Opening s d r) (hw : start s cells d r version = .ok w) : w.Live := by
  obtain ⟨g, cells', rfl, _, hlive, _⟩ := start_spec hw
  exact ⟨h.stored.sound, h.opened, h.registered.coherent, h.samePrefix, g, rfl, hlive⟩

end Workspace

end ColumnAtlas
