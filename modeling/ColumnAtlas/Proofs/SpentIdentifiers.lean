import ColumnAtlas.Proofs.EditedStorage

namespace ColumnAtlas

/-- A class that is not created for want of an identifier leaves its table behind. -/
structure Workspace.LeavesTable (w : Workspace) (c : ClassDecl) : Prop where
  refused : (w.create c).1 = .error (.state .classIdsExhausted)
  unregistered : (w.create c).2.registry = w.registry
  before : w.storage.classTable? w.database c.className = none
  after : (w.create c).2.storage.classTable? w.database c.className = some ⟨w.storage.tables.length⟩

namespace Registry

theorem enrol_unregister_register {r : Registry} {c : ClassDecl} (hr : r.Coherent)
    (hne : c.className ≠ "") (hfree : r.classId? c.className = none) (hleft : r.nextId ≠ 0xFFFFFFFF) :
    (r.enrol (.register c)).enrol (.unregister ⟨r.nextId⟩) =
      { r with retired := r.retired.insert ⟨r.nextId⟩ c.className, nextId := r.nextId + 1 } := by
  have hregister : r.register c = .ok (⟨r.nextId⟩, r.withClass c) :=
    register_eq_ok_iff.mpr ⟨hne, hfree, hleft, rfl, rfl⟩
  have hdecl : (r.withClass c).decl? ⟨r.nextId⟩ = some c := by
    rw [decl?_withClass, if_pos rfl]
  have hunregister : (r.withClass c).unregister ⟨r.nextId⟩ =
      some (c, (r.withClass c).withoutClass ⟨r.nextId⟩ c) :=
    unregister_eq_some_iff.mpr ⟨hdecl, rfl⟩
  simp only [enrol, hregister, hunregister]
  exact hr.withoutClass_withClass hfree

/-- Classes that come and go use up the identifiers one by one, up to the last. -/
theorem nextId_reached (settings : Settings) {n : Nat} (hn : n < 4294967296) :
    ∃ es retired, (new settings).run es =
      ⟨settings, .empty, .empty, retired, UInt32.ofNat n⟩ := by
  induction n with
  | zero => exact ⟨[], .empty, rfl⟩
  | succ n ih =>
    obtain ⟨es, retired, hr⟩ := ih (Nat.lt_of_succ_lt hn)
    have hleft : UInt32.ofNat n ≠ 0xFFFFFFFF := fun he => by
      have hvalue := congrArg UInt32.toNat he
      rw [UInt32.toNat_ofNat_of_lt' (Nat.lt_of_succ_lt hn)] at hvalue
      have hlast : n = 4294967295 := hvalue
      omega
    have hcoherent := (Coherent.new settings).run es
    rw [hr] at hcoherent
    have hspent := enrol_unregister_register hcoherent (c := .named "Note") (by decide) rfl hleft
    refine ⟨es ++ [.register (.named "Note"), .unregister ⟨UInt32.ofNat n⟩],
      retired.insert ⟨UInt32.ofNat n⟩ "Note", ?_⟩
    rw [run_append, hr]
    refine hspent.trans ?_
    rw [UInt32.ofNat_add]
    rfl

end Registry

namespace Workspace

variable {w : Workspace} {c : ClassDecl}

theorem Passes.leavesTable (h : w.Passes c) (hs : w.storage.Sound)
    (hd : w.database.index < w.storage.databases.length)
    (hlast : w.registry.nextId = 0xFFFFFFFF) : w.LeavesTable c := by
  rcases create_checked hs hd c with ⟨hnot, _⟩ | ⟨_, columns, _, hrefused, _⟩
  · exact absurd h hnot
  · have he := hrefused _ (h.register_exhausted hlast)
    refine ⟨by rw [he], by rw [he]; rfl, h.untabled, ?_⟩
    rw [he, Storage.classTable?, Storage.tableName_withTable, Storage.tableNamed?_withTable hd,
      if_pos ⟨rfl, rfl⟩]

end Workspace

/-- Without an identifier left, creating a class always fails. It leaves the tables of all databases as
they were exactly if the class does not pass the checks; the table of one that does stays behind. -/
theorem create_exhausted {s : Storage} {cells : CellStore} {d : DatabaseId} {r : Registry}
    {version : Int} {w : Workspace} (hs : s.Reachable) (hd : d.index < s.databases.length)
    (hw : Workspace.start s cells d r version = .ok w) (events : List Event)
    (hlast : (w.after events).registry.nextId = 0xFFFFFFFF) (c : ClassDecl) :
    (∃ e, ((w.after events).create c).1 = .error e) ∧
      (((w.after events).create c).2.storage.databases = (w.after events).storage.databases ↔
        ¬ (w.after events).Passes c) ∧
      ((w.after events).Passes c → (w.after events).LeavesTable c) := by
  obtain ⟨rfl, rfl, rfl⟩ := Workspace.start_on hw
  obtain ⟨hedited, hdatabase⟩ := Workspace.reworks_after hs.sound events
  have hsound := hedited.sound hs.sound
  have hopened : (w.after events).database.index < (w.after events).storage.databases.length := by
    rw [hdatabase]
    exact (hedited.keepsDatabases _ hd).1
  have hleaves (hp : (w.after events).Passes c) := hp.leavesTable hsound hopened hlast
  rcases Workspace.create_checked hsound hopened c with ⟨hnot, e, s', he, hrestored, _⟩ | ⟨hp, _⟩
  · refine ⟨⟨e, by rw [he]⟩, ⟨fun _ => hnot, fun _ => ?_⟩, hleaves⟩
    rw [he]
    exact hrestored.databases
  · obtain ⟨hrefused, _, hbefore, hafter⟩ := hleaves hp
    refine ⟨⟨_, hrefused⟩, ⟨fun hsame => ?_, fun hnot => absurd hp hnot⟩, hleaves⟩
    simp only [Storage.classTable?, Storage.tableNamed?, Storage.database, hsame] at hbefore hafter
    rw [hbefore] at hafter
    cases hafter

/-- A database without tables. -/
def desk : Storage := Storage.empty.run [.openDatabase "main" "class_"]

/-- A registry without classes that has no identifier left. -/
def spentRegistry : Registry := { Registry.new .default with nextId := 0xFFFFFFFF }

theorem desk_create_exhausted : ∃ w, Workspace.start desk .empty ⟨0⟩ spentRegistry 1 = .ok w ∧
    w.LeavesTable (.named "Note") ∧
    (w.create (.named "Note")).2.storage.databases ≠ w.storage.databases := by
  refine ⟨_, rfl, ?_⟩
  obtain ⟨_, hunchanged, hleaves⟩ := create_exhausted (s := desk) (d := ⟨0⟩) (r := spentRegistry)
    ⟨_, rfl⟩ (by decide +kernel) rfl [] rfl (.named "Note")
  suffices hpasses : Workspace.Passes _ (.named "Note") from
    ⟨hleaves hpasses, fun hsame => hunchanged.mp hsame hpasses⟩
  exact ⟨by decide, rfl, rfl, _, rfl⟩

/-- Registering and unregistering classes alone leads to a registry without identifiers. A class that
cannot be created then gets a table. -/
theorem exhausted_create_leaves_table : ∃ es, ((Registry.new .default).run es).nextId = 0xFFFFFFFF ∧
    ∃ w, Workspace.start desk .empty ⟨0⟩ ((Registry.new .default).run es) 1 = .ok w ∧
      (w.create (.named "Note")).1 = .error (.state .classIdsExhausted) ∧
      w.storage.classTable? ⟨0⟩ "Note" = none ∧
      (w.create (.named "Note")).2.storage.classTable? ⟨0⟩ "Note" = some ⟨0⟩ := by
  have hlast : 4294967295 < 4294967296 := by decide
  obtain ⟨es, retired, hr⟩ := Registry.nextId_reached .default hlast
  refine ⟨es, ?_⟩
  rw [hr]
  exact ⟨rfl, _, rfl, rfl, rfl, rfl⟩

end ColumnAtlas
