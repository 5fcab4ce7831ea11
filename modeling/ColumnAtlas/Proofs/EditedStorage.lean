import ColumnAtlas.Proofs.FailedChange

namespace ColumnAtlas

/-- Edits lead from one storage to the other. -/
def Storage.Edited (s s' : Storage) : Prop := ∃ edits, s' = s.run edits

/-- Whatever became of the registry and the cache, the storage was only edited. -/
structure Workspace.Reworks (w w' : Workspace) : Prop where
  storage : w.storage.Edited w'.storage
  database : w'.database = w.database

namespace Storage

variable {s s' s'' : Storage} {d : DatabaseId} {t : TableId}

theorem run_append (s : Storage) (xs ys : List Edit) : s.run (xs ++ ys) = (s.run xs).run ys :=
  List.foldl_append

theorem KeepsDatabases.refl (s : Storage) : s.KeepsDatabases s := fun _ hd => ⟨hd, rfl⟩

theorem KeepsDatabases.trans (h : s.KeepsDatabases s') (h' : s'.KeepsDatabases s'') :
    s.KeepsDatabases s'' := by
  intro d hd
  obtain ⟨hd', hprefix⟩ := h d hd
  obtain ⟨hd'', hprefix'⟩ := h' d hd'
  exact ⟨hd'', hprefix'.trans hprefix⟩

theorem keepsDatabases_run (s : Storage) (edits : List Edit) : s.KeepsDatabases (s.run edits) := by
  induction edits generalizing s with
  | nil => exact .refl s
  | cons e edits ih => exact (keepsDatabases_edit s e).trans (ih (s.edit e))

namespace Edited

theorem refl (s : Storage) : s.Edited s := ⟨[], rfl⟩

theorem edit (s : Storage) (e : Edit) : s.Edited (s.edit e) := ⟨[e], rfl⟩

theorem trans (h : s.Edited s') (h' : s'.Edited s'') : s.Edited s'' := by
  obtain ⟨edits, rfl⟩ := h
  obtain ⟨edits', rfl⟩ := h'
  exact ⟨edits ++ edits', (run_append s edits edits').symm⟩

theorem of_attempt {e : Edit} (h : s.attempt e = .ok s') : s.Edited s' := by
  have he : s.edit e = s' := by rw [Storage.edit, h]
  exact he ▸ edit s e

theorem sound (h : s.Edited s') (hs : s.Sound) : s'.Sound := by
  obtain ⟨edits, rfl⟩ := h
  exact hs.run edits

theorem keepsDatabases (h : s.Edited s') : s.KeepsDatabases s' := by
  obtain ⟨edits, rfl⟩ := h
  exact keepsDatabases_run s edits

theorem reachable (h : s.Edited s') (hs : s.Reachable) : s'.Reachable := by
  obtain ⟨edits, rfl⟩ := hs
  obtain ⟨edits', rfl⟩ := h
  exact ⟨edits ++ edits', (run_append empty edits edits').symm⟩

end Edited

theorem edited_addDeclared {owner : String} {f : FieldDecl} (hs : s.Sound)
    (h : s.addDeclared d t owner f = .ok s') : s.Edited s' := by
  unfold addDeclared at h
  split at h
  next =>
    split at h
    next => cases h
    next linked _ =>
      split at h
      next => cases h
      next target htarget =>
        obtain ⟨⟨i, s₁⟩, hadd, he⟩ := bind_eq_ok_iff.mp h
        obtain rfl := Except.ok.inj he
        -- The target of the link is a table of the database, so it was made.
        have hmade := hs.made _ _ _ htarget
        refine .of_attempt (e := .addLink t f.name f.fieldType target) ?_
        rw [attempt, if_pos hmade, hadd]
        rfl
  next =>
    obtain ⟨⟨i, s₁⟩, hadd, he⟩ := bind_eq_ok_iff.mp h
    obtain rfl := Except.ok.inj he
    refine .of_attempt (e := .addColumn t f.name f.fieldType) ?_
    rw [attempt, hadd]
    rfl

theorem edited_addAllDeclared {owner : String} (hs : s.Sound) (fs : List FieldDecl) :
    s.Edited (s.addAllDeclared d t owner fs).2 := by
  induction fs generalizing s with
  | nil => exact .refl s
  | cons f fs ih =>
    cases hf : s.addDeclared d t owner f with
    | error e =>
      rw [addAllDeclared, hf]
      exact .refl s
    | ok s' =>
      have hedited := edited_addDeclared hs hf
      rw [addAllDeclared, hf]
      exact hedited.trans (ih (hedited.sound hs))

theorem edited_createDeclared (hs : s.Sound) (d : DatabaseId) (c : ClassDecl) :
    s.Edited (s.createDeclared d c).2 := by
  cases hmade : s.createTable d c.className with
  | error e =>
    rw [createDeclared, hmade]
    exact .refl s
  | ok made =>
    obtain ⟨t, s'⟩ := made
    have hedited : s.Edited s' := .of_attempt (e := .createTable d c.className) (by
      rw [attempt, hmade]
      rfl)
    rw [createDeclared, hmade]
    exact hedited.trans (edited_addAllDeclared (hedited.sound hs) c.columns)

theorem edited_discardTable (s : Storage) (d : DatabaseId) (className : String) :
    s.Edited (s.discardTable d className) :=
  .edit s (.removeTable d className)

theorem edited_renameTable {old new : String} (h : s.renameTable d old new = .ok (t, s')) :
    s.Edited s' := by
  refine .of_attempt (e := .renameTable d old new) ?_
  rw [attempt, h]
  rfl

theorem edited_restoreName (s : Storage) (d : DatabaseId) (new old : String) :
    s.Edited (s.restoreName d new old) := by
  unfold restoreName
  split
  next h => exact edited_renameTable h
  next => exact .refl s

end Storage

namespace Workspace

variable {w w' w'' : Workspace}

namespace Reworks

theorem refl (w : Workspace) : w.Reworks w := ⟨.refl _, rfl⟩

theorem trans (h : w.Reworks w') (h' : w'.Reworks w'') : w.Reworks w'' :=
  ⟨h.storage.trans h'.storage, h'.database.trans h.database⟩

theorem described (h : w.Reworks w') (className : String) :
    w.Reworks (w'.described className).2 := by
  unfold Workspace.described
  split <;> exact h

end Reworks

theorem reworks_create (h : w.storage.Sound) (c : ClassDecl) : w.Reworks (w.create c).2 := by
  have hmade := Storage.edited_createDeclared h w.database c
  unfold create
  split
  next => exact .refl w
  next =>
    split
    next => exact .refl w
    next =>
      dsimp only
      split
      next => exact ⟨hmade.trans (Storage.edited_discardTable _ _ _), rfl⟩
      next =>
        split
        next => exact ⟨hmade, rfl⟩
        next id r _ =>
          have hchanged : w.Reworks (w.changed (w.storage.createDeclared w.database c).2 r) :=
            ⟨hmade, rfl⟩
          exact hchanged.described _

theorem reworks_remove (w : Workspace) (className : String) : w.Reworks (w.remove className).2 := by
  unfold remove
  split
  next => exact .refl w
  next =>
    split
    next => exact .refl w
    next =>
      split
      next => exact .refl w
      next s' hs =>
        have hedited : w.storage.Edited s' := .of_attempt (e := .removeTable w.database className) hs
        split
        next => exact ⟨hedited, rfl⟩
        next => exact ⟨hedited, rfl⟩

theorem reworks_rename (w : Workspace) (old new : String) : w.Reworks (w.rename old new).2 := by
  unfold rename
  split
  next => exact .refl w
  next =>
    split
    next => exact .refl w
    next =>
      split
      next => exact .refl w
      next t s' hs =>
        have hedited := Storage.edited_renameTable hs
        split
        next => exact ⟨hedited.trans (Storage.edited_restoreName _ _ _ _), rfl⟩
        next r _ =>
          have hchanged : w.Reworks (w.changed s' r) := ⟨hedited, rfl⟩
          exact hchanged.described _

theorem reworks_refresh (w : Workspace) (version : Int) : w.Reworks (w.refresh version).2 := by
  unfold refresh
  dsimp only
  split
  next => exact .refl w
  next =>
    split
    next => exact ⟨.refl _, rfl⟩
    next => exact ⟨.refl _, rfl⟩

theorem reworks_apply (h : w.storage.Sound) (change : Change) : w.Reworks (w.apply change) := by
  cases change with
  | create c => exact reworks_create h c
  | remove className => exact reworks_remove w className
  | rename old new => exact reworks_rename w old new
  | refresh version => exact reworks_refresh w version

theorem reworks_after (h : w.storage.Sound) (events : List Event) : w.Reworks (w.after events) := by
  induction events generalizing w with
  | nil => exact .refl w
  | cons event events ih =>
    have hoccur : w.Reworks (w.occur event) := by
      cases event with
      | change c => exact reworks_apply h c
      | edit e => exact ⟨.edit w.storage e, rfl⟩
    exact hoccur.trans (ih (hoccur.storage.sound h))

theorem start_on {s : Storage} {cells : CellStore} {d : DatabaseId} {r : Registry} {version : Int}
    (h : start s cells d r version = .ok w) : w.storage = s ∧ w.database = d ∧ w.registry = r := by
  obtain ⟨g, cells', rfl, _⟩ := start_spec h
  exact ⟨rfl, rfl, rfl⟩

theorem run_eq_after (w : Workspace) (changes : List Change) :
    w.run changes = w.after (changes.map .change) := by
  rw [after, List.foldl_map]
  rfl

theorem reworks_run (h : w.storage.Sound) (changes : List Change) : w.Reworks (w.run changes) := by
  rw [run_eq_after]
  exact reworks_after h _

theorem reachable_run (h : w.storage.Reachable) (changes : List Change) :
    (w.run changes).storage.Reachable :=
  (reworks_run h.sound changes).storage.reachable h

end Workspace

end ColumnAtlas
