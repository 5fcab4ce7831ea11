import ColumnAtlas.Proofs.SchemaSteps

namespace ColumnAtlas

/-- A change of a schema, or a direct change of the storage under it. -/
inductive Event where
  | change (c : Change)
  | edit (e : Edit)

/-- Nothing that can be read through a schema or its storage differs: the registry, the cache with
its cells, the flag, the names of all databases and what stands in the tables under these names. -/
structure Workspace.Unchanged (w w' : Workspace) : Prop where
  schema : w'.schema = w.schema
  cells : w'.cells = w.cells
  databases : w'.storage.databases = w.storage.databases
  table : ∀ d name t, w.storage.tableNamed? d name = some t → w'.storage.table t = w.storage.table t
  linkTarget? : ∀ d name t index, w.storage.tableNamed? d name = some t →
    w'.storage.linkTarget? t index = w.storage.linkTarget? t index

namespace Workspace

def occur (w : Workspace) : Event → Workspace
  | .change c => w.apply c
  | .edit e => { w with storage := w.storage.edit e }

def after (w : Workspace) (events : List Event) : Workspace := events.foldl occur w

def errorOf? {α : Type} : Except Error α → Option Error
  | .ok _ => none
  | .error e => some e

def failure? (w : Workspace) : Change → Option Error
  | .create c => errorOf? (w.create c).1
  | .remove className => errorOf? (w.remove className).1
  | .rename old new => errorOf? (w.rename old new).1
  | .refresh version => errorOf? (w.refresh version).1

variable {w : Workspace}

theorem Live.occur (h : w.Live) (event : Event) : (w.occur event).Live := by
  cases event with
  | change c => exact h.apply c
  | edit e => exact h.edit e

theorem Live.after (h : w.Live) (events : List Event) : (w.after events).Live := by
  induction events generalizing w with
  | nil => exact h
  | cons event events ih => exact ih (h.occur event)

theorem Unchanged.refl (w : Workspace) : w.Unchanged w :=
  ⟨rfl, rfl, rfl, fun _ _ _ _ => rfl, fun _ _ _ _ _ => rfl⟩

theorem Live.unchanged_of_restored (h : w.Live) {s' : Storage} (hs : w.storage.Restored s') :
    w.Unchanged { w with storage := s' } where
  schema := rfl
  cells := rfl
  databases := hs.databases
  table _ _ _ ht := hs.table (h.storage.made _ _ _ ht)
  linkTarget? _ _ _ index ht := hs.linkTarget? (h.storage.made _ _ _ ht) index

/-- A change that fails while an identifier is left changes nothing. -/
theorem Live.unchanged_of_failure (h : w.Live) (hleft : w.registry.nextId ≠ 0xFFFFFFFF)
    {change : Change} {e : Error} (hf : w.failure? change = some e) :
    w.Unchanged (w.apply change) := by
  cases change with
  | create c =>
    rcases create_cases h c with ⟨e', s', he, hrestored, _⟩ | ⟨columns, _, ⟨hlast, _⟩ | ⟨_, summary, he⟩⟩
    · rw [Workspace.apply, he]
      exact h.unchanged_of_restored hrestored
    · exact absurd hlast hleft
    · rw [failure?, he] at hf
      cases hf
  | remove className =>
    rcases remove_cases h className with ⟨e', he⟩ | ⟨_, _, _, _, _, _, _, _, he⟩
    · rw [Workspace.apply, he]
      exact .refl w
    · rw [failure?, he] at hf
      cases hf
  | rename old new =>
    rcases rename_cases h old new with ⟨e', he⟩ | ⟨_, _, _, summary, _, _, _, _, _, _, he⟩
    · rw [Workspace.apply, he]
      exact .refl w
    · rw [failure?, he] at hf
      cases hf
  | refresh version =>
    obtain ⟨g, hg, hlive⟩ := h.cached
    rcases refresh_cases hg hlive version with ⟨_, e', he⟩ | ⟨g', cells', he, _⟩
    · rw [Workspace.apply, he]
      exact .refl w
    · rw [failure?, he] at hf
      cases hf

end Workspace

/-- Whatever is done to the storage under an open schema in the meantime, a change of the schema that
fails while an identifier is left changes nothing. -/
theorem failed_change_unchanged {s : Storage} {cells : CellStore} {d : DatabaseId} {r : Registry}
    {version : Int} {w : Workspace} (h : Opening s d r)
    (hw : Workspace.start s cells d r version = .ok w) (events : List Event)
    (hleft : (w.after events).registry.nextId ≠ 0xFFFFFFFF) (change : Change) {e : Error}
    (hf : (w.after events).failure? change = some e) :
    (w.after events).Unchanged ((w.after events).apply change) :=
  ((Workspace.Live.start h hw).after events).unchanged_of_failure hleft hf

/-- The shelf gets a table that no class is declared for. -/
def shelfEvents : List Event :=
  [.change (.rename "Author" "Writer"), .edit (.createTable ⟨0⟩ "Loose"),
    .edit (.addLink ⟨2⟩ "book" .object ⟨1⟩)]

/-- The class cannot be made, since it links to one without a table. -/
def looseClass : ClassDecl :=
  ⟨"Review", [.column "stars" .integer, .link "author" .object "Author"]⟩

theorem shelf_unchanged : ∃ w, Workspace.start shelf .empty ⟨0⟩ shelfClasses 1 = .ok w ∧
    (w.after shelfEvents).failure? (.create looseClass) = some (.argument (.unknownClass "Author")) ∧
    (w.after shelfEvents).Unchanged ((w.after shelfEvents).apply (.create looseClass)) :=
  ⟨_, rfl, by decide +kernel, failed_change_unchanged (e := .argument (.unknownClass "Author"))
    shelf_opening rfl shelfEvents (by decide +kernel) (.create looseClass) (by decide +kernel)⟩

end ColumnAtlas
