import ColumnAtlas.Proofs.PendingChanges
import ColumnAtlas.Proofs.PhysicalRoute
import ColumnAtlas.Proofs.RecastSchema

namespace ColumnAtlas

namespace Workspace

variable {w w' : Workspace}

theorem Refreshed.classTable?_eq (h : w.Refreshed w') (className : String) :
    w'.classTable? className = w.classTable? className := by
  unfold classTable?
  rw [h.storage, h.database, h.registry]

theorem Refreshed.across_eq (h : w.Refreshed w') (className field : String) (p : Placement) :
    w'.across className field p = w.across className field p := by
  simp only [across, h.classTable?_eq, h.storage, h.database]

/-- A walk sees a refresh only through the mappings of the classes on its way. -/
theorem Refreshed.walk_eq (h : w.Refreshed w') (hm : ∀ n, w'.mappingOf n = w.mappingOf n)
    (segments : List String) (className : String) :
    w'.walk className segments = w.walk className segments := by
  induction segments generalizing className with
  | nil => rfl
  | cons field rest ih => simp only [walk, hm, h.across_eq, ih]

theorem Refreshed.resolve_eq (h : w.Refreshed w') (hm : ∀ n, w'.mappingOf n = w.mappingOf n)
    (t : TableId) (path : String) (types : List FieldType) :
    w'.resolve t path types = w.resolve t path types := by
  simp only [resolve, h.walk_eq hm, h.storage]

/-- As long as no class has a new name, every mapping in use is the one that a refresh would put into
the cache. -/
theorem Pending.mappingOf_refresh {w₀ : Workspace} (hp : w₀.Pending id w) (h₀ : w₀.InStep)
    (h : w.InStep) (hn : w₀.schema.needsRefresh = false) (version : Int) (className : String) :
    (w.refresh version).2.mappingOf className = w.mappingOf className := by
  have hafter := h.refresh version
  have hsame := (h.refreshed_refresh version).1
  cases hc : w.registry.declNamed? className with
  | none =>
    rw [h.mappingOf_of_unknown hc, hafter.mappingOf_of_unknown (hsame.registry ▸ hc)]
  | some c =>
    have hc' : (w.refresh version).2.registry.declNamed? className = some c := hsame.registry ▸ hc
    obtain ⟨_, m', hm', hmapped'⟩ := hafter.mappingOf (h.settled_refresh version) hc'
    rw [hsame.storage, hsame.database, hsame.registry] at hmapped'
    obtain ⟨m, hm, hmapped⟩ := hp.mappingOf h₀ h hn hc
    rw [hm, hm']
    rcases hmapped with ⟨c₀, rfl, hmapped₀, hshown⟩ | hmapped
    · -- The cached mapping is still right, because the tables it was read from are as they were.
      have hkept : c₀.Mapped w.storage w.database w.registry.settings m := by
        rw [hp.database, hp.settings]
        exact hmapped₀.keep hshown
      rw [ClassDecl.mapClasses_id] at hmapped'
      rw [hmapped'.unique hkept]
    · rw [hmapped'.unique hmapped]

end Workspace

/-- A refresh succeeds and changes nothing for paths if no class was given a new name since the one
before it. -/
theorem refresh_unseen {s : Storage} {cells : CellStore} {d : DatabaseId} {r : Registry}
    {first : Int} {w : Workspace} (h : Opening s d r) (hl : s.LinksInside d)
    (hw : Workspace.start s cells d r first = .ok w) {changes before later : List Change}
    (hsplit : Change.LastRefresh changes before later) (hk : (w.run before).KeepsNames later)
    (version : Int) :
    ((w.run changes).refresh version).1 = .ok () ∧ ∀ t path types,
      ((w.run changes).refresh version).2.resolve t path types = (w.run changes).resolve t path types := by
  have hstart := Workspace.InStep.start h hl hw
  have hnow := hstart.run changes
  obtain ⟨hn, σ, hp, hσ⟩ := hstart.pending_since (Workspace.settled_start hw) hsplit
  rw [hσ hk] at hp
  obtain ⟨g, cells', he, _⟩ := hnow.refreshes version
  refine ⟨by rw [he], ?_⟩
  exact (hnow.refreshed_refresh version).1.resolve_eq
    (hp.mappingOf_refresh (hstart.run before) hnow hn version)

def reviewChanges : List Change :=
  [.create reviewClass, .rename "Book" "Writer", .remove "Review", .create reviewClass]

/-- The path goes through a class that was created and removed and created again, and on through two
classes of which one was renamed before the last refresh. -/
theorem shelf_refresh_unseen : ∃ w, Workspace.start shelf .empty ⟨0⟩ shelfClasses 1 = .ok w ∧
    (w.run ([.rename "Author" "Writer", .refresh 2] ++ reviewChanges)).schema.needsRefresh = true ∧
    (w.run ([.rename "Author" "Writer", .refresh 2] ++ reviewChanges)).resolve ⟨3⟩
      "book.author.name" [.string] = .ok ⟨[1, 1, 0], [some ⟨1⟩, some ⟨0⟩, none], .string⟩ ∧
    ((w.run ([.rename "Author" "Writer", .refresh 2] ++ reviewChanges)).refresh 3).2.resolve ⟨3⟩
      "book.author.name" [.string] = .ok ⟨[1, 1, 0], [some ⟨1⟩, some ⟨0⟩, none], .string⟩ := by
  have hsplit : Change.LastRefresh ([.rename "Author" "Writer", .refresh 2] ++ reviewChanges)
      [.rename "Author" "Writer", .refresh 2] reviewChanges :=
    ⟨rfl, .inr ⟨[.rename "Author" "Writer"], 2, rfl⟩, by simp [reviewChanges]⟩
  refine ⟨_, rfl, rfl, rfl, ?_⟩
  rw [(refresh_unseen shelf_opening (by decide +kernel) rfl hsplit ?_ 3).2]
  · rfl
  · exact ⟨trivial, ⟨.state (.classAlreadyExists "Writer"), rfl⟩, trivial, trivial, trivial⟩

end ColumnAtlas
