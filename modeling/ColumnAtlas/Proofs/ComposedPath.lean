import ColumnAtlas.Proofs.DeclaredFieldPaths
import ColumnAtlas.Proofs.EditedStorage
import ColumnAtlas.Proofs.ExactMapping
import ColumnAtlas.Proofs.PendingRoute

namespace ColumnAtlas

/-- A route, then another one from where it ends. -/
def Route.append (route tail : Route) : Route :=
  ⟨route.columns ++ tail.columns, route.tables ++ tail.tables, tail.finalType⟩

/-- An error as it is reported for a path. Only an unexpected type mentions the whole path. -/
def Error.onPath (path : String) : Error → Error
  | .argument (.unexpectedType _ found expected) => .argument (.unexpectedType path found expected)
  | e => e

/-- The error does not mention a path. -/
def Error.Pathless (e : Error) : Prop := ∀ path, e.onPath path = e

theorem FieldDecl.Offends.pathless {b : MappingBuilder} {s : Storage} {before : List FieldDecl}
    {f : FieldDecl} {e : Error} (h : f.Offends b s before e) : e.Pathless := by
  intro path
  cases h <;> rfl

theorem ClassDecl.pathless_of_buildMapping {c : ClassDecl} {s : Storage} {d : DatabaseId}
    {settings : Settings} {e : Error} (h : c.buildMapping s d settings = .error e) : e.Pathless := by
  rcases buildMapping_eq_error_iff.mp h with ⟨_, rfl⟩ | ⟨_, _, _, _, _, _, _, hf⟩
  · exact fun path => rfl
  · exact hf.pathless

namespace Workspace

variable {w : Workspace} {className : String} {e : Error}

theorem pathless_of_mappingOf (h : w.mappingOf className = .error e) : e.Pathless := by
  unfold mappingOf at h
  split at h
  next =>
    obtain rfl := Except.error.inj h
    exact fun path => rfl
  next id _ =>
    split at h
    next hcell =>
      obtain rfl := Except.error.inj h
      rcases bind_eq_error_iff.mp hcell with hcell | ⟨_, _, hcell⟩
      · unfold Cache.generation at hcell
        split at hcell
        next => cases hcell
        next =>
          obtain rfl := Except.error.inj hcell
          exact fun path => rfl
      · cases hcell
    next => cases h
    next =>
      unfold Registry.buildMapping at h
      split at h
      next =>
        obtain rfl := Except.error.inj h
        exact fun path => rfl
      next => exact ClassDecl.pathless_of_buildMapping h

theorem pathless_of_across {field : String} {p : Placement}
    (h : w.across className field p = .error e) : e.Pathless := by
  unfold across at h
  split at h
  next => cases h
  next =>
    split at h
    next =>
      split at h
      next => cases h
      next =>
        obtain rfl := Except.error.inj h
        exact fun path => rfl
    next => cases h

/-- Only the type check after a walk mentions the path. -/
theorem pathless_of_walk {segments : List String} (h : w.walk className segments = .error e) :
    e.Pathless := by
  induction segments generalizing className with
  | nil => cases h
  | cons field rest ih =>
    rw [walk] at h
    rcases bind_eq_error_iff.mp h with hm | ⟨m, _, h⟩
    · exact pathless_of_mappingOf hm
    · split at h
      next =>
        obtain rfl := Except.error.inj h
        exact fun path => rfl
      next p _ =>
        simp only at h
        split at h
        next =>
          obtain rfl := Except.error.inj h
          exact fun path => rfl
        next =>
          rcases bind_eq_error_iff.mp h with hnext | ⟨next, _, h⟩
          · exact pathless_of_across hnext
          · rcases bind_eq_error_iff.mp h with htail | ⟨_, _, h⟩
            · exact ih htail
            · cases h

theorem across_eq_some {field n : String} {p : Placement} {u : TableId}
    (h : w.across className field p = .ok (some (n, u))) :
    p.fieldType.isRelationship ∧ w.classTable? n = some u := by
  unfold across at h
  split at h
  next => cases h
  next =>
    split at h
    next hrelationship =>
      split at h
      next hu =>
        obtain ⟨rfl, rfl⟩ := Prod.mk.inj (Option.some.inj (Except.ok.inj h))
        exact ⟨hrelationship, hu⟩
      next => cases h
    next => cases h

theorem walk_cons_onward {field : String} {rest : List String} {m : Mapping} {p : Placement}
    {next : Option (String × TableId)} (hm : w.mappingOf className = .ok m)
    (hget : m.get? field = some p) (hnext : w.across className field p = .ok next)
    (hr : p.fieldType.isRelationship) (hne : rest ≠ []) : w.walk className (field :: rest) =
      (w.walk ((next.map Prod.fst).getD className) rest).map
        (Route.append ⟨[p.index], [next.map Prod.snd], p.fieldType⟩) := by
  have hgoes : ¬(!rest.isEmpty ∧ !p.fieldType.isRelationship) := by simp [hr]
  have hmore : rest.isEmpty = false := List.isEmpty_eq_false_iff.mpr hne
  rw [walk_cons hm hget hnext, if_neg hgoes, hmore]
  rfl

/-- A walk that has led to a table goes on from there as a walk from the class of the table. -/
theorem walk_append (hs : w.storage.Sound)
    (hp : (w.storage.database w.database).tablePrefix = w.registry.settings.tablePrefix)
    {segments rest : List String} {route : Route} {u : TableId}
    (hr : w.walk className segments = .ok route) (hu : route.tables.getLast? = some (some u))
    (hne : rest ≠ []) : w.walk className (segments ++ rest) =
      (w.walk (w.storage.table u).className rest).map route.append := by
  induction segments generalizing className route with
  | nil =>
    obtain rfl := Except.ok.inj hr
    cases hu
  | cons field before ih =>
    obtain ⟨m, p, next, tail, hm, hget, hgoes, hnext, htail, hcolumns, htables⟩ := walk_cons_eq_ok hr
    cases before with
    | nil =>
      -- The last segment of the first path becomes an inner one.
      obtain rfl := Except.ok.inj htail
      rw [htables] at hu
      obtain ⟨⟨n, _⟩, rfl, rfl⟩ := Option.map_eq_some_iff.mp (Option.some.inj hu)
      obtain ⟨hrelationship, hstored⟩ := across_eq_some hnext
      rw [className_of_classTable? hs hp hstored, List.singleton_append,
        walk_cons_onward hm hget hnext hrelationship hne]
      congr 1
      funext route'
      simp only [Route.append, hcolumns, htables]
    | cons field' before =>
      obtain ⟨_, _, _, _, _, _, _, _, _, _, htables'⟩ := walk_cons_eq_ok htail
      rw [htables, htables', List.getLast?_cons_cons, ← htables'] at hu
      have hrelationship := hgoes.resolve_left (List.cons_ne_nil _ _)
      rw [List.cons_append, walk_cons_onward hm hget hnext hrelationship (by simp), ih htail hu]
      cases w.walk (w.storage.table u).className rest with
      | error e => rfl
      | ok route' =>
        simp only [Except.map, Route.append, hcolumns, htables]
        rfl

end Workspace

/-- A path that is put together from two leads where the second one leads from the table at which the
first one ends. It fails as the second one fails there, except that a wrong type is reported for the
whole path. -/
theorem resolve_composed {w : Workspace} (hs : w.storage.Reachable)
    (hp : (w.storage.database w.database).tablePrefix = w.registry.settings.tablePrefix)
    {t u : TableId} {path path' : String} {types : List FieldType} {route : Route}
    {segments : List String} (hr : w.resolve t path types = .ok route)
    (hu : route.tables.getLast? = some (some u)) (hq : FieldPath.parse path' = .ok segments)
    (types' : List FieldType) :
    w.resolve t (path ++ "." ++ path') types' =
      match w.resolve u path' types' with
      | .ok tail => .ok (route.append tail)
      | .error e => .error (e.onPath (path ++ "." ++ path')) := by
  obtain ⟨before, hbefore, hwalk, _⟩ := Workspace.resolve_eq_ok_iff.mp hr
  have hne : segments ≠ [] := by
    obtain ⟨_, _, rfl⟩ := FieldPath.parse_eq_ok_iff.mp hq
    simp [FieldPath.split_ne_nil]
  have happend := Workspace.walk_append hs.sound hp hwalk hu hne
  simp only [Workspace.resolve, FieldPath.parse_append hbefore hq, hq, bind, Except.bind, happend]
  cases htail : w.walk (w.storage.table u).className segments with
  | error e =>
    simp only [Except.map, Workspace.pathless_of_walk htail _]
  | ok tail =>
    simp only [Except.map, Route.append]
    split
    next => rfl
    next => rfl

/-- The author of the book of a review, before the cache knows of the renamed class of authors. -/
theorem shelf_resolve_composed : ∃ w, Workspace.start shelf .empty ⟨0⟩ shelfClasses 1 = .ok w ∧
    (w.run namesakeChanges).schema.needsRefresh = true ∧
    (w.run namesakeChanges).storage.Reachable ∧
    (w.run namesakeChanges).resolve ⟨2⟩ "book" [.object] = .ok ⟨[1], [some ⟨1⟩], .object⟩ ∧
    FieldPath.parse "author" = .ok ["author"] ∧
    (w.run namesakeChanges).resolve ⟨2⟩ ("book" ++ "." ++ "author") [.object] =
      .ok ⟨[1, 1], [some ⟨1⟩, some ⟨3⟩], .object⟩ ∧
    (w.run namesakeChanges).resolve ⟨2⟩ ("book" ++ "." ++ "author") [.string] =
      .error (.argument (.unexpectedType "book.author" .object [.string])) := by
  obtain ⟨w, hw, hn, hp, hr, hobject, hstring⟩ :
      ∃ w, Workspace.start shelf .empty ⟨0⟩ shelfClasses 1 = .ok w ∧
        (w.run namesakeChanges).schema.needsRefresh = true ∧
        ((w.run namesakeChanges).storage.database (w.run namesakeChanges).database).tablePrefix =
          (w.run namesakeChanges).registry.settings.tablePrefix ∧
        (w.run namesakeChanges).resolve ⟨2⟩ "book" [.object] = .ok ⟨[1], [some ⟨1⟩], .object⟩ ∧
        (w.run namesakeChanges).resolve ⟨1⟩ "author" [.object] = .ok ⟨[1], [some ⟨3⟩], .object⟩ ∧
        (w.run namesakeChanges).resolve ⟨1⟩ "author" [.string] =
          .error (.argument (.unexpectedType "author" .object [.string])) :=
    ⟨_, rfl, rfl, rfl, rfl, rfl, rfl⟩
  have hstored : w.storage.Reachable := (Workspace.start_on hw).1 ▸ shelf_opening.stored
  have hs := Workspace.reachable_run hstored namesakeChanges
  have hq : FieldPath.parse "author" = .ok ["author"] := rfl
  have hfound := resolve_composed hs hp hr rfl hq [.object]
  have hwrong := resolve_composed hs hp hr rfl hq [.string]
  rw [hobject] at hfound
  rw [hstring] at hwrong
  exact ⟨w, hw, hn, hs, hr, hq, hfound, hwrong⟩

end ColumnAtlas
