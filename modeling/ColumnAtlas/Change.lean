import ColumnAtlas.Schema

namespace ColumnAtlas

/-- A change of the classes of a schema, or a refresh of its cache. -/
inductive Change where
  | create (c : ClassDecl)
  | remove (className : String)
  | rename (old new : String)
  | refresh (version : Int)

namespace Workspace

/-- What a change leaves behind, whether it succeeds or fails. -/
def apply (w : Workspace) : Change → Workspace
  | .create c => (w.create c).2
  | .remove className => (w.remove className).2
  | .rename old new => (w.rename old new).2
  | .refresh version => (w.refresh version).2

/-- What changes leave behind when they are made one after the other. -/
def run (w : Workspace) (changes : List Change) : Workspace :=
  changes.foldl apply w

theorem run_append (w : Workspace) (xs ys : List Change) :
    w.run (xs ++ ys) = (w.run xs).run ys := by
  simp [run]

end Workspace

end ColumnAtlas
