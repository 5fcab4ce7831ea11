import ColumnAtlas.Change
import ColumnAtlas.Proofs.AlignedGeneration
import ColumnAtlas.Proofs.CacheLifecycle
import ColumnAtlas.Proofs.CachedHandles
import ColumnAtlas.Proofs.ComposedPath
import ColumnAtlas.Proofs.CopiedGeneration
import ColumnAtlas.Proofs.CreatedClass
import ColumnAtlas.Proofs.DeclaredFieldPaths
import ColumnAtlas.Proofs.DescribedFields
import ColumnAtlas.Proofs.EditedStorage
import ColumnAtlas.Proofs.FailedChange
import ColumnAtlas.Proofs.IntactDatabase
import ColumnAtlas.Proofs.IsolatedCopies
import ColumnAtlas.Proofs.IssuedIdentifiers
import ColumnAtlas.Proofs.LoadedRegistry
import ColumnAtlas.Proofs.MismatchedClass
import ColumnAtlas.Proofs.PendingRoute
import ColumnAtlas.Proofs.PhysicalRoute
import ColumnAtlas.Proofs.PureRenaming
import ColumnAtlas.Proofs.RemovedClass
import ColumnAtlas.Proofs.ReorderedFields
import ColumnAtlas.Proofs.RewrittenReferences
import ColumnAtlas.Proofs.SegmentedPath
import ColumnAtlas.Proofs.SpentIdentifiers
import ColumnAtlas.Proofs.TablePrefixes
import ColumnAtlas.Proofs.UndoneCreation
import ColumnAtlas.Proofs.UnseenChanges
import ColumnAtlas.Route
import ColumnAtlas.SettingsDocument
import ColumnAtlas.SortedMapLemmas
import ColumnAtlas.Proofs.ImmutableForms
import ColumnAtlas.Proofs.UnverifiedTypes
import ColumnAtlas.Proofs.SchemaViews
import ColumnAtlas.Proofs.NamedClasses
import ColumnAtlas.Proofs.ColumnPositions
import ColumnAtlas.Proofs.CarriedPlacements
import ColumnAtlas.Proofs.UsableSettings
import ColumnAtlas.Proofs.TomlTables
import ColumnAtlas.Proofs.TomlLiterals
import ColumnAtlas.Proofs.FlatDocuments
import ColumnAtlas.Proofs.TomlBounds
import ColumnAtlas.Proofs.TomlMoments
import ColumnAtlas.Proofs.TomlFloats
