import Depot.Name
import Depot.Label
import Depot.Identity.Basic
import Depot.Identity.Spelling
import Depot.Json.Token
import Depot.Json.Reading
import Depot.Json.Compact
import Depot.Json.Record
import Depot.Key.Order
import Depot.Key.Record
import Depot.Layout
import Depot.Settings
import Depot.UsedNames
import Depot.Recency
import Depot.Files.FileError
import Depot.Files.FileSystem
import Depot.Files.Place
import Depot.Files.Change
import Depot.Files.Copy
import Depot.Handle.Basic
import Depot.Handle.Event
import Depot.Handle.Saved
import Depot.Handle.Copying
import Depot.Handle.Disposal
import Depot.Registry
import Depot.Session.Basic
import Depot.Session.Command
import Depot.Session.Ownership
import Depot.Session.Run
import Depot.Proofs.Handle.Indices
import Depot.Proofs.Recency
import Depot.Proofs.Handle.Memory
import Depot.Proofs.Json.RoundTrip
import Depot.Proofs.Json.Saved
import Depot.Proofs.Files.Paths
import Depot.Proofs.Files.Ancestors
import Depot.Proofs.Layout
import Depot.Proofs.Files.Walks
import Depot.Proofs.Files.Directories
import Depot.Proofs.Files.Copies
import Depot.Proofs.Files.Trees
import Depot.Proofs.Files.Overlays
import Depot.Proofs.Handle.Bases
import Depot.Proofs.Handle.CopyPlaces
import Depot.Proofs.Handle.Lives
import Depot.Proofs.Handle.Settling
import Depot.Proofs.Handle.Rejections
import Depot.Proofs.Handle.Endings
import Depot.Proofs.Handle.CopyFailures
import Depot.Proofs.Handle.Attempts
import Depot.Proofs.Handle.Renewals
import Depot.Proofs.Handle.Adoptions
import Depot.Proofs.Session.Restart
import Depot.Proofs.Session.Restorations
import Depot.Proofs.Session.Commands
import Depot.Proofs.Session.Ownership
import Depot.Proofs.Session.Identities
import Depot.Proofs.Files.Confinement
import Depot.Proofs.Files.Removals
import Depot.Proofs.Files.Vacancies
import Depot.Proofs.Files.CopyCounts
import Depot.Proofs.Files.CopySuccess
import Depot.Proofs.Files.FaithfulCopies
import Depot.Proofs.Handle.Steady
import Depot.Proofs.Handle.Confinement
import Depot.Proofs.Session.Isolation
import Depot.Proofs.Session.Disposal
import Depot.Proofs.Session.Phases
import Depot.Proofs.Handle.Sharing
import Depot.Proofs.Json.Keys
import Depot.Proofs.Session.ObjectPaths
import Depot.Proofs.Placement
import Depot.Proofs.Json.Records
import Depot.Proofs.Session.Mappings
import Depot.Proofs.Session.Capacity
import Depot.Proofs.Session.NamesInUse
import Depot.Proofs.Session.Outcomes
import Depot.Proofs.Session.CreatedPlaces
import Depot.Proofs.Label
import Depot.Proofs.Recency.History
import Depot.Proofs.Identity
import Depot.Proofs.Json.KeyRecords
import Depot.Proofs.Settings
import Depot.Proofs.Key.Order
import Depot.Proofs.Handle.BaseNames
import Depot.Proofs.Session.Lookups
