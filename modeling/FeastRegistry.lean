import FeastRegistry.Proto
import FeastRegistry.Edits
import FeastRegistry.Registry
import FeastRegistry.Calls
import FeastRegistry.WellFormed
import FeastRegistry.System
import FeastRegistry.Durability
import FeastRegistry.Diff
import FeastRegistry.Failures
import FeastRegistry.Frame
import FeastRegistry.Projection
import FeastRegistry.Isolation
import FeastRegistry.Cache
import FeastRegistry.History
import FeastRegistry.Idempotence
import FeastRegistry.OnlineResponse
import FeastRegistry.EntityRows
import FeastRegistry.Refinement
import FeastRegistry.Lifecycle
import FeastRegistry.Staleness
import FeastRegistry.StoreClass
import FeastRegistry.Availability
