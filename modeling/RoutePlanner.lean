import RoutePlanner.Search.Parity
import RoutePlanner.Search.Reconstruct
import RoutePlanner.Planner.Safety
import RoutePlanner.Planner.WellFormed
import RoutePlanner.Planner.Replay
import RoutePlanner.Recorder.SendOrder
import RoutePlanner.Recorder.Token
import RoutePlanner.Recorder.Wake
import RoutePlanner.Recorder.Rejection
import RoutePlanner.Recorder.Wire
import RoutePlanner.Api.ClientKey
import RoutePlanner.Api.EnsurePacks
import RoutePlanner.Api.RateLimit
import RoutePlanner.Api.Redis
import RoutePlanner.Api.RetryAfter
import RoutePlanner.Web.Coverage
import RoutePlanner.Web.Drive
import RoutePlanner.Web.Navigation
import RoutePlanner.Web.RouteProgress
import RoutePlanner.Web.WakeLock
import RoutePlanner.Commute.BodyLimit
import RoutePlanner.Commute.Ingest
import RoutePlanner.Ingestion.Invariant
import RoutePlanner.Recorder.Clip
import RoutePlanner.Ingestion.Counterpart
import RoutePlanner.Ingestion.DeadEnd
import RoutePlanner.Ingestion.Harvest
import RoutePlanner.Planner.Tradeoff
import RoutePlanner.Planner.Eta
import RoutePlanner.Snap.Index
import RoutePlanner.Graph.RoundTrip
import RoutePlanner.Artifact.Consistent
import RoutePlanner.Costs.Consistent
import RoutePlanner.Api.Geocode
import RoutePlanner.Api.GeocodeCeiling
import RoutePlanner.Api.Routes
import RoutePlanner.Api.SearchCeiling
import RoutePlanner.Commute.Canonical
import RoutePlanner.Commute.Reads
import RoutePlanner.Commute.Service
import RoutePlanner.Delivery.Fate
import RoutePlanner.Ingestion.Controls
import RoutePlanner.Ingestion.CostModel
import RoutePlanner.Ingestion.Evidence
import RoutePlanner.Web.Page
import RoutePlanner.Web.Session
