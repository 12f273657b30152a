import Memgw.Library.Table
import Memgw.Library.Numerals
import Memgw.Library.Results
import Memgw.Library.Relay
import Memgw.Library.Patterns
import Memgw.Server.ParseScope
import Memgw.Gateway.Ids
import Memgw.Settings.Settings
import Memgw.Cli.Doctor
import Memgw.Library.Text
import Memgw.Properties.SharedConnection
import Memgw.Properties.AdapterContract
import Memgw.Properties.ShelfRuns
import Memgw.Properties.IdOrder
import Memgw.Properties.Buildable
import Memgw.Properties.DoctorFrame
import Memgw.Properties.AuditTrail
import Memgw.Properties.CompositeKeys
import Memgw.Properties.UserCache
import Memgw.Properties.ErasedReads
import Memgw.Properties.TenantNames
import Memgw.Properties.Labels
import Memgw.Properties.PointInTime
import Memgw.Properties.TenantIsolation
import Memgw.Properties.ScopeErasure
import Memgw.Properties.UpdateDelete
import Memgw.Properties.IngestErase
import Memgw.Properties.Rebinding
import Memgw.Properties.ReadFilters
import Memgw.Properties.SchemaState
import Memgw.Properties.GatewayIds
import Memgw.Properties.InsertRaces
import Memgw.Properties.WriteRecords
import Memgw.Properties.SubjectErasure
import Memgw.Properties.BindingHistory
import Memgw.Properties.FailedCalls
import Memgw.Properties.FailedUpserts
import Memgw.Properties.EpisodeDeletion
import Memgw.Properties.MappedPages
import Memgw.Properties.RowsInScope
import Memgw.Properties.Rankings
import Memgw.Properties.ScopeDrain
import Memgw.Properties.WireErrors
import Memgw.Properties.TwoModes
import Memgw.Properties.NamedProvider
import Memgw.Properties.BindingRaces
import Memgw.Properties.Requests
