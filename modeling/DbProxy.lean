import DbProxy.Spec.Joins
import DbProxy.Spec.Globals
import DbProxy.Spec.Placement
import DbProxy.Spec.InSplit
import DbProxy.Spec.RenamedStatements
import DbProxy.Spec.LimitRange
import DbProxy.Spec.HavingLimit
import DbProxy.Spec.Hygiene
import DbProxy.Spec.Leftovers
import DbProxy.Spec.SequenceIds
import DbProxy.Spec.Rewriting
import DbProxy.Spec.ShardStatements
import DbProxy.Spec.EmptyRoute
import DbProxy.Spec.RowText
import DbProxy.Spec.Logins
import DbProxy.Spec.Reloading
import DbProxy.Backend.Framing
import DbProxy.Spec.Markers
import DbProxy.Spec.Executions
import DbProxy.Spec.Arguments
import DbProxy.Spec.Replication
import DbProxy.Spec.HashedKeys
import DbProxy.Spec.Murmur
import DbProxy.Spec.Balancing
import DbProxy.Spec.FieldDump
import DbProxy.Spec.RowRemoval
import DbProxy.Spec.Credentials
import DbProxy.Spec.TopologyEdits
