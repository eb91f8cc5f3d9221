import Soil.Orm.Placeholders
import Soil.Orm.OptimisticLock
import Soil.Orm.Fetch
import Soil.Orm.Naming
import Soil.Rpc.Invoke
import Soil.Rpc.Reuse
import Soil.Net.ClientMetrics
import Soil.Net.Codec
import Soil.Net.Framing
import Soil.Net.ServerReplies
import Soil.Net.Shutdown
import Soil.Net.BalancerRace
import Soil.Net.Breaker
import Soil.Net.Isolation
import Soil.Net.StaleResponse
import Soil.Net.PoolRecycling
import Soil.Pool.Accounting
import Soil.Pool.Ownership
import Soil.Pool.Release
import Soil.Pool.Wakeup
import Soil.Web.Leftovers
import Soil.Web.Order
import Soil.Web.Group
import Soil.Web.Interference
import Soil.Web.Transparency
import Soil.Web.Ratelimit
import Soil.Cache.Agreement
import Soil.Cache.Callback
import Soil.Cache.Recency
import Soil.Cache.LockOwnership
import Soil.Cache.WriteThrough
import Soil.Registry.Etcd
import Soil.LoadBalance.Locks
import Soil.LoadBalance.WeightRandom
import Soil.LoadBalance.GroupRoute
import Soil.LoadBalance.LeastActive
