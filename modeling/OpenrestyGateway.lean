import OpenrestyGateway.Library.Prog
import OpenrestyGateway.Library.Pool
import OpenrestyGateway.Library.Isolation
import OpenrestyGateway.Library.TtlStore
import OpenrestyGateway.Library.LeakyBucket
import OpenrestyGateway.LuaValue
import OpenrestyGateway.Redis
import OpenrestyGateway.Worker
import OpenrestyGateway.Connlimit
import OpenrestyGateway.Ratelimit
import OpenrestyGateway.Util
import OpenrestyGateway.GetConf
import OpenrestyGateway.AccessMain
import OpenrestyGateway.AccessKeys
import OpenrestyGateway.RequestLife
import OpenrestyGateway.ConnDiscipline
import OpenrestyGateway.ConnAccounting
import OpenrestyGateway.ConnSafety
import OpenrestyGateway.RatelimitBucket
import OpenrestyGateway.RatelimitWindow
import OpenrestyGateway.RatelimitBan
import OpenrestyGateway.RatelimitSerial
import OpenrestyGateway.FailOpen
import OpenrestyGateway.RedisIresty
import OpenrestyGateway.ConfReload
import OpenrestyGateway.ConfKeys
import OpenrestyGateway.DomainEntry
import OpenrestyGateway.DomainChecks
import OpenrestyGateway.ConnRejection
import OpenrestyGateway.RuleSelection
import OpenrestyGateway.RuleValues
import OpenrestyGateway.ConnRefinement
import OpenrestyGateway.KeySteps
import OpenrestyGateway.UserIsolation
import OpenrestyGateway.ReloadRun
import OpenrestyGateway.ReloadSection
import OpenrestyGateway.ReloadMissed
import OpenrestyGateway.ReloadExact
import OpenrestyGateway.AclLaw
import OpenrestyGateway.InitPhase
import OpenrestyGateway.HealthEvents
import OpenrestyGateway.RatelimitFaults
import OpenrestyGateway.RatelimitBounds
import OpenrestyGateway.RatelimitRate
import OpenrestyGateway.RatelimitHistory
import OpenrestyGateway.Library.Binary
import OpenrestyGateway.DecimalText
import OpenrestyGateway.SubnetMatch
import OpenrestyGateway.Library.Calendar
import OpenrestyGateway.TimestampRule
import OpenrestyGateway.UpstreamSelect
import OpenrestyGateway.ZoneNames
import OpenrestyGateway.GetDeny
import OpenrestyGateway.RedisPipeline
import OpenrestyGateway.PipelineAgree
import OpenrestyGateway.Resp
import OpenrestyGateway.RespStream
import OpenrestyGateway.PubSub
import OpenrestyGateway.Library.Ring
import OpenrestyGateway.Library.Recency
import OpenrestyGateway.LruCache
import OpenrestyGateway.LruRefinement
import OpenrestyGateway.LruRecency
import OpenrestyGateway.ZoneCache
import OpenrestyGateway.WorkerEvents
import OpenrestyGateway.WorkerDelivery
import OpenrestyGateway.WorkerOnce
import OpenrestyGateway.WorkerCallbacks
import OpenrestyGateway.Healthcheck
import OpenrestyGateway.HealthcheckLaw
import OpenrestyGateway.Library.FreeList
import OpenrestyGateway.RestyLock
import OpenrestyGateway.LockMemo
import OpenrestyGateway.LockExclusion
import OpenrestyGateway.HealthTargets
import OpenrestyGateway.HealthViews
import OpenrestyGateway.HealthProbes
import OpenrestyGateway.RestyTimer
import OpenrestyGateway.TimerSchedule
