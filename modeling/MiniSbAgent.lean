import MiniSbAgent.Go.Maps
import MiniSbAgent.Go.Strings
import MiniSbAgent.Go.Paths
import MiniSbAgent.Go.Utf8
import MiniSbAgent.Go.Json
import MiniSbAgent.Go.NetHTTP
import MiniSbAgent.Lib.Folds
import MiniSbAgent.Lib.Meter
import MiniSbAgent.Lib.Roster
import MiniSbAgent.Lib.TokenBucket
import MiniSbAgent.Counter.RateLimit
import MiniSbAgent.Counter.RateWindow
import MiniSbAgent.Counter.Traffic
import MiniSbAgent.Fork.Inbounds
import MiniSbAgent.Panelapi.Topology
import MiniSbAgent.Panelapi.Client
import MiniSbAgent.Panelapi.Sync
import MiniSbAgent.Panelapi.Pushed
import MiniSbAgent.Panelapi.MinHTTP
import MiniSbAgent.Agent.Billing
import MiniSbAgent.Agent.Pruning
import MiniSbAgent.Agent.UserDelta
import MiniSbAgent.Agent.UserManager
import MiniSbAgent.Panelserver.Store
import MiniSbAgent.Agent.Lifecycle
import MiniSbAgent.Agent.Credentials
import MiniSbAgent.Agent.AuthTables
import MiniSbAgent.Agent.Isolation
import MiniSbAgent.Agent.Merge
import MiniSbAgent.Agent.Attribution
import MiniSbAgent.Agent.TopologyConfig
import MiniSbAgent.Panelserver.Accounts
import MiniSbAgent.Panelserver.Server
import MiniSbAgent.Panelapi.ControlPlane
import MiniSbAgent.Panelserver.Traffic
import MiniSbAgent.Agent.Certificates
import MiniSbAgent.Agent.SpeedLimit
import MiniSbAgent.Agent.Capabilities
import MiniSbAgent.Panelapi.Framing
import MiniSbAgent.Agent.StatsServer
import MiniSbAgent.Counter.Conn
import MiniSbAgent.Agent.Routed
import MiniSbAgent.Install.ShellQuote
import MiniSbAgent.Install.Variant
import MiniSbAgent.Go.Marshal
import MiniSbAgent.Lib.Pool
import MiniSbAgent.Panelapi.FetchTopology
import MiniSbAgent.Go.Url
import MiniSbAgent.Panelserver.Handlers
import MiniSbAgent.Panelserver.Requests
import MiniSbAgent.Panelserver.Secrets
import MiniSbAgent.Panelserver.Distribution
import MiniSbAgent.Agent.InterleavedBilling
import MiniSbAgent.Panelapi.UniProxy
import MiniSbAgent.Panelapi.Users
import MiniSbAgent.Agent.InterleavedSnapshot
