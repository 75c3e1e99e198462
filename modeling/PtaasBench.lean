import PtaasBench.BenchCollector.CloseMerge
import PtaasBench.BenchCollector.Waiters
import PtaasBench.Benchctl.Capabilities
import PtaasBench.Benchctl.CatalogOrder
import PtaasBench.Benchctl.Exercise
import PtaasBench.Benchctl.Fetch
import PtaasBench.Benchctl.HostResolution
import PtaasBench.Benchctl.HostSpelling
import PtaasBench.Benchctl.Monotone
import PtaasBench.Benchctl.OneFlaw
import PtaasBench.Benchctl.ReportTables
import PtaasBench.Benchctl.RouteCanon
import PtaasBench.Benchctl.RouteMatch
import PtaasBench.Benchctl.Ties
import PtaasBench.Blog.FrontMatter
import PtaasBench.Blog.Identity
import PtaasBench.Corp.Converter
import PtaasBench.Edge.CacheKey
import PtaasBench.Edge.FrameWatch
import PtaasBench.Edge.StaticAssets
import PtaasBench.EdgeResolver.Agreement
import PtaasBench.EdgeResolver.DnsTransport
import PtaasBench.EdgeResolver.Upstream
import PtaasBench.EdgeResolver.HintMatch
import PtaasBench.EdgeResolver.Hosts
import PtaasBench.EdgeResolver.Ldap
import PtaasBench.EdgeResolver.Poller
import PtaasBench.EdgeResolver.RawText
import PtaasBench.EdgeResolver.Service
import PtaasBench.EdgeResolver.Smtp
import PtaasBench.Infra.CommandStream
import PtaasBench.Infra.Evidence
import PtaasBench.Infra.Follower
import PtaasBench.Infra.SearchForgery
import PtaasBench.Intranet.Expenses
import PtaasBench.Legacy.Folders
import PtaasBench.Legacy.MailQueue
import PtaasBench.Runners.AddressMaps
import PtaasBench.Runners.Budget
import PtaasBench.Runners.Driver
import PtaasBench.Runners.Export
import PtaasBench.Runners.FindingsFile
import PtaasBench.Runners.InternalName
import PtaasBench.Runners.References
import PtaasBench.Runners.ReportScript
import PtaasBench.Runners.RestartTime
import PtaasBench.Runners.SessionCookies
import PtaasBench.Runners.StrictLogin
import PtaasBench.Runners.TargetDoc
import PtaasBench.Runners.ZapPlan
import PtaasBench.Sdk.AsgiRoutes
import PtaasBench.Sdk.BodyCapture
import PtaasBench.Sdk.Delivery
import PtaasBench.Sdk.DotnetCounters
import PtaasBench.Sdk.JavaJson
import PtaasBench.Sdk.LeavesAlike
import PtaasBench.Sdk.Multipart
import PtaasBench.Sdk.PhpParams
import PtaasBench.Sdk.PhpSpool
import PtaasBench.Sdk.Recognition
import PtaasBench.Shopfront.GraphBatch
import PtaasBench.Shopfront.HonestOrder
import PtaasBench.Shopfront.MergeWatch
import PtaasBench.Shopfront.Orders
import PtaasBench.Shopfront.PlanAnomaly
import PtaasBench.Shopfront.Redeem
