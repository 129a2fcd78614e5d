import NekoBox.Lib.Machine
import NekoBox.Qt.Text
import NekoBox.Database.Keys
import NekoBox.Database.Crash
import NekoBox.Database.LoadFailure
import NekoBox.Qt.DataStream
import NekoBox.Store.Binary
import NekoBox.Store.BinaryRoundTrip
import NekoBox.Store.Json
import NekoBox.Store.JsonRoundTrip
import NekoBox.Lib.PathMap
import NekoBox.Store.Ini
import NekoBox.Store.IniRoundTrip
import NekoBox.Core.Server
import NekoBox.Security.AccessLock
import NekoBox.Security.AccessPolicy
import NekoBox.Lib.ThreeWay
import NekoBox.Profile.FilterKey
import NekoBox.Lib.WorkList
import NekoBox.Subscription.RawUpdater
import NekoBox.Subscription.Termination
import NekoBox.Lib.OrderedMap
import NekoBox.Subscription.GroupUpdater
import NekoBox.Subscription.Merge
import NekoBox.Config.Chain
import NekoBox.Config.ChainPath
import NekoBox.Config.Builder
import NekoBox.Config.DirectLists
import NekoBox.Config.Validation
import NekoBox.Database.Identifiers
import NekoBox.Lib.Base64
import NekoBox.Lib.Blocks
import NekoBox.Lib.Members
import NekoBox.Lib.RoundTrip
import NekoBox.Link.Fields
import NekoBox.Link.Ini
import NekoBox.Link.Shadowsocks
import NekoBox.Link.StreamLink
import NekoBox.Link.TrojanVless
import NekoBox.Link.VMess
import NekoBox.Link.Wireguard
import NekoBox.Link.Amnezia
import NekoBox.Link.StreamStore
import NekoBox.Core.BatchTest
import NekoBox.Lib.Lock
import NekoBox.Window.StartStop
import NekoBox.Window.TestLock
import NekoBox.Config.TestTags
import NekoBox.Window.TestResults
import NekoBox.Core.SystemDns
import NekoBox.Database.RouteChains
import NekoBox.Database.TabOrder
import NekoBox.Lib.Lru
import NekoBox.Profile.Uniq
import NekoBox.Window.ProfileStop
import NekoBox.Window.RemoveDuplicates
import NekoBox.Window.RouteItem
import NekoBox.Window.UpdateGuards
import NekoBox.Config.DnsAddress
import NekoBox.Profile.Differences
import NekoBox.Window.ManageRoutes
import NekoBox.Config.NestedMtu
import NekoBox.Config.OutboundName
import NekoBox.Config.RouteExport
import NekoBox.Config.Verdict
import NekoBox.Lib.Distinct
import NekoBox.Window.RemoveInvalid
import NekoBox.Window.SimpleRules
import NekoBox.AutoTest.Rotation
import NekoBox.AutoTest.WorkingPool
import NekoBox.Core.CachePath
import NekoBox.Core.Download
import NekoBox.Window.DropRows
import NekoBox.Lib.JsonText
import NekoBox.Subscription.Disect
import NekoBox.Lib.Assignments
import NekoBox.Link.DataNode
import NekoBox.Link.NodeJson
import NekoBox.Link.ClashScalar
import NekoBox.Link.WgConf
import NekoBox.Utils.FifoMutex
import NekoBox.Lib.Gregorian
import NekoBox.Utils.DateTime
import NekoBox.Lib.FileTree
import NekoBox.Core.Updater
import NekoBox.Subscription.MimeWords
import NekoBox.Lib.Regex
import NekoBox.Qt.Folding
import NekoBox.Config.GameMod
import NekoBox.Config.GamePattern
import NekoBox.Core.ProcessLog
import NekoBox.Lib.ComparatorSort
import NekoBox.Lib.References
import NekoBox.Window.UpdateCheck
import NekoBox.Window.UpdateOrder
import NekoBox.Config.References
import NekoBox.Config.DnsReferences
import NekoBox.Config.FullConfig
import NekoBox.Config.FullRun
import NekoBox.Config.TestBatch
import NekoBox.Lib.Feed
import NekoBox.Stats.Connections
import NekoBox.Stats.Traffic
