import SingBox.DNS.Group.Reset
import SingBox.DNS.Walk.Race
import SingBox.DNS.Walk.Progress
import SingBox.RuleSet.RoundTrip
import SingBox.DNS.CacheKey
import SingBox.Geosite.Database
import SingBox.TrustTunnel.Wire
import SingBox.XHTTP.XmuxSafety
import SingBox.Chain.MTU
import SingBox.Chain.Ownership
import SingBox.LxMTU.Fits
import SingBox.Route.Reachability
import SingBox.Adapter.OutboundManager
import SingBox.TLSFragment.Conn
import SingBox.WireGuard.PauseSleep
import SingBox.Lxd.Truth
import SingBox.Lxd.Hooks
import SingBox.Sniff.Reassembly
import SingBox.Route.NetworkReset
import SingBox.Route.PreMatchAgreement
import SingBox.Group.Selector
import SingBox.CacheFile.DNSCache
import SingBox.Adapter.Scope
import SingBox.DNS.TimeToLive
import SingBox.RuleSet.Remote
import SingBox.Daemon.Streams
import SingBox.DNS.RuleSetUpdate
import SingBox.CacheFile.FakeIP
import SingBox.DNS.FakeIPRange
import SingBox.URLTest.Pick
import SingBox.URLTest.Convergence
import SingBox.URLTest.FirstLive
import SingBox.DNS.MultiplexerConns
import SingBox.DNS.ClientSubnet
import SingBox.DNS.LegacyFallback
import SingBox.Rule.NestedFlags
import SingBox.XHTTP.Wakeup
import SingBox.XHTTP.Delivery
import SingBox.XHTTP.XmuxLimits
import SingBox.LxMTU.MapAgreement
import SingBox.WireGuard.ReturnPath
import SingBox.Realm.Connect
import SingBox.XHTTP.ReadDeadline
import SingBox.Dialer.Race
import SingBox.SSMAPI.Users
import SingBox.TrustTunnel.Idle
import SingBox.Masque.Fallback
import SingBox.OpenVPN.StackDevice
import SingBox.GRPCLite.GunConn
