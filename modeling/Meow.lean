import Meow.AnyTls.PacketIndex
import Meow.AnyTls.StreamReader
import Meow.AnyTls.StreamWriter
import Meow.Config.GeositeContext
import Meow.Config.Subscription
import Meow.Dns.FakeIp.Range
import Meow.Dns.QueryPool
import Meow.Dns.TableOrder
import Meow.Group.Fallback
import Meow.Group.Relay
import Meow.Group.Report
import Meow.Http.Run
import Meow.Http.Target
import Meow.Hysteria2.Udp
import Meow.Listener.TunDns
import Meow.Listener.UdpSessions
import Meow.Mux.Client
import Meow.Mux.CoolRun
import Meow.Mux.Packet
import Meow.Mux.Smux
import Meow.Proxy.Direct
import Meow.Rules.DomainSetEncode
import Meow.Rules.DomainSetTotal
import Meow.Rules.IpRange
import Meow.Snell.Run
import Meow.Sniffer.Tls
import Meow.Tunnel.PortMatcher
import Meow.Tunnel.Relay
import Meow.Tunnel.Reload
import Meow.Tunnel.Udp
import Meow.Vless.Request
import Meow.Vless.ServerHello
import Meow.Vless.VisionRun
