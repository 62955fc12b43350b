import Meow.Lib.Text
import Meow.Net.IpAddr

/-!
# Metadata

What the program knows of a connection (`meow-common`). Rules are matched against it, and adapters
are told by it where to connect to.

## Main definitions

* `Metadata` — `Metadata`, with `Metadata::default`.
* `Metadata.ruleHost` — the host that rules are matched against.
-/

namespace Meow

inductive Network where
  | tcp
  | udp
  deriving DecidableEq

inductive ConnType where
  | http
  | https
  | socks4
  | socks5
  | shadowsocks
  | vmess
  | vless
  | redir
  | tproxy
  | trojan
  | tun
  | tunnel
  | tuic
  | hysteria2
  | inner
  deriving DecidableEq

inductive DnsMode where
  | normal
  | mapping
  | fakeIp
  deriving DecidableEq

/-- `Metadata`, with the values of `Metadata::default`. -/
structure Metadata where
  network : Network := .tcp
  connType : ConnType := .http
  srcIp : Option IpAddr := none
  dstIp : Option IpAddr := none
  srcPort : UInt16 := 0
  dstPort : UInt16 := 0
  host : Str := []
  dnsMode : DnsMode := .normal
  process : Str := []
  processPath : Str := []
  uid : Option UInt32 := none
  dscp : Option UInt8 := none
  srcGeoIp : List Str := []
  dstGeoIp : List Str := []
  sniffHost : Str := []
  inName : Str := []
  inPort : UInt16 := 0
  inUser : Option Str := none
  specialProxy : Str := []
  deriving DecidableEq

namespace Metadata

def ruleHost (self : Metadata) : Str := if self.sniffHost = [] then self.host else self.sniffHost

end Metadata

end Meow
