import Meow.Common.Metadata

/-!
# Relay groups

A relay group chains its members: the first dials, each later one connects over the stream that is
there, and each is told to reach the address of the next (`group/relay.rs`). A member may be a group
itself, which is replaced by the member it chooses, or another relay.

A relay works through its members in two ways. `relay_tcp`, where it dials, first replaces the
groups, and skips `DIRECT` members when it looks for the next address. `RelayGroup::connect_over`,
where the relay is itself a later member of another relay, does neither, and the relay has no
address to be told to the member in front of it. So a relay is the same as its members in line only
where it is the first member.

## Main definitions

* `Proxy` — adapters, groups with the member they choose, and relays.
* `dialTcp`, `connectOver` — what they do.
* `hops`, `chainOps` — the members in line, and what is to be asked of them.
* `Proxy.leadingOnly` — relays are first members only.

## Main results

* `dialTcp_eq_follow` — a relay whose relays are first members is its members in line.
* `relay_dial_iff` — no other is.
-/

namespace Meow.Group

open List

/-! ### Proxies -/

/-- An adapter with a server. -/
structure Server where
  name : Str
  server : Str
  port : UInt16
  server_ne : server ≠ []

/-- A member of a chain: `DIRECT`, an adapter with a server, a group with the member that it
chooses, or a relay of at least two. -/
inductive Proxy where
  | direct
  | server (s : Server)
  | select (name : Str) (chosen : Proxy)
  | relay (name : Str) (first second : Proxy) (rest : List Proxy)

/-- `adapter_type` is `Direct`. -/
def Proxy.isDirect : Proxy → Bool
  | .direct => true
  | _ => false

/-- `adapter_type` is `Relay`. -/
def Proxy.isRelay : Proxy → Bool
  | .relay _ _ _ _ => true
  | _ => false

/-- `addr`: groups have none. -/
def Proxy.addr : Proxy → Str
  | .server s => s.server ++ ':' :: natToStr s.port.toNat
  | _ => []

def metadataForProxy (proxy : Proxy) : Metadata :=
  match rsplitOnce ':' proxy.addr with
  | some (host, port) =>
    { host := host, dstPort := UInt16.ofNat ((parseUnsigned 65535 port).getD 0) }
  | none => { host := proxy.addr, dstPort := 0 }

/-- `resolve_proxy`: the member that a group chooses, down to one that is not a group. -/
def resolveProxy : Proxy → Proxy
  | .select _ chosen => resolveProxy chosen
  | proxy => proxy

/-- `metadata_for_next_hop`, for the members after a hop. -/
def metadataForNextHop (proxies : List Proxy) (finalTarget : Metadata) : Metadata :=
  match proxies.find? fun proxy => !proxy.isDirect with
  | some proxy => metadataForProxy proxy
  | none => finalTarget

/-- The target of a hop of `RelayGroup::connect_over`: the next member, whatever it is. -/
def metadataForFollowing (proxies : List Proxy) (finalTarget : Metadata) : Metadata :=
  match proxies with
  | [] => finalTarget
  | proxy :: _ => metadataForProxy proxy

/-! ### What is asked of the adapters -/

/-- An adapter that is not a group. -/
inductive Hop where
  | direct
  | server (s : Server)

/-- The two entries of an adapter. -/
inductive Entry where
  | dialTcp
  | connectOver
  deriving DecidableEq

/-- An adapter is asked to reach a target. -/
structure Op where
  entry : Entry
  hop : Hop
  target : Metadata

/-- The errors of `MeowError` that come up here. -/
inductive MeowError where
  | notSupported (message : Str)
  | relayHopFailed (hop : ℕ) (source : MeowError)
  | adapter (message : Str)

/-- How the adapters answer, given all that was asked so far. -/
abbrev Env := List Op → Except MeowError Unit

/-- A part of a dial: what has been asked before it, and after it with the result. -/
abbrev Dial := List Op → Except MeowError Unit × List Op

namespace Dial

/-- Nothing is asked. -/
def done : Dial := fun log => (.ok (), log)

/-- An error without asking. -/
def fail (e : MeowError) : Dial := fun log => (.error e, log)

/-- Ask an adapter. -/
def ask (env : Env) (op : Op) : Dial := fun log => (env (log ++ [op]), log ++ [op])

/-- One after the other, with the `?` operator between them. -/
def andThen (a b : Dial) : Dial := fun log =>
  match a log with
  | (.ok _, log) => b log
  | (.error e, log) => (.error e, log)

/-- `map_err` to `RelayHopFailed`. -/
def atHop (hop : ℕ) (a : Dial) : Dial := fun log =>
  ((a log).1.mapError (.relayHopFailed hop), (a log).2)

end Dial

open Dial

mutual

/-- `connect_over`. It is not supported by groups; for `DIRECT` it does nothing. -/
def connectOver (env : Env) : Proxy → Metadata → Dial
  | .direct, _ => .done
  | .server s, metadata => .ask env ⟨.connectOver, .server s, metadata⟩
  | .select name _, _ => .fail (.notSupported (name ++ str ": connect_over not supported"))
  | .relay _ first second rest, finalTarget =>
    (Dial.atHop 0 (connectOver env first (metadataForProxy second))).andThen
      ((Dial.atHop 1 (connectOver env second (metadataForFollowing rest finalTarget))).andThen
        (connectOverAll env 2 rest finalTarget))

/-- The loop of `RelayGroup::connect_over`. -/
def connectOverAll (env : Env) (i : ℕ) : List Proxy → Metadata → Dial
  | [], _ => .done
  | proxy :: rest, finalTarget =>
    (Dial.atHop i (connectOver env proxy (metadataForFollowing rest finalTarget))).andThen
      (connectOverAll env (i + 1) rest finalTarget)

end

/-- The loop of `relay_tcp` after the first hop. The last hop is told the final target, which is
what `metadata_for_next_hop` gives where nothing follows. -/
def relayRest (env : Env) (i : ℕ) : List Proxy → Metadata → Dial
  | [], _ => .done
  | proxy :: rest, finalTarget =>
    (Dial.atHop i (connectOver env proxy (metadataForNextHop rest finalTarget))).andThen
      (relayRest env (i + 1) rest finalTarget)

open Proxy

lemma sizeOf_resolveProxy_le : ∀ proxy : Proxy, sizeOf (resolveProxy proxy) ≤ sizeOf proxy
  | .direct => le_rfl
  | .server _ => le_rfl
  | .relay _ _ _ _ => le_rfl
  | .select name chosen => by
    have h := sizeOf_resolveProxy_le chosen
    simp only [resolveProxy, select.sizeOf_spec]
    omega

/-- `dial_tcp`; for a relay it is `relay_tcp`. -/
def dialTcp (env : Env) (proxy : Proxy) (metadata : Metadata) : Dial :=
  match proxy with
  | .direct => .ask env ⟨.dialTcp, .direct, metadata⟩
  | .server s => .ask env ⟨.dialTcp, .server s, metadata⟩
  | .select _ chosen => dialTcp env chosen metadata
  | .relay _ first second rest =>
    let tail := (second :: rest).map resolveProxy
    (Dial.atHop 0 (dialTcp env (resolveProxy first) (metadataForNextHop tail metadata))).andThen
      (relayRest env 1 tail metadata)
termination_by sizeOf proxy
decreasing_by
  · simp only [Proxy.select.sizeOf_spec]
    omega
  · have h := sizeOf_resolveProxy_le first
    simp only [Proxy.relay.sizeOf_spec]
    omega

/-! ### The members in line -/

mutual

/-- The adapters of a proxy in line: a group is replaced by the member that it chooses, a relay by
its members. -/
def hops : Proxy → List Hop
  | .direct => [.direct]
  | .server s => [.server s]
  | .select _ chosen => hops chosen
  | .relay _ first second rest => hops first ++ (hops second ++ hopsAll rest)

def hopsAll : List Proxy → List Hop
  | [] => []
  | proxy :: rest => hops proxy ++ hopsAll rest

end

open Hop

/-- An adapter as a member. -/
def Hop.toProxy : Hop → Proxy
  | .direct => .direct
  | .server s => .server s

/-- The relay of adapters in line. -/
def flatRelay (name : Str) : List Hop → Proxy
  | first :: second :: rest => .relay name first.toProxy second.toProxy (rest.map Hop.toProxy)
  | [hop] => hop.toProxy
  | [] => .direct

/-- The address of an adapter with a server. -/
def Server.metadata (s : Server) : Metadata := { host := s.server, dstPort := s.port }

/-- The address of the next adapter that is not `DIRECT`, or else the final target. -/
def nextTarget : List Hop → Metadata → Metadata
  | [], finalTarget => finalTarget
  | .direct :: rest, finalTarget => nextTarget rest finalTarget
  | .server s :: _, _ => s.metadata

/-- Each adapter but `DIRECT` is connected over once, and told to reach the next. -/
def overOps : List Hop → Metadata → List Op
  | [], _ => []
  | .direct :: rest, finalTarget => overOps rest finalTarget
  | .server s :: rest, finalTarget =>
    ⟨.connectOver, .server s, nextTarget rest finalTarget⟩ :: overOps rest finalTarget

/-- **What is to be asked of the adapters in line**: the first dials, and the others are connected
over. -/
def chainOps : List Hop → Metadata → List Op
  | [], _ => []
  | hop :: rest, finalTarget =>
    ⟨.dialTcp, hop, nextTarget rest finalTarget⟩ :: overOps rest finalTarget

/-- Ask one after the other, up to the first error: whether there was none, and what was asked. -/
def follow (env : Env) : List Op → List Op → Bool × List Op
  | [], log => (true, log)
  | op :: ops, log =>
    match env (log ++ [op]) with
    | .ok _ => follow env ops (log ++ [op])
    | .error _ => (false, log ++ [op])

/-- What was asked, and whether there was an error. -/
def outcome (r : Except MeowError Unit × List Op) : Bool × List Op := (r.1.isOk, r.2)

/-- Relays are first members only, of the relay and of the relays in it. -/
def Proxy.leadingOnly : Proxy → Bool
  | .relay _ first second rest =>
    (second :: rest).all (fun proxy => !(resolveProxy proxy).isRelay) && first.leadingOnly
  | .select _ chosen => chosen.leadingOnly
  | _ => true

/-! ### A relay whose relays are first members -/

/-- The address that is made for an adapter is read back. -/
lemma metadataForProxy_server (s : Server) : metadataForProxy (.server s) = s.metadata := by
  have hcolon : ':' ∉ natToStr s.port.toNat := by
    intro h
    exact absurd (isAsciiDigit_of_mem_natToStr h) (by decide)
  have hport : s.port.toNat ≤ 65535 := Nat.le_of_lt_succ s.port.toNat_lt
  simp only [metadataForProxy, addr, rsplitOnce_append hcolon, parseUnsigned_natToStr hport,
    Option.getD_some, UInt16.ofNat_toNat, Server.metadata]

variable (hs : List Hop)

lemma metadataForNextHop_hops (m : Metadata) :
    metadataForNextHop (hs.map toProxy) m = nextTarget hs m := by
  induction hs with
  | nil => rfl
  | cons hop hs ih =>
    cases hop with
    | direct => exact ih
    | server s => exact metadataForProxy_server s

/-- Members that are not relays are adapters in line. -/
lemma exists_hops {proxies : List Proxy}
    (h : ∀ proxy ∈ proxies, (resolveProxy proxy).isRelay = false) :
    proxies.map resolveProxy = (hopsAll proxies).map toProxy := by
  have hone : ∀ proxy : Proxy, (resolveProxy proxy).isRelay = false →
      [resolveProxy proxy] = (hops proxy).map toProxy := by
    intro proxy
    fun_induction resolveProxy proxy with
    | case1 name chosen ih => exact ih
    | case2 proxy hne =>
      intro hrelay
      cases proxy with
      | direct => rfl
      | server s => rfl
      | select name chosen => exact absurd rfl (hne name chosen)
      | relay name first second rest => exact absurd hrelay (by simp [isRelay])
  induction proxies with
  | nil => rfl
  | cons proxy rest ih =>
    rw [map_cons, hopsAll, map_append, ← hone proxy (h proxy mem_cons_self),
      ← ih fun q hq => h q (mem_cons_of_mem _ hq), singleton_append]

lemma nextTarget_append (tail : List Hop) (m : Metadata) :
    nextTarget (hs ++ tail) m = nextTarget hs (nextTarget tail m) := by
  induction hs with
  | nil => rfl
  | cons hop hs ih =>
    cases hop with
    | direct => exact ih
    | server s => rfl

lemma overOps_append (tail : List Hop) (m : Metadata) :
    overOps (hs ++ tail) m = overOps hs (nextTarget tail m) ++ overOps tail m := by
  induction hs with
  | nil => rfl
  | cons hop hs ih =>
    cases hop with
    | direct => exact ih
    | server s => rw [cons_append, overOps, overOps, nextTarget_append, ih, cons_append]

lemma chainOps_append {hs} (hne : hs ≠ []) (tail : List Hop) (m : Metadata) :
    chainOps (hs ++ tail) m = chainOps hs (nextTarget tail m) ++ overOps tail m := by
  cases hs with
  | nil => exact absurd rfl hne
  | cons hop hs =>
    rw [cons_append, chainOps, chainOps, nextTarget_append, overOps_append, cons_append]

lemma hops_ne_nil : ∀ proxy : Proxy, hops proxy ≠ []
  | .direct => by simp [hops]
  | .server s => by simp [hops]
  | .select name chosen => by
    rw [hops]
    exact hops_ne_nil chosen
  | .relay name first second rest => by
    rw [hops]
    exact append_ne_nil_of_left_ne_nil (hops_ne_nil first) _

variable (env : Env)

lemma follow_append (ops ops' log : List Op) :
    follow env (ops ++ ops') log =
      if (follow env ops log).1 then follow env ops' (follow env ops log).2
      else follow env ops log := by
  induction ops generalizing log with
  | nil => rfl
  | cons op ops ih =>
    rw [cons_append, follow, follow]
    cases env (log ++ [op]) with
    | ok => exact ih _
    | error e => rfl

lemma outcome_atHop (hop : ℕ) (a : Dial) (log : List Op) :
    outcome (atHop hop a log) = outcome (a log) := by
  rw [outcome, outcome, atHop]
  cases (a log).1 <;> rfl

lemma outcome_andThen (a b : Dial) (log : List Op) :
    outcome (a.andThen b log) =
      if (outcome (a log)).1 then outcome (b (outcome (a log)).2) else outcome (a log) := by
  rw [andThen]
  rcases h : a log with ⟨_ | _, log'⟩ <;> rfl

lemma outcome_ask (op : Op) (log : List Op) : outcome (ask env op log) = follow env [op] log := by
  rw [ask, follow]
  cases env (log ++ [op]) <;> rfl

/-- The loop of `relay_tcp` over adapters. -/
lemma relayRest_hops (i : ℕ) (hs : List Hop) (m : Metadata) (log : List Op) :
    outcome (relayRest env i (hs.map toProxy) m log) = follow env (overOps hs m) log := by
  induction hs generalizing i log with
  | nil => rfl
  | cons hop hs ih =>
    rw [map_cons, relayRest, outcome_andThen, outcome_atHop, metadataForNextHop_hops]
    cases hop with
    | direct =>
      exact ih _ _
    | server s =>
      rw [toProxy, connectOver, outcome_ask, ih]
      exact (follow_append env [_] (overOps hs m) log).symm

lemma dialTcp_resolveProxy (env : Env) (m : Metadata) :
    ∀ proxy : Proxy, dialTcp env (resolveProxy proxy) m = dialTcp env proxy m
  | .direct => rfl
  | .server _ => rfl
  | .relay _ _ _ _ => rfl
  | .select name chosen => by
    rw [resolveProxy, dialTcp_resolveProxy env m chosen]
    conv_rhs => rw [dialTcp]

/-- **A relay whose relays are first members is its members in line.**

**Proof sketch.** Recursion on the first member. It is told the next address after it, which is
where its own last member is to go; the other members are adapters, over which `relay_tcp` goes as
over a line. -/
lemma dialTcp_eq_follow (env : Env) : ∀ (proxy : Proxy), proxy.leadingOnly →
    ∀ (m : Metadata) (log : List Op),
      outcome (dialTcp env proxy m log) = follow env (chainOps (hops proxy) m) log
  | .direct, _, m, log => by
    rw [dialTcp, outcome_ask]
    rfl
  | .server s, _, m, log => by
    rw [dialTcp, outcome_ask]
    rfl
  | .select name chosen, h, m, log => by
    rw [dialTcp, hops]
    exact dialTcp_eq_follow env chosen h m log
  | .relay name first second rest, h, m, log => by
    rw [leadingOnly, Bool.and_eq_true, all_eq_true] at h
    have htail : (second :: rest).map resolveProxy =
        (hopsAll (second :: rest)).map toProxy :=
      exists_hops fun proxy hmem => by simpa using h.1 proxy hmem
    rw [dialTcp, hops, ← hopsAll, chainOps_append (hops_ne_nil first), follow_append]
    simp only [htail]
    rw [outcome_andThen, outcome_atHop, metadataForNextHop_hops, dialTcp_resolveProxy,
      dialTcp_eq_follow env first h.2]
    simp only [relayRest_hops]

/-- The relay of adapters in line is one of them. -/
lemma flatRelay_eq_follow (name : Str) {hs} (hne : hs ≠ []) (m : Metadata) (log : List Op) :
    outcome (dialTcp env (flatRelay name hs) m log) = follow env (chainOps hs m) log := by
  have hleaf : ∀ hop : Hop, (resolveProxy hop.toProxy).isRelay = false := by
    intro hop
    cases hop <;> rfl
  have hleading : ∀ hop : Hop, hop.toProxy.leadingOnly := by
    intro hop
    cases hop <;> rfl
  have hhops : ∀ hop : Hop, hops hop.toProxy = [hop] := by
    intro hop
    cases hop <;> simp [toProxy, hops]
  have hall : ∀ l : List Hop, hopsAll (l.map toProxy) = l := by
    intro l
    induction l with
    | nil => rfl
    | cons hop l ih => rw [map_cons, hopsAll, hhops, ih, singleton_append]
  rcases hs with _ | ⟨first, _ | ⟨second, rest⟩⟩
  · exact absurd rfl hne
  · rw [flatRelay, dialTcp_eq_follow env _ (hleading first), hhops]
  · rw [flatRelay, dialTcp_eq_follow, hops, hhops, hhops, hall]
    · rfl
    · rw [leadingOnly, Bool.and_eq_true, all_eq_true]
      refine ⟨fun proxy hmem => ?_, hleading first⟩
      rw [← map_cons, mem_map] at hmem
      obtain ⟨hop, -, rfl⟩ := hmem
      rw [hleaf]
      rfl

/-! ### Any other relay -/

/-- Every adapter does what it is asked. -/
def willing : Env := fun _ => .ok ()

lemma follow_willing (ops log : List Op) : follow willing ops log = (true, log ++ ops) := by
  induction ops generalizing log with
  | nil => rw [follow, append_nil]
  | cons op ops ih => simp [follow, willing, ih]

/-- Someone was told to reach nothing at all. -/
def ToldNothing (log : List Op) : Prop := ∃ op ∈ log, op.target = {}

/-- What was asked stays asked. -/
def Dial.Extends (a : Dial) : Prop := ∀ log, log <+: (a log).2

lemma Dial.Extends.toldNothing {a : Dial} (h : a.Extends) {log} (hlog : ToldNothing log) :
    ToldNothing (a log).2 := by
  obtain ⟨op, hop, htarget⟩ := hlog
  exact ⟨op, (h log).subset hop, htarget⟩

lemma Dial.Extends.atHop {a : Dial} (h : a.Extends) (hop : ℕ) : (Dial.atHop hop a).Extends := h

lemma Dial.Extends.andThen {a b : Dial} (ha : a.Extends) (hb : b.Extends) :
    (a.andThen b).Extends := by
  intro log
  have h := ha log
  rw [Dial.andThen]
  rcases hlog : a log with ⟨_ | _, log'⟩
  · rwa [hlog] at h
  · rw [hlog] at h
    exact h.trans (hb log')

mutual

lemma extends_connectOver (env : Env) : ∀ (proxy : Proxy) (m : Metadata),
    (connectOver env proxy m).Extends
  | .direct, m => by
    rw [connectOver]
    exact fun _ => prefix_rfl
  | .server s, m => by
    rw [connectOver]
    exact fun _ => prefix_append _ _
  | .select name chosen, m => by
    rw [connectOver]
    exact fun _ => prefix_rfl
  | .relay name first second rest, m => by
    rw [connectOver]
    exact ((extends_connectOver env first _).atHop 0).andThen
      (((extends_connectOver env second _).atHop 1).andThen (extends_connectOverAll env 2 rest m))

lemma extends_connectOverAll (env : Env) (i : ℕ) : ∀ (proxies : List Proxy) (m : Metadata),
    (connectOverAll env i proxies m).Extends
  | [], m => by
    rw [connectOverAll]
    exact fun _ => prefix_rfl
  | proxy :: rest, m => by
    rw [connectOverAll]
    exact ((extends_connectOver env proxy _).atHop i).andThen
      (extends_connectOverAll env (i + 1) rest m)

end

lemma extends_relayRest (i : ℕ) (proxies : List Proxy) (m : Metadata) :
    (relayRest env i proxies m).Extends := by
  induction proxies generalizing i with
  | nil => exact fun _ => prefix_rfl
  | cons proxy rest ih =>
    exact ((extends_connectOver env proxy _).atHop i).andThen (ih (i + 1))

/-- **A relay among the later members has no address to be told.** Where the final target is
nothing, or a relay is among the members, and the next address is something, then the adapter in
front of it is told nothing. -/
lemma toldNothing_relayRest (i : ℕ) (proxies : List Proxy) (m : Metadata) (log : List Op)
    (h : m = {} ∨ ∃ proxy ∈ proxies, proxy.isRelay) (hnext : metadataForNextHop proxies m ≠ {}) :
    ToldNothing (relayRest willing i proxies m log).2 := by
  induction proxies generalizing i log with
  | nil =>
    rcases h with rfl | ⟨proxy, hmem, -⟩
    · exact absurd rfl hnext
    · simp at hmem
  | cons proxy rest ih =>
    have hrest : proxy.isRelay = false → m = {} ∨ ∃ proxy ∈ rest, proxy.isRelay := by
      intro hproxy
      refine h.imp_right ?_
      rintro ⟨q, hmem, hq⟩
      rcases mem_cons.mp hmem with rfl | hmem
      · exact absurd hq (by simp [hproxy])
      · exact ⟨q, hmem, hq⟩
    have hnil : ∀ q : Proxy, q.isDirect = false → q.addr = [] →
        metadataForNextHop (q :: rest) m = {} := by
      intro q hq haddr
      rw [metadataForNextHop, find?_cons_of_pos (by simp [hq])]
      show metadataForProxy q = {}
      rw [metadataForProxy, haddr]
      rfl
    cases proxy with
    | direct =>
      exact ih (i + 1) log (hrest rfl) hnext
    | server s =>
      show ToldNothing (relayRest willing (i + 1) rest m
        (log ++ [⟨.connectOver, .server s, metadataForNextHop rest m⟩])).2
      by_cases htold : metadataForNextHop rest m = {}
      · refine (extends_relayRest willing (i + 1) rest m).toldNothing
          ⟨⟨.connectOver, .server s, metadataForNextHop rest m⟩, ?_, htold⟩
        exact mem_append_right _ (mem_singleton_self _)
      · exact ih (i + 1) _ (hrest rfl) htold
    | select name chosen => exact absurd (hnil (.select name chosen) rfl rfl) hnext
    | relay name first second others =>
      exact absurd (hnil (.relay name first second others) rfl rfl) hnext

/-- The same for a dial: where the target is nothing, or a relay is not a first member, someone is
told nothing.

**Proof sketch.** Recursion on the first member. If the next address after it is nothing, or a
relay in it is not a first member, it is so within the first member. Otherwise the first member
succeeds, and `toldNothing_relayRest` applies to the others. -/
lemma toldNothing_dialTcp : ∀ (proxy : Proxy) (m : Metadata) (log : List Op),
    (m = {} ∨ proxy.leadingOnly = false) → ToldNothing (dialTcp willing proxy m log).2
  | .direct, m, log, h => by
    rw [h.resolve_right (by simp [leadingOnly]), dialTcp]
    exact ⟨_, mem_append_right _ (mem_singleton_self _), rfl⟩
  | .server s, m, log, h => by
    rw [h.resolve_right (by simp [leadingOnly]), dialTcp]
    exact ⟨_, mem_append_right _ (mem_singleton_self _), rfl⟩
  | .select name chosen, m, log, h => by
    rw [dialTcp]
    exact toldNothing_dialTcp chosen m log h
  | .relay name first second rest, m, log, h => by
    rw [dialTcp]
    simp only [dialTcp_resolveProxy]
    set tail := (second :: rest).map resolveProxy with htail
    have hrest := extends_relayRest willing 1 tail m
    by_cases hfirst : metadataForNextHop tail m = {} ∨ first.leadingOnly = false
    · -- within the first member
      have htold := toldNothing_dialTcp first (metadataForNextHop tail m) log hfirst
      rw [andThen]
      rcases hlog : atHop 0 (dialTcp willing first (metadataForNextHop tail m)) log with
        ⟨_ | _, log'⟩
      all_goals
        obtain rfl : (dialTcp willing first (metadataForNextHop tail m) log).2 = log' :=
          congrArg Prod.snd hlog
      · exact htold
      · exact hrest.toldNothing htold
    · -- after the first member
      rw [not_or, Bool.not_eq_false] at hfirst
      have hout := dialTcp_eq_follow willing first hfirst.2 (metadataForNextHop tail m) log
      rw [follow_willing] at hout
      have hthen := outcome_andThen
        (atHop 0 (dialTcp willing first (metadataForNextHop tail m)))
        (relayRest willing 1 tail m) log
      rw [outcome_atHop, hout, if_pos rfl] at hthen
      rw [show ∀ r, (r : Except MeowError Unit × List Op).2 = (outcome r).2 from fun _ => rfl,
        hthen]
      refine toldNothing_relayRest 1 tail m _ ?_ hfirst.1
      refine h.imp_right fun hlead => ?_
      rw [leadingOnly, hfirst.2, Bool.and_true, all_eq_false] at hlead
      obtain ⟨proxy, hmem, hrelay⟩ := hlead
      exact ⟨resolveProxy proxy, mem_map_of_mem hmem, by simpa using hrelay⟩

/-- Along a line everyone is told something. -/
lemma not_toldNothing_chainOps {m} (hm : m ≠ {}) : ¬ToldNothing (chainOps hs m) := by
  have hserver : ∀ s : Server, s.metadata ≠ {} := by
    intro s h
    exact s.server_ne (congrArg Metadata.host h)
  have hnext : ∀ hs : List Hop, nextTarget hs m ≠ {} := by
    intro hs
    induction hs with
    | nil => exact hm
    | cons hop hs ih =>
      cases hop with
      | direct => exact ih
      | server s => exact hserver s
  have hover : ∀ hs : List Hop, ∀ op ∈ overOps hs m, op.target ≠ {} := by
    intro hs
    induction hs with
    | nil => simp [overOps]
    | cons hop hs ih =>
      cases hop with
      | direct => exact ih
      | server s =>
        exact forall_mem_cons.mpr ⟨hnext hs, ih⟩
  rintro ⟨op, hop, htarget⟩
  cases hs with
  | nil => exact absurd hop (by simp [chainOps])
  | cons hop' hs =>
    rcases mem_cons.mp hop with rfl | hop
    · exact hnext hs htarget
    · exact hover hs op hop htarget

/-- **Which relays are their members in line.** The relay of the adapters of a relay in line asks
them as it should: the first dials, every later one but `DIRECT` is connected over once, each is
told to reach the next that is not `DIRECT`, and the last one the final target. The relay itself
asks the same in the same order, however the adapters answer and whatever the final target is,
exactly if relays are first members only. -/
theorem relay_dial_iff (name : Str) (first second : Proxy) (rest : List Proxy) :
    (∀ env m, outcome (dialTcp env (flatRelay name (hops (.relay name first second rest))) m []) =
      follow env (chainOps (hops (.relay name first second rest)) m) []) ∧
    ((∀ env m, outcome (dialTcp env (.relay name first second rest) m []) =
        outcome (dialTcp env (flatRelay name (hops (.relay name first second rest))) m [])) ↔
      (Proxy.relay name first second rest).leadingOnly = true) := by
  have hflat : ∀ env m,
      outcome (dialTcp env (flatRelay name (hops (.relay name first second rest))) m []) =
        follow env (chainOps (hops (.relay name first second rest)) m) [] :=
    fun env m => flatRelay_eq_follow env name (hops_ne_nil _) m []
  refine ⟨hflat, fun hsame => ?_, fun hleading env m => ?_⟩
  · by_contra hnot
    rw [Bool.not_eq_true] at hnot
    have hm : ({ host := str "t" } : Metadata) ≠ {} := by decide
    have htold := toldNothing_dialTcp _ { host := str "t" } [] (.inr hnot)
    have hlog := congrArg Prod.snd (hsame willing { host := str "t" })
    rw [hflat, follow_willing] at hlog
    exact not_toldNothing_chainOps _ hm (hlog ▸ htold)
  · rw [hflat]
    exact dialTcp_eq_follow env _ hleading m []

/-- A server for the example below. -/
def sampleServer (c : Char) : Server := ⟨[c], [c], 1080, by simp⟩

/-- **A relay behind a server**: the server is told to reach nothing, and not the first server of
the relay. -/
theorem inner_relay_no_target : (dialTcp willing (.relay [] (.server (sampleServer 'a'))
        (.relay [] (.server (sampleServer 'b')) (.server (sampleServer 'c')) []) [])
        { host := str "t", dstPort := 443 } []).2.map Op.target =
      [{}, (sampleServer 'c').metadata, { host := str "t", dstPort := 443 }] ∧
    (chainOps [.server (sampleServer 'a'), .server (sampleServer 'b'), .server (sampleServer 'c')]
        { host := str "t", dstPort := 443 }).map Op.target =
      [(sampleServer 'b').metadata, (sampleServer 'c').metadata,
        { host := str "t", dstPort := 443 }] := by
  decide +kernel

end Meow.Group
