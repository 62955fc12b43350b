import Mathlib.Tactic

/-!
# Reloading the routing

A TCP connection is set up in steps: it is admitted (`tcp_admission`), its route is found from the
mode and the route table, with waits in between, and it is registered (`TcpAdmission::track`). A
cold reload (`reload_routing`) tells all registered connections to close and replaces the table and
the mode. Both take the lock of the generation: the reload for writing, the setup for reading while
it is admitted and while it is registered.

The steps of any number of setups and reloads are taken here in any order. A step that the lock does
not let through changes nothing. The updates that keep the connections have a part of their own.

## Main definitions

* `Routing`, `Routing.step` — the shared state and its steps.
* `RoutingInv` — the invariant.
* `TunnelInner` — the table and the flags, for updates that keep the connections.

## Main results

* `RoutingInv.run` — every run keeps the invariant.
* `reload_closes` — what holds once a reload has returned.
* `TunnelInner.installed_of_apart` — what holds once all updates have returned.
-/

namespace Meow.Tunnel

open List Function

variable {Route Mode : Type}

/-- A setup: the generation at its admission, and what it has read to find its route. -/
structure TcpAdmission (Route Mode : Type) where
  generation : ℕ
  routes : List Route
  modes : List Mode

/-- The route was found with this table and this mode. -/
def TcpAdmission.RoutedBy (d : TcpAdmission Route Mode) (config : Route × Mode) : Prop :=
  (∀ route ∈ d.routes, route = config.1) ∧ ∀ mode ∈ d.modes, mode = config.2

/-- A connection, and the generation at its registration. -/
structure Tracked (Route Mode : Type) where
  setup : TcpAdmission Route Mode
  registered : ℕ

/-- A reload that holds the lock. -/
inductive Reload (Route Mode : Type) where
  | closing (route : Route) (mode : Option Mode)
  | installed (mode : Option Mode)

structure Routing (Route Mode : Type) where
  /-- The number of reloads that were begun. -/
  generation : ℕ
  route : Route
  mode : Mode
  reload : Option (Reload Route Mode)
  /-- The setups that are being made. -/
  setups : ℕ → Option (TcpAdmission Route Mode)
  connections : List (Tracked Route Mode)
  /-- The connections that were told to close, and are no longer in the table of `Statistics`. -/
  closed : ℕ → Bool
  /-- The table and the mode at the start, and as each reload that has returned left them. -/
  configs : List (Route × Mode)

inductive RoutingEvent (Route Mode : Type) where
  | tcpAdmission (id : ℕ)
  | readRoute (id : ℕ)
  | readMode (id : ℕ)
  | track (id : ℕ)
  /-- `close_connection`, or the turn of a connection in `close_all_connections_counted`. -/
  | close (i : ℕ)
  | reloadRouting (route : Route) (mode : Option Mode)
  | installRouting
  | setMode
  | returns

namespace Routing

def new (route : Route) (mode : Mode) : Routing Route Mode where
  generation := 0
  route
  mode
  reload := none
  setups := fun _ => none
  connections := []
  closed := fun _ => false
  configs := [(route, mode)]

variable (s : Routing Route Mode)

def setup (id : ℕ) (d : Option (TcpAdmission Route Mode)) : Routing Route Mode :=
  { s with setups := Function.update s.setups id d }

/-- `TcpAdmission::track`, with the lock -/
def track (id : ℕ) : Routing Route Mode :=
  match s.setups id with
  | some d =>
    if d.generation = s.generation then
      { s.setup id none with connections := s.connections ++ [⟨d, s.generation⟩] }
    else s.setup id none
  | none => s

def step : RoutingEvent Route Mode → Routing Route Mode
  | .tcpAdmission id =>
    if s.reload.isNone ∧ (s.setups id).isNone then s.setup id (some ⟨s.generation, [], []⟩) else s
  | .readRoute id =>
    s.setup id ((s.setups id).map fun d => { d with routes := d.routes ++ [s.route] })
  | .readMode id =>
    s.setup id ((s.setups id).map fun d => { d with modes := d.modes ++ [s.mode] })
  | .track id => if s.reload.isNone then s.track id else s
  | .close i =>
    if i < s.connections.length then { s with closed := Function.update s.closed i true } else s
  | .reloadRouting route mode =>
    -- at the last generation there is a panic, and nothing has changed
    if s.reload.isNone ∧ s.generation + 1 < 2 ^ 64 then
      { s with generation := s.generation + 1, reload := some (.closing route mode) }
    else s
  | .installRouting =>
    match s.reload with
    | some (.closing route mode) =>
      -- when all connections have had their turn
      if (range s.connections.length).all s.closed then
        { s with route, reload := some (.installed mode) }
      else s
    | _ => s
  | .setMode =>
    match s.reload with
    | some (.installed (some mode)) => { s with mode, reload := some (.installed none) }
    | _ => s
  | .returns =>
    match s.reload with
    | some (.installed none) =>
      { s with reload := none, configs := s.configs ++ [(s.route, s.mode)] }
    | _ => s

def run (events : List (RoutingEvent Route Mode)) : Routing Route Mode := events.foldl step s

end Routing

open Routing

/-- **What holds at any time**: the reloads that have returned, the table and the mode that a setup
finds, with which route a connection was registered, and which connections are open. -/
structure RoutingInv (s : Routing Route Mode) : Prop where
  length : s.configs.length = if s.reload.isNone then s.generation + 1 else s.generation
  current : s.reload = none → s.configs[s.generation]? = some (s.route, s.mode)
  setups : ∀ id, ∀ d ∈ s.setups id, d.generation < s.configs.length ∧
    (s.reload = none → d.generation = s.generation → d.RoutedBy (s.route, s.mode))
  routed : ∀ c ∈ s.connections, c.registered = c.setup.generation ∧
    ∃ config, s.configs[c.registered]? = some config ∧ c.setup.RoutedBy config
  isOpen : ∀ i c, s.connections[i]? = some c → s.closed i = false →
    c.registered + 1 = s.configs.length
  installed : ∀ mode, s.reload = some (.installed mode) → ∀ i < s.connections.length,
    s.closed i = true

namespace RoutingInv

variable {s : Routing Route Mode}

protected lemma new (route : Route) (mode : Mode) : RoutingInv (Routing.new route mode) where
  length := rfl
  current := fun _ => rfl
  setups := nofun
  routed := nofun
  isOpen := nofun
  installed := nofun

variable (h : RoutingInv s)
include h

/-- A setup is admitted, goes on, or ends. -/
protected lemma setup {id d}
    (hd : ∀ d' ∈ d, d'.generation < s.configs.length ∧
      (s.reload = none → d'.generation = s.generation → d'.RoutedBy (s.route, s.mode))) :
    RoutingInv (s.setup id d) := by
  refine { h with setups := fun j d' hd' => ?_ }
  simp only [setup, update_apply] at hd'
  split_ifs at hd'
  · exact hd d' hd'
  · exact h.setups j d' hd'

protected lemma track (hreload : s.reload = none) (id : ℕ) : RoutingInv (s.track id) := by
  fun_cases track s id with
  | case1 d hd hgen =>
    have hlength := h.length
    rw [hreload] at hlength
    have hend : RoutingInv (s.setup id none) := h.setup nofun
    refine ⟨hend.length, hend.current, hend.setups, fun c hc => ?_, fun i c hc hi => ?_,
      fun mode hmode => nomatch hreload.symm.trans hmode⟩
    · rcases mem_append.mp hc with hc | hc
      · exact h.routed c hc
      · rw [mem_singleton.mp hc]
        exact ⟨hgen.symm, _, h.current hreload, (h.setups id d hd).2 hreload hgen⟩
    · rw [getElem?_append] at hc
      split_ifs at hc
      · exact h.isOpen i c hc hi
      · rw [mem_singleton.mp (mem_of_getElem? hc)]
        exact hlength.symm
  | case2 d hd hgen => exact h.setup nofun
  | case3 => exact h

/-- **Every step keeps the invariant.** -/
protected lemma step (event : RoutingEvent Route Mode) : RoutingInv (s.step event) := by
  have hlength := h.length
  fun_cases step s event with
  | case1 id hfree =>
    rw [if_pos hfree.1] at hlength
    refine h.setup fun d' hd' => ?_
    cases hd'
    exact ⟨by dsimp only; omega, fun _ _ => ⟨nofun, nofun⟩⟩
  | case3 id | case4 id =>
    refine h.setup fun d' hd' => ?_
    obtain ⟨d, hd, rfl⟩ := Option.map_eq_some_iff.mp hd'
    refine ⟨(h.setups id d hd).1, fun hreload hgen => ?_⟩
    have hrouted := (h.setups id d hd).2 hreload hgen
    simpa [TcpAdmission.RoutedBy, or_imp, forall_and] using hrouted
  | case5 id hreload => exact h.track (Option.isNone_iff_eq_none.mp hreload) id
  | case7 i hi =>
    refine { h with isOpen := fun j c hc hj => ?_, installed := fun mode hmode j hj => ?_ }
    · simp only [update_apply] at hj
      split_ifs at hj
      exact h.isOpen j c hc hj
    · simp only [update_apply]
      split_ifs
      · rfl
      · exact h.installed mode hmode j hj
  | case9 route mode hfree =>
    rw [if_pos hfree.1] at hlength
    exact ⟨hlength, nofun, fun id d hd => ⟨(h.setups id d hd).1, nofun⟩, h.routed, h.isOpen, nofun⟩
  | case11 route mode hreload hclosed =>
    rw [hreload] at hlength
    exact ⟨hlength, nofun, fun id d hd => ⟨(h.setups id d hd).1, nofun⟩, h.routed, h.isOpen,
      fun _ _ i hi => all_eq_true.mp hclosed i (mem_range.mpr hi)⟩
  | case14 mode hreload =>
    rw [hreload] at hlength
    exact ⟨hlength, nofun, fun id d hd => ⟨(h.setups id d hd).1, nofun⟩, h.routed, h.isOpen,
      fun _ _ => h.installed _ hreload⟩
  | case16 hreload =>
    have hlen : s.configs.length = s.generation := by rw [hlength, hreload]; rfl
    refine ⟨by simp [hlen], fun _ => by simp [← hlen], fun id d hd => ⟨?_, fun _ hgen => ?_⟩,
      fun c hc => ?_, fun i c hc hi => ?_, nofun⟩
    · exact (h.setups id d hd).1.trans (by simp)
    · -- a setup from before the reload
      exact absurd (h.setups id d hd).1 (by rw [hlen, hgen]; exact lt_irrefl _)
    · obtain ⟨hgen, config, hconfig, hrouted⟩ := h.routed c hc
      have hlt := (List.getElem?_eq_some_iff.mp hconfig).1
      exact ⟨hgen, config, (getElem?_append_left hlt).trans hconfig, hrouted⟩
    · have hclosed := h.installed none hreload i (List.getElem?_eq_some_iff.mp hc).1
      exact nomatch hi.symm.trans hclosed
  | _ => exact h

protected lemma run (events : List (RoutingEvent Route Mode)) : RoutingInv (s.run events) :=
  foldlRecOn events _ h fun _ h event _ => h.step event

end RoutingInv

/-- **What a reload guarantees**, whatever the order of the steps of the setups and the reloads.
Once the `n`-th reload has returned,

1. a connection that was not told to close was routed with the table and the mode of this reload or
   of a later one;
2. a connection that was registered before it was told to close.

No reload was begun between the admission of a setup that became a connection and its registration.

**Proof sketch.** By the invariant a connection was registered with the generation of its admission,
and an open one with that of the last reload that has returned. -/
theorem reload_closes (route : Route) (mode : Mode) (events : List (RoutingEvent Route Mode)) :
    let s := (Routing.new route mode).run events
    ∀ i c, s.connections[i]? = some c →
      (∀ n < s.configs.length,
        (s.closed i = false →
          ∃ k config, n ≤ k ∧ s.configs[k]? = some config ∧ c.setup.RoutedBy config) ∧
        (c.registered < n → s.closed i)) ∧
      c.registered = c.setup.generation := by
  intro s i c hc
  have h : RoutingInv s := (RoutingInv.new route mode).run events
  obtain ⟨hgen, config, hconfig, hrouted⟩ := h.routed c (mem_of_getElem? hc)
  refine ⟨fun n hn => ⟨fun hopen => ?_, fun hbefore => ?_⟩, hgen⟩
  · have hlast := h.isOpen i c hc hopen
    exact ⟨c.registered, config, by omega, hconfig, hrouted⟩
  · by_contra hopen
    have hlast := h.isOpen i c hc (Bool.eq_false_of_not_eq_true hopen)
    omega

/-- A connection, and one that is set up after a reload. -/
theorem reload_closes_once :
    let s := (Routing.new 0 false).run [.tcpAdmission 0, .track 0, .reloadRouting 1 (some true),
      .close 0, .installRouting, .setMode, .returns, .tcpAdmission 0, .readRoute 0, .track 0]
    s.closed 0 ∧ ∃ k config, 1 ≤ k ∧ s.configs[k]? = some config ∧
      TcpAdmission.RoutedBy ⟨1, [1], []⟩ config := by
  intro s
  have h := reload_closes 0 false [.tcpAdmission 0, .track 0, .reloadRouting 1 (some true),
    .close 0, .installRouting, .setMode, .returns, .tcpAdmission 0, .readRoute 0, .track 0]
  exact ⟨((h 0 ⟨⟨0, [], []⟩, 0⟩ rfl).1 1 (by decide)).2 (by decide),
    ((h 1 ⟨⟨1, [1], []⟩, 1⟩ rfl).1 1 (by decide)).1 rfl⟩

/-! ### Updates that keep the connections -/

/-- What updates of the routing write. The flags are cells beside the lock of the table. -/
structure TunnelInner (Rules Proxies : Type) where
  rules : Rules
  proxies : Proxies
  needsIpResolution : Bool
  needsProcessLookup : Bool
  /-- The calls of `update_rules` that have left the lock, and whether the first flag is stored. -/
  storing : List (Rules × Bool)
  /-- A call of `install_routing`, which holds the lock. -/
  installing : Option (Rules × Proxies)
  /-- What was to be written, the last to take the lock first. -/
  ruleUpdates : List Rules
  proxyUpdates : List Proxies

inductive UpdateEvent (Rules Proxies : Type) where
  | updateRules (rules : Rules)
  | storeFlag (i : ℕ)
  | updateProxies (proxies : Proxies)
  | installRouting (rules : Rules) (proxies : Proxies)
  | replace

namespace TunnelInner

variable {Rules Proxies : Type} (needsIp needsProcess : Rules → Bool)
  (s : TunnelInner Rules Proxies) (event : UpdateEvent Rules Proxies)
  (events : List (UpdateEvent Rules Proxies))

def new (rules : Rules) (proxies : Proxies) : TunnelInner Rules Proxies :=
  ⟨rules, proxies, needsIp rules, needsProcess rules, [], none, [rules], [proxies]⟩

def step : TunnelInner Rules Proxies :=
  match event, s.installing with
  | .updateRules rules, none =>
    { s with
      rules
      storing := s.storing ++ [(rules, false)]
      ruleUpdates := rules :: s.ruleUpdates }
  | .storeFlag i, _ =>
    match s.storing[i]? with
    | some (rules, false) =>
      { s with needsIpResolution := needsIp rules, storing := s.storing.set i (rules, true) }
    | some (rules, true) =>
      { s with needsProcessLookup := needsProcess rules, storing := s.storing.eraseIdx i }
    | none => s
  | .updateProxies proxies, none =>
    { s with proxies, proxyUpdates := proxies :: s.proxyUpdates }
  | .installRouting rules proxies, none =>
    { s with
      needsIpResolution := needsIp rules
      installing := some (rules, proxies)
      ruleUpdates := rules :: s.ruleUpdates
      proxyUpdates := proxies :: s.proxyUpdates }
  | .replace, some (rules, proxies) =>
    { s with rules, proxies, needsProcessLookup := needsProcess rules, installing := none }
  | _, _ => s

def run : TunnelInner Rules Proxies := events.foldl (step needsIp needsProcess) s

/-- An update of the rules takes the lock when no other has flags left to store. -/
def Alone : Prop :=
  match event with
  | .updateRules _ | .installRouting _ _ => s.storing = []
  | _ => True

/-- No two updates of the rules overlap. -/
def Apart : TunnelInner Rules Proxies → List (UpdateEvent Rules Proxies) → Prop
  | _, [] => True
  | s, event :: events => s.Alone event ∧ Apart (s.step needsIp needsProcess event) events

/-- The last updates are installed, or being installed. -/
def Last : Prop :=
  let (rules, proxies) := s.installing.getD (s.rules, s.proxies)
  s.ruleUpdates.head? = some rules ∧ s.proxyUpdates.head? = some proxies

/-- The flags are those of the rules, as far as the one update that is under way has come. -/
def Flagged : Prop :=
  match s.storing, s.installing with
  | [], none =>
    s.needsIpResolution = needsIp s.rules ∧ s.needsProcessLookup = needsProcess s.rules
  | [], some (rules, _) => s.needsIpResolution = needsIp rules
  | [(rules, stored)], none => rules = s.rules ∧ (stored → s.needsIpResolution = needsIp rules)
  | _, _ => False

variable {needsIp needsProcess s}

/-- While `install_routing` holds the lock no other update writes. -/
lemma Last.step (h : s.Last) : (s.step needsIp needsProcess event).Last := by
  fun_cases TunnelInner.step <;> grind [Last]

variable {event}

/-- An update that is alone stores its own flags, the one of the first store before the other. -/
lemma Flagged.step (h : s.Flagged needsIp needsProcess) (halone : s.Alone event) :
    (s.step needsIp needsProcess event).Flagged needsIp needsProcess := by
  fun_cases TunnelInner.step <;> grind [Flagged, Alone]

lemma Flagged.run (h : s.Flagged needsIp needsProcess)
    (hapart : Apart needsIp needsProcess s events) :
    (s.run needsIp needsProcess events).Flagged needsIp needsProcess := by
  induction events generalizing s with
  | nil => exact h
  | cons event events ih => exact ih (h.step hapart.1) hapart.2

/-- **What updates leave once they have returned**: the rules and the proxies of the last update of
each, and, if no two updates of the rules overlap, the flags of the rules. -/
theorem installed_of_apart (rules : Rules) (proxies : Proxies) :
    let start := new needsIp needsProcess rules proxies
    let s := start.run needsIp needsProcess events
    s.installing = none → s.storing = [] →
      s.ruleUpdates.head? = some s.rules ∧ s.proxyUpdates.head? = some s.proxies ∧
      (Apart needsIp needsProcess start events →
        s.needsIpResolution = needsIp s.rules ∧ s.needsProcessLookup = needsProcess s.rules) := by
  intro start s hinstalling hstoring
  have hlast : s.Last :=
    foldlRecOn events _ (motive := Last) ⟨rfl, rfl⟩ fun _ h event _ => h.step event
  rw [Last, hinstalling] at hlast
  refine ⟨hlast.1, hlast.2, fun hapart => ?_⟩
  have hflagged : s.Flagged needsIp needsProcess := Flagged.run _ ⟨rfl, rfl⟩ hapart
  rwa [Flagged, hinstalling, hstoring] at hflagged

theorem installed_of_apart_once :
    let s := (new id id false 0).run id id [.installRouting true 1, .updateProxies 2, .replace]
    s.rules ∧ s.proxies = 1 ∧ s.needsIpResolution :=
  ⟨rfl, rfl, ((@installed_of_apart _ _ id id
    [.installRouting true 1, .updateProxies 2, .replace] false 0 rfl rfl).2.2
    ⟨rfl, trivial, trivial, trivial⟩).1⟩

/-- The first of two updates of the rules is the last to store its flags. -/
theorem stale_flags :
    let s := (new id id false 0).run id id [.updateRules false, .updateRules true, .storeFlag 1,
      .storeFlag 1, .storeFlag 0, .storeFlag 0]
    s.installing = none ∧ s.storing = [] ∧ s.rules ∧ s.needsIpResolution = false ∧
      s.needsProcessLookup = false := ⟨rfl, rfl, rfl, rfl, rfl⟩

end TunnelInner

end Meow.Tunnel
