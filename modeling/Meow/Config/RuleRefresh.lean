import Meow.Config.RuleParser
import Meow.Config.RuleProvider

/-!
# Refreshes of rule providers

When a configuration is built, the providers are loaded, and the rules are parsed with the sets that
the providers have at this time. From then on a provider is refreshed by a task or through the
interface: the set in the provider's cell is replaced when there is a new one.

The rules hold the sets that they were parsed with. So they do not see what a refresh brings, and
they match what the latest payload prescribes only as long as it prescribes what the first one did.

## Main definitions

* `Routing`, `buildRouting` — the providers and the rules after a build.
* `Routing.refresh`, `Routing.run` — refreshes.
* `prescribed` — the set of the latest payload.
* `UpToDate` — the rules match what the latest payloads prescribe.

## Main results

* `upToDate_iff` — the rules are up to date throughout a run precisely when no refresh
  of a provider that a rule names brings anything new.
-/

namespace Meow.Config

open Rules List Option AList

variable (env : ProviderEnv)

/-! ### Building -/

/-- `load_providers_prefetched`, with what was read or fetched for each provider: those that cannot
be loaded are left out. -/
def loadProviders (raw : AList fun _ : Str => RawRuleProvider) (ctx : ParserContext)
    (fetched : Str → Except Str (List UInt8)) : AList fun _ : Str => RuleProvider :=
  raw.entries.foldl (fun out e =>
    match loadOne env e.1 e.2 ctx (fetched e.1) with
    | .ok provider => out.insert e.1 provider
    | .error _ => out) ∅

def snapshotRulesetMap (providers : AList fun _ : Str => RuleProvider) (name : Str) :
    Option RuleSet := (providers.lookup name).map RuleProvider.rules

/-- The part of a configuration that makes rules. -/
structure RawRules where
  rules : List Str
  subRules : RawSubRules
  ruleProviders : AList fun _ : Str => RawRuleProvider

/-- The providers, which the tasks and the interface share, and the rules that are installed. -/
structure Routing where
  providers : AList fun _ : Str => RuleProvider
  rules : List Rule

/-- The end of `rebuild_from_raw_impl`. -/
def buildRouting (raw : RawRules) (ctx : ParserContext)
    (fetched : Str → Except Str (List UInt8)) : Except Str Routing := do
  let providers := loadProviders env raw.ruleProviders ctx fetched
  let rulesetMap := snapshotRulesetMap providers
  let subRules ← parseSubRules env.rules raw.subRules rulesetMap ctx
  let rules := parseRulesFull env.rules raw.rules rulesetMap ctx subRules
  (raw.rules.filterMap parseSubRuleReference).forM fun name =>
    if subRules name = none then
      .error (str "rules: SUB-RULE," ++ name ++ str " references undefined sub-rule block")
    else .ok ()
  .ok ⟨providers, rules⟩

/-! ### Refreshing -/

/-- A refresh of a provider, with what was fetched. -/
structure RefreshEvent where
  name : Str
  fetched : Except Str (List UInt8)

namespace Routing

/-- The provider of this name is refreshed, if there is one, by a task or by
`refresh_rule_provider`. Both pass on no databases. -/
def refresh (self : Routing) (event : RefreshEvent) : Routing :=
  match self.providers.lookup event.name with
  | none => self
  | some provider =>
    match provider.refresh env {} event.fetched with
    | .ok provider => { self with providers := self.providers.insert event.name provider }
    | .error _ => self

/-- Refreshes one after another. -/
def run (self : Routing) (events : List RefreshEvent) : Routing := events.foldl (refresh env) self

/-- The sets in the rules that are installed, with the names of their providers. -/
def ruleSets (self : Routing) : List (Str × RuleSet) := Rule.ruleSetsOf self.rules

end Routing

/-! ### What the payloads prescribe -/

/-- The set of the payload that a refresh fetches, if the refresh is successful. -/
def payloadSet (provider : RuleProvider) (event : RefreshEvent) : Option RuleSet :=
  if provider.providerType = .http then
    (event.fetched >>= fun bytes => parseBytesToRuleset env bytes provider.behavior {}).toOption
  else none

/-- The set of the latest payload of a provider: that of the last successful refresh, or the one it
was loaded with. -/
def latest (provider : RuleProvider) (events : List RefreshEvent) : RuleSet :=
  events.foldl (fun set event => (payloadSet env provider event).getD set) provider.rules

/-- The set of the latest payload of the provider of this name. -/
def prescribed (start : Routing) (events : List RefreshEvent) (name : Str) : Option RuleSet :=
  (start.providers.lookup name).map fun provider =>
    latest env provider (events.filter fun event => event.name = name)

/-- **The rules are up to date.** Each set in them matches what the latest payload of its provider
prescribes. -/
def UpToDate (start : Routing) (events : List RefreshEvent) : Prop :=
  ∀ entry ∈ (start.run env events).ruleSets, ∃ set, prescribed env start events entry.1 = some set ∧
    ∀ metadata, entry.2.matches metadata = set.matches metadata

/-- The refresh fails, or there is nothing to refresh. -/
def Fails (self : Routing) (event : RefreshEvent) : Prop :=
  ∀ provider, self.providers.lookup event.name = some provider →
    ∃ e, provider.refresh env {} event.fetched = .error e

/-- **A refresh that brings nothing new**: if a rule names the provider and the refresh is
successful, the new set matches what the provider's set matched at the start. -/
def BringsNothingNew (start : Routing) (event : RefreshEvent) : Prop :=
  ∀ provider set, start.providers.lookup event.name = some provider →
    event.name ∈ start.ruleSets.map Prod.fst → payloadSet env provider event = some set →
    ∀ metadata, set.matches metadata = provider.rules.matches metadata

/-! ### Runs -/

/-- **One refresh of a provider.** It leaves the set of the payload, if there is one. -/
lemma refresh_provider (provider : RuleProvider) (event : RefreshEvent) :
    provider.refresh env {} event.fetched =
        .ok { provider with rules := (payloadSet env provider event).getD provider.rules } ∨
      (∃ e, provider.refresh env {} event.fetched = .error e) ∧
        payloadSet env provider event = none := by
  unfold RuleProvider.refresh payloadSet
  by_cases htype : provider.providerType = .http
  · rw [if_neg (not_not.mpr htype), if_pos htype]
    rcases event.fetched with e | bytes
    · exact .inr ⟨⟨e, rfl⟩, rfl⟩
    · rw [except_ok_bind, except_ok_bind]
      rcases parseBytesToRuleset env bytes provider.behavior {} with e | rules
      · exact .inr ⟨⟨e, rfl⟩, rfl⟩
      · exact .inl rfl
  · rw [if_pos htype, if_neg htype]
    exact .inl rfl

open Routing

/-- A refresh changes no rule. -/
lemma refresh_rules (s : Routing) (event : RefreshEvent) :
    (s.refresh env event).rules = s.rules := by
  unfold refresh
  split
  · rfl
  · split
    · rfl
    · rfl

variable (start : Routing) (events : List RefreshEvent)

lemma run_rules : (start.run env events).rules = start.rules := by
  induction events generalizing start with
  | nil => rfl
  | cons event events ih => exact (ih _).trans (refresh_rules env start event)

/-- One refresh changes the set of one provider. -/
lemma lookup_refresh (s : Routing) (event : RefreshEvent) (name : Str) :
    (s.refresh env event).providers.lookup name =
      (s.providers.lookup name).map fun provider =>
        if event.name = name then
          { provider with rules := (payloadSet env provider event).getD provider.rules }
        else provider := by
  by_cases hname : event.name = name
  · subst hname
    rcases hlookup : s.providers.lookup event.name with _ | provider
    · simp [refresh, hlookup]
    · rcases refresh_provider env provider event with hok | ⟨⟨e, he⟩, hnone⟩
      · simp [refresh, hlookup, hok]
      · simp [refresh, hlookup, he, hnone]
  · simp only [if_neg hname, Option.map_id']
    fun_cases refresh env s event with
    | case2 => exact lookup_insert_ne (Ne.symm hname)
    | _ => rfl

/-- A run changes the sets of the providers to those of their latest payloads. -/
lemma lookup_run (name : Str) :
    (start.run env events).providers.lookup name = (start.providers.lookup name).map fun provider =>
      { provider with
        rules := latest env provider (events.filter fun event => event.name = name) } := by
  induction events using reverseRecOn with
  | nil => simp [run, latest]
  | append_singleton events event ih =>
    have hrun : start.run env (events ++ [event]) = (start.run env events).refresh env event := by
      simp [run]
    rw [hrun, lookup_refresh, ih, Option.map_map]
    congr 1
    funext provider
    by_cases hname : event.name = name
    · -- the behaviour and the type of a provider stay
      have hpayload : ∀ set, payloadSet env { provider with rules := set } event =
          payloadSet env provider event := fun _ => rfl
      simp [latest, hname, hpayload]
    · simp [hname]

/-- **The cells are up to date**: a provider always has the set of its latest payload. -/
theorem rules_run (name : Str) :
    ((start.run env events).providers.lookup name).map RuleProvider.rules =
      prescribed env start events name := by
  rw [lookup_run, Option.map_map]
  rfl

/-- A refresh that fails changes nothing. -/
lemma refresh_of_fails {s : Routing} {event} (h : Fails env s event) : s.refresh env event = s := by
  unfold refresh
  rcases hlookup : s.providers.lookup event.name with _ | provider
  · rfl
  · obtain ⟨e, he⟩ := h provider hlookup
    simp only [he]

/-- What only gets sets that match what the first one matches, matches what the first one
matches. -/
lemma latest_matches {provider : RuleProvider} {events}
    (h : ∀ event ∈ events, ∀ set, payloadSet env provider event = some set →
      ∀ metadata, set.matches metadata = provider.rules.matches metadata) (metadata : Metadata) :
    (latest env provider events).matches metadata = provider.rules.matches metadata := by
  induction events using reverseRecOn with
  | nil => rfl
  | append_singleton events event ih =>
    rw [latest, foldl_append, foldl_cons, ← latest]
    rcases hset : payloadSet env provider event with _ | set
    · exact ih fun event hevent => h event (mem_append_left _ hevent)
    · exact h event (mem_append_right _ mem_cons_self) set hset metadata

/-- The sets in the rules are those that the providers have at the start. -/
lemma lookup_of_mem_ruleSets {raw ctx fetched} {start : Routing}
    (hstart : buildRouting env raw ctx fetched = .ok start) {entry}
    (hentry : entry ∈ start.ruleSets) :
    ∃ provider, start.providers.lookup entry.1 = some provider ∧ provider.rules = entry.2 := by
  obtain ⟨subRules, hsub, h⟩ := bind_eq_ok_iff.mp hstart
  obtain ⟨_, _, h⟩ := bind_eq_ok_iff.mp h
  rw [← Except.ok.inj h] at hentry ⊢
  obtain ⟨rule, hrule, hmem⟩ := Rule.mem_ruleSetsOf.mp hentry
  have hset := setsOf_parseRulesFull env.rules ctx hsub raw.rules rule hrule entry hmem
  exact map_eq_some_iff.mp hset

/-- **Rules and refreshes.** A configuration is built, and its providers are refreshed. At every
moment the sets in the installed rules match what the latest payloads prescribe, and a refresh that
fails changes nothing, precisely when every successful refresh of a provider that a rule names
brings a set that matches what the provider's set matched at the start.

**Proof sketch.** A rule holds the set that its provider had when the rules were parsed
(`setsOf_parseRulesFull`), and no refresh changes the rules (`run_rules`). So the rules are up to
date after a refresh when the set it brings matches what the first one does, and at the end of a run
when the last set does. -/
theorem upToDate_iff (raw : RawRules) (ctx : ParserContext)
    (fetched : Str → Except Str (List UInt8)) (start : Routing)
    (hstart : buildRouting env raw ctx fetched = .ok start) (events : List RefreshEvent) :
    ((∀ before, before <+: events → UpToDate env start before) ∧
      ∀ before event, before ++ [event] <+: events → Fails env (start.run env before) event →
        start.run env (before ++ [event]) = start.run env before) ↔
      ∀ event ∈ events, BringsNothingNew env start event := by
  constructor
  · rintro ⟨h, _⟩ event hevent provider set hlookup hrule hset metadata
    obtain ⟨before, after, rfl⟩ := append_of_mem hevent
    -- the rules are up to date after this refresh, whose set is the latest one
    obtain ⟨entry, hentry, hname⟩ := mem_map.mp hrule
    have hbefore : before ++ [event] <+: before ++ event :: after := ⟨after, by simp⟩
    have hmem : entry ∈ (start.run env (before ++ [event])).ruleSets := by
      rw [ruleSets, run_rules]
      exact hentry
    obtain ⟨set', hset', hmatch⟩ := h _ hbefore entry hmem
    obtain ⟨provider', hlookup', hrules⟩ := lookup_of_mem_ruleSets env hstart hentry
    rw [hname, hlookup] at hlookup'
    have hlatest : prescribed env start (before ++ [event]) entry.1 = some set := by
      rw [prescribed, hname, hlookup]
      simp [latest, hset]
    rw [hlatest] at hset'
    rw [some.inj hset', ← hmatch metadata, ← hrules, some.inj hlookup']
  · refine fun h => ⟨fun before hbefore entry hentry => ?_, fun before event _ hfails => ?_⟩
    · rw [ruleSets, run_rules] at hentry
      obtain ⟨provider, hlookup, hrules⟩ := lookup_of_mem_ruleSets env hstart hentry
      refine ⟨_, by rw [prescribed, hlookup, map_some], fun metadata => ?_⟩
      rw [← hrules]
      refine (latest_matches env (fun event hevent set hset => ?_) metadata).symm
      -- these are refreshes of the provider that the rule names
      obtain ⟨hevent, hname⟩ := mem_filter.mp hevent
      have hname : event.name = entry.1 := of_decide_eq_true hname
      refine h event (hbefore.subset hevent) provider set (hname ▸ hlookup) ?_ hset
      rw [hname]
      exact mem_map_of_mem hentry
    · have hrun : start.run env (before ++ [event]) = (start.run env before).refresh env event := by
        simp [run]
      rw [hrun, refresh_of_fails env hfails]

/-! ### A provider of names -/

/-- One rule that asks a provider of names. -/
def namesRules : RawRules where
  rules := [str "RULE-SET,names,PROXY"]
  subRules := ∅
  ruleProviders := AList.singleton (str "names")
    { providerType := str "http", behavior := str "domain", url := some (str "http://a/") }

/-- The payload with one name. -/
def namesPayload (name : Str) : List UInt8 := asBytes (str "payload:\n- " ++ name)

/-- What is built with the first payload. -/
def namesRouting : Routing :=
  let set := buildRuleSet plainEnv.rules .domain [str "a.com"] {}
  ⟨AList.singleton (str "names") ⟨str "names", .http, .domain, 0, set⟩,
    [.ruleSet (str "names") set (str "PROXY") false]⟩

lemma buildRouting_namesRules : buildRouting plainEnv namesRules {}
    (fun _ => .ok (namesPayload (str "a.com"))) = .ok namesRouting := by
  unfold buildRouting
  dsimp only [namesRules]
  rw [parseSubRules_empty]
  rfl

/-- A refresh that fails, and one that brings the payload again. -/
theorem upToDate_iff_again :
    (∀ before, before <+:
          [⟨str "names", .error []⟩, ⟨str "names", .ok (namesPayload (str "a.com"))⟩] →
        UpToDate plainEnv namesRouting before) ∧
      ∀ before event, before ++ [event] <+:
          [⟨str "names", .error []⟩, ⟨str "names", .ok (namesPayload (str "a.com"))⟩] →
        Fails plainEnv (namesRouting.run plainEnv before) event →
        namesRouting.run plainEnv (before ++ [event]) = namesRouting.run plainEnv before := by
  refine (upToDate_iff plainEnv namesRules {} (fun _ => .ok (namesPayload (str "a.com")))
    namesRouting buildRouting_namesRules _).mpr ?_
  intro event hevent provider set hlookup _ hset metadata
  rcases mem_cons.mp hevent with rfl | hevent
  · have hprovider : provider = ⟨str "names", .http, .domain, 0, _⟩ :=
      (some.inj hlookup).symm
    exact absurd hset (by simp [payloadSet, Except.toOption])
  · obtain rfl := mem_singleton.mp hevent
    have hprovider : provider = ⟨str "names", .http, .domain, 0, _⟩ :=
      (some.inj hlookup).symm
    subst hprovider
    have hset : some (buildRuleSet plainEnv.rules .domain [str "a.com"] {}) = some set := hset
    rw [← some.inj hset]

/-- The payload changes. The provider's cell has the new name, and the rule does not match it. -/
theorem run_stale :
    let metadata : Metadata := { host := str "b.com" }
    let events : List RefreshEvent := [⟨str "names", .ok (namesPayload (str "b.com"))⟩]
    buildRouting plainEnv namesRules {} (fun _ => .ok (namesPayload (str "a.com"))) =
        .ok namesRouting ∧
      (prescribed plainEnv namesRouting events (str "names")).map (fun set =>
        set.matches metadata) = some true ∧
      (namesRouting.run plainEnv events).rules.map (fun rule =>
        rule.matchMetadata plainEnv.rules.order metadata) = [false] := by
  refine ⟨buildRouting_namesRules, ?_, ?_⟩
  · decide +kernel
  · decide +kernel

end Meow.Config
