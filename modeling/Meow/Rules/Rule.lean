import Meow.Common.Metadata
import Meow.Net.Cidr
import Meow.Rules.Geosite

/-!
# Rules

A rule says which connections go to an adapter (`meow-rules`). There is one kind of rule for each
thing that a connection can be told by; `AND`, `OR` and `NOT` combine rules, a `RULE-SET` rule asks
a set of rules that is loaded from elsewhere, and a `SUB-RULE` is a block of rules with adapters of
their own.

A rule set is known by its methods, as the trait object is that a rule holds.

## Main definitions

* `RuleSet` — the trait `RuleSet`.
* `Rule` — the implementations of the trait `Rule`.
* `Rule.matchMetadata`, `Rule.matchAndResolve` — what a rule says of a connection.
-/

namespace Meow.Rules

open Trie

inductive RuleSetBehavior where
  | domain
  | ipCidr
  | classical
  deriving DecidableEq

/-- The trait `RuleSet`. -/
structure RuleSet where
  behavior : RuleSetBehavior
  «matches» : Metadata → Bool
  len : ℕ
  shouldResolveIp : Bool
  shouldFindProcess : Bool
  matchesDomain : Str → Bool

/-- `PortRange`, and `InPortRange`. -/
inductive PortRange where
  | single (port : UInt16)
  | range (start stop : UInt16)
  deriving DecidableEq

/-- The body of `matches_port` for one range. -/
def PortRange.contains : PortRange → UInt16 → Bool
  | single p, port => port == p
  | range start stop, port => port ≥ start && port ≤ stop

/-- The mode of a `PROCESS-PATH` rule. -/
inductive MatchMode where
  | glob (re : Str → Bool)
  | prefixed
  | exact

/-- The last bits that an `IP-SUFFIX` rule asks for. -/
inductive IpSuffixFamily where
  | v4 (suffix mask : BitVec 32)
  | v6 (suffix mask : BitVec 128)
  deriving DecidableEq

def IpSuffixFamily.matches : IpSuffixFamily → IpAddr → Bool
  | v4 suffix mask, .v4 ip => ip &&& mask == suffix
  | v6 suffix mask, .v6 ip => ip &&& mask == suffix
  | _, _ => false

/-- The kinds of connections that an `IN-TYPE` rule asks for. -/
structure InTypeFlags where
  matchHttp : Bool := false
  matchHttps : Bool := false
  matchSocks5 : Bool := false
  matchTproxy : Bool := false
  matchInner : Bool := false
  deriving DecidableEq

/-- The implementations of the trait `Rule`. A regular expression is known by the texts that it
matches, and the ranges of a country or of an autonomous system by their addresses. -/
inductive Rule where
  | domain (domain adapter : Str)
  | domainSuffix (suffix adapter : Str)
  | domainKeyword (keyword adapter : Str)
  | domainRegex (regex : Str → Bool) (pattern adapter : Str)
  | domainWildcard (pattern : Str → Bool) (raw adapter : Str)
  | ipCidr (cidr : Cidr) (cidrStr adapter : Str) (isSrc noResolve : Bool)
  | port (ranges : List PortRange) (raw adapter : Str) (isSrc : Bool)
  | network (network : Network) (raw adapter : Str)
  | process (processName adapter : Str)
  | processPath (payload : Str) (mode : MatchMode) (adapter : Str)
  | geoIp (country adapter : Str) (noResolve : Bool) (ranges : IpAddr → Bool)
  | srcGeoIp (country adapter : Str) (ranges : IpAddr → Bool)
  | geoSite (category payloadRaw adapter : Str) (db : Option GeositeDb) (noResolve : Bool)
  | inPort (ranges : List PortRange) (raw adapter : Str)
  | inName (name adapter : Str)
  | inType (raw adapter : Str) (flags : InTypeFlags)
  | inUser (username adapter : Str)
  | dscp (value : UInt8) (raw adapter : Str)
  | uid (uid : UInt32) (raw adapter : Str)
  | ipSuffix (payloadRaw adapter : Str) (family : IpSuffixFamily) (src noResolve : Bool)
  | ipAsn (raw adapter : Str) (ranges : IpAddr → Bool) (src noResolve : Bool)
  | final (adapter : Str)
  | and (rules : List Rule) (adapter payload : Str)
  | or (rules : List Rule) (adapter payload : Str)
  | not (rule : Rule) (adapter payload : Str)
  | ruleSet (name : Str) (set : RuleSet) (adapter : Str) (noResolve : Bool)
  | subRule (blockName : Str) (block : List Rule)

/-! ### What the rules compare -/

/-- The body of `DomainSuffixRule::match_metadata`. -/
def suffixMatches (suffix host : List UInt8) : Bool :=
  if host.length = suffix.length then eqIgnoreAsciiCase host suffix
  else if host.length > suffix.length then
    let dotPos := host.length - suffix.length - 1
    host[dotPos]? == some 46 && eqIgnoreAsciiCase (host.drop (dotPos + 1)) suffix
  else false

/-- The body of `DomainKeywordRule::match_metadata`. -/
def keywordMatches (needle host : List UInt8) : Bool :=
  if needle = [] then true
  else if host.length < needle.length then false
  else host.tails.any fun rest => eqIgnoreAsciiCase (rest.take needle.length) needle

/-- `Path::file_name` of a path whose parts are separated by `/`: the last part that is neither
empty nor `.`, unless it is `..`. -/
def fileName (path : Str) : Option Str :=
  match ((path.splitOn '/').filter fun part => part ≠ [] && part ≠ ['.']).getLast? with
  | some part => if part = ['.', '.'] then none else some part
  | none => none

/-- `ProcessPathRule::matches`. -/
def processPathMatches (payload : Str) (mode : MatchMode) (processPath : Str) : Bool :=
  if processPath = [] then false
  else
    match mode with
    | .glob re => re processPath
    | .prefixed =>
      if processPath = payload then true
      else
        match stripPrefix payload processPath with
        | some rest => rest.head? == some '/' || rest.head? == some '\\'
        | none => false
    | .exact => (fileName processPath).getD processPath == payload

/-- The body of `InTypeRule::match_metadata`. -/
def InTypeFlags.matches (flags : InTypeFlags) : ConnType → Bool
  | .http => flags.matchHttp
  | .https => flags.matchHttps
  | .socks5 => flags.matchSocks5
  | .tproxy => flags.matchTproxy
  | .inner => flags.matchInner
  | _ => false

/-- The body of `GeoSiteRule::match_metadata`. -/
def geoSiteMatches (order : HashOrder) (category : Str) (db : Option GeositeDb) (host : Str) :
    Bool :=
  match db with
  | none => false
  | some db => if category = [] then false else if host = [] then false
    else db.lookup order category host

/-! ### The methods of a rule -/

namespace Rule

mutual

def matchMetadata (order : HashOrder) (metadata : Metadata) : Rule → Bool
  | domain name _ => strEqIgnoreAsciiCase metadata.ruleHost name
  | domainSuffix suffix _ => suffixMatches (asBytes suffix) (asBytes metadata.ruleHost)
  | domainKeyword keyword _ => keywordMatches (asBytes keyword) (asBytes metadata.ruleHost)
  | domainRegex regex _ _ => regex metadata.ruleHost
  | domainWildcard pattern _ _ =>
    if metadata.ruleHost = [] then false else pattern metadata.ruleHost
  | ipCidr cidr _ _ isSrc _ =>
    (if isSrc then metadata.srcIp else metadata.dstIp).any fun addr => cidr.contains addr
  | port ranges _ _ isSrc =>
    ranges.any fun r => r.contains (if isSrc then metadata.srcPort else metadata.dstPort)
  | network net _ _ => metadata.network == net
  | process processName _ => strEqIgnoreAsciiCase metadata.process processName
  | processPath payload mode _ => processPathMatches payload mode metadata.processPath
  | geoIp _ _ _ ranges => metadata.dstIp.any ranges
  | srcGeoIp _ _ ranges => metadata.srcIp.any ranges
  | geoSite category _ _ db _ => geoSiteMatches order category db metadata.ruleHost
  | inPort ranges _ _ =>
    if metadata.inPort = 0 then false else ranges.any fun r => r.contains metadata.inPort
  | inName name _ => metadata.inName ≠ [] && metadata.inName == name
  | inType _ _ flags => flags.matches metadata.connType
  | inUser username _ => metadata.inUser == some username
  | dscp value _ _ => metadata.dscp == some value
  | uid value _ _ => metadata.uid == some value
  | ipSuffix _ _ family src _ =>
    (if src then metadata.srcIp else metadata.dstIp).any fun ip => family.matches ip
  | ipAsn _ _ ranges src _ => (if src then metadata.srcIp else metadata.dstIp).any ranges
  | final _ => true
  | and rules _ _ => allMatch order metadata rules
  | or rules _ _ => anyMatches order metadata rules
  | not rule _ _ => !rule.matchMetadata order metadata
  | ruleSet _ set _ _ => set.matches metadata
  | subRule _ block => anyMatches order metadata block

/-- `rules.iter().all(|r| r.match_metadata(metadata, helper))`. -/
def allMatch (order : HashOrder) (metadata : Metadata) : List Rule → Bool
  | [] => true
  | rule :: rules => rule.matchMetadata order metadata && allMatch order metadata rules

/-- `rules.iter().any(|r| r.match_metadata(metadata, helper))`. -/
def anyMatches (order : HashOrder) (metadata : Metadata) : List Rule → Bool
  | [] => false
  | rule :: rules => rule.matchMetadata order metadata || anyMatches order metadata rules

end

def adapter : Rule → Str
  | domain _ adapter | domainSuffix _ adapter | domainKeyword _ adapter | domainRegex _ _ adapter
  | domainWildcard _ _ adapter | ipCidr _ _ adapter _ _ | port _ _ adapter _
  | network _ _ adapter | process _ adapter | processPath _ _ adapter | geoIp _ adapter _ _
  | srcGeoIp _ adapter _ | geoSite _ _ adapter _ _ | inPort _ _ adapter | inName _ adapter
  | inType _ adapter _ | inUser _ adapter | dscp _ _ adapter | uid _ _ adapter
  | ipSuffix _ adapter _ _ _ | ipAsn _ adapter _ _ _ | final adapter | and _ adapter _
  | or _ adapter _ | not _ adapter _ | ruleSet _ _ adapter _ => adapter
  | subRule blockName _ => blockName

def payload : Rule → Str
  | domain payload _ | domainSuffix payload _ | domainKeyword payload _ | domainRegex _ payload _
  | domainWildcard _ payload _ | ipCidr _ payload _ _ _ | port _ payload _ _
  | network _ payload _ | process payload _ | processPath payload _ _ | geoIp payload _ _ _
  | srcGeoIp payload _ _ | geoSite _ payload _ _ _ | inPort _ payload _ | inName payload _
  | inType payload _ _ | inUser payload _ | dscp _ payload _ | uid _ payload _
  | ipSuffix payload _ _ _ _ | ipAsn payload _ _ _ _ | and _ _ payload | or _ _ payload
  | not _ _ payload | ruleSet payload _ _ _ | subRule payload _ => payload
  | final _ => []

mutual

def shouldResolveIp : Rule → Bool
  | ipCidr _ _ _ isSrc noResolve => !isSrc && !noResolve
  | geoIp _ _ noResolve _ | geoSite _ _ _ _ noResolve | ipSuffix _ _ _ _ noResolve
  | ipAsn _ _ _ _ noResolve => !noResolve
  | and rules _ _ | or rules _ _ | subRule _ rules => anyShouldResolveIp rules
  | not rule _ _ => rule.shouldResolveIp
  | ruleSet _ set _ noResolve => set.shouldResolveIp && !noResolve
  | _ => false

/-- `rules.iter().any(|r| r.should_resolve_ip())`. -/
def anyShouldResolveIp : List Rule → Bool
  | [] => false
  | rule :: rules => rule.shouldResolveIp || anyShouldResolveIp rules

end

mutual

def shouldFindProcess : Rule → Bool
  | process _ _ | processPath _ _ _ | uid _ _ _ => true
  | and rules _ _ | or rules _ _ | subRule _ rules => anyShouldFindProcess rules
  | not rule _ _ => rule.shouldFindProcess
  | ruleSet _ set _ _ => set.shouldFindProcess
  | _ => false

/-- `rules.iter().any(|r| r.should_find_process())`. -/
def anyShouldFindProcess : List Rule → Bool
  | [] => false
  | rule :: rules => rule.shouldFindProcess || anyShouldFindProcess rules

end

mutual

/-- `Rule::match_and_resolve`: the adapter of a block is that of its first rule that matches. -/
def matchAndResolve (order : HashOrder) (metadata : Metadata) : Rule → Option Str
  | subRule _ block => firstTarget order metadata block
  | rule => if rule.matchMetadata order metadata then some rule.adapter else none

/-- The loop over the rules of a block. -/
def firstTarget (order : HashOrder) (metadata : Metadata) : List Rule → Option Str
  | [] => none
  | rule :: rules => (rule.matchAndResolve order metadata).or (firstTarget order metadata rules)

end

/-! ### Lists of rules -/

variable (order : HashOrder) (metadata : Metadata) (rules : List Rule)

lemma allMatch_eq :
    allMatch order metadata rules = rules.all fun r => r.matchMetadata order metadata := by
  induction rules with
  | nil => rw [allMatch, List.all_nil]
  | cons r rules ih => rw [allMatch, ih, List.all_cons]

lemma anyMatches_eq :
    anyMatches order metadata rules = rules.any fun r => r.matchMetadata order metadata := by
  induction rules with
  | nil => rw [anyMatches, List.any_nil]
  | cons r rules ih => rw [anyMatches, ih, List.any_cons]

/-- The rules with each block in place of its reference, to any depth. -/
def inlined : List Rule → List Rule
  | [] => []
  | subRule _ block :: rules => inlined block ++ inlined rules
  | rule :: rules => rule :: inlined rules

/-- **A reference to a block is its rules**: a list resolves to the adapter of the first rule that
matches once all blocks are in place, it matches iff it resolves, and it asks for an address or a
process iff one of these rules does. -/
theorem firstTarget_inlined (rules : List Rule) :
    firstTarget order metadata rules =
        ((inlined rules).find? (matchMetadata order metadata)).map adapter ∧
      anyMatches order metadata rules = (firstTarget order metadata rules).isSome ∧
      anyShouldResolveIp rules = (inlined rules).any shouldResolveIp ∧
      anyShouldFindProcess rules = (inlined rules).any shouldFindProcess := by
  cases rules with
  | nil => simp [firstTarget, inlined, anyMatches, anyShouldResolveIp, anyShouldFindProcess]
  | cons rule rules =>
    obtain ⟨hrules, hany, hip, hprocess⟩ := firstTarget_inlined rules
    rw [firstTarget, anyMatches, anyShouldResolveIp, anyShouldFindProcess, hany, hrules, hip,
      hprocess]
    cases rule with
    | subRule name block =>
      obtain ⟨hrules, hany, hip, hprocess⟩ := firstTarget_inlined block
      simp [matchAndResolve, inlined, matchMetadata, shouldResolveIp, shouldFindProcess, hrules,
        hany, hip, hprocess, Option.map_or]
    | _ =>
      simp only [matchAndResolve, inlined, List.find?_cons, List.any_cons, and_self]
      split <;> simp [*]

end Rule

end Meow.Rules
