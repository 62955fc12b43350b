import Meow.Lib.Fallible
import Meow.Rules.Rule

/-!
# The rule parser

`parse_rule` reads a line `TYPE,PAYLOAD,ADAPTER[,extra]` into a rule. The payload of a logic rule is
a list of groups in parentheses, each of which is a line without an adapter; it may be a logic rule
again, so the parser calls itself. Every call strips a pair of parentheses, which is why the
recursion ends.

Rules about the country, the autonomous system or the geosite category of a connection need a
database, which is handed to the parser in a context.

## Main definitions

* `RuleEnv` — what is used of other libraries.
* `ParserContext` — the databases.
* `parseRule` — the parser.

## Main results

* `parseRule_eq` — the parser is `parseRuleWith` itself for the inner rules.
* `parseRule_allOk` — an induction over the rules that are parsed.
* `parseRule_congr` — a line that names no database is parsed alike in all contexts.
-/

namespace Meow.Rules

open Trie List

/-- What the parser uses of the libraries `regex` and `ipnet`, and of the Unicode tables. -/
structure RuleEnv where
  lc : Lowercase
  uc : Uppercase
  order : HashOrder
  /-- `Regex::new`, with the texts that the expression matches or the text of the error. -/
  regexNew : Str → Except Str (Str → Bool)
  /-- `regex::escape`. -/
  regexEscape : Str → Str
  /-- `IpNet::from_str`, with the text of the error. -/
  parseIpNet : Str → Except Str Cidr

/-- Libraries that know no regular expressions and no networks. -/
def RuleEnv.plain : RuleEnv where
  lc := .asciiOnly
  uc := .asciiOnly
  order := .inserted
  regexNew _ := .error (str "not supported")
  regexEscape := id
  parseIpNet _ := .error (str "not supported")

structure CountryIndex where
  byCountry : AList fun _ : Str => IpAddr → Bool

def CountryIndex.rangesFor (self : CountryIndex) (country : Str) : IpAddr → Bool :=
  (self.byCountry.lookup (toAsciiUppercase country)).getD fun _ => false

structure AsnIndex where
  byAsn : AList fun _ : ℕ => IpAddr → Bool

def AsnIndex.rangesFor (self : AsnIndex) (asn : ℕ) : IpAddr → Bool :=
  (self.byAsn.lookup asn).getD fun _ => false

/-- `ParserContext`, with the values of `ParserContext::empty`. -/
structure ParserContext where
  geoip : Option CountryIndex := none
  asn : Option AsnIndex := none
  geosite : Option GeositeDb := none

/-! ### The payloads -/

/-- The texts of the errors of a payload of ports. -/
structure PortTexts where
  start : Str → Str → Str
  stop : Str → Str → Str
  single : Str → Str → Str
  range : ℕ → ℕ → Str
  empty : Str

/-- One part of `PortRule::new` or `InPortRule::new`. -/
def parsePortRange (texts : PortTexts) (part : Str) : Except Str PortRange :=
  match splitOnce '-' part with
  | some (l, r) => do
    let start ← (parseUInt 65535 (trim l)).mapError (texts.start (trim l))
    let stop ← (parseUInt 65535 (trim r)).mapError (texts.stop (trim r))
    if start > stop then .error (texts.range start stop)
    else .ok (.range (UInt16.ofNat start) (UInt16.ofNat stop))
  | none => do
    let port ← (parseUInt 65535 part).mapError (texts.single part)
    .ok (.single (UInt16.ofNat port))

/-- The loop of `PortRule::new` and `InPortRule::new`. -/
def parsePortRanges (texts : PortTexts) (ports : Str) : Except Str (List PortRange) := do
  let parts := ((ports.splitOnP fun c => c = ',' || c = '/').map trim).filter fun part => part ≠ []
  let ranges ← parts.mapM (parsePortRange texts)
  if ranges = [] then .error texts.empty else .ok ranges

/-- The texts of `PortRule::new`. -/
def portTexts : PortTexts where
  start _ e := str "invalid port: " ++ e
  stop _ e := str "invalid port: " ++ e
  single _ e := str "invalid port: " ++ e
  range start stop := str "invalid port range " ++ natToStr start ++ str "-" ++ natToStr stop ++
    str ": start must be <= end"
  empty := str "invalid port: empty range list"

/-- The texts of `InPortRule::new`. -/
def inPortTexts : PortTexts where
  start l e := str "invalid IN-PORT range start '" ++ l ++ str "': " ++ e
  stop r e := str "invalid IN-PORT range end '" ++ r ++ str "': " ++ e
  single p e := str "invalid IN-PORT '" ++ p ++ str "': " ++ e
  range lo hi := str "invalid IN-PORT range " ++ natToStr lo ++ str "-" ++ natToStr hi ++
    str ": start must be <= end"
  empty := str "invalid IN-PORT: empty range list"

/-- `NetworkRule::new`. -/
def parseNetwork (env : RuleEnv) (payload : Str) : Except Str Network :=
  let lower := env.lc.toLowercase payload
  if lower = str "tcp" then .ok .tcp
  else if lower = str "udp" then .ok .udp
  else .error (str "unknown network: " ++ payload)

/-- The flags of `InTypeRule::new`. -/
def parseInType (env : RuleEnv) (payload : Str) : Except Str InTypeFlags :=
  let upper := env.uc.toUppercase payload
  if upper = str "HTTP" then .ok { matchHttp := true, matchHttps := true }
  else if upper = str "HTTPS" then .ok { matchHttps := true }
  else if upper = str "SOCKS5" then .ok { matchSocks5 := true }
  else if upper = str "TPROXY" then .ok { matchTproxy := true }
  else if upper = str "INNER" then .ok { matchInner := true }
  else .error (str "unknown IN-TYPE value '" ++ upper ++
    str "'; expected HTTP, HTTPS, SOCKS5, TPROXY, or INNER " ++
    str "(Class A per ADR-0002, upstream: rules/common/inbound.go)")

/-- `DscpRule::new`. -/
def parseDscp (payload : Str) : Except Str UInt8 := do
  let value ← (parseUInt 255 (trim payload)).mapError fun e =>
    str "invalid DSCP value '" ++ trim payload ++ str "': " ++ e
  if value > 63 then
    .error (str "invalid DSCP value " ++ natToStr value ++ str ": must be 0–63 (6 bits)")
  else .ok (UInt8.ofNat value)

/-- `UidRule::new`. -/
def parseUid (payload : Str) : Except Str UInt32 := do
  let value ← (parseUInt 4294967295 (trim payload)).mapError fun e =>
    str "invalid UID value '" ++ trim payload ++ str "': " ++ e
  .ok (UInt32.ofNat value)

def parseAsnPayload (payload : Str) : Except Str ℕ :=
  (parseUInt 4294967295 (trim payload)).mapError fun e =>
    str "invalid IP-ASN value '" ++ trim payload ++ str "': " ++ e

/-- `DomainWildcardRule::new`. -/
def parseWildcard (env : RuleEnv) (pattern : Str) : Except Str (Str → Bool) :=
  let expanded := replaceStr (str "\\*") (str "[^.]+") (env.regexEscape pattern)
  (env.regexNew (str "^(?i)" ++ expanded ++ str "$")).mapError fun e =>
    str "invalid DOMAIN-WILDCARD pattern '" ++ pattern ++ str "': " ++ e

/-- The mode of `ProcessPathRule::new`. -/
def parseProcessPath (env : RuleEnv) (payload : Str) : Except Str MatchMode :=
  if '*' ∈ payload then
    let pattern := replaceStr (str "\\*") (str "[^/\\\\]*") (env.regexEscape payload)
    match env.regexNew (str "^(?i)" ++ pattern ++ str "$") with
    | .ok re => .ok (.glob re)
    | .error e => .error (str "invalid PROCESS-PATH glob '" ++ payload ++ str "': " ++ e)
  else if payload.head? = some '/' ∨ payload.head? = some '\\' then .ok .prefixed
  else .ok .exact

/-- The mask of `IpSuffixRule::new`, for addresses of `w` bits. -/
def suffixMask (w prefixLen : ℕ) : BitVec w :=
  if prefixLen = 0 then 0
  else if prefixLen ≥ w then BitVec.allOnes w
  else (1#w <<< prefixLen) - 1

/-- The bits of `IpSuffixRule::new`. -/
def parseIpSuffix (env : RuleEnv) (payload : Str) : Except Str IpSuffixFamily :=
  match env.parseIpNet payload with
  | .error e => .error (str "invalid IP-SUFFIX: expected addr/prefix_len where prefix_len ≤ 32 " ++
      str "(IPv4) or 128 (IPv6): " ++ payload ++ str " (" ++ e ++ str ")")
  | .ok net =>
    match net.addr with
    | .v4 addr => let mask := suffixMask 32 net.prefixLen; .ok (.v4 (addr &&& mask) mask)
    | .v6 addr => let mask := suffixMask 128 net.prefixLen; .ok (.v6 (addr &&& mask) mask)

/-- `IpCidrRule::new`. -/
def parseCidr (env : RuleEnv) (payload adapter : Str) (isSrc noResolve : Bool) : Except Str Rule :=
  match env.parseIpNet payload with
  | .ok cidr => .ok (.ipCidr cidr payload adapter isSrc noResolve)
  | .error e => .error (str "invalid CIDR: " ++ e)

/-- The error of a rule about autonomous systems without a database. -/
def noAsnDatabase (ruleType : Str) : Str :=
  ruleType ++ str " rule requires an ASN database (GeoLite2-ASN.mmdb); drop the file at " ++
    str "$XDG_CONFIG_HOME/meow/GeoLite2-ASN.mmdb, $HOME/.config/meow/GeoLite2-ASN.mmdb, " ++
    str "or ./meow/GeoLite2-ASN.mmdb"

/-! ### The rule types that need a database -/

/-- The rule types whose arms read the context. -/
def geodataTypes : List Str :=
  [str "GEOIP", str "SRC-GEOIP", str "GEOSITE", str "IP-ASN", str "SRC-IP-ASN"]

/-- The arms of `parse_rule` for the rule types that read the context. -/
def parseGeodataRule (env : RuleEnv) (ctx : ParserContext) (ruleType payload adapter : Str)
    (noResolve : Bool) : Except Str Rule :=
  if ruleType = str "GEOIP" then
    match ctx.geoip with
    | none => .error (str "GEOIP rule requires a GeoIP database, but none is configured")
    | some index =>
      .ok (.geoIp (env.uc.toUppercase payload) adapter noResolve (index.rangesFor payload))
  else if ruleType = str "SRC-GEOIP" then
    match ctx.geoip with
    | none => .error (str "SRC-GEOIP rule requires a GeoIP database, but none is configured")
    | some index =>
      .ok (.srcGeoIp (env.uc.toUppercase payload) adapter (index.rangesFor payload))
  else if ruleType = str "GEOSITE" then
    if trim ((payload.splitOn '@').headD []) = [] then
      .error (str "GEOSITE rule requires a category name")
    else .ok (.geoSite (toAsciiLowercase (trim payload)) payload adapter ctx.geosite noResolve)
  else
    match ctx.asn with
    | none => .error (noAsnDatabase ruleType)
    | some index => do
      let asn ← parseAsnPayload payload
      if ruleType = str "IP-ASN" then
        .ok (.ipAsn payload adapter (index.rangesFor asn) false noResolve)
      else .ok (.ipAsn payload adapter (index.rangesFor asn) true true)

/-! ### The other rule types -/

/-- The arms of `parse_rule` for the rule types that do not read the context. -/
def parsePlainRule (env : RuleEnv) (ruleType payload adapter : Str) (noResolve : Bool) :
    Except Str Rule :=
  if ruleType = str "DOMAIN" then .ok (.domain (env.lc.toLowercase payload) adapter)
  else if ruleType = str "DOMAIN-SUFFIX" then
    .ok (.domainSuffix (toAsciiLowercase payload) adapter)
  else if ruleType = str "DOMAIN-KEYWORD" then
    .ok (.domainKeyword (toAsciiLowercase payload) adapter)
  else if ruleType = str "DOMAIN-REGEX" then do
    let regex ← (env.regexNew payload).mapError fun e => str "invalid regex: " ++ e
    .ok (.domainRegex regex payload adapter)
  else if ruleType = str "IP-CIDR" ∨ ruleType = str "IP-CIDR6" then
    parseCidr env payload adapter false noResolve
  else if ruleType = str "SRC-IP-CIDR" then parseCidr env payload adapter true noResolve
  else if ruleType = str "SRC-PORT" then do
    .ok (.port (← parsePortRanges portTexts payload) payload adapter true)
  else if ruleType = str "DST-PORT" then do
    .ok (.port (← parsePortRanges portTexts payload) payload adapter false)
  else if ruleType = str "NETWORK" then do
    .ok (.network (← parseNetwork env payload) payload adapter)
  else if ruleType = str "PROCESS-NAME" then .ok (.process payload adapter)
  else if ruleType = str "IN-PORT" then do
    .ok (.inPort (← parsePortRanges inPortTexts payload) payload adapter)
  else if ruleType = str "IN-NAME" then .ok (.inName payload adapter)
  else if ruleType = str "IN-TYPE" then do
    .ok (.inType payload adapter (← parseInType env payload))
  else if ruleType = str "IN-USER" then .ok (.inUser payload adapter)
  else if ruleType = str "DSCP" then do .ok (.dscp (← parseDscp payload) payload adapter)
  else if ruleType = str "UID" then do .ok (.uid (← parseUid payload) payload adapter)
  else if ruleType = str "PROCESS-PATH" then do
    .ok (.processPath payload (← parseProcessPath env payload) adapter)
  else if ruleType = str "DOMAIN-WILDCARD" then do
    .ok (.domainWildcard (← parseWildcard env payload) payload adapter)
  else if ruleType = str "IP-SUFFIX" then do
    .ok (.ipSuffix payload adapter (← parseIpSuffix env payload) false noResolve)
  else if ruleType = str "SRC-IP-SUFFIX" then do
    .ok (.ipSuffix payload adapter (← parseIpSuffix env payload) true noResolve)
  else .error (str "unknown rule type: " ++ ruleType)

/-- The rules that neither read the context nor hold other rules. -/
def Rule.isPlain : Rule → Bool
  | .geoIp .. | .srcGeoIp .. | .geoSite .. | .ipAsn .. | .and .. | .or .. | .not .. | .ruleSet ..
  | .subRule .. => false
  | _ => true

variable (env : RuleEnv)

lemma isPlain_parsePlainRule (ruleType payload adapter : Str) (noResolve : Bool) :
    AllOk (fun rule => rule.isPlain = true)
      (parsePlainRule env ruleType payload adapter noResolve) := by
  have hcidr : ∀ isSrc, AllOk (fun rule => rule.isPlain = true)
      (parseCidr env payload adapter isSrc noResolve) := by
    intro isSrc
    unfold parseCidr
    split
    · exact .ok rfl
    · exact .error
  repeat' apply AllOk.ite
  -- a rule is made at once, or from what is read of the payload
  all_goals first
    | exact .error
    | exact .ok rfl
    | exact .bind fun _ _ => .ok rfl
    | exact hcidr _

/-- The part of `parse_rule` after the logic rules. -/
def parseLine (env : RuleEnv) (ctx : ParserContext) (line : Str) : Except Str Rule :=
  match splitN ',' 4 line with
  | ruleType :: second :: rest =>
    let ruleType := trim ruleType
    if ruleType = str "MATCH" then .ok (.final (trim second))
    else
      match rest with
      | [] => .error (str "rule needs at least 3 parts: " ++ line)
      | adapter :: extra =>
        let noResolve := extra.head?.any fun e => strEqIgnoreAsciiCase (trim e) (str "no-resolve")
        if geodataTypes.contains ruleType then
          parseGeodataRule env ctx ruleType (trim second) (trim adapter) noResolve
        else parsePlainRule env ruleType (trim second) (trim adapter) noResolve
  | _ => .error (str "invalid rule: " ++ line)

/-! ### Logic rules -/

/-- The rule types of logic rules. -/
inductive LogicType where
  | and
  | or
  | not
  deriving DecidableEq

/-- The name of the rule type. -/
def LogicType.text : LogicType → Str
  | and => str "AND"
  | or => str "OR"
  | not => str "NOT"

/-- The logic rule type that a text stands for. -/
def logicType (ty : Str) : Option LogicType :=
  let upper := toAsciiUppercase (trim ty)
  if upper = str "AND" then some .and
  else if upper = str "OR" then some .or
  else if upper = str "NOT" then some .not
  else none

/-- The text up to the parenthesis that closes the `depth` open ones, and the text behind it. -/
def closeParen : ℕ → Str → Option (Str × Str)
  | _, [] => none
  | depth, c :: s =>
    if c = '(' then (closeParen (depth + 1) s).map fun p => (c :: p.1, p.2)
    else if c = ')' then
      if depth ≤ 1 then some ([], s)
      else (closeParen (depth - 1) s).map fun p => (c :: p.1, p.2)
    else (closeParen depth s).map fun p => (c :: p.1, p.2)

/-- The loop of `split_logic_groups`: `depth` parentheses are open, and `group` is what was read of
the group, the last character first. -/
def splitGroups : ℕ → Str → Str → Except Str (List Str)
  | 0, _, [] => .ok []
  | 0, _, c :: s =>
    if c = ' ' ∨ c = ',' then splitGroups 0 [] s
    else if c = '(' then splitGroups 1 [] s
    else .error (str "expected '(' starting a group, got '" ++ [c] ++ str "'")
  | _ + 1, _, [] => .error (str "unbalanced parentheses in logic payload")
  | depth + 1, group, c :: s =>
    if c = '(' then splitGroups (depth + 2) (c :: group) s
    else if c = ')' then
      if depth = 0 then do .ok (group.reverse :: (← splitGroups 0 [] s))
      else splitGroups depth (c :: group) s
    else splitGroups (depth + 1) (c :: group) s

def splitLogicGroups (inner : Str) : Except Str (List Str) := splitGroups 0 [] inner

/-- The adapter that inner rules get. -/
def innerPlaceholder : Str := str "LOGIC-INNER-PLACEHOLDER"

/-- `TYPE,PAYLOAD[,extra]` with an adapter put in. -/
def spliceAdapter (placeholder entry : Str) : Str :=
  match splitN ',' 3 entry with
  | [ty, payload] => trim ty ++ ',' :: trim payload ++ ',' :: placeholder
  | [ty, payload, rest] =>
    trim ty ++ ',' :: trim payload ++ ',' :: placeholder ++ ',' :: trim rest
  | _ => entry

/-- `splice_inner_adapter`: the adapter of a logic rule stands at its end. -/
def spliceInnerAdapter (entry : Str) : Str :=
  match (splitOnce ',' entry).bind fun p => logicType p.1 with
  | some _ => entry ++ ',' :: innerPlaceholder
  | none => spliceAdapter innerPlaceholder entry

/-- The rule of a logic type. -/
def buildLogicRule (ty : LogicType) (rules : List Rule) (adapter : Str) : Except Str Rule :=
  match ty with
  | .and => .ok (.and rules adapter (joinStr (str " AND ") (rules.map Rule.payload)))
  | .or => .ok (.or rules adapter (joinStr (str " OR ") (rules.map Rule.payload)))
  | .not =>
    match rules with
    | [rule] => .ok (.not rule adapter (str "NOT " ++ rule.payload))
    | _ => .error (str "NOT rule requires exactly 1 inner rule, got " ++ natToStr rules.length)

/-- `parse_logic_rule`, with a parser for the inner rules. -/
def parseLogicRule (parse : Str → Except Str Rule) (ty : LogicType) (rest : Str) :
    Except Str Rule :=
  match trimStart rest with
  | '(' :: body =>
    match closeParen 1 body with
    | none => .error (ty.text ++ str " rule: unbalanced parentheses")
    | some (inner, tail) =>
      match trimStart tail with
      | ',' :: adapter =>
        if trim adapter = [] then .error (ty.text ++ str " rule: missing adapter")
        else do
          let groups ← (splitLogicGroups inner).mapError fun e => ty.text ++ str " rule: " ++ e
          if groups = [] then .error (ty.text ++ str " rule: empty payload")
          else do
            let rules ← groups.mapM fun g => parse (spliceInnerAdapter (trim g))
            buildLogicRule ty rules (trim adapter)
      | _ => .error (ty.text ++ str " rule: expected ',ADAPTER' after payload")
  | rest => .error (ty.text ++ str " rule: expected '(' after rule type, got: " ++ rest)

/-- `parse_rule`, with a parser for the inner rules. -/
def parseRuleWith (env : RuleEnv) (ctx : ParserContext) (parse : Str → Except Str Rule)
    (line : Str) : Except Str Rule :=
  match splitOnce ',' line with
  | none => parseLine env ctx line
  | some (ty, rest) =>
    match logicType ty with
    | some logic => parseLogicRule parse logic rest
    | none => parseLine env ctx line

/-- `parse_rule` down to a depth. -/
def parseRuleDepth (env : RuleEnv) (ctx : ParserContext) : ℕ → Str → Except Str Rule
  | 0 => parseRuleWith env ctx fun _ => .error []
  | depth + 1 => parseRuleWith env ctx (parseRuleDepth env ctx depth)

/-- `parse_rule`: there are not more levels than opening parentheses. -/
def parseRule (env : RuleEnv) (ctx : ParserContext) (line : Str) : Except Str Rule :=
  parseRuleDepth env ctx (line.count '(') line

/-! ### The recursion of the parser -/

lemma closeParen_eq_some {depth : ℕ} {s : Str} {p : Str × Str} (h : closeParen depth s = some p) :
    s = p.1 ++ ')' :: p.2 := by
  induction s generalizing depth p with
  | nil => exact absurd h (by simp [closeParen])
  | cons c s ih =>
    rw [closeParen] at h
    split_ifs at h with hopen hclose hlast
    on_goal 2 => rw [← Option.some.inj h, hclose, nil_append]
    all_goals
      obtain ⟨q, hq, rfl⟩ := Option.map_eq_some_iff.mp h
      rw [ih hq, cons_append]

/-- A group stands in parentheses in the text: `front` is what was read of the text. -/
lemma enclosed_of_mem_splitGroups {depth : ℕ} {front group s : Str} {groups : List Str}
    (hfront : depth ≠ 0 → '(' :: group.reverse <:+ front)
    (h : splitGroups depth group s = .ok groups) {g : Str} (hg : g ∈ groups) :
    '(' :: (g ++ [')']) <:+: front ++ s := by
  induction s generalizing depth front group groups with
  | nil =>
    cases depth with
    | zero => exact absurd hg (Except.ok.inj h ▸ not_mem_nil)
    | succ depth => exact absurd h (by simp [splitGroups])
  | cons c s ih =>
    rw [append_cons front]
    -- the group goes on with this character
    have hmore : '(' :: group.reverse <:+ front → '(' :: (c :: group).reverse <:+ front ++ [c] := by
      rintro ⟨a, rfl⟩
      exact ⟨a, by simp⟩
    cases depth with
    | zero =>
      rw [splitGroups] at h
      split_ifs at h with hblank hopen
      · exact ih (fun h => absurd rfl h) h hg
      · refine ih (fun _ => ?_) h hg
        rw [hopen]
        exact suffix_append front ['(']
    | succ depth =>
      have hsuffix := hfront (Nat.succ_ne_zero depth)
      rw [splitGroups] at h
      split_ifs at h with hopen hclose hlast
      · exact ih (fun _ => hmore hsuffix) h hg
      · obtain ⟨later, hrest, hgroups⟩ := bind_eq_ok_iff.mp h
        rw [← Except.ok.inj hgroups] at hg
        rcases List.mem_cons.mp hg with rfl | hg
        · obtain ⟨a, rfl⟩ := hsuffix
          exact ⟨a, s, by simp [hclose]⟩
        · exact ih (fun h => absurd rfl h) hrest hg
      · exact ih (fun _ => hmore hsuffix) h hg
      · exact ih (fun _ => hmore hsuffix) h hg

lemma infix_of_enclosed {g s : Str} (h : '(' :: (g ++ [')']) <:+: s) : g <:+: s :=
  ((prefix_append g [')']).isInfix.trans (suffix_cons '(' _).isInfix).trans h

/-- **What a logic rule is made of.** It is an error whatever the inner rules are, or it is made of
the rules of the groups. -/
lemma parseLogicRule_cases (ty : LogicType) (rest : Str) :
    (∃ e, ∀ parse, parseLogicRule parse ty rest = .error e) ∨
      ∃ (body : Str) (groups : List Str) (adapter : Str), trimStart rest = '(' :: body ∧
        (∀ g ∈ groups, '(' :: (g ++ [')']) <:+: body) ∧ ∀ parse, parseLogicRule parse ty rest =
          (groups.mapM fun g => parse (spliceInnerAdapter (trim g))) >>= fun rules =>
            buildLogicRule ty rules adapter := by
  unfold parseLogicRule
  split
  next body hbody =>
    rcases hclose : closeParen 1 body with _ | ⟨inner, tail⟩
    · exact .inl ⟨_, fun _ => rfl⟩
    · have hinner : inner <:+: body := by
        rw [closeParen_eq_some hclose]
        exact (prefix_append _ _).isInfix
      dsimp only
      split
      next adapter _ =>
        split_ifs
        · exact .inl ⟨_, fun _ => rfl⟩
        · rcases hsplit : splitLogicGroups inner with e | groups
          · exact .inl ⟨_, fun _ => rfl⟩
          · simp only [Except.mapError, except_ok_bind]
            split_ifs
            · exact .inl ⟨_, fun _ => rfl⟩
            · refine .inr ⟨body, groups, trim adapter, hbody, fun g hg => ?_, fun _ => rfl⟩
              exact (@enclosed_of_mem_splitGroups _ [] _ _ _ (fun h => absurd rfl h) hsplit g
                hg).trans hinner
      next => exact .inl ⟨_, fun _ => rfl⟩
  next => exact .inl ⟨_, fun _ => rfl⟩

lemma count_innerPlaceholder : innerPlaceholder.count '(' = 0 := by decide

/-- Putting an adapter in opens no parenthesis. -/
lemma count_spliceAdapter_le {placeholder : Str} (h : placeholder.count '(' = 0) (entry : Str) :
    (spliceAdapter placeholder entry).count '(' ≤ entry.count '(' := by
  have hjoin := joinStr_splitN ',' 2 entry
  have htrim : ∀ s : Str, (trim s).count '(' ≤ s.count '(' := fun s =>
    (isInfix_trim s).sublist.count_le '('
  unfold spliceAdapter
  split
  next ty payload hparts =>
    rw [hparts] at hjoin
    have hty := htrim ty
    have hpayload := htrim payload
    rw [← hjoin]
    simp [joinStr, h]
    omega
  next ty payload rest hparts =>
    rw [hparts] at hjoin
    have hty := htrim ty
    have hpayload := htrim payload
    have hrest := htrim rest
    rw [← hjoin]
    simp [joinStr, h]
    omega
  next => exact le_rfl

lemma count_spliceInnerAdapter_le (entry : Str) :
    (spliceInnerAdapter entry).count '(' ≤ entry.count '(' := by
  unfold spliceInnerAdapter
  split
  · simp [count_innerPlaceholder]
  · exact count_spliceAdapter_le count_innerPlaceholder entry

section Recursion

variable (ctx ctx' : ParserContext) (line : Str)

/-- **What a line is made of.** It is a logic rule, whose inner rules have fewer opening
parentheses, or it is read without them. -/
lemma parseRuleWith_cases :
    (∀ ctx parse, parseRuleWith env ctx parse line = parseLine env ctx line) ∨
      (∃ e, ∀ ctx parse, parseRuleWith env ctx parse line = .error e) ∨
      ∃ (ty : LogicType) (groups : List Str) (adapter : Str),
        (∀ g ∈ groups, '(' :: (g ++ [')']) <:+: line ∧
          (spliceInnerAdapter (trim g)).count '(' < line.count '(') ∧
        ∀ ctx parse, parseRuleWith env ctx parse line =
          (groups.mapM fun g => parse (spliceInnerAdapter (trim g))) >>= fun rules =>
            buildLogicRule ty rules adapter := by
  unfold parseRuleWith
  rcases hsplit : splitOnce ',' line with _ | ⟨ty, rest⟩
  · exact .inl fun _ _ => rfl
  · dsimp only
    rcases logicType ty with _ | logic
    · exact .inl fun _ _ => rfl
    · refine .inr ?_
      rcases parseLogicRule_cases logic rest with ⟨e, he⟩ | ⟨body, groups, adapter, hbody, hg, heq⟩
      · exact .inl ⟨e, fun _ => he⟩
      · refine .inr ⟨logic, groups, adapter, fun g hmem => ?_, fun _ => heq⟩
        have hline : '(' :: body <:+ line := by
          rw [← hbody, (splitOnce_eq_some hsplit).1]
          exact (trimStart_suffix rest).trans
            ((suffix_cons _ _).trans (suffix_append _ _))
        refine ⟨(hg g hmem).trans ((suffix_cons _ _).trans hline).isInfix, ?_⟩
        calc (spliceInnerAdapter (trim g)).count '('
            ≤ (trim g).count '(' := count_spliceInnerAdapter_le _
          _ ≤ g.count '(' := (isInfix_trim g).sublist.count_le '('
          _ ≤ body.count '(' := (infix_of_enclosed (hg g hmem)).sublist.count_le '('
          _ < ('(' :: body).count '(' := by simp
          _ ≤ line.count '(' := hline.sublist.count_le '('

/-- Two parsers for inner rules that agree on the inner rules of this line lead to the same rule. -/
lemma parseRuleWith_congr {parse parse' : Str → Except Str Rule} {line : Str}
    (hline : parseLine env ctx line = parseLine env ctx' line)
    (h : ∀ g : Str, g <:+: line → (spliceInnerAdapter (trim g)).count '(' < line.count '(' →
      parse (spliceInnerAdapter (trim g)) = parse' (spliceInnerAdapter (trim g))) :
    parseRuleWith env ctx parse line = parseRuleWith env ctx' parse' line := by
  rcases parseRuleWith_cases env line with hplain | ⟨e, he⟩ | ⟨ty, groups, adapter, hg, heq⟩
  · rw [hplain, hplain, hline]
  · rw [he, he]
  · rw [heq, heq, mapM_congr fun g hmem => h g (infix_of_enclosed (hg g hmem).1) (hg g hmem).2]

/-- All depths of at least as many levels as there are opening parentheses are the same. -/
lemma parseRuleDepth_eq {depth depth' : ℕ} {line : Str} (h : line.count '(' ≤ depth)
    (h' : line.count '(' ≤ depth') :
    parseRuleDepth env ctx depth line = parseRuleDepth env ctx depth' line := by
  induction depth generalizing depth' line with
  | zero =>
    cases depth' with
    | zero => rfl
    | succ depth' => exact parseRuleWith_congr env ctx ctx rfl fun g _ hl => absurd hl (by omega)
  | succ depth ih =>
    cases depth' with
    | zero => exact parseRuleWith_congr env ctx ctx rfl fun g _ hl => absurd hl (by omega)
    | succ depth' =>
      exact parseRuleWith_congr env ctx ctx rfl fun g _ hl => ih (by omega) (by omega)

/-- **The recursion of the parser.** -/
theorem parseRule_eq : parseRule env ctx line = parseRuleWith env ctx (parseRule env ctx) line := by
  rw [parseRule, parseRuleDepth_eq env ctx le_rfl (Nat.le_succ _)]
  exact parseRuleWith_congr env ctx ctx rfl fun g _ hl => parseRuleDepth_eq env ctx hl.le le_rfl

/-- **An induction over rules that are parsed.** What the rules have that are read without inner
rules, and what a logic rule has when its inner rules have it, every rule has. -/
theorem parseRule_allOk {P : Rule → Prop} (hline : ∀ line, AllOk P (parseLine env ctx line))
    (hlogic : ∀ ty rules adapter, (∀ rule ∈ rules, P rule) →
      AllOk P (buildLogicRule ty rules adapter)) (line : Str) :
    AllOk P (parseRule env ctx line) := by
  induction hn : line.count '(' using Nat.strong_induction_on generalizing line with
  | _ n ih =>
    rw [parseRule_eq]
    rcases parseRuleWith_cases env line with hplain | ⟨e, he⟩ | ⟨ty, groups, adapter, hg, heq⟩
    · rw [hplain]
      exact hline line
    · rw [he]
      exact .error
    · rw [heq]
      refine .bind fun rules hrules => hlogic ty rules adapter fun rule hrule => ?_
      obtain ⟨g, hmem, hparse⟩ := exists_of_mem_mapM hrules hrule
      exact ih _ (hn ▸ (hg g hmem).2) _ rfl rule hparse

end Recursion

/-! ### Lines that name no database -/

/-- The words in the names of the rule types that need a database. -/
def geodataWords : List Str := [str "GEOIP", str "GEOSITE", str "IP-ASN"]

/-- Does one of these words stand in the line? -/
def NamesGeodata (line : Str) : Prop := ∃ word ∈ geodataWords, word <:+: line

instance (line : Str) : Decidable (NamesGeodata line) :=
  inferInstanceAs (Decidable (∃ word ∈ geodataWords, word <:+: line))

lemma NamesGeodata.mono {line line' : Str} (hsub : line <:+: line') (h : NamesGeodata line) :
    NamesGeodata line' := by
  obtain ⟨word, hword, hin⟩ := h
  exact ⟨word, hword, hin.trans hsub⟩

/-- The words have no comma, so they stand in one field of a line. -/
lemma namesGeodata_append_cons {front back : Str} (h : NamesGeodata (front ++ ',' :: back)) :
    NamesGeodata front ∨ NamesGeodata back := by
  obtain ⟨word, hword, hin⟩ := h
  have hcomma : ∀ word ∈ geodataWords, ',' ∉ word := by decide
  rcases infix_append_cons (hcomma word hword) hin with hin | hin
  · exact .inl ⟨word, hword, hin⟩
  · exact .inr ⟨word, hword, hin⟩

lemma not_namesGeodata_innerPlaceholder : ¬NamesGeodata innerPlaceholder := by decide

/-- Putting an adapter in adds no such word. -/
lemma namesGeodata_of_spliceAdapter {placeholder entry : Str} (hp : ¬NamesGeodata placeholder)
    (h : NamesGeodata (spliceAdapter placeholder entry)) : NamesGeodata entry := by
  have hjoin := joinStr_splitN ',' 2 entry
  have hpart : ∀ part ∈ splitN ',' 3 entry, NamesGeodata (trim part) → NamesGeodata entry := by
    intro part hmem hnames
    have hin := (isInfix_trim part).trans (@infix_joinStr [','] _ _ hmem)
    rw [hjoin] at hin
    exact hnames.mono hin
  unfold spliceAdapter at h
  split at h
  next ty payload hparts =>
    rw [hparts] at hpart
    rcases namesGeodata_append_cons h with h | h
    · rcases namesGeodata_append_cons h with h | h <;> exact hpart _ (by simp) h
    · exact absurd h hp
  next ty payload rest hparts =>
    rw [hparts] at hpart
    rcases namesGeodata_append_cons h with h | h
    · rcases namesGeodata_append_cons h with h | h
      · rcases namesGeodata_append_cons h with h | h <;> exact hpart _ (by simp) h
      · exact absurd h hp
    · exact hpart rest (by simp) h
  next => exact h

lemma namesGeodata_of_spliceInnerAdapter {entry : Str}
    (h : NamesGeodata (spliceInnerAdapter entry)) : NamesGeodata entry := by
  unfold spliceInnerAdapter at h
  split at h
  · rcases namesGeodata_append_cons h with h | h
    · exact h
    · exact absurd h not_namesGeodata_innerPlaceholder
  · exact namesGeodata_of_spliceAdapter not_namesGeodata_innerPlaceholder h

lemma parseLine_congr (ctx ctx' : ParserContext) {line : Str} (h : ¬NamesGeodata line) :
    parseLine env ctx line = parseLine env ctx' line := by
  have hjoin := joinStr_splitN ',' 3 line
  unfold parseLine
  rcases hparts : splitN ',' 4 line with _ | ⟨ruleType, _ | ⟨second, _ | ⟨adapter, extra⟩⟩⟩
  · rfl
  · rfl
  · rfl
  · have hty : trim ruleType ∉ geodataTypes := by
      intro hmem
      rw [hparts] at hjoin
      have hin := (isInfix_trim ruleType).trans
        (@infix_joinStr [','] _ (ruleType :: second :: adapter :: extra) mem_cons_self)
      rw [hjoin] at hin
      have hall : ∀ ty ∈ geodataTypes, NamesGeodata ty := by decide
      exact h ((hall _ hmem).mono hin)
    have hcontains : ¬geodataTypes.contains (trim ruleType) = true := by
      rwa [contains_iff_mem]
    dsimp only
    rw [if_neg hcontains, if_neg hcontains]

/-- **A line that names no database** is parsed alike in all contexts. -/
theorem parseRule_congr (ctx ctx' : ParserContext) {line : Str} (h : ¬NamesGeodata line) :
    parseRule env ctx line = parseRule env ctx' line := by
  -- the inner rules of a line have fewer opening parentheses, and no more words
  induction hn : line.count '(' using Nat.strong_induction_on generalizing line with
  | _ n ih =>
    rw [parseRule_eq, parseRule_eq env ctx']
    refine parseRuleWith_congr env ctx ctx' (parseLine_congr env ctx ctx' h) fun g hg hlt => ?_
    refine ih _ (hn ▸ hlt) (fun hnames => h ?_) rfl
    exact (namesGeodata_of_spliceInnerAdapter hnames).mono ((isInfix_trim g).trans hg)

end Meow.Rules
