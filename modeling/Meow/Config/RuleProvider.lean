import Meow.Rules.RuleSet

/-!
# Rule providers

A rule provider is where the entries of a rule set come from (`rule_provider.rs`): the configuration
itself, a file or a URL. It is loaded at start-up; what comes from a URL is fetched again from time
to time, and put in the place of the old set.

Loading looks at the configured format and at the databases that the configuration is read with. A
refresh is called with no databases and passes on no format, so it takes what does not begin like a
binary file to be YAML. The last section says when this makes no difference.

## Main definitions

* `RuleProvider`, `loadOne`, `RuleProvider.refresh`.
* `SameOutcome` — both fail, or both lead to sets that match the same connections.
* `RefreshAgrees` — what the payload must be like.

## Main results

* `refresh_sameOutcome_iff` — a refresh leads to what loading leads to, precisely when
  the payload is like that.
-/

namespace Meow.Config

open Rules

/-! ### Payloads -/

/-- `serde_yaml::Value`, as far as rule sets read it. -/
inductive Yaml where
  | string (s : Str)
  | sequence (items : List Yaml)
  | mapping (entries : List (Str × Yaml))
  | tagged (value : Yaml)
  | other

namespace Yaml

def untagRef : Yaml → Yaml
  | tagged value => value.untagRef
  | value => value

/-- `Value::get` with a text. -/
def get (self : Yaml) (key : Str) : Option Yaml :=
  match self.untagRef with
  | mapping entries => entries.lookup key
  | _ => none

def asSequence (self : Yaml) : Option (List Yaml) :=
  match self.untagRef with
  | sequence items => some items
  | _ => none

def asStr (self : Yaml) : Option Str :=
  match self.untagRef with
  | string s => some s
  | _ => none

end Yaml

/-- What loading uses of other libraries. -/
structure ProviderEnv where
  rules : RuleEnv
  mrs : MrsReaders
  /-- `serde_yaml::from_str`. -/
  yaml : Str → Except Str Yaml

inductive RuleSetFormat where
  | yaml
  | text
  | mrs
  deriving DecidableEq

variable (env : ProviderEnv)

def parseYamlPayload (raw : Str) : Except Str (List Str) :=
  match env.yaml raw with
  | .error _ => .error (str "rule-set yaml parse error")
  | .ok root =>
    match root.get (str "payload") with
    | none => .error (str "rule-set yaml missing 'payload' key")
    | some payload =>
      match payload.asSequence with
      | none => .error (str "rule-set 'payload' is not a sequence")
      | some items =>
        .ok ((items.filterMap fun v => v.asStr.map trim).filter fun s => s ≠ [])

def parseTextPayload (raw : Str) : List Str :=
  ((lines raw).map trim).filter fun l => l ≠ [] && l.head? ≠ some '#'

def parseBytesToRulesetWithFormat (bytes : List UInt8) (behavior : RuleSetBehavior)
    (explicitFormat : Option RuleSetFormat) (ctx : ParserContext) : Except Str RuleSet :=
  if explicitFormat = some .mrs ∨ isMrsBytes bytes = true then
    (buildRuleSetFromMrsWithBehavior env.rules env.mrs bytes ctx (some behavior)).mapError
      fun e => str "mrs parse error: " ++ e
  else
    match fromUtf8 bytes with
    | none => .error (str "payload is not valid UTF-8")
    | some text =>
      match explicitFormat with
      | some .text => .ok (buildRuleSet env.rules behavior (parseTextPayload text) ctx)
      | _ => do
        let entries ← parseYamlPayload env text
        .ok (buildRuleSet env.rules behavior entries ctx)

def parseBytesToRuleset (bytes : List UInt8) (behavior : RuleSetBehavior) (ctx : ParserContext) :
    Except Str RuleSet := parseBytesToRulesetWithFormat env bytes behavior none ctx

/-! ### Providers -/

inductive ProviderType where
  | http
  | file
  | inline
  deriving DecidableEq

structure RuleProvider where
  name : Str
  providerType : ProviderType
  behavior : RuleSetBehavior
  interval : ℕ
  rules : RuleSet

open RuleProvider

/-- `RuleProvider::refresh`, with what was fetched: the provider that is left, or the error that
leaves it as it is. -/
def RuleProvider.refresh (self : RuleProvider) (ctx : ParserContext)
    (fetched : Except Str (List UInt8)) : Except Str RuleProvider :=
  if self.providerType ≠ .http then .ok self
  else do
    let bytes ← fetched
    let rules ← parseBytesToRuleset env bytes self.behavior ctx
    .ok { self with rules := rules }

/-- `RawRuleProvider`: an entry of `rule-providers:`. Where the bytes of a file or a URL come from
is left out. -/
structure RawRuleProvider where
  providerType : Str
  behavior : Str
  url : Option Str := none
  format : Option Str := none
  interval : Option ℕ := none
  payload : Option (List Str) := none

/-- `RuleSetBehavior::from_str`. -/
def parseBehavior (s : Str) : Except Str RuleSetBehavior :=
  let lower := toAsciiLowercase s
  if lower = str "domain" then .ok .domain
  else if lower = str "ipcidr" ∨ lower = str "ip-cidr" then .ok .ipCidr
  else if lower = str "classical" then .ok .classical
  else .error (str "unknown rule-set behavior: " ++ lower)

/-- `RuleSetFormat::from_str`. -/
def parseFormat (s : Str) : Except Str RuleSetFormat :=
  let lower := toAsciiLowercase s
  if lower = str "yaml" then .ok .yaml
  else if lower = str "text" then .ok .text
  else if lower = str "mrs" then .ok .mrs
  else .error (str "unsupported rule-set format: " ++ lower)

def parseExplicitFormat (cfg : RawRuleProvider) : Except Str (Option RuleSetFormat) :=
  match cfg.format with
  | none => .ok none
  | some s => (parseFormat s).map some

def loadInline (name : Str) (cfg : RawRuleProvider) (behavior : RuleSetBehavior)
    (ctx : ParserContext) : Except Str RuleProvider :=
  if cfg.interval.any (0 < ·) then
    .error (str "rule-provider '" ++ name ++ str "': inline providers cannot refresh; " ++
      str "remove the `interval:` field (Class A per ADR-0002)")
  else
    match cfg.payload with
    | none => .error (str "rule-provider '" ++ name ++ str "': inline type requires `payload:`")
    | some payload => .ok ⟨name, .inline, behavior, 0, buildRuleSet env.rules behavior payload ctx⟩

/-- `load_file`, with what was read. -/
def loadFile (name : Str) (cfg : RawRuleProvider) (behavior : RuleSetBehavior) (ctx : ParserContext)
    (read : Except Str (List UInt8)) : Except Str RuleProvider := do
  let bytes ← read
  let explicitFormat ← parseExplicitFormat cfg
  let rules ← parseBytesToRulesetWithFormat env bytes behavior explicitFormat ctx
  .ok ⟨name, .file, behavior, 0, rules⟩

/-- `load_http`, with what was fetched. -/
def loadHttp (name : Str) (cfg : RawRuleProvider) (behavior : RuleSetBehavior) (ctx : ParserContext)
    (fetched : Except Str (List UInt8)) : Except Str RuleProvider :=
  match cfg.url with
  | none => .error (str "http provider '" ++ name ++ str "' requires a 'url'")
  | some _ => do
    let explicitFormat ← parseExplicitFormat cfg
    let bytes ← fetched
    let rules ← parseBytesToRulesetWithFormat env bytes behavior explicitFormat ctx
    .ok ⟨name, .http, behavior, cfg.interval.getD 0, rules⟩

/-- `load_one`, with what was read or fetched. -/
def loadOne (name : Str) (cfg : RawRuleProvider) (ctx : ParserContext)
    (fetched : Except Str (List UInt8)) : Except Str RuleProvider := do
  let behavior ← parseBehavior cfg.behavior
  if cfg.providerType = str "inline" then loadInline env name cfg behavior ctx
  else if cfg.providerType = str "file" then loadFile env name cfg behavior ctx fetched
  else if cfg.providerType = str "http" then loadHttp env name cfg behavior ctx fetched
  else .error (str "unknown rule-provider type: " ++ cfg.providerType)

/-! ### A refresh and a start -/

/-- Both fail, or both lead to sets that match the same connections. -/
def SameOutcome : Except Str RuleSet → Except Str RuleSet → Prop
  | .error _, .error _ => True
  | .ok s, .ok s' => ∀ metadata, s.matches metadata = s'.matches metadata
  | _, _ => False

/-- **What the entries must be like.** A connection that no other entry matches is matched by the
entries that name a database alike with the databases and without. -/
def GeodataAgrees (ctx : ParserContext) (entries : List Str) : Prop :=
  ∀ metadata, (∀ e ∈ entries, ¬NamesGeodata e → ¬EntryMatches env.rules ctx metadata e) →
    ((∃ e ∈ entries, NamesGeodata e ∧ EntryMatches env.rules ctx metadata e) ↔
      ∃ e ∈ entries, NamesGeodata e ∧ EntryMatches env.rules {} metadata e)

/-- **What the payload must be like.** -/
def RefreshAgrees (behavior : RuleSetBehavior) (format : Option RuleSetFormat) (ctx : ParserContext)
    (bytes : List UInt8) : Prop :=
  if isMrsBytes bytes then
    behavior = .classical → ∀ entries, readMrs env.mrs bytes (some behavior) =
      .ok (behavior, entries) → GeodataAgrees env ctx entries
  else
    match fromUtf8 bytes with
    | none => True
    | some text =>
      match format with
      -- the text is no YAML document with a payload, which the binary format is not either
      | some .mrs => ∀ entries, parseYamlPayload env text ≠ .ok entries
      -- the text is such a document, and its lines mean the same
      | some .text => ∃ entries, parseYamlPayload env text = .ok entries ∧
          ∀ metadata, (buildRuleSet env.rules behavior (parseTextPayload text) ctx).matches
            metadata = (buildRuleSet env.rules behavior entries {}).matches metadata
      | _ => behavior = .classical → ∀ entries, parseYamlPayload env text = .ok entries →
          GeodataAgrees env ctx entries

/-- Only the entries that name a database make a difference. -/
lemma sameMatches_classical_iff (ctx : ParserContext) (entries : List Str) :
    (∀ metadata, (buildRuleSet env.rules .classical entries ctx).matches metadata =
      (buildRuleSet env.rules .classical entries {}).matches metadata) ↔
      GeodataAgrees env ctx entries := by
  -- a match by an entry that names no database does not depend on them
  have hother : ∀ metadata, (∃ e ∈ entries, ¬NamesGeodata e ∧ EntryMatches env.rules ctx metadata e)
      ↔ ∃ e ∈ entries, ¬NamesGeodata e ∧ EntryMatches env.rules {} metadata e := by
    intro metadata
    constructor
    · rintro ⟨e, he, hname, hmatch⟩
      exact ⟨e, he, hname, (entryMatches_congr env.rules ctx {} metadata hname).mp hmatch⟩
    · rintro ⟨e, he, hname, hmatch⟩
      exact ⟨e, he, hname, (entryMatches_congr env.rules ctx {} metadata hname).mpr hmatch⟩
  -- a match is by an entry of one of the two kinds
  have hsplit : ∀ (ctx : ParserContext) metadata,
      (∃ e ∈ entries, EntryMatches env.rules ctx metadata e) ↔
        (∃ e ∈ entries, ¬NamesGeodata e ∧ EntryMatches env.rules ctx metadata e) ∨
          ∃ e ∈ entries, NamesGeodata e ∧ EntryMatches env.rules ctx metadata e := by
    intro ctx metadata
    constructor
    · rintro ⟨e, he, hmatch⟩
      by_cases hname : NamesGeodata e
      · exact .inr ⟨e, he, hname, hmatch⟩
      · exact .inl ⟨e, he, hname, hmatch⟩
    · rintro (⟨e, he, _, hmatch⟩ | ⟨e, he, _, hmatch⟩)
      · exact ⟨e, he, hmatch⟩
      · exact ⟨e, he, hmatch⟩
  refine forall_congr' fun metadata => ?_
  rw [Bool.eq_iff_iff, buildRuleSet_matches_classical, buildRuleSet_matches_classical, hsplit ctx,
    hsplit {}, ← hother metadata]
  constructor
  · intro h hnone
    have hno : ¬∃ e ∈ entries, ¬NamesGeodata e ∧ EntryMatches env.rules ctx metadata e :=
      fun ⟨e, he, hname, hmatch⟩ => hnone e he hname hmatch
    rwa [or_iff_right hno, or_iff_right hno] at h
  · intro h
    by_cases hsome : ∃ e ∈ entries, ¬NamesGeodata e ∧ EntryMatches env.rules ctx metadata e
    · exact ⟨fun _ => .inl hsome, fun _ => .inl hsome⟩
    · rw [or_iff_right hsome, or_iff_right hsome]
      exact h fun e he hname hmatch => hsome ⟨e, he, hname, hmatch⟩

variable (behavior : RuleSetBehavior)

/-- The same entries lead to the same set unless they are rules that name a database. -/
lemma sameMatches_iff (ctx : ParserContext) (entries : List Str) :
    (∀ metadata, (buildRuleSet env.rules behavior entries ctx).matches metadata =
      (buildRuleSet env.rules behavior entries {}).matches metadata) ↔
      (behavior = .classical → GeodataAgrees env ctx entries) := by
  by_cases hbehavior : behavior = .classical
  · rw [hbehavior, sameMatches_classical_iff]
    exact ⟨fun h _ => h, fun h => h rfl⟩
  · refine ⟨fun _ h => absurd h hbehavior, fun _ metadata => ?_⟩
    rw [buildRuleSet_congr env.rules hbehavior entries ctx {}]

/-- **Parsing in the two ways.** -/
lemma sameOutcome_parse_iff (format : Option RuleSetFormat) (ctx : ParserContext)
    (bytes : List UInt8) :
    SameOutcome (parseBytesToRulesetWithFormat env bytes behavior format ctx)
      (parseBytesToRuleset env bytes behavior {}) ↔
      RefreshAgrees env behavior format ctx bytes := by
  unfold parseBytesToRuleset parseBytesToRulesetWithFormat RefreshAgrees
  by_cases hmrs : isMrsBytes bytes
  · -- both read a binary file
    rw [if_pos (.inr hmrs), if_pos (.inr hmrs), if_pos hmrs]
    rcases hread : readMrs env.mrs bytes (some behavior) with e | ⟨actual, entries⟩
    · simp [buildRuleSetFromMrsWithBehavior, hread, SameOutcome, Except.mapError]
    · obtain rfl := behavior_of_readMrs hread
      have hiff := sameMatches_iff env actual ctx entries
      simpa [buildRuleSetFromMrsWithBehavior, hread, SameOutcome, Except.mapError] using hiff
  · have hnone : ¬((none : Option RuleSetFormat) = some .mrs ∨ isMrsBytes bytes) := by
      simp [hmrs]
    rw [if_neg hnone, if_neg hmrs]
    by_cases hformat : format = some .mrs
    · -- at start-up there is nothing but an error
      rw [hformat, buildRuleSetFromMrsWithBehavior,
        readMrs_of_not_isMrsBytes env.mrs (Bool.eq_false_iff.mpr hmrs)]
      rcases fromUtf8 bytes with _ | text
      · simp [SameOutcome, Except.mapError]
      · cases hyaml : parseYamlPayload env text <;> simp [SameOutcome, Except.mapError, hyaml]
    · rw [if_neg (not_or.mpr ⟨hformat, hmrs⟩)]
      rcases fromUtf8 bytes with _ | text
      · simp [SameOutcome]
      · rcases hyaml : parseYamlPayload env text with e | entries
        · rcases format with _ | _ | _ | _
          · simp [SameOutcome, hyaml]
          · simp [SameOutcome, hyaml]
          · simp [SameOutcome, hyaml]
          · exact absurd rfl hformat
        · have hiff := sameMatches_iff env behavior ctx entries
          rcases format with _ | _ | _ | _
          · simpa [SameOutcome, hyaml] using hiff
          · simpa [SameOutcome, hyaml] using hiff
          · simp [SameOutcome, hyaml]
          · exact absurd rfl hformat

/-- The configured format, of a configuration that can be loaded. -/
def formatOf (cfg : RawRuleProvider) : Option RuleSetFormat :=
  cfg.format.bind fun s => (parseFormat s).toOption

variable {cfg : RawRuleProvider}

lemma parseExplicitFormat_eq {format} (h : parseExplicitFormat cfg = .ok format) :
    format = formatOf cfg := by
  unfold parseExplicitFormat at h
  unfold formatOf
  rcases hcfg : cfg.format with _ | s <;> rw [hcfg] at h
  · exact (Except.ok.inj h).symm
  · dsimp only at h
    rcases hs : parseFormat s with e | f <;> rw [hs] at h <;> cases h
    rw [Option.bind_some, hs]
    rfl

/-- What loading makes of other bytes, once a provider of a URL is loaded. -/
lemma loadOne_http {name ctx bytes} {p : RuleProvider}
    (hload : loadOne env name cfg ctx (.ok bytes) = .ok p) (hhttp : p.providerType = .http)
    (bytes' : List UInt8) :
    (loadOne env name cfg ctx (.ok bytes')).map rules =
      parseBytesToRulesetWithFormat env bytes' p.behavior (formatOf cfg) ctx := by
  unfold loadOne at hload ⊢
  obtain ⟨behavior, hbehavior, hload⟩ := bind_eq_ok_iff.mp hload
  rw [hbehavior, except_ok_bind]
  split_ifs at hload ⊢
  · -- an inline provider has no URL
    unfold loadInline at hload
    split_ifs at hload
    split at hload <;> cases hload
    cases hhttp
  · obtain ⟨_, -, hload⟩ := bind_eq_ok_iff.mp hload
    obtain ⟨_, -, hload⟩ := bind_eq_ok_iff.mp hload
    obtain ⟨_, -, hload⟩ := bind_eq_ok_iff.mp hload
    cases hload
    cases hhttp
  · unfold loadHttp at hload ⊢
    rcases hurl : cfg.url with _ | url <;> rw [hurl] at hload
    · cases hload
    · obtain ⟨format, hformat, hload⟩ := bind_eq_ok_iff.mp hload
      rw [except_ok_bind] at hload
      obtain ⟨rules, -, hload⟩ := bind_eq_ok_iff.mp hload
      cases hload
      rw [hformat, except_ok_bind, except_ok_bind, ← parseExplicitFormat_eq hformat]
      cases parseBytesToRulesetWithFormat env bytes' behavior format ctx <;> rfl

/-- **A refresh and a start.** A provider is loaded from a URL at start-up. The set that a refresh
puts in its place for some bytes, called without databases as the tasks and the interface call it,
is the one that a start makes of the same bytes (both fail, or both match the same connections)
precisely when: a classical set has no entries whose matches change without the databases; a
payload that is configured to be text is YAML, too, and means the same; and one that is configured
to be binary but is not is no YAML either.

**Proof sketch.** Both parse the bytes, with different formats and contexts. A binary file is
recognised by both. For the same entries, only those that name a database can make a difference
(`sameMatches_classical_iff`), because the others are parsed alike (`parseRule_congr`). -/
theorem refresh_sameOutcome_iff (name : Str) (cfg : RawRuleProvider) (ctx : ParserContext)
    (bytes₀ : List UInt8) (p : RuleProvider) (hload : loadOne env name cfg ctx (.ok bytes₀) = .ok p)
    (hhttp : p.providerType = .http) (bytes : List UInt8) :
    SameOutcome ((loadOne env name cfg ctx (.ok bytes)).map RuleProvider.rules)
      ((p.refresh env {} (.ok bytes)).map RuleProvider.rules) ↔
      RefreshAgrees env p.behavior (formatOf cfg) ctx bytes := by
  have hrefresh : (p.refresh env {} (.ok bytes)).map rules =
      parseBytesToRuleset env bytes p.behavior {} := by
    rw [refresh, if_neg (not_not.mpr hhttp), except_ok_bind]
    rcases parseBytesToRuleset env bytes p.behavior {} with e | rules
    · rfl
    · rfl
  rw [loadOne_http env hload hhttp, hrefresh]
  exact sameOutcome_parse_iff env p.behavior (formatOf cfg) ctx bytes

/-! ### Some payloads -/

/-- A reader of YAML documents that are a list of entries under `payload:`, or a text. -/
def blockYaml (raw : Str) : Except Str Yaml :=
  match lines raw with
  | first :: items =>
    if first = str "payload:" then
      .ok (.mapping [(str "payload", .sequence (items.map fun l => .string (l.drop 2)))])
    else .ok (.string raw)
  | [] => .ok .other

/-- Libraries that know no regular expressions, networks or compressed files. -/
def plainEnv : ProviderEnv where
  rules :=
    { lc := .asciiOnly
      uc := .asciiOnly
      order := .inserted
      regexNew := fun _ => .error (str "not supported")
      regexEscape := id
      parseIpNet := fun _ => .error (str "not supported") }
  mrs :=
    { zstd := fun _ => .error (str "not supported")
      upstream := fun _ => .error (str "not supported")
      utf8Error := fun _ => str "not supported" }
  yaml := blockYaml

/-- A database in which all addresses belong to one country. -/
def oneCountry : ParserContext where
  geoip := some ⟨AList.singleton (str "CN") fun _ => true⟩

/-- A refresh of a list of names in YAML. -/
theorem refresh_sameOutcome_iff_names :
    SameOutcome
      ((loadOne plainEnv (str "names")
        { providerType := str "http", behavior := str "domain", url := some (str "http://a/") } {}
        (.ok (asBytes (str "payload:\n- +.a.com")))).map RuleProvider.rules)
      ((RuleProvider.refresh plainEnv
        ⟨str "names", .http, .domain, 0, buildRuleSet plainEnv.rules .domain [str "b.com"] {}⟩ {}
        (.ok (asBytes (str "payload:\n- +.a.com")))).map RuleProvider.rules) := by
  refine (refresh_sameOutcome_iff plainEnv _ _ _ (asBytes (str "payload:\n- b.com")) _ ?_ rfl
    _).mpr ?_
  · rfl
  · show RefreshAgrees plainEnv .domain none {} _
    exact nofun

/-- Two providers whose rules are lines. At start-up both match a connection that they name. A
refresh with the same bytes fails for the one that is configured to be text, and makes a set that
does not match the connection for the one that names a country. -/
theorem refresh_differs :
    let cfg : RawRuleProvider :=
      { providerType := str "http", behavior := str "classical", url := some (str "http://a/") }
    let textCfg := { cfg with format := some (str "text") }
    let text := asBytes (str "DOMAIN,a.com")
    let country := asBytes (str "payload:\n- GEOIP,CN")
    let metadata : Metadata := { host := str "a.com", dstIp := some (.v4 0x01020304#32) }
    let matched := fun p : RuleProvider => p.rules.matches metadata
    (loadOne plainEnv (str "p") textCfg {} (.ok text)).map matched = .ok true ∧
      (loadOne plainEnv (str "p") textCfg {} (.ok text) >>= fun p =>
        p.refresh plainEnv {} (.ok text)).map matched =
        .error (str "rule-set yaml missing 'payload' key") ∧
      (loadOne plainEnv (str "p") cfg oneCountry (.ok country)).map matched = .ok true ∧
      (loadOne plainEnv (str "p") cfg oneCountry (.ok country) >>= fun p =>
        p.refresh plainEnv {} (.ok country)).map matched = .ok false := by
  decide +kernel

end Meow.Config
