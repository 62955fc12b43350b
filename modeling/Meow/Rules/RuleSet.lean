import Meow.Net.ParseIp
import Meow.Rules.Parser
import Meow.Trie.Search

/-!
# Rule sets

A rule set is a list of entries that is loaded from elsewhere (`rule_set.rs`). The entries are names
(`domain`), networks (`ipcidr`) or lines of rules without an adapter (`classical`). They come as
text, or in a binary file that is compressed and names its behaviour.

## Main definitions

* `buildRuleSet` — the rule set of a list of entries.
* `buildRuleSetFromMrsWithBehavior` — the rule set of a binary file.

## Main results

* `buildRuleSet_matches_classical` — a classical set matches what an entry matches.
* `buildRuleSet_matches_domain` — a domain set matches what a pattern of an entry matches.
* `buildRuleSet_congr` — the other sets do not depend on the databases.
-/

namespace Meow.Rules

open Trie List

variable (env : RuleEnv)

/-! ### The three behaviours -/

/-- The body of the loop of `DomainRuleSet::from_entries`: the trie and the number of entries. -/
def insertEntry (state : DomainTrie Unit × ℕ) (entry : Str) : DomainTrie Unit × ℕ :=
  let entry := trim entry
  if entry = [] then state
  else
    let (inserted, trie) := state.1.insert env.lc entry ()
    -- the name behind `+.` is entered, too
    let (bareInserted, trie) := match stripPrefix (str "+.") entry with
      | some rest => trie.insert env.lc rest ()
      | none => (true, trie)
    (trie, if inserted || bareInserted then state.2 + 1 else state.2)

/-- `DomainRuleSet::from_entries`. -/
def domainRuleSet (entries : List Str) : RuleSet :=
  let (trie, count) := entries.foldl (insertEntry env) (.new, 0)
  let trie := trie.seal env.order
  { behavior := .domain
    «matches» := fun metadata =>
      metadata.ruleHost ≠ [] && (trie.search env.order metadata.ruleHost).isSome
    len := count
    shouldResolveIp := false
    shouldFindProcess := false
    matchesDomain := fun domain => (trie.search env.order domain).isSome }

/-- The networks of `IpCidrRuleSet::from_entries`. -/
def cidrEntries (entries : List Str) : List Cidr :=
  entries.filterMap fun entry =>
    if trim entry = [] then none else (env.parseIpNet (trim entry)).toOption

/-- `IpCidrRuleSet::from_entries`: an `IpRange` has the addresses of its networks. -/
def ipCidrRuleSet (entries : List Str) : RuleSet :=
  let nets := cidrEntries env entries
  { behavior := .ipCidr
    «matches» := fun metadata => metadata.dstIp.any fun ip => nets.any fun net => net.contains ip
    len := nets.length
    shouldResolveIp := true
    shouldFindProcess := false
    matchesDomain := fun _ => false }

/-- The adapter that the rules of a set get. -/
def ruleSetPlaceholder : Str := str "RULE-SET-PLACEHOLDER"

def splicePlaceholderAdapter (entry : Str) : Str := spliceAdapter ruleSetPlaceholder entry

/-- The rule of an entry of a classical set, if it has one. -/
def classicalRule (ctx : ParserContext) (entry : Str) : Option Rule :=
  if trim entry = [] then none
  else (parseRule env ctx (splicePlaceholderAdapter (trim entry))).toOption

/-- `ClassicalRuleSet::from_entries`. -/
def classicalRuleSet (ctx : ParserContext) (entries : List Str) : RuleSet :=
  let rules := entries.filterMap (classicalRule env ctx)
  { behavior := .classical
    «matches» := fun metadata => rules.any fun r => r.matchMetadata env.order metadata
    len := rules.length
    shouldResolveIp := rules.any Rule.shouldResolveIp
    shouldFindProcess := rules.any Rule.shouldFindProcess
    matchesDomain := fun domain =>
      rules.any fun r => r.matchMetadata env.order { host := domain } }

def buildRuleSet (behavior : RuleSetBehavior) (entries : List Str) (ctx : ParserContext) :
    RuleSet :=
  match behavior with
  | .domain => domainRuleSet env entries
  | .ipCidr => ipCidrRuleSet env entries
  | .classical => classicalRuleSet env ctx entries

/-! ### Binary files -/

/-- `MRS_MAGIC`. -/
def mrsMagic : List UInt8 := [77, 82, 83, 33]

/-- `ZSTD_MAGIC`. -/
def zstdMagic : List UInt8 := [0x28, 0xB5, 0x2F, 0xFD]

def isMrsBytes (bytes : List UInt8) : Bool := bytes.take 4 == mrsMagic || bytes.take 4 == zstdMagic

/-- What reads the compressed parts of a binary file. -/
structure MrsReaders where
  /-- The library `zstd`, with the text of the error. -/
  zstd : List UInt8 → Except Str (List UInt8)
  /-- `parse_upstream_ruleset_mrs`: the type tag and the entries, or the text of the error. -/
  upstream : List UInt8 → Except Str (UInt8 × List Str)
  /-- The text of the `Utf8Error` of bytes that are no text. -/
  utf8Error : List UInt8 → Str

/-- The text of `MrsError::WrongFormat`. -/
def mrsWrongFormat : Str := str "mrs: wrong format (not an mrs file — first 4 bytes are not 'MRS!')"

/-- `parse_header`: the type tag, and the compressed payload. -/
def parseHeader (data : List UInt8) : Except Str (UInt8 × List UInt8) :=
  if data.take 4 ≠ mrsMagic then .error mrsWrongFormat
  else
    match data.drop 4 with
    | version :: typeTag :: _ :: _ :: _ :: _ :: rest =>
      if version ≠ 1 then
        .error (str "mrs: unsupported version " ++ natToStr version.toNat ++ str " (expected 1)")
      else .ok (typeTag, rest)
    | short => .error (str "mrs: truncated header at offset 4: need 6 bytes, have " ++
        natToStr short.length)

def behaviorFromTypeTag (typeTag : UInt8) : Except Str RuleSetBehavior :=
  if typeTag = 0 then .ok .domain
  else if typeTag = 1 then .ok .ipCidr
  else if typeTag = 2 then .ok .classical
  else .error (str "mrs: unsupported type tag " ++ natToStr typeTag.toNat)

/-- `RuleSetBehavior::fmt`. -/
def RuleSetBehavior.text : RuleSetBehavior → Str
  | domain => str "Domain"
  | ipCidr => str "IPCIDR"
  | classical => str "Classical"

/-- The comparison of the behaviour of the file with the configured one. -/
def checkBehavior (expected : Option RuleSetBehavior) (actual : RuleSetBehavior) :
    Except Str Unit :=
  match expected with
  | none => .ok ()
  | some expected =>
    if expected ≠ actual then
      .error (str "mrs: behavior mismatch: config says " ++ expected.text ++ str ", file says " ++
        actual.text)
    else .ok ()

/-- `parse_string_list_payload`, from an offset. -/
def parseStringListPayload (readers : MrsReaders) (pos : ℕ) : List UInt8 → Except Str (List Str)
  | [] => .ok []
  | [_] => .error (str "mrs: truncated string length")
  | hi :: lo :: rest =>
    let len := hi.toNat * 256 + lo.toNat
    if rest.length < len then
      .error (str "mrs: truncated string entry at offset " ++ natToStr (pos + 2))
    else
      match fromUtf8 (rest.take len) with
      | none => .error (str "mrs: invalid UTF-8: " ++ readers.utf8Error (rest.take len))
      | some s => do
        .ok (s :: (← parseStringListPayload readers (pos + 2 + len) (rest.drop len)))
termination_by bytes => bytes.length
decreasing_by
  simp only [length_drop, length_cons]
  omega

def parseIpcidrPayload : List UInt8 → Except Str (List Str)
  | [] => .ok []
  | family :: rest =>
    if family = 4 ∨ family = 16 then
      match _hdrop : rest.drop family.toNat with
      | [] => .error (str "mrs: truncated ip address")
      | prefixLen :: rest' =>
        let n := bigEndian (rest.take family.toNat)
        let addr := if family = 4 then displayIpv4 n else displayIpv6 n
        do .ok ((addr ++ str "/" ++ natToStr prefixLen.toNat) :: (← parseIpcidrPayload rest'))
    else .error (str "mrs: unknown ip family " ++ natToStr family.toNat)
termination_by bytes => bytes.length
decreasing_by
  have hlen := congrArg length _hdrop
  simp only [length_drop, length_cons] at hlen ⊢
  omega

/-- The entries in a payload that is decompressed. -/
def payloadEntries (readers : MrsReaders) (actual : RuleSetBehavior) (payload : List UInt8) :
    Except Str (List Str) :=
  match actual with
  | .domain => parseStringListPayload readers 0 payload
  | .ipCidr => parseIpcidrPayload payload
  | .classical => parseStringListPayload readers 0 payload

/-- The entries of a binary file, with its behaviour. -/
def readMrs (readers : MrsReaders) (bytes : List UInt8) (expected : Option RuleSetBehavior) :
    Except Str (RuleSetBehavior × List Str) :=
  if bytes.take 4 = zstdMagic then do
    let (typeTag, entries) ← readers.upstream bytes
    let actual ← behaviorFromTypeTag typeTag
    checkBehavior expected actual
    if actual = .classical then
      .error (str "mrs: upstream format does not support classical behavior")
    else .ok (actual, entries)
  else do
    let (typeTag, compressed) ← parseHeader bytes
    let actual ← behaviorFromTypeTag typeTag
    checkBehavior expected actual
    let payload ← (readers.zstd compressed).mapError fun e =>
      str "mrs: zstd decompression failed: " ++ e
    let entries ← payloadEntries readers actual payload
    .ok (actual, entries)

def buildRuleSetFromMrsWithBehavior (readers : MrsReaders) (bytes : List UInt8)
    (ctx : ParserContext) (expected : Option RuleSetBehavior) : Except Str RuleSet := do
  let (actual, entries) ← readMrs readers bytes expected
  .ok (buildRuleSet env actual entries ctx)

/-! ### What a rule set matches -/

/-- Does the entry of a classical set match? -/
def EntryMatches (ctx : ParserContext) (metadata : Metadata) (entry : Str) : Prop :=
  ∃ rule, classicalRule env ctx entry = some rule ∧ rule.matchMetadata env.order metadata = true

/-- **A classical set** matches what one of its entries matches. -/
lemma buildRuleSet_matches_classical (entries : List Str) (ctx : ParserContext)
    (metadata : Metadata) :
    (buildRuleSet env .classical entries ctx).matches metadata ↔
      ∃ entry ∈ entries, EntryMatches env ctx metadata entry := by
  show (entries.filterMap (classicalRule env ctx)).any _ ↔ _
  rw [any_eq_true]
  constructor
  · rintro ⟨rule, hmem, hmatch⟩
    obtain ⟨entry, hentry, hrule⟩ := mem_filterMap.mp hmem
    exact ⟨entry, hentry, rule, hrule, hmatch⟩
  · rintro ⟨entry, hentry, rule, hrule, hmatch⟩
    exact ⟨rule, mem_filterMap.mpr ⟨entry, hentry, hrule⟩, hmatch⟩

/-- The names that an entry of a domain set is entered under. -/
def entryNames (entry : Str) : List Str :=
  if trim entry = [] then [] else trim entry :: (stripPrefix (str "+.") (trim entry)).toList

lemma foldl_insertEntry (entries : List Str) (inserts : List (Str × Unit)) (count : ℕ) :
    (entries.foldl (insertEntry env) (build env.lc inserts, count)).1 =
      build env.lc (inserts ++ (entries.flatMap entryNames).map (·, ())) := by
  induction entries generalizing inserts count with
  | nil => simp
  | cons entry entries ih =>
    obtain ⟨n, hn⟩ : ∃ n, insertEntry env (build env.lc inserts, count) entry =
        (build env.lc (inserts ++ (entryNames entry).map (·, ())), n) := by
      rw [insertEntry, entryNames]
      split_ifs
      · exact ⟨count, by simp⟩
      · cases stripPrefix (str "+.") (trim entry) <;>
          exact ⟨_, by simp [build, foldl_append]; rfl⟩
    rw [foldl_cons, hn, ih, flatMap_cons, map_append, append_assoc]

/-- **A domain set** matches the hosts that a pattern of one of its entries matches, or the name
behind a `+.`. -/
theorem buildRuleSet_matches_domain (entries : List Str) (ctx : ParserContext)
    (metadata : Metadata) :
    (buildRuleSet env .domain entries ctx).matches metadata ↔ metadata.ruleHost ≠ [] ∧
      ∃ name ∈ entries.flatMap entryNames, ∃ p ∈ patternsOf env.lc name,
        p.Matches (normalizeQuery metadata.ruleHost) := by
  have htrie := foldl_insertEntry env entries [] 0
  show (_ && (((entries.foldl (insertEntry env) (build env.lc [], 0)).1.seal env.order).search
    env.order metadata.ruleHost).isSome) = true ↔ _
  rw [htrie, nil_append, Bool.and_eq_true, decide_eq_true_iff]
  refine and_congr_right fun _ => ?_
  rw [Option.isSome_iff_ne_none, ne_eq, search_seal_build_eq_none_iff]
  simp only [Inserted, mem_map]
  grind

/-- The other sets do not depend on the databases. -/
lemma buildRuleSet_congr {behavior} (h : behavior ≠ .classical) (entries : List Str)
    (ctx ctx' : ParserContext) :
    buildRuleSet env behavior entries ctx = buildRuleSet env behavior entries ctx' := by
  cases behavior with
  | domain => rfl
  | ipCidr => rfl
  | classical => exact absurd rfl h

lemma not_namesGeodata_ruleSetPlaceholder : ¬NamesGeodata ruleSetPlaceholder := by decide

/-- An entry that names no database has the same rule in all contexts. -/
lemma classicalRule_congr (ctx ctx' : ParserContext) {entry} (h : ¬NamesGeodata entry) :
    classicalRule env ctx entry = classicalRule env ctx' entry := by
  have hsplice : ¬NamesGeodata (splicePlaceholderAdapter (trim entry)) := by
    intro hnames
    exact h ((namesGeodata_of_spliceAdapter not_namesGeodata_ruleSetPlaceholder hnames).mono
      (isInfix_trim entry))
  unfold classicalRule
  rw [parseRule_congr env ctx ctx' hsplice]

lemma entryMatches_congr (ctx ctx' : ParserContext) (metadata : Metadata) {entry}
    (h : ¬NamesGeodata entry) :
    EntryMatches env ctx metadata entry ↔ EntryMatches env ctx' metadata entry := by
  unfold EntryMatches
  rw [classicalRule_congr env ctx ctx' h]

/-- What does not begin like a binary file is not read as one. -/
lemma readMrs_of_not_isMrsBytes (readers : MrsReaders) {bytes} (h : isMrsBytes bytes = false)
    (expected : Option RuleSetBehavior) :
    readMrs readers bytes expected = .error mrsWrongFormat := by
  rw [isMrsBytes, Bool.or_eq_false_iff, beq_eq_false_iff_ne, beq_eq_false_iff_ne] at h
  rw [readMrs, if_neg h.2, parseHeader, if_pos h.1]
  rfl

/-- A file of another behaviour than the configured one is not read. -/
lemma behavior_of_readMrs {readers bytes expected actual entries}
    (h : readMrs readers bytes (some expected) = .ok (actual, entries)) : actual = expected := by
  have hcheck : ∀ {b : RuleSetBehavior}, checkBehavior (some expected) b = .ok () → b = expected :=
    fun hb => by
      rw [checkBehavior] at hb
      split_ifs at hb with hne
      · exact (not_not.mp hne).symm
  rw [readMrs] at h
  split_ifs at h
  · obtain ⟨⟨tag, es⟩, _, h⟩ := bind_eq_ok_iff.mp h
    obtain ⟨b, _, h⟩ := bind_eq_ok_iff.mp h
    obtain ⟨_, hb, h⟩ := bind_eq_ok_iff.mp h
    split_ifs at h
    rw [← (Prod.mk.inj (Except.ok.inj h)).1]
    exact hcheck hb
  · obtain ⟨⟨tag, compressed⟩, _, h⟩ := bind_eq_ok_iff.mp h
    obtain ⟨b, _, h⟩ := bind_eq_ok_iff.mp h
    obtain ⟨_, hb, h⟩ := bind_eq_ok_iff.mp h
    obtain ⟨payload, _, h⟩ := bind_eq_ok_iff.mp h
    obtain ⟨es, _, h⟩ := bind_eq_ok_iff.mp h
    rw [← (Prod.mk.inj (Except.ok.inj h)).1]
    exact hcheck hb

end Meow.Rules
