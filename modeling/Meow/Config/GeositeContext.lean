import Meow.Config.GeositeScan
import Meow.Rules.ClassicalEntry

/-!
# Rules with the categories that were scanned for

The rules of a configuration get a geosite database that has the categories which a scan of the
configuration found. This file compares them with the rules that get the whole database.

The database does not change how a line is parsed, only what the rules in it match. A category of a
rule stands in the line behind `GEOSITE,`, also in the groups of a logic rule, and that is where the
scan looks for it.

## Main definitions

* `geosites` — the categories that a rule asks for.
* `withGeosite` — the rule with another database.
* `Config.ReadAs` — the texts that the parser gets.
* `Config.Served` — the category is found by the scan, with all that the file has for it.

## Main results

* `Rules.parseRule_withGeosite` — parsing with another database.
* `Config.exists_written` — the categories of a rule are written in its line.
* `Config.geosite_scan_agrees` — the rules match what they match with the whole database.
-/

open List

/-! ### The database of a rule -/

namespace Meow.Rules.Rule

open Trie

mutual

/-- The categories that a rule asks for. -/
def geosites : Rule → List Str
  | geoSite category _ _ _ _ => [category]
  | and rules _ _ | or rules _ _ | subRule _ rules => geositesOf rules
  | not rule _ _ => rule.geosites
  | _ => []

/-- The categories that rules ask for. -/
def geositesOf : List Rule → List Str
  | [] => []
  | rule :: rules => rule.geosites ++ geositesOf rules

end

mutual

/-- The rule with another database. -/
def withGeosite (db : Option GeositeDb) : Rule → Rule
  | geoSite category payloadRaw adapter _ noResolve =>
    geoSite category payloadRaw adapter db noResolve
  | and rules adapter payload => and (withGeositeEach db rules) adapter payload
  | or rules adapter payload => or (withGeositeEach db rules) adapter payload
  | not rule adapter payload => not (rule.withGeosite db) adapter payload
  | subRule blockName block => subRule blockName (withGeositeEach db block)
  | rule => rule

/-- The rules with another database. -/
def withGeositeEach (db : Option GeositeDb) : List Rule → List Rule
  | [] => []
  | rule :: rules => rule.withGeosite db :: withGeositeEach db rules

end

lemma mem_geositesOf {rules category} :
    category ∈ geositesOf rules ↔ ∃ rule ∈ rules, category ∈ rule.geosites := by
  induction rules with
  | nil => simp [geositesOf]
  | cons rule rules ih => simp [geositesOf, ih]

variable (db : Option GeositeDb)

lemma withGeositeEach_eq_map (rules : List Rule) :
    withGeositeEach db rules = rules.map (withGeosite db) := by
  induction rules with
  | nil => rfl
  | cons rule rules ih => rw [withGeositeEach, ih, map_cons]

@[simp] lemma payload_withGeosite (rule : Rule) : (rule.withGeosite db).payload = rule.payload := by
  cases rule <;> rfl

section Matching

variable {db} (order : HashOrder) (metadata : Metadata) {db' : Option GeositeDb}

mutual

/-- **A rule matches the same** with databases in which its categories have the same hosts. -/
lemma matchMetadata_withGeosite : ∀ rule : Rule,
    (∀ category ∈ rule.geosites, geoSiteMatches order category db metadata.ruleHost =
      geoSiteMatches order category db' metadata.ruleHost) →
    (rule.withGeosite db).matchMetadata order metadata =
      (rule.withGeosite db').matchMetadata order metadata
  | geoSite category payloadRaw adapter _ noResolve, h => by
    simp only [withGeosite, matchMetadata]
    exact h category mem_cons_self
  | and rules adapter payload, h => by
    simp only [withGeosite, matchMetadata]
    exact (matches_withGeositeEach rules h).1
  | or rules adapter payload, h => by
    simp only [withGeosite, matchMetadata]
    exact (matches_withGeositeEach rules h).2
  | subRule blockName block, h => by
    simp only [withGeosite, matchMetadata]
    exact (matches_withGeositeEach block h).2
  | not rule adapter payload, h => by
    simp only [withGeosite, matchMetadata]
    rw [matchMetadata_withGeosite rule h]
  | domain .., _ | domainSuffix .., _ | domainKeyword .., _ | domainRegex .., _
  | domainWildcard .., _ | ipCidr .., _ | port .., _ | network .., _ | process .., _
  | processPath .., _ | geoIp .., _ | srcGeoIp .., _ | inPort .., _ | inName .., _ | inType .., _
  | inUser .., _ | dscp .., _ | uid .., _ | ipSuffix .., _ | ipAsn .., _ | final .., _
  | ruleSet .., _ => rfl

lemma matches_withGeositeEach : ∀ rules : List Rule,
    (∀ category ∈ geositesOf rules, geoSiteMatches order category db metadata.ruleHost =
      geoSiteMatches order category db' metadata.ruleHost) →
    allMatch order metadata (withGeositeEach db rules) =
        allMatch order metadata (withGeositeEach db' rules) ∧
      anyMatches order metadata (withGeositeEach db rules) =
        anyMatches order metadata (withGeositeEach db' rules)
  | [], _ => ⟨rfl, rfl⟩
  | rule :: rules, h => by
    have hrule := matchMetadata_withGeosite rule
      fun category hc => h category (mem_append_left _ hc)
    have hrules := matches_withGeositeEach rules
      fun category hc => h category (mem_append_right _ hc)
    simp only [withGeositeEach, allMatch, anyMatches, hrule, hrules.1, hrules.2, and_self]

end

end Matching

end Meow.Rules.Rule

/-! ### Parsing with another database -/

namespace Meow.Rules

section Parse

variable (env : RuleEnv) (ctx : ParserContext) (db : Option GeositeDb)

lemma map_eq_self {f} {x : Except Str Rule} (h : AllOk (fun rule => f rule = rule) x) :
    x.map f = x := by
  cases x with
  | error e => rfl
  | ok rule => exact congrArg Except.ok (h rule rfl)

lemma withGeosite_of_isPlain {rule : Rule} (h : rule.isPlain = true) :
    rule.withGeosite db = rule := by
  cases rule <;> first | rfl | cases h

open Rule

lemma parseGeodataRule_withGeosite (ruleType payload adapter : Str) (noResolve : Bool) :
    parseGeodataRule env { ctx with geosite := db } ruleType payload adapter noResolve =
      (parseGeodataRule env ctx ruleType payload adapter noResolve).map (withGeosite db) := by
  unfold parseGeodataRule
  split_ifs
  · cases ctx.geoip <;> rfl
  · cases ctx.geoip <;> rfl
  · rfl
  · rfl
  all_goals
    cases ctx.asn with
    | none => rfl
    | some index => cases parseAsnPayload payload <;> rfl

lemma parseLine_withGeosite (line : Str) :
    parseLine env { ctx with geosite := db } line =
      (parseLine env ctx line).map (withGeosite db) := by
  unfold parseLine
  rcases splitN ',' 4 line with _ | ⟨ruleType, _ | ⟨second, rest⟩⟩
  · rfl
  · rfl
  · cases rest with
    | nil =>
      simp only
      split_ifs <;> rfl
    | cons adapter extra =>
      simp only
      split_ifs
      · rfl
      · exact parseGeodataRule_withGeosite env ctx db _ _ _ _
      · refine (map_eq_self fun rule hrule => ?_).symm
        exact withGeosite_of_isPlain db (isPlain_parsePlainRule env _ _ _ _ rule hrule)

lemma buildLogicRule_withGeosite (ty : LogicType) (rules : List Rule) (adapter : Str) :
    buildLogicRule ty (rules.map (withGeosite db)) adapter =
      (buildLogicRule ty rules adapter).map (withGeosite db) := by
  have hpayload : payload ∘ withGeosite db = payload :=
    funext (payload_withGeosite db)
  cases ty with
  | and | or =>
    simp [buildLogicRule, hpayload, Except.map, withGeosite, withGeositeEach_eq_map]
  | not =>
    rcases rules with _ | ⟨rule, _ | ⟨rule', rules⟩⟩ <;>
      simp [buildLogicRule, Except.map, withGeosite]

lemma mapM_map {parse : Str → Except Str Rule} (f : Rule → Rule) (groups : List Str) :
    (groups.mapM fun g => (parse g).map f) = (groups.mapM parse).map (map f) := by
  induction groups with
  | nil => rfl
  | cons g groups ih =>
    rw [mapM_cons, mapM_cons, ih]
    cases parse g <;> cases groups.mapM parse <;> rfl

/-- **Parsing with another database.** -/
theorem parseRule_withGeosite (line : Str) :
    parseRule env { ctx with geosite := db } line =
      (parseRule env ctx line).map (withGeosite db) := by
  -- the inner rules of a line have fewer opening parentheses
  induction hn : line.count '(' using Nat.strong_induction_on generalizing line with
  | _ n ih =>
    rw [parseRule_eq, parseRule_eq env ctx]
    rcases parseRuleWith_cases env line with hplain | ⟨e, he⟩ | ⟨ty, groups, adapter, hg, heq⟩
    · rw [hplain, hplain, parseLine_withGeosite]
    · rw [he, he]
      rfl
    · have hgroups : (groups.mapM fun g =>
          parseRule env { ctx with geosite := db } (spliceInnerAdapter (trim g))) =
          (groups.mapM fun g => parseRule env ctx (spliceInnerAdapter (trim g))).map
            (map (withGeosite db)) := by
        rw [← mapM_map]
        exact mapM_congr fun g hmem => ih _ (hn ▸ (hg g hmem).2) _ rfl
      rw [heq, heq, hgroups]
      cases groups.mapM fun g => parseRule env ctx (spliceInnerAdapter (trim g)) with
      | error e => rfl
      | ok rules => exact buildLogicRule_withGeosite db ty rules adapter

end Parse

/-! ### Where the categories of a rule are written -/

section Leaves

variable {env : RuleEnv} {ctx : ParserContext}

/-- The logic rule type of a line. -/
def lineLogic (line : Str) : Option LogicType := (splitOnce ',' line).bind fun p => logicType p.1

variable {line : Str}

lemma parseRule_of_lineLogic (h : lineLogic line = none) :
    parseRule env ctx line = parseLine env ctx line := by
  rw [parseRule_eq, parseRuleWith]
  unfold lineLogic at h
  cases hsplit : splitOnce ',' line <;> simp_all

variable {rule : Rule}

lemma geosites_of_isPlain (h : rule.isPlain = true) : rule.geosites = [] := by
  cases rule <;> first | rfl | cases h

/-- A category is read from the payload of a rule of the type `GEOSITE`. -/
def GeositePayload (ruleType payload category : Str) : Prop :=
  ruleType = str "GEOSITE" ∧ category = toAsciiLowercase (trim payload) ∧
    trim ((payload.splitOn '@').headD []) ≠ []

lemma geosites_parseGeodataRule (ruleType payload adapter : Str) (noResolve : Bool) :
    AllOk (fun rule => ∀ category ∈ rule.geosites, GeositePayload ruleType payload category)
      (parseGeodataRule env ctx ruleType payload adapter noResolve) := by
  have hnone : ∀ category ∈ ([] : List Str), GeositePayload ruleType payload category :=
    fun category h => absurd h not_mem_nil
  unfold parseGeodataRule
  split_ifs with hgeoip hsrc hgeosite hempty hasn
  case pos | pos =>
    cases ctx.geoip with
    | none => exact .error
    | some index => exact .ok hnone
  · exact .error
  · refine .ok fun category hcategory => ?_
    obtain rfl := mem_singleton.mp hcategory
    exact ⟨hgeosite, rfl, hempty⟩
  all_goals
    cases ctx.asn with
    | none => exact .error
    | some index => exact .bind fun asn _ => .ok hnone

lemma splitN_eq_firstPart_cons (n : ℕ) (text : Str) :
    ∃ rest, splitN ',' (n + 2) text = firstPart text :: rest := by
  by_cases hmem : ',' ∈ text
  · obtain ⟨part, rest, rfl, hcomma⟩ := eq_append_cons_of_mem hmem
    refine ⟨splitN ',' (n + 1) rest, ?_⟩
    rw [splitN_append hcomma, firstPart_append_comma, firstPart_of_not_mem hcomma]
  · exact ⟨[], by rw [splitN_of_not_mem hmem, firstPart_of_not_mem hmem]⟩

/-- **The categories of a line without inner rules** are read from its second part. -/
lemma geosites_parseLine (h : parseLine env ctx line = .ok rule) {category}
    (hcategory : category ∈ rule.geosites) :
    ∃ ruleType text, line = ruleType ++ ',' :: text ∧ ',' ∉ ruleType ∧
      GeositePayload (trim ruleType) (trim (firstPart text)) category := by
  unfold parseLine at h
  by_cases hmem : ',' ∈ line
  case neg =>
    rw [splitN_of_not_mem hmem] at h
    cases h
  · obtain ⟨ruleType, text, rfl, hcomma⟩ := eq_append_cons_of_mem hmem
    refine ⟨ruleType, text, rfl, hcomma, ?_⟩
    obtain ⟨parts, hparts⟩ := splitN_eq_firstPart_cons 1 text
    rw [splitN_append hcomma, hparts] at h
    simp only at h
    split_ifs at h with hmatch hgeo
    · cases h
      exact absurd hcategory not_mem_nil
    · cases parts with
      | nil => cases h
      | cons adapter extra => exact geosites_parseGeodataRule _ _ _ _ rule h category hcategory
    · cases parts with
      | nil => cases h
      | cons adapter extra =>
        rw [geosites_of_isPlain (isPlain_parsePlainRule env _ _ _ _ rule h)] at hcategory
        exact absurd hcategory not_mem_nil

/-- What is put behind a logic rule leaves it one. -/
lemma lineLogic_append {ty : LogicType} (h : lineLogic line = some ty) (rest : Str) :
    lineLogic (line ++ ',' :: rest) = some ty := by
  unfold lineLogic at *
  obtain ⟨p, hsplit, hty⟩ := Option.bind_eq_some_iff.mp h
  obtain ⟨rfl, hcomma⟩ := splitOnce_eq_some hsplit
  rw [append_assoc, cons_append, splitOnce_append hcomma]
  exact hty

/-- Putting an adapter in leaves the rule type. -/
lemma lineLogic_spliceAdapter (placeholder entry : Str) :
    lineLogic (spliceAdapter placeholder entry) = lineLogic entry := by
  by_cases hmem : ',' ∈ entry
  · obtain ⟨ruleType, text, rfl, hcomma⟩ := eq_append_cons_of_mem hmem
    obtain ⟨rest, hrest⟩ := spliceAdapter_append hcomma placeholder text
    rw [lineLogic, lineLogic, hrest, splitOnce_append (not_mem_trim hcomma),
      splitOnce_append hcomma]
    exact logicType_congr (trim_trim ruleType)
  · rw [spliceAdapter, splitN_of_not_mem hmem]

lemma spliceInnerAdapter_cases (entry : Str) :
    lineLogic entry = none ∧ spliceInnerAdapter entry = spliceAdapter innerPlaceholder entry ∨
      (∃ ty, lineLogic entry = some ty) ∧
        spliceInnerAdapter entry = entry ++ ',' :: innerPlaceholder := by
  rw [spliceInnerAdapter, ← lineLogic]
  cases lineLogic entry with
  | none => exact .inl ⟨rfl, rfl⟩
  | some ty => exact .inr ⟨⟨ty, rfl⟩, rfl⟩

/-- The categories of a logic rule are those of its inner rules. -/
lemma geosites_buildLogicRule {ty : LogicType} {rules adapter}
    (h : buildLogicRule ty rules adapter = .ok rule) : rule.geosites = Rule.geositesOf rules := by
  cases ty with
  | and | or =>
    cases h
    rfl
  | not =>
    rcases rules with _ | ⟨inner, _ | ⟨inner', rules⟩⟩ <;> cases h
    rw [Rule.geosites, Rule.geositesOf, Rule.geositesOf, append_nil]

/-- An adapter that is put in leaves the first two parts. -/
lemma geositePayload_of_spliceAdapter {placeholder entry ruleType text category : Str}
    (hentry : spliceAdapter placeholder entry = ruleType ++ ',' :: text) (hcomma : ',' ∉ ruleType)
    (h : GeositePayload (trim ruleType) (trim (firstPart text)) category) :
    ∃ ruleType' text', entry = ruleType' ++ ',' :: text' ∧
      GeositePayload (trim ruleType') (trim (firstPart text')) category := by
  by_cases hmem : ',' ∈ entry
  case neg =>
    rw [spliceAdapter, splitN_of_not_mem hmem] at hentry
    exact absurd (by simp [show entry = _ from hentry]) hmem
  · obtain ⟨ruleType', text', rfl, hcomma'⟩ := eq_append_cons_of_mem hmem
    have htrim := not_mem_trim hcomma'
    have hpart := not_mem_trim (comma_not_mem_firstPart text')
    obtain ⟨rest, hrest⟩ := spliceAdapter_append hcomma' placeholder text'
    rw [hrest] at hentry
    -- both are the text in front of the first comma
    have hfirst := congrArg (splitOnce ',') hentry
    rw [splitOnce_append htrim, splitOnce_append hcomma, Option.some.injEq, Prod.mk.injEq] at hfirst
    refine ⟨ruleType', text', rfl, ?_⟩
    rw [← hfirst.1, ← hfirst.2, trim_trim, firstPart_append_comma, firstPart_of_not_mem hpart,
      trim_trim] at h
    exact h

end Leaves

end Meow.Rules

namespace Meow.Config

open Rules Trie

variable {words : WordChars}

/-! ### The texts that the parser gets -/

/-- The texts that the parser gets from a piece of a configuration: a line, the inner rule of a
group, and the rule of an entry of a rule set, if it is no logic rule. -/
inductive ReadAs (source : Str) : Str → Prop where
  | line : ReadAs source source
  | inner : ReadAs source (spliceInnerAdapter (trim source))
  | entry (h : lineLogic (trim source) = none) :
    ReadAs source (splicePlaceholderAdapter (trim source))

/-- White space is trimmed at both ends. -/
lemma exists_trim (s : Str) : ∃ a b, s = a ++ trim s ++ b ∧ (∀ c ∈ a, isWhitespace c = true) ∧
    ∀ c ∈ b, isWhitespace c = true := by
  refine ⟨s.takeWhile isWhitespace, (s.dropWhile isWhitespace).rtakeWhile isWhitespace, ?_,
    fun c hc => mem_takeWhile_imp hc, fun c hc => mem_rtakeWhile_imp hc⟩
  rw [trim, append_assoc, rdropWhile_append_rtakeWhile, takeWhile_append_dropWhile]

lemma not_isCategoryChar_of_blank {b : Str} (h : ∀ c ∈ b, isWhitespace c = true) (c : Char)
    (hc : c ∈ b.head?) : isCategoryChar c = false := by
  rw [← Bool.not_eq_true]
  intro hcategory
  have hwhite := h c (mem_of_head? hc)
  rw [not_isWhitespace_of_isCategoryChar hcategory] at hwhite
  cases hwhite

variable {source name : Str}

lemma written_of_trim (h : Written words (trim source) name) : Written words source name := by
  obtain ⟨a, b, hsource, ha, hb⟩ := exists_trim source
  rw [hsource]
  exact h.surround (.of_blank ha) (not_isCategoryChar_of_blank hb)

/-- A text ends with its first part, or a comma follows. -/
lemma exists_firstPart_append (text : Str) :
    ∃ rest, text = firstPart text ++ rest ∧ ∀ c ∈ rest.head?, c = ',' := by
  refine ⟨text.dropWhile fun c => c ≠ ',', takeWhile_append_dropWhile.symm, fun c hc => ?_⟩
  have hhead := head?_dropWhile_not (fun c => c ≠ ',') text
  rw [Option.mem_def.mp hc] at hhead
  simpa using hhead

/-- **The second part of a line is written in it.** -/
lemma written_firstPart {ruleType} (h : trim ruleType = str "GEOSITE") (text : Str) :
    Written words (ruleType ++ ',' :: text) (trim (firstPart text)) := by
  obtain ⟨front, blank, htype, hfront, hblank⟩ := exists_trim ruleType
  obtain ⟨blank', back, hpart, hblank', hback⟩ := exists_trim (firstPart text)
  obtain ⟨rest, htext, hrest⟩ := exists_firstPart_append text
  refine ⟨front, blank, blank', back ++ rest, ?_, .of_blank hfront, hblank, hblank', ?_⟩
  · rw [h] at htype
    have htext' : text = blank' ++ trim (firstPart text) ++ (back ++ rest) := by
      rw [← append_assoc, ← hpart]
      exact htext
    calc ruleType ++ ',' :: text
        = (front ++ str "GEOSITE" ++ blank) ++
            ',' :: (blank' ++ trim (firstPart text) ++ (back ++ rest)) := by rw [← htype, ← htext']
      _ = _ := by simp only [append_assoc]
  · intro c hc
    cases back with
    | nil =>
      rw [hrest c hc]
      decide
    | cons d back => exact not_isCategoryChar_of_blank hback c hc

/-- A text in parentheses that stands in front of a comma and another text stands in the first. -/
lemma enclosed_of_append {g s rest : Str} (hrest : ')' ∉ rest)
    (h : '(' :: (g ++ [')']) <:+: s ++ rest) : '(' :: (g ++ [')']) <:+: s := by
  obtain ⟨a, b, hab⟩ := h
  have hab' : (a ++ '(' :: g ++ [')']) ++ b = s ++ rest := by
    rw [← hab]
    simp only [append_assoc, cons_append]
  rcases append_eq_append_iff.mp hab' with ⟨c, hs, -⟩ | ⟨c, hs, hc⟩
  · exact ⟨a, c, by rw [hs]; simp only [append_assoc, cons_append]⟩
  · rcases eq_nil_or_concat' c with rfl | ⟨c, d, rfl⟩
    · refine ⟨a, [], ?_⟩
      rw [append_nil] at hs
      rw [← hs]
      simp only [append_assoc, cons_append, append_nil]
    · -- the closing parenthesis would stand in the rest
      rw [← append_assoc] at hs
      have hd := congrArg getLast? hs
      rw [getLast?_concat, getLast?_concat] at hd
      refine absurd ?_ hrest
      rw [hc, Option.some.inj hd]
      exact mem_append_left _ (mem_append_right _ mem_cons_self)

/-- What is written in a group is written in the line. -/
lemma Written.of_enclosed {g line : Str} (h : Written words g name)
    (henclosed : '(' :: (g ++ [')']) <:+: line) : Written words line name := by
  obtain ⟨a, b, rfl⟩ := henclosed
  have hsurround := h.surround (.append_paren a) (b := ')' :: b) fun c hc => by
    obtain rfl : ')' = c := Option.some.inj hc
    decide
  simpa only [append_assoc, cons_append, nil_append] using hsurround

/-- The category is written there as that of a rule. -/
def CategoryWritten (words : WordChars) (source category : Str) : Prop :=
  ∃ second, Written words source (trim second) ∧
    GeositePayload (str "GEOSITE") (trim second) category

variable {category text : Str}

section

variable (hread : ReadAs source text)
include hread

/-- A category of a line without inner rules is written where the line comes from. -/
lemma ReadAs.exists_written (hlogic : lineLogic text = none) {ruleType rest : Str}
    (htext : text = ruleType ++ ',' :: rest) (hcomma : ',' ∉ ruleType)
    (h : GeositePayload (trim ruleType) (trim (firstPart rest)) category) :
    CategoryWritten words source category := by
  have hsplice : ∀ placeholder, text = spliceAdapter placeholder (trim source) →
      CategoryWritten words source category := by
    intro placeholder hplaceholder
    obtain ⟨ruleType', rest', hsource, h'⟩ :=
      geositePayload_of_spliceAdapter (hplaceholder.symm.trans htext) hcomma h
    refine ⟨_, written_of_trim ?_, h'.1 ▸ h'⟩
    rw [hsource]
    exact written_firstPart h'.1 rest'
  cases hread with
  | line =>
    refine ⟨_, ?_, h.1 ▸ h⟩
    rw [htext]
    exact written_firstPart h.1 rest
  | inner =>
    rcases spliceInnerAdapter_cases (trim source) with ⟨-, heq⟩ | ⟨⟨ty, hty⟩, heq⟩
    · exact hsplice _ heq
    · rw [heq, lineLogic_append hty] at hlogic
      cases hlogic
  | entry _ => exact hsplice _ rfl

/-- The groups of a logic rule stand where the line comes from. -/
lemma ReadAs.enclosed {ty : LogicType} (hlogic : lineLogic text = some ty) {g : Str}
    (h : '(' :: (g ++ [')']) <:+: text) : '(' :: (g ++ [')']) <:+: source := by
  cases hread with
  | line => exact h
  | inner =>
    rcases spliceInnerAdapter_cases (trim source) with ⟨hnone, heq⟩ | ⟨-, heq⟩
    · rw [heq, lineLogic_spliceAdapter, hnone] at hlogic
      cases hlogic
    · rw [heq] at h
      exact (enclosed_of_append (by decide) h).trans (isInfix_trim source)
  | entry hnone =>
    rw [splicePlaceholderAdapter, lineLogic_spliceAdapter, hnone] at hlogic
    cases hlogic

/-- **The categories of a rule are written in its line.**

**Proof sketch.** A line without inner rules has the category as its second part, and putting an
adapter in leaves that part. The inner rules of a logic rule are read from groups, which stand in
the line in parentheses; what is put behind the line has no parentheses. -/
theorem exists_written {env : RuleEnv} {ctx : ParserContext} {rule : Rule}
    (hrule : parseRule env ctx text = .ok rule) (hcategory : category ∈ rule.geosites) :
    CategoryWritten words source category := by
  induction hn : text.count '(' using Nat.strong_induction_on generalizing source text rule with
  | _ n ih =>
    cases hlogic : lineLogic text with
    | none =>
      rw [parseRule_of_lineLogic hlogic] at hrule
      obtain ⟨ruleType, rest, htext, hcomma, hpayload⟩ := geosites_parseLine hrule hcategory
      exact hread.exists_written hlogic htext hcomma hpayload
    | some ty =>
      rw [parseRule_eq] at hrule
      rcases parseRuleWith_cases env text with hplain | ⟨e, he⟩ | ⟨ty', groups, adapter, hg, heq⟩
      · rw [hplain] at hrule
        obtain ⟨ruleType, rest, htext, hcomma, hpayload⟩ := geosites_parseLine hrule hcategory
        rw [htext, lineLogic, splitOnce_append hcomma, Option.bind_some, logicType, hpayload.1]
          at hlogic
        exact absurd hlogic (by cases ty <;> decide)
      · rw [he] at hrule
        cases hrule
      · rw [heq] at hrule
        obtain ⟨rules, hrules, hbuild⟩ := bind_eq_ok_iff.mp hrule
        rw [geosites_buildLogicRule hbuild] at hcategory
        obtain ⟨inner, hinner, hmem⟩ := Rule.mem_geositesOf.mp hcategory
        obtain ⟨g, hgroup, hparse⟩ := exists_of_mem_mapM hrules hinner
        obtain ⟨second, hwritten, hpayload⟩ :=
          ih _ (hn ▸ (hg g hgroup).2) .inner hparse hmem rfl
        exact ⟨second, hwritten.of_enclosed (hread.enclosed hlogic (hg g hgroup).1), hpayload⟩

end

/-! ### The names of the categories -/

lemma asciiLower_eq_at (c : Char) : asciiLower c = '@' ↔ c = '@' := by
  rw [← Char.toNat_inj, ← Char.toNat_inj, toNat_asciiLower]
  show _ = 64 ↔ _ = 64
  split_ifs <;> omega

/-- The text in front of the first separator, and what follows. -/
lemma exists_append_of_splitOn {sep} {s part : Str} {parts} (h : s.splitOn sep = part :: parts) :
    ∃ rest, s = part ++ rest ∧ ∀ c ∈ rest.head?, c = sep := by
  rcases (cases_of_splitOn h).2 with ⟨-, rfl⟩ | ⟨rest, rfl, -⟩
  · exact ⟨[], by simp, nofun⟩
  · exact ⟨sep :: rest, rfl, fun c hc => (Option.some.inj hc).symm⟩

/-- **The name of the category is written in the line**, if it has no other characters. -/
lemma CategoryWritten.exists_name (h : CategoryWritten words source category)
    (hplain : ∀ c ∈ (splitCategoryAttrs category).1, isCategoryChar c = true) :
    ∃ name, Written words source name ∧ IsName name ∧
      toAsciiLowercase name = (splitCategoryAttrs category).1 := by
  obtain ⟨second, h, -, hcategory, hne⟩ := h
  obtain ⟨part, parts, hsplit⟩ :=
    exists_cons_of_ne_nil (splitOn_ne_nil '@' (trim second))
  have hbase : (splitCategoryAttrs category).1 = toAsciiLowercase (trim part) := by
    rw [splitCategoryAttrs, hcategory, trim_trim, trim_toAsciiLowercase, trim_trim,
      toAsciiLowercase, splitOn_map asciiLower_eq_at, hsplit]
    exact trim_toAsciiLowercase part
  rw [hsplit] at hne
  obtain ⟨rest, hrest, hhead⟩ := exists_append_of_splitOn hsplit
  obtain ⟨a, b, hpart, ha, hb⟩ := exists_trim part
  have hname : IsName (trim part) := by
    refine ⟨hne, fun c hc => ?_⟩
    rw [← isCategoryChar_asciiLower]
    apply hplain
    rw [hbase]
    exact mem_map_of_mem hc
  refine ⟨trim part, ?_, hname, hbase.symm⟩
  rw [hrest, hpart, append_assoc _ b] at h
  refine h.of_append ha fun c hc => ?_
  cases b with
  | nil =>
    rw [hhead c hc]
    decide
  | cons d b => exact not_isCategoryChar_of_blank hb c hc

/-! ### The rules with both databases -/

/-- **The category is served by the scan**: its name has only characters that the scan reads, and
attributes are asked for in a file of the type `dat` in which no name has an `@`. -/
def Served (data : List UInt8) (category : Str) : Prop :=
  (∀ c ∈ (splitCategoryAttrs category).1, isCategoryChar c = true) ∧
    ((splitCategoryAttrs category).2 ≠ [] →
      data.take 4 ≠ mrsMagic ∧ ∀ country, NamesCountry data country → '@' ∉ country)

/-- The piece stands in the line, where no match before it hides its names. -/
def StandsIn (words : WordChars) (source line : Str) : Prop :=
  ∃ a b, line = a ++ source ++ b ∧ Fresh words a ∧ ∀ c ∈ b.head?, isCategoryChar c = false

/-- A line that is trimmed stands in the line. -/
lemma standsIn_trim (line : Str) : StandsIn words (trim line) line := by
  obtain ⟨a, b, hline, ha, hb⟩ := exists_trim line
  exact ⟨a, b, hline, .of_blank ha, not_isCategoryChar_of_blank hb⟩

/-- All that the file has for the categories that a lookup needs is loaded, if the name is. -/
lemma Served.loadedWhole {data} (h : Served data category) {allowed}
    (hallowed : (splitCategoryAttrs category).1 ∈ allowed)
    (hlower : toAsciiLowercase (splitCategoryAttrs category).1 = (splitCategoryAttrs category).1)
    {key} (hkey : key ∈ neededKeys category) :
    LoadedWhole data (some allowed) (toAsciiLowercase key) := by
  obtain ⟨hplain, hattrs⟩ := h
  unfold neededKeys at hkey
  generalize splitCategoryAttrs category = parts at *
  obtain ⟨base, attrs⟩ := parts
  simp only at hplain hattrs hallowed hlower hkey
  have hat : '@' ∉ base := fun hmem => absurd (hplain '@' hmem) (by decide)
  by_cases hempty : attrs = []
  · rw [if_pos hempty, mem_singleton] at hkey
    rw [hkey, hlower]
    unfold LoadedWhole
    split_ifs with hmagic
    · exact contains_iff_mem.mpr hallowed
    · rintro c - (rfl | ⟨attr, hattr⟩)
      · exact contains_iff_mem.mpr hallowed
      · refine absurd ?_ hat
        rw [hattr]
        exact mem_append_right c mem_cons_self
  · rw [if_neg hempty] at hkey
    obtain ⟨attr, -, rfl⟩ := mem_map.mp hkey
    obtain ⟨hmagic, hnames⟩ := hattrs hempty
    have hkey' : toAsciiLowercase (base ++ '@' :: attr) = base ++ '@' :: toAsciiLowercase attr := by
      rw [toAsciiLowercase, map_append]
      exact congrArg (· ++ '@' :: toAsciiLowercase attr) hlower
    rw [hkey', LoadedWhole, if_neg hmagic]
    intro c hc hfills
    have hcountry := hnames c hc
    rcases hfills with heq | ⟨attr', heq⟩
    · refine absurd ?_ hcountry
      rw [← heq]
      exact mem_append_right base mem_cons_self
    · -- both are the text in front of the first `@`
      have hsplit := congrArg (splitOnce '@') heq
      rw [splitOnce_append hat, splitOnce_append hcountry, Option.some.injEq,
        Prod.mk.injEq] at hsplit
      rw [← hsplit.1]
      exact contains_iff_mem.mpr hallowed

section Agrees

variable {env : RuleEnv} {readers : MrsReaders} {config : GeoConfig} {ctx : ParserContext}
  {data : List UInt8} {db : GeositeDb}

/-- **A category that is served** has the same hosts. -/
lemma geoSiteMatches_loadGeosite (hdb : GeositeDb.fromBytes env readers data none = .ok db)
    (hone : data.take 4 ≠ mrsMagic → OneCountryEach data) {line name category}
    (hline : line ∈ collectGeoScanLines config) (hblank : isBlank line = false)
    (hwritten : Written words line name) (hname : IsName name)
    (hbase : toAsciiLowercase name = (splitCategoryAttrs category).1)
    (hserved : Served data category) (host : Str) :
    geoSiteMatches env.order category (loadGeosite words env readers config (some data)) host =
      geoSiteMatches env.order category (some db) host := by
  obtain ⟨hallowed, htrigger⟩ := hwritten.mem_allowedCategories hname hline hblank
  obtain ⟨db', hdb', hsame⟩ := fromBytes_allowed hdb hone (some (allowedCategories words config))
  have hload : loadGeosite words env readers config (some data) = some db' := by
    rw [loadGeosite, htrigger, Bool.true_or, Option.bind_some, hdb']
    rfl
  have hlookup : db'.lookup env.order category host = db.lookup env.order category host := by
    rw [GeositeDb.lookup_eq_all _ (lowerKeys_fromBytes hdb'),
      GeositeDb.lookup_eq_all _ (lowerKeys_fromBytes hdb), Bool.eq_iff_iff, all_eq_true,
      all_eq_true]
    refine forall₂_congr fun key hkey => ?_
    have hwhole := hserved.loadedWhole (hbase ▸ hallowed)
      (by rw [← hbase, toAsciiLowercase_toAsciiLowercase]) hkey
    rw [(hsame _ hwhole).lookupResolved]
  rw [hload, geoSiteMatches, geoSiteMatches, hlookup]

/-- **The scan finds what the rules ask for.** If the file can be loaded, and no entry of a file of
the type `dat` has two names, then for every rule that is parsed from a piece of a line that is
scanned, each category that is served has the same hosts as in the whole database, and when all of
them are, the rule is parsed and matches the same connections.

**Proof sketch.** The category is written behind `GEOSITE,` in the line. No match of the regular
expression before it reaches so far, since a parenthesis, a blank or the begin of the line stands
before it; so the scan captures its name, and the entries of that name are loaded. -/
theorem geosite_scan_agrees (hdb : GeositeDb.fromBytes env readers data none = .ok db)
    (hone : data.take 4 ≠ mrsMagic → OneCountryEach data) {line source text : Str}
    (hline : line ∈ collectGeoScanLines config) (hblank : isBlank line = false)
    (hstands : StandsIn words source line) (hread : ReadAs source text) {rule : Rule}
    (hrule : parseRule env { ctx with geosite := some db } text = .ok rule) :
    let scanned := loadGeosite words env readers config (some data)
    (∀ category ∈ rule.geosites, Served data category → ∀ host,
      geoSiteMatches env.order category scanned host =
        geoSiteMatches env.order category (some db) host) ∧
    ((∀ category ∈ rule.geosites, Served data category) → ∃ rule',
      parseRule env { ctx with geosite := scanned } text = .ok rule' ∧
        ∀ metadata, rule'.matchMetadata env.order metadata =
          rule.matchMetadata env.order metadata) := by
  intro scanned
  have hsame : ∀ category ∈ rule.geosites, Served data category → ∀ host,
      geoSiteMatches env.order category scanned host =
        geoSiteMatches env.order category (some db) host := by
    intro category hcategory hserved host
    obtain ⟨name, hwritten, hname, hbase⟩ :=
      (exists_written hread hrule hcategory).exists_name hserved.1
    obtain ⟨a, b, rfl, ha, hb⟩ := hstands
    exact geoSiteMatches_loadGeosite hdb hone hline hblank (hwritten.surround ha hb) hname
      hbase hserved host
  refine ⟨hsame, fun hserved => ⟨rule.withGeosite scanned, ?_, fun metadata => ?_⟩⟩
  · have hparse := parseRule_withGeosite env { ctx with geosite := some db } scanned text
    rw [hrule] at hparse
    exact hparse
  · have hself := parseRule_withGeosite env { ctx with geosite := some db } (some db) text
    rw [hrule] at hself
    have hmatch : (rule.withGeosite scanned).matchMetadata env.order metadata =
        (rule.withGeosite (some db)).matchMetadata env.order metadata :=
      Rule.matchMetadata_withGeosite env.order metadata rule
        fun category hcategory => hsame category hcategory (hserved category hcategory) _
    rw [hmatch, ← Except.ok.inj hself]

end Agrees

/-- A configuration with one rule. -/
def oneRule (line : Str) : GeoConfig := ⟨⟨[line], ∅, ∅⟩, ∅, []⟩

lemma eq_ok_getD {ε α : Type} {x : Except ε α} (h : x.toOption.isSome = true) (a : α) :
    x = .ok (x.toOption.getD a) := by
  cases x with
  | error e => cases h
  | ok b => rfl

/-- A category that a logic rule asks for in upper case is scanned for and loaded. -/
theorem geosite_scan_agrees_logic :
    let file := writeGeositeMrs id [(str "cn", [str "a.com"])]
    let line := str " AND,((GEOSITE, CN),(DOMAIN,a.com)),P"
    let scanned := loadGeosite .asciiOnly .plain storedReaders (oneRule line) (some file)
    ∃ db rule rule', GeositeDb.fromBytes .plain storedReaders file none = .ok db ∧
      parseRule .plain { geosite := some db } (trim line) = .ok rule ∧
      rule.geosites = [str "cn"] ∧
      parseRule .plain { geosite := scanned } (trim line) = .ok rule' ∧
      ∀ metadata, rule'.matchMetadata RuleEnv.plain.order metadata =
        rule.matchMetadata RuleEnv.plain.order metadata := by
  intro file line scanned
  have hdb := eq_ok_getD (x := GeositeDb.fromBytes .plain storedReaders file none)
    (by decide +kernel) ⟨∅, ∅, ∅⟩
  generalize hname : (GeositeDb.fromBytes .plain storedReaders file none).toOption.getD
    ⟨∅, ∅, ∅⟩ = db at hdb
  have hrule := eq_ok_getD (x := parseRule .plain { geosite := some db } (trim line))
    (by subst hname; decide +kernel) (.final [])
  generalize hname' : (parseRule .plain { geosite := some db } (trim line)).toOption.getD
    (.final []) = rule at hrule
  have hgeosites : rule.geosites = [str "cn"] := by
    subst hname' hname
    decide +kernel
  have hserved : ∀ category ∈ rule.geosites, Served file category := by
    intro category hcategory
    rw [hgeosites, mem_singleton] at hcategory
    subst hcategory
    exact ⟨all_eq_true.mp (by decide), fun h => absurd (by decide) h⟩
  obtain ⟨rule', hrule', hmatch⟩ := (@geosite_scan_agrees .asciiOnly .plain storedReaders
    (oneRule line) {} file db hdb (fun h => absurd rfl h) line _ _ (by decide +kernel)
    (by decide +kernel) (standsIn_trim line) .line rule hrule).2 hserved
  exact ⟨db, rule, rule', hdb, hrule, hgeosites, hrule', hmatch⟩

/-- What a rule matches with the whole database, and with the categories that the scan finds. -/
def matchesBoth (line host : Str) (categories : List (Str × List Str)) :
    Option Bool × Option Bool :=
  let file := writeGeositeMrs id categories
  let full := (GeositeDb.fromBytes .plain storedReaders file none).toOption
  let scanned := loadGeosite .asciiOnly .plain storedReaders (oneRule line) (some file)
  let run := fun db => (parseRule .plain { geosite := db } line).toOption.map fun rule =>
    rule.matchMetadata RuleEnv.plain.order { host := host }
  (run full, run scanned)

/-- The scan leaves out attributes, which are part of the name in a file of the type `mrs`, and what
follows a character that it does not read. -/
theorem geosite_scan_misses :
    matchesBoth (str "GEOSITE,cn@ads,P") (str "a.com") [(str "cn@ads", [str "a.com"])] =
        (some true, some false) ∧
      matchesBoth (str "GEOSITE,c.n,P") (str "a.com") [(str "c.n", [str "a.com"])] =
        (some true, some false) := by
  decide +kernel

end Meow.Config
