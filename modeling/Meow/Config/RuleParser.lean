import Meow.Rules.Parser

/-!
# The rules of a configuration

The lines of `rules:` are read one by one (`rule_parser.rs`). A line `RULE-SET,NAME,ADAPTER` becomes
a rule that holds the set of the provider of this name, a line `SUB-RULE,NAME` one that holds the
block of this name; the other lines are read by `parse_rule`.

The blocks of `sub-rules:` may refer to each other (`sub_rules_parser.rs`). They are built in an
order in which each comes after those that it refers to; a cycle is an error.

## Main definitions

* `parseOneRuleOrSubrule` — one line.
* `parseSubRules` — the blocks.
* `parseRulesFull` — the rules.
* `Rules.Rule.ruleSets` — the sets in a rule, with the names of their providers.

## Main results

* `setsOf_parseRulesFull` — the sets in the rules are those that the parser was given.
-/

namespace Meow.Config

open Rules

variable (env : RuleEnv)

/-! ### Lines -/

/-- `try_parse_rule_set`: nothing for a line of another type. -/
def tryParseRuleSet (line : Str) (providers : Str → Option RuleSet) : Option (Except Str Rule) :=
  match (splitN ',' 4 line).map trim with
  | [] => none
  | ruleType :: parts =>
    if ruleType ≠ str "RULE-SET" then none
    else
      match parts with
      | name :: adapter :: extra =>
        match providers name with
        | none => some (.error (str "unknown rule-provider '" ++ name ++ str "'"))
        | some set =>
          some (.ok (.ruleSet name set adapter
            (extra.head?.any fun e => strEqIgnoreAsciiCase e (str "no-resolve"))))
      | _ => some (.error (str "RULE-SET needs <name>,<adapter>"))

/-- Is the line empty or a comment, once it is trimmed? -/
def isBlank (line : Str) : Bool := trim line = [] || (trim line).head? == some '#'

def parseSubRuleReference (line : Str) : Option Str :=
  if isBlank line then none
  else
    match splitOnce ',' (trim line) with
    | none => none
    | some (ty, rest) =>
      if !strEqIgnoreAsciiCase (trim ty) (str "SUB-RULE") then none
      else if trim rest = [] then none
      else some (trim (((trim rest).splitOn ',').headD []))

def buildSubRuleRule (blockName : Str) (resolved : Str → Option (List Rule)) : Except Str Rule :=
  match resolved blockName with
  | none => .error (str "sub-rule '" ++ blockName ++ str "' not defined")
  | some block => .ok (.subRule blockName block)

def parseOneRuleOrSubrule (line : Str) (providers : Str → Option RuleSet) (ctx : ParserContext)
    (subRules : Str → Option (List Rule)) : Except Str Rule :=
  match tryParseRuleSet line providers with
  | some result => result
  | none =>
    match parseSubRuleReference line with
    | some blockName => buildSubRuleRule blockName subRules
    | none => parseRule env ctx line

/-- `parse_rules_full`: lines that are no rules are left out. -/
def parseRulesFull (rawRules : List Str) (providers : Str → Option RuleSet) (ctx : ParserContext)
    (subRules : Str → Option (List Rule)) : List Rule :=
  rawRules.filterMap fun line =>
    if isBlank line then none
    else (parseOneRuleOrSubrule env (trim line) providers ctx subRules).toOption

/-! ### Blocks -/

/-- `sub-rules:`: the lines of the blocks. -/
abbrev RawSubRules := AList fun _ : Str => List Str

/-- The blocks that a block refers to. -/
def blockReferences (raw : RawSubRules) (name : Str) (lines : List Str) : Except Str (List Str) :=
  (lines.filterMap parseSubRuleReference).mapM fun target =>
    if target ∈ raw then .ok target
    else .error (str "sub-rule block '" ++ name ++ str "' references undefined block '" ++ target ++
      str "'")

def buildReferenceGraph (raw : RawSubRules) : Except Str (List (Str × List Str)) :=
  raw.entries.mapM fun e => do .ok (e.1, ← blockReferences raw e.1 e.2)

/-- The states of a block in the search. -/
inductive Mark where
  | fresh
  | onStack
  | done
  deriving DecidableEq

/-- The states of the blocks, and the order so far. -/
structure Topo where
  state : Str → Option Mark
  order : List Str

/-- `dfs`, down to a depth. -/
def dfs (graph : List (Str × List Str)) : ℕ → List Str → Str → Topo → Except Str Topo
  | 0, _, _, _ => .error []
  | depth + 1, path, node, topo =>
    match topo.state node with
    | some .done => .ok topo
    | some .onStack =>
      .error (str "sub-rule cycle detected: " ++ joinStr (str " -> ") (path ++ [node]))
    | none => .error (str "sub-rule block '" ++ node ++ str "' not defined (internal error)")
    | some .fresh => do
      let topo ← ((graph.lookup node).getD []).foldlM
        (fun topo next => dfs graph depth (path ++ [node]) next topo)
        { topo with state := Function.update topo.state node (some .onStack) }
      .ok ⟨Function.update topo.state node (some .done), topo.order ++ [node]⟩

/-- `topo_order_with_cycle_check`: a path has every block at most once before a cycle is found. -/
def topoOrderWithCycleCheck (raw : RawSubRules) (graph : List (Str × List Str)) :
    Except Str (List Str) := do
  let roots := raw.keys.mergeSort fun a b => (compare (asBytes a) (asBytes b)).isLE
  let topo ← roots.foldlM (fun topo start => dfs graph (raw.keys.length + 1) [] start topo)
    ⟨fun name => if name ∈ raw then some .fresh else none, []⟩
  .ok topo.order

/-- The rules of a block, from the blocks before it. -/
def parseBlock (blockName : Str) (rawRules : List Str) (providers : Str → Option RuleSet)
    (ctx : ParserContext) (resolved : Str → Option (List Rule)) : Except Str (List Rule) :=
  (rawRules.filter fun line => !isBlank line).mapM fun line =>
    (parseOneRuleOrSubrule env (trim line) providers ctx resolved).mapError fun e =>
      str "sub-rule '" ++ blockName ++ str "': " ++ e

def parseSubRules (raw : RawSubRules) (providers : Str → Option RuleSet) (ctx : ParserContext) :
    Except Str (Str → Option (List Rule)) := do
  let references ← buildReferenceGraph raw
  let order ← topoOrderWithCycleCheck raw references
  order.foldlM (fun resolved blockName => do
    let rules ← parseBlock env blockName ((raw.lookup blockName).getD []) providers ctx resolved
    .ok (Function.update resolved blockName (some rules))) fun _ => none

end Meow.Config

/-! ### The sets in a rule -/

namespace Meow.Rules.Rule

mutual

/-- The rule sets in a rule, with the names of their providers. -/
def ruleSets : Rule → List (Str × RuleSet)
  | ruleSet name set _ _ => [(name, set)]
  | and rules _ _ | or rules _ _ | subRule _ rules => ruleSetsOf rules
  | not rule _ _ => rule.ruleSets
  | _ => []

/-- The rule sets in a list of rules. -/
def ruleSetsOf : List Rule → List (Str × RuleSet)
  | [] => []
  | rule :: rules => rule.ruleSets ++ ruleSetsOf rules

end

lemma mem_ruleSetsOf {rules entry} :
    entry ∈ ruleSetsOf rules ↔ ∃ rule ∈ rules, entry ∈ rule.ruleSets := by
  induction rules with
  | nil => simp [ruleSetsOf]
  | cons rule rules ih => simp [ruleSetsOf, ih]

end Meow.Rules.Rule

namespace Meow.Config

open Rules

variable (env : RuleEnv)

/-- No set stands in the rule. -/
def NoRuleSets (rule : Rule) : Prop := rule.ruleSets = []

variable (ctx : ParserContext)

lemma noRuleSets_parseGeodataRule (ruleType payload adapter : Str) (noResolve : Bool) :
    AllOk NoRuleSets (parseGeodataRule env ctx ruleType payload adapter noResolve) := by
  refine .ite ?_ (.ite ?_ (.ite (.ite .error (.ok rfl)) ?_))
  · rcases ctx.geoip with _ | index
    · exact .error
    · exact .ok rfl
  · rcases ctx.geoip with _ | index
    · exact .error
    · exact .ok rfl
  · rcases ctx.asn with _ | index
    · exact .error
    · exact .bind fun asn _ => .ite (.ok rfl) (.ok rfl)

lemma noRuleSets_parseLine (line : Str) : AllOk NoRuleSets (parseLine env ctx line) := by
  unfold parseLine
  rcases splitN ',' 4 line with _ | ⟨ruleType, _ | ⟨second, rest⟩⟩
  · exact .error
  · exact .error
  · refine .ite (.ok rfl) ?_
    rcases rest with _ | ⟨adapter, extra⟩
    · exact .error
    · refine .ite (noRuleSets_parseGeodataRule env ctx _ _ _ _) fun rule hrule => ?_
      have hplain := isPlain_parsePlainRule env _ _ _ _ rule hrule
      cases rule <;> first | rfl | cases hplain

lemma noRuleSets_buildLogicRule (ty : LogicType) {rules} (adapter : Str)
    (h : ∀ rule ∈ rules, NoRuleSets rule) : AllOk NoRuleSets (buildLogicRule ty rules adapter) := by
  have hrules : Rule.ruleSetsOf rules = [] := by
    rw [List.eq_nil_iff_forall_not_mem]
    intro entry hentry
    obtain ⟨rule, hrule, hmem⟩ := Rule.mem_ruleSetsOf.mp hentry
    rw [h rule hrule] at hmem
    exact List.not_mem_nil hmem
  cases ty with
  | and | or => exact .ok hrules
  | not =>
    rcases rules with _ | ⟨rule, _ | ⟨rule', rules⟩⟩
    · exact .error
    · exact .ok (h rule List.mem_cons_self)
    · exact .error

/-- `parse_rule` makes no rule with a set. -/
lemma noRuleSets_parseRule (line : Str) : AllOk NoRuleSets (parseRule env ctx line) :=
  parseRule_allOk env ctx (noRuleSets_parseLine env ctx)
    (fun ty _ adapter h => noRuleSets_buildLogicRule ty adapter h) line

section Sets

variable (providers : Str → Option RuleSet)

/-- The sets in the rule are those of the providers. -/
def SetsOf (rule : Rule) : Prop := ∀ entry ∈ rule.ruleSets, providers entry.1 = some entry.2

/-- The sets in the blocks are those of the providers. -/
def BlocksOf (blocks : Str → Option (List Rule)) : Prop :=
  ∀ name block, blocks name = some block → ∀ rule ∈ block, SetsOf providers rule

variable {providers}

lemma setsOf_parseOne {subRules} (hsub : BlocksOf providers subRules) (line : Str) :
    AllOk (SetsOf providers) (parseOneRuleOrSubrule env line providers ctx subRules) := by
  unfold parseOneRuleOrSubrule
  split
  next result hset =>
    -- a rule set rule holds the set of the provider it names
    unfold tryParseRuleSet at hset
    split at hset
    · simp at hset
    · split_ifs at hset
      split at hset
      · split at hset <;> cases hset
        · exact .error
        · next name _ _ _ set hname =>
          refine .ok fun entry hentry => ?_
          rw [List.mem_singleton.mp hentry]
          exact hname
      · cases hset
        exact .error
  next =>
    split
    · unfold buildSubRuleRule
      split
      · exact .error
      · next block hblock =>
        refine .ok fun entry hentry => ?_
        obtain ⟨rule, hrule, hmem⟩ := Rule.mem_ruleSetsOf.mp hentry
        exact hsub _ block hblock rule hrule entry hmem
    · intro rule hrule entry hentry
      rw [noRuleSets_parseRule env ctx line rule hrule] at hentry
      exact absurd hentry List.not_mem_nil

lemma setsOf_parseBlock {resolved} (h : BlocksOf providers resolved) (blockName : Str)
    (rawRules : List Str) :
    AllOk (fun rules => ∀ rule ∈ rules, SetsOf providers rule)
      (parseBlock env blockName rawRules providers ctx resolved) := by
  intro rules hrules rule hrule
  obtain ⟨line, _, hline⟩ := exists_of_mem_mapM hrules hrule
  rcases hparse : parseOneRuleOrSubrule env (trim line) providers ctx resolved with e | rule' <;>
    rw [hparse] at hline <;> cases hline
  exact setsOf_parseOne env ctx h _ rule hparse

variable {blocks : Str → Option (List Rule)} {raw : RawSubRules}

/-- Every block that is added keeps the sets to those of the providers. -/
lemma blocksOf_parseSubRules (h : parseSubRules env raw providers ctx = .ok blocks) :
    BlocksOf providers blocks := by
  obtain ⟨references, _, h⟩ := bind_eq_ok_iff.mp h
  obtain ⟨order, _, h⟩ := bind_eq_ok_iff.mp h
  refine foldlM_induction (motive := BlocksOf providers) ?_ ?_ h
  · intro blockName _ resolved resolved' hresolved hstep
    obtain ⟨rules, hrules, hstep⟩ := bind_eq_ok_iff.mp hstep
    rw [← Except.ok.inj hstep]
    intro name block hblock
    by_cases hname : name = blockName
    · rw [hname, Function.update_self] at hblock
      rw [← Option.some.inj hblock]
      exact setsOf_parseBlock env ctx hresolved blockName _ rules hrules
    · rw [Function.update_of_ne hname] at hblock
      exact hresolved name block hblock
  · exact nofun

/-- There need not be any blocks. -/
lemma parseSubRules_empty : parseSubRules env ∅ providers ctx = .ok fun _ => none := by
  have hgraph : buildReferenceGraph ∅ = .ok [] := rfl
  have horder : topoOrderWithCycleCheck ∅ [] = .ok [] := by
    unfold topoOrderWithCycleCheck
    rw [AList.keys_empty, List.mergeSort_nil]
    rfl
  rw [parseSubRules, hgraph, except_ok_bind, horder]
  rfl

/-- **The sets in the rules** are those that the parser was given. -/
theorem setsOf_parseRulesFull (h : parseSubRules env raw providers ctx = .ok blocks)
    (rawRules : List Str) :
    ∀ rule ∈ parseRulesFull env rawRules providers ctx blocks, SetsOf providers rule := by
  intro rule hrule
  obtain ⟨line, _, hline⟩ := List.mem_filterMap.mp hrule
  split_ifs at hline
  rcases hparse : parseOneRuleOrSubrule env (trim line) providers ctx blocks with e | rule' <;>
    rw [hparse] at hline <;> cases hline
  exact setsOf_parseOne env ctx (blocksOf_parseSubRules env ctx h) _ rule hparse

end Sets

end Meow.Config
