import Meow.Rules.Parser

/-!
# Logic rules as text

A logic rule is a tree of `AND`, `OR` and `NOT` over other rules. In the configuration it is a line
with nested parentheses, which `parse_logic_rule` takes apart group by group, putting an adapter
into each inner rule so that it can be parsed like a line. This file renders trees as lines and
shows what parsing a line gives back: the meaning of the tree, but for what stands behind a comma in
a payload.

## Main definitions

* `depthAfter` — how many parentheses are open after a text.
* `Leaf`, `LogicTree` — trees, with what they match.
* `LogicTree.render`, `LogicTree.line` — trees as text.

## Main results

* `closeParen_append`, `splitLogicGroups_groups` — how a text with balanced
  parentheses is taken apart.
* `sameMatch_buildLeaf` — what a rule matches does not depend on its adapter.
* `parseRule_line_iff` — which trees are parsed back.
-/

namespace Meow.Rules

open List Rule

/-! ### Parentheses -/

/-- The number of open parentheses behind a text, from `depth` open ones; `none` when the last of
them is closed on the way. -/
def depthAfter : ℕ → Str → Option ℕ
  | depth, [] => some depth
  | depth, c :: s =>
    if c = '(' then depthAfter (depth + 1) s
    else if c = ')' then if depth ≤ 1 then none else depthAfter (depth - 1) s
    else depthAfter depth s

/-- The parentheses of the text are balanced. -/
def Balanced (s : Str) : Prop := depthAfter 1 s = some 1

instance (s : Str) : Decidable (Balanced s) := inferInstanceAs (Decidable (_ = _))

lemma depthAfter_append (depth : ℕ) (s t : Str) :
    depthAfter depth (s ++ t) = (depthAfter depth s).bind fun d => depthAfter d t := by
  induction s generalizing depth with
  | nil => rfl
  | cons c s ih =>
    rw [cons_append, depthAfter, depthAfter]
    split_ifs <;> first | exact ih _ | rfl

variable {s : Str}

/-- More parentheses around a text stay open. -/
lemma depthAfter_add {depth d} (h : depthAfter depth s = some d) (k : ℕ) :
    depthAfter (depth + k) s = some (d + k) := by
  induction s generalizing depth with
  | nil =>
    obtain rfl : depth = d := Option.some.inj h
    rfl
  | cons c s ih =>
    rw [depthAfter] at h ⊢
    split_ifs at h ⊢ with hopen hclose hlast hlast'
    · rw [(by omega : depth + k + 1 = depth + 1 + k)]
      exact ih h
    · omega
    · rw [(by omega : depth + k - 1 = depth - 1 + k)]
      exact ih h
    · exact ih h

lemma Balanced.depth (h : Balanced s) (k : ℕ) : depthAfter (k + 1) s = some (k + 1) := by
  have hadd := depthAfter_add h k
  rwa [Nat.add_comm 1 k] at hadd

lemma Balanced.append {t : Str} (hs : Balanced s) (ht : Balanced t) : Balanced (s ++ t) := by
  rw [Balanced, depthAfter_append, hs]
  exact ht

lemma Balanced.paren (h : Balanced s) : Balanced ('(' :: (s ++ [')'])) := by
  show depthAfter 2 (s ++ [')']) = some 1
  rw [depthAfter_append, h.depth 1]
  rfl

/-- The parenthesis that closes is the first at which none is left open. -/
lemma closeParen_append {depth : ℕ} (h : depthAfter depth s = some 1) (tail : Str) :
    closeParen depth (s ++ ')' :: tail) = some (s, tail) := by
  induction s generalizing depth with
  | nil =>
    obtain rfl : depth = 1 := Option.some.inj h
    rfl
  | cons c s ih =>
    rw [depthAfter] at h
    rw [cons_append, closeParen]
    split_ifs at h ⊢ <;> rw [ih h, Option.map_some]

/-! ### Groups -/

/-- A group is read up to the parenthesis that closes it. -/
lemma splitGroups_append {depth : ℕ} (h : depthAfter (depth + 1) s = some 1) (group tail : Str) :
    splitGroups (depth + 1) group (s ++ ')' :: tail) =
      (splitGroups 0 [] tail).map ((group.reverse ++ s) :: ·) := by
  induction s generalizing depth group with
  | nil =>
    obtain rfl : depth = 0 := by simpa [depthAfter] using h
    rw [nil_append, splitGroups, if_pos rfl, if_pos rfl, append_nil]
    rcases splitGroups 0 [] tail with e | groups <;> rfl
  | cons c s ih =>
    have hmore : group.reverse ++ c :: s = (c :: group).reverse ++ s := by
      rw [reverse_cons, append_assoc, singleton_append]
    rw [depthAfter] at h
    rw [cons_append, splitGroups, hmore]
    split_ifs at h ⊢ with hopen hclose hlast hzero
    · exact ih h _
    · omega
    · obtain ⟨d, rfl⟩ := Nat.exists_eq_succ_of_ne_zero hlast
      exact ih h _
    · exact ih h _

/-- The groups of a logic rule, with commas between them. -/
def groupsText : List Str → Str
  | [] => []
  | [g] => '(' :: (g ++ [')'])
  | g :: gs => '(' :: (g ++ ')' :: ',' :: groupsText gs)

section

variable {groups : List Str} (h : ∀ g ∈ groups, Balanced g)
include h

lemma balanced_groupsText : Balanced (groupsText groups) := by
  induction groups with
  | nil => rfl
  | cons g gs ih =>
    have hg := (h g mem_cons_self).paren
    cases gs with
    | nil => exact hg
    | cons g' gs =>
      have hrest := ih fun g hg => h g (mem_cons_of_mem _ hg)
      have hcomma : Balanced [','] := by decide
      have happend := (hg.append hcomma).append hrest
      simpa only [groupsText, cons_append, append_assoc, nil_append] using happend

/-- Groups with balanced parentheses are found. -/
lemma splitLogicGroups_groups : splitLogicGroups (groupsText groups) = .ok groups := by
  rw [splitLogicGroups]
  induction groups with
  | nil => rfl
  | cons g gs ih =>
    have hg : depthAfter (0 + 1) g = some 1 := h g mem_cons_self
    cases gs with
    | nil =>
      rw [groupsText, splitGroups, if_pos rfl, splitGroups_append hg]
      rfl
    | cons g' gs =>
      have hrest := ih fun g hg => h g (mem_cons_of_mem _ hg)
      rw [groupsText, splitGroups, if_neg (by decide), if_pos rfl, splitGroups_append hg,
        splitGroups, hrest]
      · rfl
      · intro hnil
        cases hnil

end

/-! ### What does not depend on the adapter -/

section SameMatch

variable (env : RuleEnv) (ctx : ParserContext)

/-- Two outcomes of parsing are the same error, or rules that match the same connections. -/
def SameMatch : Except Str Rule → Except Str Rule → Prop
  | .ok rule, .ok rule' =>
    ∀ metadata, rule.matchMetadata env.order metadata = rule'.matchMetadata env.order metadata
  | .error e, .error e' => e = e'
  | _, _ => False

/-- Whether the connection is matched, when there is a rule. -/
def verdict (metadata : Metadata) (x : Except Str Rule) : Option Bool :=
  x.toOption.map fun rule => rule.matchMetadata env.order metadata

variable {env}

namespace SameMatch

lemma refl (x : Except Str Rule) : SameMatch env x x := by
  cases x with
  | error e => rfl
  | ok rule => exact fun _ => rfl

variable {x y : Except Str Rule}

lemma symm (h : SameMatch env x y) : SameMatch env y x := by
  cases x <;> cases y <;> simp_all [SameMatch]

lemma ite {c : Prop} [Decidable c] {x' y' : Except Str Rule} (hx : SameMatch env x x')
    (hy : SameMatch env y y') : SameMatch env (if c then x else y) (if c then x' else y') := by
  split_ifs
  · exact hx
  · exact hy

lemma bind {α : Type} (x : Except Str α) {f f' : α → Except Str Rule}
    (h : ∀ a, SameMatch env (f a) (f' a)) : SameMatch env (x >>= f) (x >>= f') := by
  cases x with
  | error e => rfl
  | ok a => exact h a

lemma of_ok {rule : Rule} (h : SameMatch env (.ok rule) x) :
    ∃ rule', x = .ok rule' ∧ ∀ metadata,
      rule'.matchMetadata env.order metadata = rule.matchMetadata env.order metadata := by
  cases x with
  | error e => exact h.elim
  | ok rule' => exact ⟨rule', rfl, fun metadata => (h metadata).symm⟩

lemma verdict_eq (h : SameMatch env x y) (metadata : Metadata) :
    verdict env metadata x = verdict env metadata y := by
  cases x <;> cases y <;> simp_all [SameMatch, verdict, Except.toOption]

end SameMatch

lemma sameMatch_parsePlainRule (ruleType payload adapter adapter' : Str)
    (noResolve noResolve' : Bool) :
    SameMatch env (parsePlainRule env ruleType payload adapter noResolve)
      (parsePlainRule env ruleType payload adapter' noResolve') := by
  have hcidr : ∀ isSrc, SameMatch env (parseCidr env payload adapter isSrc noResolve)
      (parseCidr env payload adapter' isSrc noResolve') := by
    intro isSrc
    unfold parseCidr
    cases env.parseIpNet payload with
    | error e => rfl
    | ok cidr => exact fun _ => rfl
  repeat' apply SameMatch.ite
  all_goals first
    | exact hcidr _
    | exact SameMatch.refl _
    | exact fun _ => rfl
    | exact SameMatch.bind _ fun _ _ => rfl

lemma sameMatch_parseGeodataRule (ruleType payload adapter adapter' : Str)
    (noResolve noResolve' : Bool) :
    SameMatch env (parseGeodataRule env ctx ruleType payload adapter noResolve)
      (parseGeodataRule env ctx ruleType payload adapter' noResolve') := by
  refine .ite ?_ (.ite ?_ (.ite (.ite (.refl _) fun _ => rfl) ?_))
  case refine_1 | refine_2 =>
    cases ctx.geoip with
    | none => rfl
    | some index => exact fun _ => rfl
  · cases ctx.asn with
    | none => rfl
    | some index => exact .bind _ fun asn => .ite (fun _ => rfl) fun _ => rfl

variable (env)

/-- The rule of a type other than the logic ones, from its payload. `MATCH` has its adapter in the
place of the payload. -/
def buildLeaf (ruleType payload adapter : Str) (noResolve : Bool) : Except Str Rule :=
  if ruleType = str "MATCH" then .ok (.final payload)
  else if geodataTypes.contains ruleType then
    parseGeodataRule env ctx ruleType payload adapter noResolve
  else parsePlainRule env ruleType payload adapter noResolve

/-- **What a rule matches does not depend on its adapter** nor on the option `no-resolve`; nor does
whether it is a rule. -/
lemma sameMatch_buildLeaf (ruleType payload adapter adapter' : Str) (noResolve noResolve' : Bool) :
    SameMatch env (buildLeaf env ctx ruleType payload adapter noResolve)
      (buildLeaf env ctx ruleType payload adapter' noResolve') :=
  .ite (.refl _) (.ite (sameMatch_parseGeodataRule ctx ruleType payload _ _ _ _)
    (sameMatch_parsePlainRule ruleType payload _ _ _ _))

end SameMatch

/-! ### Lines of one rule -/

/-- A part that may stand at the end. -/
def extraText : Option Str → Str
  | none => []
  | some extra => ',' :: extra

/-- `TYPE,PAYLOAD[,extra]`: a rule without an adapter. -/
def entryText (ruleType payload : Str) (extra : Option Str) : Str :=
  ruleType ++ ',' :: (payload ++ extraText extra)

/-- `TYPE,PAYLOAD,ADAPTER[,extra]`: a rule with one. -/
def lineText (ruleType payload adapter : Str) (extra : Option Str) : Str :=
  ruleType ++ ',' :: (payload ++ ',' :: (adapter ++ extraText extra))

/-- The text in front of the first comma. -/
def firstPart (s : Str) : Str := s.takeWhile fun c => c ≠ ','

lemma comma_not_mem_firstPart (s : Str) : ',' ∉ firstPart s :=
  fun h => absurd (mem_takeWhile_imp h) (by decide)

lemma firstPart_of_not_mem (h : ',' ∉ s) : firstPart s = s :=
  takeWhile_eq_self_iff.mpr fun _ hc => decide_eq_true fun heq => h (heq ▸ hc)

lemma firstPart_append_comma (s t : Str) : firstPart (s ++ ',' :: t) = firstPart s := by
  rw [firstPart, takeWhile_append]
  split_ifs with h
  · rw [takeWhile_cons_of_neg (by decide), append_nil]
    exact ((List.takeWhile_prefix _).eq_of_length h).symm
  · rfl

lemma firstPart_append_extraText (s : Str) (extra : Option Str) :
    firstPart (s ++ extraText extra) = firstPart s := by
  cases extra with
  | none => rw [extraText, append_nil]
  | some extra => rw [extraText, firstPart_append_comma]

/-- A text with a comma goes on behind its first part. -/
lemma exists_append_firstPart (s t : Str) : ∃ rest, s ++ ',' :: t = firstPart s ++ ',' :: rest := by
  by_cases hmem : ',' ∈ s
  · obtain ⟨part, rest, rfl, hcomma⟩ := eq_append_cons_of_mem hmem
    exact ⟨rest ++ ',' :: t, by simp [firstPart_append_comma, firstPart_of_not_mem hcomma]⟩
  · exact ⟨t, by rw [firstPart_of_not_mem hmem]⟩

section Line

variable {ruleType payload : Str}

/-- An adapter is put behind the first part of the payload. -/
lemma spliceAdapter_append (hruleType : ',' ∉ ruleType) (placeholder text : Str) :
    ∃ rest, spliceAdapter placeholder (ruleType ++ ',' :: text) =
      trim ruleType ++ ',' :: (trim (firstPart text) ++ ',' :: (placeholder ++ rest)) := by
  by_cases hmem : ',' ∈ text
  · obtain ⟨payload, extra, rfl, hcomma⟩ := eq_append_cons_of_mem hmem
    refine ⟨',' :: trim extra, ?_⟩
    rw [spliceAdapter, splitN_append hruleType, splitN_append hcomma, firstPart_append_comma,
      firstPart_of_not_mem hcomma]
    simp [splitN]
  · refine ⟨[], ?_⟩
    rw [spliceAdapter, splitN_append hruleType, splitN_of_not_mem hmem, firstPart_of_not_mem hmem]
    simp

variable (env : RuleEnv) (ctx : ParserContext)

/-- **What a line matches is said by its first two parts.** -/
lemma sameMatch_line (hruleType : ',' ∉ ruleType) (hpayload : ',' ∉ payload)
    (hlogic : logicType ruleType = none) (rest : Str) :
    SameMatch env (parseRule env ctx (ruleType ++ ',' :: (payload ++ ',' :: rest)))
      (buildLeaf env ctx (trim ruleType) (trim payload) [] false) := by
  have hline : parseRule env ctx (ruleType ++ ',' :: (payload ++ ',' :: rest)) =
      parseLine env ctx (ruleType ++ ',' :: (payload ++ ',' :: rest)) := by
    rw [parseRule_eq, parseRuleWith, splitOnce_append hruleType]
    simp only [hlogic]
  obtain ⟨adapter, extra, hparts⟩ := exists_cons_of_ne_nil (splitN_ne_nil ',' 1 rest)
  rw [hline, parseLine, splitN_append hruleType, splitN_append hpayload, hparts]
  exact sameMatch_buildLeaf env ctx (trim ruleType) (trim payload) (trim adapter) [] _ false

end Line

/-! ### Trees -/

/-- The rule types of `parse_rule` other than the logic ones. -/
def ruleTypes : List Str :=
  [str "MATCH", str "DOMAIN", str "DOMAIN-SUFFIX", str "DOMAIN-KEYWORD", str "DOMAIN-REGEX",
    str "IP-CIDR", str "IP-CIDR6", str "SRC-IP-CIDR", str "SRC-PORT", str "DST-PORT",
    str "NETWORK", str "PROCESS-NAME", str "GEOIP", str "SRC-GEOIP", str "GEOSITE",
    str "IN-PORT", str "IN-NAME", str "IN-TYPE", str "IN-USER", str "DSCP", str "UID",
    str "PROCESS-PATH", str "DOMAIN-WILDCARD", str "IP-SUFFIX", str "SRC-IP-SUFFIX",
    str "IP-ASN", str "SRC-IP-ASN"]

section Tree

variable (env : RuleEnv) (ctx : ParserContext)

/-- A rule that is no logic rule, with the payload that it is built from. -/
structure Leaf where
  ruleType : Str
  payload : Str
  noResolve : Bool
  rule : Rule
  known : ruleType ∈ ruleTypes
  trimmed : trim payload = payload
  balanced : Balanced payload
  built : buildLeaf env ctx ruleType payload [] noResolve = .ok rule

/-- The logic rules that have a list of inner rules. -/
inductive Connective where
  | and
  | or
  deriving DecidableEq

/-- A logic expression. -/
inductive LogicTree where
  | leaf (l : Leaf env ctx)
  | node (op : Connective) (first : LogicTree) (rest : List LogicTree)
  | not (t : LogicTree)

variable {env ctx}

/-- The type of a logic rule. -/
def Connective.logicType : Connective → LogicType
  | and => .and
  | or => .or

/-- One value more in front. -/
def consVerdict (value : Option Bool) (values : Option (List Bool)) : Option (List Bool) :=
  value.bind fun v => values.map (v :: ·)

/-- A connective of truth values. -/
def Connective.eval : Connective → List Bool → Bool
  | and, values => values.all id
  | or, values => values.any id

open Leaf

/-- The leaf as it is written. -/
def Leaf.text (l : Leaf env ctx) : Str :=
  entryText l.ruleType l.payload (if l.noResolve then some (str "no-resolve") else none)

/-- What is left of the payload when it is cut at its first comma. -/
def Leaf.cutPayload (l : Leaf env ctx) : Str := trim (firstPart l.payload)

/-- The text of a logic rule with these groups. -/
def logicText (ty : LogicType) (groups : List Str) : Str :=
  ty.text ++ ',' :: '(' :: (groupsText groups ++ [')'])

namespace LogicTree

mutual

/-- The connections that the tree denotes. -/
def «matches» (metadata : Metadata) : LogicTree env ctx → Bool
  | leaf l => l.rule.matchMetadata env.order metadata
  | node op first rest => op.eval (first.matches metadata :: matchesEach metadata rest)
  | not t => !t.matches metadata

/-- The same for each tree of a list. -/
def matchesEach (metadata : Metadata) : List (LogicTree env ctx) → List Bool
  | [] => []
  | t :: ts => t.matches metadata :: matchesEach metadata ts

end

mutual

/-- The tree in the syntax of the configuration, without an adapter. -/
def render : LogicTree env ctx → Str
  | leaf l => l.text
  | node op first rest => logicText op.logicType (first.render :: renderEach rest)
  | not t => logicText .not [t.render]

/-- The same for each tree of a list. -/
def renderEach : List (LogicTree env ctx) → List Str
  | [] => []
  | t :: ts => t.render :: renderEach ts

end

mutual

/-- The connections that the tree denotes with every payload cut at its first comma, unless some
leaf is no rule then. -/
def cutMatches (metadata : Metadata) : LogicTree env ctx → Option Bool
  | leaf l => verdict env metadata (buildLeaf env ctx l.ruleType l.cutPayload [] l.noResolve)
  | node op first rest =>
    (consVerdict (first.cutMatches metadata) (cutMatchesEach metadata rest)).map op.eval
  | not t => (t.cutMatches metadata).map (!·)

/-- The same for each tree of a list. -/
def cutMatchesEach (metadata : Metadata) : List (LogicTree env ctx) → Option (List Bool)
  | [] => some []
  | t :: ts => consVerdict (t.cutMatches metadata) (cutMatchesEach metadata ts)

end

/-- Nothing is lost when every payload is cut at its first comma: all leaves are still rules, and
the tree denotes the same connections. -/
def Survives (t : LogicTree env ctx) : Prop :=
  ∀ metadata, t.cutMatches metadata = some (t.matches metadata)

mutual

/-- No payload has a comma. -/
def NoCommas : LogicTree env ctx → Prop
  | leaf l => ',' ∉ l.payload
  | node _ first rest => first.NoCommas ∧ NoCommasEach rest
  | not t => t.NoCommas

/-- The same for each tree of a list. -/
def NoCommasEach : List (LogicTree env ctx) → Prop
  | [] => True
  | t :: ts => t.NoCommas ∧ NoCommasEach ts

end

/-- A logic rule as a line of the configuration. -/
def line (t : LogicTree env ctx) (adapter : Str) : Str := t.render ++ ',' :: adapter

end LogicTree

/-! ### The text of a tree -/

/-- What is known of the names of rule types. -/
lemma ruleType_facts {ruleType : Str} (h : ruleType ∈ ruleTypes) :
    ',' ∉ ruleType ∧ trim ruleType = ruleType ∧ logicType ruleType = none ∧ Balanced ruleType ∧
      ∃ c s, ruleType = c :: s ∧ isWhitespace c = false := by
  have hall : ∀ ty ∈ ruleTypes, ',' ∉ ty ∧ trim ty = ty ∧ logicType ty = none ∧ Balanced ty ∧
      ty.head?.map isWhitespace = some false := by decide +kernel
  obtain ⟨hcomma, htrim, hlogic, hbalanced, hhead⟩ := hall ruleType h
  refine ⟨hcomma, htrim, hlogic, hbalanced, ?_⟩
  cases ruleType with
  | nil => cases hhead
  | cons c s => exact ⟨c, s, rfl, Option.some.inj hhead⟩

variable (ty : LogicType) {groups : List Str}

lemma balanced_logicText (h : ∀ g ∈ groups, Balanced g) : Balanced (logicText ty groups) := by
  have htext : Balanced (ty.text ++ [',']) := by cases ty <;> decide
  have happend := htext.append (balanced_groupsText h).paren
  simpa only [logicText, append_assoc, singleton_append] using happend

variable (l : Leaf env ctx)

lemma Leaf.balanced_text : Balanced l.text := by
  obtain ⟨-, -, -, htype, -⟩ := ruleType_facts l.known
  have hcomma : Balanced [','] := by decide
  have hextra : Balanced (extraText (if l.noResolve then some (str "no-resolve") else none)) := by
    cases l.noResolve <;> decide
  have happend := (htype.append hcomma).append (l.balanced.append hextra)
  simpa only [text, entryText, append_assoc, singleton_append] using happend

/-- The text of a leaf is not trimmed. -/
lemma Leaf.trim_text : trim l.text = l.text := by
  obtain ⟨-, -, -, -, c, s, hc, hwhite⟩ := ruleType_facts l.known
  apply trim_eq_self
  · intro d hd
    rw [text, entryText, hc, cons_append] at hd
    rwa [← Option.some.inj hd]
  · intro d hd
    rw [text, entryText, getLast?_append] at hd
    cases hresolve : l.noResolve with
    | true =>
      have hlast : (',' :: (l.payload ++ extraText (some (str "no-resolve")))).getLast? =
          some 'e' := by
        rw [← cons_append, getLast?_append]
        rfl
      rw [hresolve, if_pos rfl, hlast] at hd
      obtain rfl : 'e' = d := Option.some.inj hd
      decide
    | false =>
      rw [hresolve, if_neg (by decide), extraText, append_nil] at hd
      rcases hpayload : l.payload.getLast? with _ | e
      · rw [getLast?_eq_none_iff] at hpayload
        rw [hpayload] at hd
        obtain rfl : ',' = d := Option.some.inj hd
        decide
      · rw [getLast?_cons, hpayload] at hd
        obtain rfl : e = d := Option.some.inj hd
        have hends := (not_isWhitespace_ends_trim l.payload).2
        rw [l.trimmed] at hends
        exact hends e hpayload

lemma trim_logicText (groups : List Str) : trim (logicText ty groups) = logicText ty groups := by
  apply trim_eq_self
  · intro c hc
    cases ty <;>
    · cases hc
      decide
  · intro c hc
    have hlast : (logicText ty groups).getLast? = some ')' := by
      rw [logicText, getLast?_append, ← cons_append, ← cons_append, getLast?_append]
      rfl
    rw [hlast] at hc
    cases hc
    decide

namespace LogicTree

mutual

lemma balanced_render : ∀ t : LogicTree env ctx, Balanced t.render
  | leaf l => by
    rw [render]
    exact l.balanced_text
  | node op first rest => by
    rw [render]
    exact balanced_logicText _
      (forall_mem_cons.mpr ⟨balanced_render first, balanced_renderEach rest⟩)
  | not t => by
    rw [render]
    exact balanced_logicText _ (forall_mem_singleton.mpr (balanced_render t))

lemma balanced_renderEach : ∀ ts : List (LogicTree env ctx), ∀ g ∈ renderEach ts, Balanced g
  | [] => by
    rw [renderEach]
    exact fun g hg => absurd hg not_mem_nil
  | t :: ts => by
    rw [renderEach]
    exact forall_mem_cons.mpr ⟨balanced_render t, balanced_renderEach ts⟩

end

/-- The text of a tree is not trimmed. -/
lemma trim_render (t : LogicTree env ctx) : trim t.render = t.render := by
  cases t with
  | leaf l => rw [render]; exact l.trim_text
  | node | not => rw [render]; exact trim_logicText _ _

end LogicTree

/-! ### Parsing the text of a tree -/

/-- The groups of a logic rule are parsed one by one. -/
lemma parseRule_logicText (hne : groups ≠ []) (hbalanced : ∀ g ∈ groups, Balanced g) {adapter : Str}
    (hadapter : trim adapter ≠ []) :
    parseRule env ctx (logicText ty groups ++ ',' :: adapter) =
      (groups.mapM fun g => parseRule env ctx (spliceInnerAdapter (trim g))) >>= fun rules =>
        buildLogicRule ty rules (trim adapter) := by
  have hcomma : ',' ∉ ty.text := by cases ty <;> decide
  have hlogic : logicType ty.text = some ty := by cases ty <;> decide
  have hline : logicText ty groups ++ ',' :: adapter =
      ty.text ++ ',' :: ('(' :: (groupsText groups ++ ')' :: ',' :: adapter)) := by
    simp only [logicText, append_assoc, cons_append, nil_append]
  have hclose : closeParen 1 (groupsText groups ++ ')' :: ',' :: adapter) =
      some (groupsText groups, ',' :: adapter) :=
    closeParen_append (balanced_groupsText hbalanced) _
  rw [parseRule_eq, hline, parseRuleWith, splitOnce_append hcomma]
  simp only [hlogic]
  show parseLogicRule (parseRule env ctx) ty ('(' :: _) = _
  unfold parseLogicRule
  have hstart : trimStart ('(' :: (groupsText groups ++ ')' :: ',' :: adapter)) =
      '(' :: (groupsText groups ++ ')' :: ',' :: adapter) := rfl
  have htail : trimStart (',' :: adapter) = ',' :: adapter := rfl
  rw [hstart]
  simp only [hclose, htail]
  rw [if_neg hadapter, splitLogicGroups_groups hbalanced]
  simp only [Except.mapError, except_ok_bind]
  rw [if_neg hne]

/-- An inner logic rule gets its adapter at the end. -/
lemma spliceInnerAdapter_logicText (groups : List Str) :
    spliceInnerAdapter (logicText ty groups) = logicText ty groups ++ ',' :: innerPlaceholder := by
  have hcomma : ',' ∉ ty.text := by cases ty <;> decide
  have hlogic : logicType ty.text = some ty := by cases ty <;> decide
  rw [spliceInnerAdapter, logicText, splitOnce_append hcomma, Option.bind_some, hlogic]

/-- An inner leaf is read with its payload cut at the first comma. -/
lemma Leaf.sameMatch_text :
    SameMatch env (parseRule env ctx (spliceInnerAdapter l.text))
      (buildLeaf env ctx l.ruleType l.cutPayload [] false) := by
  obtain ⟨hcomma, htrim, hlogic, -, -⟩ := ruleType_facts l.known
  have hsplice : spliceInnerAdapter l.text = spliceAdapter innerPlaceholder l.text := by
    rw [spliceInnerAdapter, text, entryText, splitOnce_append hcomma, Option.bind_some, hlogic]
  have hpayload : ',' ∉ l.cutPayload := not_mem_trim (comma_not_mem_firstPart _)
  obtain ⟨rest, hrest⟩ := spliceAdapter_append hcomma innerPlaceholder
    (l.payload ++ extraText (if l.noResolve then some (str "no-resolve") else none))
  rw [firstPart_append_extraText, htrim] at hrest
  have hsame := sameMatch_line env ctx hcomma hpayload hlogic (innerPlaceholder ++ rest)
  rw [htrim, cutPayload, trim_trim] at hsame
  rw [hsplice, text, entryText, hrest]
  exact hsame

variable (env ctx) in
/-- Whether the connection is matched by each rule, when all of them are rules. -/
def verdicts (metadata : Metadata) (groups : List Str) : Option (List Bool) :=
  (groups.mapM fun g => parseRule env ctx (spliceInnerAdapter (trim g))).toOption.map
    (List.map fun rule => rule.matchMetadata env.order metadata)

namespace LogicTree

variable (env ctx)

variable (metadata : Metadata)

lemma verdicts_cons (g : Str) (gs : List Str) :
    verdicts env ctx metadata (g :: gs) =
      consVerdict (verdict env metadata (parseRule env ctx (spliceInnerAdapter (trim g))))
        (verdicts env ctx metadata gs) := by
  rw [verdicts, mapM_cons]
  cases parseRule env ctx (spliceInnerAdapter (trim g)) with
  | error e => rfl
  | ok rule =>
    rw [verdicts]
    cases gs.mapM fun g => parseRule env ctx (spliceInnerAdapter (trim g)) with
    | error e => rfl
    | ok rules => rfl

variable {adapter : Str}

/-- The verdict of `AND` and `OR` on those of the groups. -/
lemma verdict_node (op : Connective) {groups} (hne : groups ≠ [])
    (hbalanced : ∀ g ∈ groups, Balanced g) (hadapter : trim adapter ≠ []) :
    verdict env metadata (parseRule env ctx (logicText op.logicType groups ++ ',' :: adapter)) =
      (verdicts env ctx metadata groups).map op.eval := by
  rw [parseRule_logicText _ hne hbalanced hadapter, verdicts]
  cases groups.mapM fun g => parseRule env ctx (spliceInnerAdapter (trim g)) with
  | error e => rfl
  | ok rules =>
    cases op with
    | and =>
      show some (matchMetadata env.order metadata (.and rules _ _)) = some (all _ _)
      rw [matchMetadata, allMatch_eq, all_map]
      rfl
    | or =>
      show some (matchMetadata env.order metadata (.or rules _ _)) = some (any _ _)
      rw [matchMetadata, anyMatches_eq, any_map]
      rfl

/-- The verdict of `NOT` on that of its group. -/
lemma verdict_not {group} (hbalanced : Balanced group) (hadapter : trim adapter ≠ []) :
    verdict env metadata (parseRule env ctx (logicText .not [group] ++ ',' :: adapter)) =
      (verdict env metadata (parseRule env ctx (spliceInnerAdapter (trim group)))).map (!·) := by
  rw [parseRule_logicText _ (cons_ne_nil _ _) (forall_mem_singleton.mpr hbalanced)
      hadapter, mapM_cons]
  cases parseRule env ctx (spliceInnerAdapter (trim group)) with
  | error e => rfl
  | ok rule =>
    show some (matchMetadata env.order metadata (.not rule _ _)) = some _
    rw [matchMetadata]

variable {env ctx}

mutual

/-- **What is read back of an inner tree**, by induction over the tree. -/
lemma verdict_render (metadata : Metadata) : ∀ t : LogicTree env ctx,
    verdict env metadata (parseRule env ctx (spliceInnerAdapter (trim t.render))) =
      t.cutMatches metadata
  | leaf l => by
    have hsame := sameMatch_buildLeaf env ctx l.ruleType l.cutPayload [] [] l.noResolve false
    rw [trim_render, render, cutMatches, l.sameMatch_text.verdict_eq, hsame.verdict_eq]
  | node op first rest => by
    have hbalanced := balanced_renderEach (first :: rest)
    rw [renderEach] at hbalanced
    rw [trim_render, render, spliceInnerAdapter_logicText, verdict_node env ctx metadata op
      (cons_ne_nil _ _) hbalanced (by decide), verdicts_cons, verdict_render metadata first,
      verdicts_renderEach metadata rest, cutMatches]
  | not t => by
    rw [trim_render, render, spliceInnerAdapter_logicText, verdict_not env ctx metadata
      (balanced_render t) (by decide), verdict_render metadata t, cutMatches]

lemma verdicts_renderEach (metadata : Metadata) : ∀ ts : List (LogicTree env ctx),
    verdicts env ctx metadata (renderEach ts) = cutMatchesEach metadata ts
  | [] => by rw [renderEach, cutMatchesEach]; rfl
  | t :: ts => by
    rw [renderEach, verdicts_cons, verdict_render metadata t, verdicts_renderEach metadata ts,
      cutMatchesEach]

end

/-- What is read back of a line. -/
lemma verdict_line {t : LogicTree env ctx} (ht : ∀ l, t ≠ leaf l) (hadapter : trim adapter ≠ []) :
    verdict env metadata (parseRule env ctx (t.line adapter)) = t.cutMatches metadata := by
  cases t with
  | leaf l => exact absurd rfl (ht l)
  | node op first rest =>
    have hbalanced := balanced_renderEach (first :: rest)
    rw [line, render, verdict_node env ctx metadata op (cons_ne_nil _ _) hbalanced hadapter,
      verdicts_cons, verdict_render metadata first, verdicts_renderEach metadata rest, cutMatches]
  | not t =>
    rw [line, render, verdict_not env ctx metadata (balanced_render t) hadapter,
      verdict_render metadata t, cutMatches]

mutual

/-- Where there are no commas nothing is cut. -/
lemma cutMatches_of_noCommas (metadata : Metadata) : ∀ t : LogicTree env ctx, t.NoCommas →
    t.cutMatches metadata = some (t.matches metadata)
  | leaf l, h => by
    rw [NoCommas] at h
    rw [cutMatches, cutPayload, firstPart_of_not_mem h, l.trimmed, l.built, LogicTree.matches]
    rfl
  | node op first rest, h => by
    rw [NoCommas] at h
    rw [cutMatches, cutMatches_of_noCommas metadata first h.1,
      cutMatchesEach_of_noCommas metadata rest h.2, LogicTree.matches]
    rfl
  | not t, h => by
    rw [NoCommas] at h
    rw [cutMatches, cutMatches_of_noCommas metadata t h, LogicTree.matches]
    rfl

lemma cutMatchesEach_of_noCommas (metadata : Metadata) : ∀ ts : List (LogicTree env ctx),
    NoCommasEach ts → cutMatchesEach metadata ts = some (matchesEach metadata ts)
  | [], _ => by rw [cutMatchesEach, matchesEach]
  | t :: ts, h => by
    rw [NoCommasEach] at h
    rw [cutMatchesEach, cutMatches_of_noCommas metadata t h.1,
      cutMatchesEach_of_noCommas metadata ts h.2, matchesEach]
    rfl

end

end LogicTree

open LogicTree

/-- **Which logic rules survive the configuration syntax.** The line of a logic rule is parsed back
to a rule that matches the connections the tree denotes exactly when nothing is lost by cutting
every payload at its first comma; so every tree without commas in its payloads survives.

**Proof sketch.** By induction over the tree. The parser takes the text between the outer
parentheses apart at the parentheses that close its groups, since the parentheses of every inner
text are balanced. The placeholder is spliced in behind the second part of a leaf, which ends at the
first comma of the payload, and what a rule matches does not depend on the adapter. -/
theorem parseRule_line_iff (t : LogicTree env ctx) (ht : ∀ l, t ≠ .leaf l) (adapter : Str)
    (hadapter : trim adapter ≠ []) :
    ((∃ rule, parseRule env ctx (t.line adapter) = .ok rule ∧
        ∀ metadata, rule.matchMetadata env.order metadata = t.matches metadata) ↔ t.Survives) ∧
      (t.NoCommas → t.Survives) := by
  refine ⟨⟨?_, ?_⟩, fun h metadata => cutMatches_of_noCommas metadata t h⟩
  · rintro ⟨rule, hparse, hmatch⟩ metadata
    rw [← verdict_line metadata ht hadapter, hparse, ← hmatch]
    rfl
  · intro h
    have hverdict := fun metadata => verdict_line metadata ht hadapter
    cases hparse : parseRule env ctx (t.line adapter) with
    | error e =>
      rw [hparse] at hverdict
      exact absurd ((hverdict {}).trans (h {})) (Option.some_ne_none _).symm
    | ok rule =>
      rw [hparse] at hverdict
      exact ⟨rule, rfl, fun metadata => Option.some.inj ((hverdict metadata).trans (h metadata))⟩

end Tree

/-- The rule for a list of destination ports. -/
def portLeaf (payload : Str) (ranges : List PortRange) (htrimmed : trim payload = payload)
    (hbalanced : Balanced payload)
    (hports : parsePortRanges portTexts payload = .ok ranges) : Leaf .plain {} where
  ruleType := str "DST-PORT"
  payload := payload
  noResolve := false
  rule := .port ranges payload [] false
  known := by decide
  trimmed := htrimmed
  balanced := hbalanced
  built := by
    show (do .ok (Rule.port (← parsePortRanges portTexts payload) payload [] false)) = _
    rw [hports]
    rfl

/-- `AND,((DST-PORT,80),(NOT,((DST-PORT,443)))),PROXY`. -/
theorem parseRule_line_iff_ports :
    let http := portLeaf (str "80") [.single 80] (by decide) (by decide) (by decide)
    let https := portLeaf (str "443") [.single 443] (by decide) (by decide) (by decide)
    let t : LogicTree .plain {} := .node .and (.leaf http) [.not (.leaf https)]
    t.line (str "PROXY") = str "AND,((DST-PORT,80),(NOT,((DST-PORT,443)))),PROXY" ∧
      ∃ rule, parseRule .plain {} (t.line (str "PROXY")) = .ok rule ∧
        ∀ metadata, rule.matchMetadata RuleEnv.plain.order metadata = t.matches metadata := by
  intro http https t
  have hcommas : t.NoCommas := by
    simp only [t, LogicTree.NoCommas, LogicTree.NoCommasEach]
    exact ⟨by decide, by decide, trivial⟩
  obtain ⟨hiff, hsurvives⟩ := parseRule_line_iff t nofun (str "PROXY") (by decide)
  exact ⟨rfl, hiff.mpr (hsurvives hcommas)⟩

/-- `DST-PORT` takes several ports with commas between them, but the line has commas between its
parts: of `AND,((DST-PORT,80,443)),PROXY` only the first port is left. -/
theorem parseRule_line_comma_lost :
    let ports := portLeaf (str "80,443") [.single 80, .single 443] (by decide) (by decide)
      (by decide)
    let t : LogicTree .plain {} := .node .and (.leaf ports) []
    t.line (str "PROXY") = str "AND,((DST-PORT,80,443)),PROXY" ∧
      ∃ rule, parseRule .plain {} (t.line (str "PROXY")) = .ok rule ∧
        t.matches { dstPort := 443 } = true ∧
        rule.matchMetadata RuleEnv.plain.order { dstPort := 443 } = false := by
  intro ports t
  have hverdict := LogicTree.verdict_line { dstPort := 443 } (t := t) nofun
    (show trim (str "PROXY") ≠ [] by decide)
  have hcut : t.cutMatches { dstPort := 443 } = some false := by decide
  cases hparse : parseRule .plain {} (t.line (str "PROXY")) with
  | error e =>
    rw [hparse] at hverdict
    cases hverdict
  | ok rule =>
    rw [hparse] at hverdict
    exact ⟨rfl, rule, rfl, by decide, Option.some.inj hverdict⟩

end Meow.Rules
