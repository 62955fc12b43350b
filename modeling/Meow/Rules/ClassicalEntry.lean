import Meow.Rules.LogicText
import Meow.Rules.RuleSet

/-!
# Entries of classical rule sets

The entries of a classical rule set are rules without an adapter. `ClassicalRuleSet::from_entries`
puts a placeholder where the adapter of a line stands and gives the line to `parse_rule`. This file
compares the rule that an entry gets that way with the rule of the same line in the list of rules.

## Main definitions

* `Entry` — an entry, with its text and the line it is with an adapter.

## Main results

* `sameMatch_splicePlaceholder`, `sameMatch_lineText` — the rule of an entry
  and the rule of a line are said by the first two parts.
* `parseRule_splicePlaceholder_logic` — an entry of a logic rule is no rule.
* `classicalRule_eq_inline_iff` — which entries match what their lines match.
-/

namespace Meow.Rules

open List

/-- An entry of a classical rule set: `TYPE,PAYLOAD[,extra]`, or a logic rule, whose groups are in
parentheses that close where the text ends. -/
inductive Entry where
  | plain (ruleType payload : Str) (extra : Option Str) (hcomma : ',' ∉ ruleType)
    (hlogic : logicType ruleType = none)
  | logic (ty : LogicType) (ruleType blank groups tail : Str) (hcomma : ',' ∉ ruleType)
    (hlogic : logicType ruleType = some ty) (hblank : ∀ c ∈ blank, isWhitespace c = true)
    (hgroups : Balanced groups) (htail : ∀ c ∈ tail, isWhitespace c = true)

namespace Entry

/-- The entry as it is written. -/
def text : Entry → Str
  | plain ruleType payload extra _ _ => entryText ruleType payload extra
  | logic _ ruleType blank groups tail _ _ _ _ _ =>
    ruleType ++ ',' :: (blank ++ '(' :: (groups ++ ')' :: tail))

/-- The entry as a line of the list of rules: an adapter stands behind the payload, that of a logic
rule at the end. -/
def inline (adapter : Str) : Entry → Str
  | plain ruleType payload extra _ _ => lineText ruleType payload adapter extra
  | logic _ ruleType blank groups tail _ _ _ _ _ =>
    ruleType ++ ',' :: (blank ++ '(' :: (groups ++ ')' :: (tail ++ ',' :: adapter)))

/-- The entry is a logic rule. -/
def isLogic : Entry → Bool
  | plain .. => false
  | logic .. => true

end Entry

/-! ### Entries of one rule -/

section Plain

variable (env : RuleEnv) (ctx : ParserContext)

/-- White space behind a text is not in its first part, but for what is trimmed. -/
lemma trim_firstPart_trimEnd (s : Str) :
    trim (firstPart (s.rdropWhile isWhitespace)) = trim (firstPart s) := by
  by_cases hmem : ',' ∈ s
  · obtain ⟨part, rest, rfl, -⟩ := eq_append_cons_of_mem hmem
    rw [trimEnd_append_cons (by decide), firstPart_append_comma, firstPart_append_comma]
  · have hcomma : ',' ∉ s.rdropWhile isWhitespace :=
      fun h => hmem ((List.rdropWhile_prefix isWhitespace s).mem h)
    rw [firstPart_of_not_mem hmem, firstPart_of_not_mem hcomma, trim_trimEnd]

lemma logicType_congr {ruleType ruleType'} (h : trim ruleType' = trim ruleType) :
    logicType ruleType' = logicType ruleType := by
  unfold logicType
  rw [h]

variable {ruleType : Str} (hcomma : ',' ∉ ruleType)
include hcomma

/-- **The rule of an entry** is said by its first two parts. -/
lemma sameMatch_splicePlaceholder (hlogic : logicType ruleType = none) (text : Str) :
    SameMatch env (parseRule env ctx (splicePlaceholderAdapter (trim (ruleType ++ ',' :: text))))
      (buildLeaf env ctx (trim ruleType) (trim (firstPart text)) [] false) := by
  have hcomma' : ',' ∉ trimStart ruleType := by
    intro h
    exact hcomma ((trimStart_suffix ruleType).mem h)
  obtain ⟨rest, hrest⟩ := spliceAdapter_append hcomma' ruleSetPlaceholder
    (text.rdropWhile isWhitespace)
  rw [trim_trimStart, trim_firstPart_trimEnd] at hrest
  have hsame := sameMatch_line env ctx (not_mem_trim hcomma)
    (not_mem_trim (comma_not_mem_firstPart text))
    ((logicType_congr (trim_trim ruleType)).trans hlogic) (ruleSetPlaceholder ++ rest)
  rw [trim_trim, trim_trim] at hsame
  rw [splicePlaceholderAdapter, trim_append_cons (by decide), hrest]
  exact hsame

/-- **The rule of a line** is said by its first two parts. -/
lemma sameMatch_lineText (hlogic : logicType ruleType = none) (payload adapter : Str)
    (extra : Option Str) :
    SameMatch env (parseRule env ctx (lineText ruleType payload adapter extra))
      (buildLeaf env ctx (trim ruleType) (trim (firstPart payload)) [] false) := by
  obtain ⟨rest, hrest⟩ := exists_append_firstPart payload (adapter ++ extraText extra)
  rw [lineText, hrest]
  exact sameMatch_line env ctx hcomma (comma_not_mem_firstPart payload) hlogic rest

end Plain

/-! ### Entries of a logic rule -/

section Logic

variable {env : RuleEnv} {ctx : ParserContext}

/-- The characters that `closeParen` looks at. -/
def isParen (c : Char) : Bool := c = '(' ∨ c = ')'

lemma depthAfter_filter (depth : ℕ) (s : Str) :
    depthAfter depth (s.filter isParen) = depthAfter depth s := by
  induction s generalizing depth with
  | nil => rfl
  | cons c s ih =>
    by_cases hparen : isParen c = true
    · rw [filter_cons_of_pos hparen]
      simp only [depthAfter, ih]
    · obtain ⟨hopen, hclose⟩ : ¬ c = '(' ∧ ¬ c = ')' := by simpa [isParen] using hparen
      rw [filter_cons_of_neg hparen, depthAfter, if_neg hopen, if_neg hclose, ih]

lemma balanced_congr {s t : Str} (h : s.filter isParen = t.filter isParen) (hs : Balanced s) :
    Balanced t := by
  unfold Balanced at *
  rw [← depthAfter_filter] at *
  rw [← h]
  exact hs

lemma filter_isParen_blank {s : Str} (h : ∀ c ∈ s, isWhitespace c = true) :
    s.filter isParen = [] := by
  rw [filter_eq_nil_iff]
  intro c hc hparen
  have hwhite := h c hc
  rcases of_decide_eq_true hparen with rfl | rfl <;> cases hwhite

lemma filter_isParen_trimStart (s : Str) : (trimStart s).filter isParen = s.filter isParen := by
  conv_rhs => rw [← takeWhile_append_dropWhile (p := isWhitespace) (l := s)]
  rw [filter_append, filter_isParen_blank fun c hc => mem_takeWhile_imp hc, trimStart, nil_append]

lemma filter_isParen_trimEnd (s : Str) :
    (s.rdropWhile isWhitespace).filter isParen = s.filter isParen := by
  conv_rhs => rw [← rdropWhile_append_rtakeWhile (p := isWhitespace) (l := s)]
  rw [filter_append, filter_isParen_blank fun c hc => mem_rtakeWhile_imp hc, append_nil]

/-- The placeholder has no parentheses. -/
lemma balanced_splice {front back : Str} (h : Balanced (front ++ ',' :: back)) :
    Balanced (front.rdropWhile isWhitespace ++ ',' ::
      (ruleSetPlaceholder ++ ',' :: trimStart back)) := by
  refine balanced_congr ?_ h
  have hplaceholder : ruleSetPlaceholder.filter isParen = [] := by decide
  have hcomma : isParen ',' = false := by decide
  simp [filter_isParen_trimStart, filter_isParen_trimEnd, hplaceholder, hcomma]

/-- A line of a logic rule goes to `parse_logic_rule`. -/
lemma parseRule_logic {ty : LogicType} {ruleType} (hcomma : ',' ∉ ruleType)
    (hlogic : logicType ruleType = some ty) (rest : Str) :
    parseRule env ctx (ruleType ++ ',' :: rest) = parseLogicRule (parseRule env ctx) ty rest := by
  rw [parseRule_eq, parseRuleWith, splitOnce_append hcomma]
  simp only [hlogic]

/-- The rules of groups without a comma. -/
lemma mapM_parseRule_of_not_mem {groups : List Str} (hne : groups ≠ [])
    (h : ∀ g ∈ groups, ',' ∉ g) :
    ∃ e, (groups.mapM fun g => parseRule env ctx (spliceInnerAdapter (trim g))) = .error e := by
  obtain ⟨g, gs, rfl⟩ := exists_cons_of_ne_nil hne
  have hg : ',' ∉ trim g := not_mem_trim (h g mem_cons_self)
  have hsplice : spliceInnerAdapter (trim g) = trim g := by
    rw [spliceInnerAdapter, splitOnce_of_not_mem hg]
    show spliceAdapter innerPlaceholder (trim g) = trim g
    rw [spliceAdapter, splitN_of_not_mem hg]
  obtain ⟨e, he⟩ : ∃ e, parseRule env ctx (trim g) = .error e := by
    rw [parseRule_eq, parseRuleWith, splitOnce_of_not_mem hg]
    refine ⟨str "invalid rule: " ++ trim g, ?_⟩
    show parseLine env ctx (trim g) = _
    rw [parseLine, splitN_of_not_mem hg]
  refine ⟨e, ?_⟩
  rw [mapM_cons, hsplice, he]
  rfl

section Groups

variable {ty : LogicType} {ruleType blank groups : Str} (hcomma : ',' ∉ ruleType)
  (hlogic : logicType ruleType = some ty) (hblank : ∀ c ∈ blank, isWhitespace c = true)
  (hgroups : Balanced groups)
include hblank

lemma trimStart_paren (body : Str) : trimStart (blank ++ '(' :: body) = '(' :: body := by
  rw [trimStart, dropWhile_append_of_pos hblank, dropWhile_cons_of_neg (by decide)]

include hcomma hlogic hgroups

variable {tail : Str}

/-- The groups of a logic rule have a comma. -/
lemma comma_mem_groups {rule}
    (h : parseRule env ctx (ruleType ++ ',' :: (blank ++ '(' :: (groups ++ ')' :: tail)))
      = .ok rule) :
    ',' ∈ groups := by
  by_contra hnot
  rw [parseRule_logic hcomma hlogic] at h
  unfold parseLogicRule at h
  rw [trimStart_paren hblank] at h
  simp only [closeParen_append hgroups] at h
  split at h
  next adapter _ =>
    split_ifs at h with hadapter
    cases hsplit : splitLogicGroups groups with
    | error e =>
      rw [hsplit] at h
      cases h
    | ok gs =>
      rw [hsplit] at h
      simp only [Except.mapError, except_ok_bind] at h
      split_ifs at h with hne
      have hgs : ∀ g ∈ gs, ',' ∉ g := by
        intro g hg hmem
        have hgroup := @enclosed_of_mem_splitGroups _ [] _ _ _ (fun h => absurd rfl h) hsplit g hg
        exact hnot ((infix_of_enclosed hgroup).mem hmem)
      obtain ⟨e, he⟩ : ∃ e, (gs.mapM fun g => parseRule env ctx (spliceInnerAdapter (trim g))) =
          .error e := mapM_parseRule_of_not_mem hne hgs
      rw [he] at h
      cases h
  next => cases h

omit hcomma hlogic in
/-- A logic rule has an adapter behind its groups. -/
lemma parseLogicRule_of_no_tail (parse : Str → Except Str Rule) :
    parseLogicRule parse ty (blank ++ '(' :: (groups ++ [')'])) =
      .error (ty.text ++ str " rule: expected ',ADAPTER' after payload") := by
  unfold parseLogicRule
  rw [trimStart_paren hblank]
  simp only [closeParen_append hgroups]
  rfl

omit hlogic hgroups in
/-- Where the placeholder is put into a logic rule: behind the first comma of its groups. -/
lemma splicePlaceholder_groups {front : Str} (hfront : ',' ∉ front) (back : Str)
    (htail : ∀ c ∈ tail, isWhitespace c = true) :
    splicePlaceholderAdapter
        (trim (ruleType ++ ',' :: (blank ++ '(' :: ((front ++ ',' :: back) ++ ')' :: tail)))) =
      trim ruleType ++ ',' :: ([] ++ '(' :: ((front.rdropWhile isWhitespace ++ ',' ::
        (ruleSetPlaceholder ++ ',' :: trimStart back)) ++ [')'])) := by
  have hend := trimEnd_append_cons (c := ')') (by decide) (blank ++ '(' :: (front ++ ',' :: back))
    tail
  rw [rdropWhile_eq_nil_iff.mpr htail] at hend
  have htext : trim (ruleType ++ ',' :: (blank ++ '(' :: ((front ++ ',' :: back) ++ ')' :: tail))) =
      trimStart ruleType ++ ',' :: ((blank ++ '(' :: front) ++ ',' :: (back ++ [')'])) := by
    rw [trim_append_cons (by decide)]
    simp only [append_assoc, cons_append] at hend ⊢
    rw [hend]
  have htype : ',' ∉ trimStart ruleType := by
    intro h
    exact hcomma ((trimStart_suffix ruleType).mem h)
  have hpart : ',' ∉ blank ++ '(' :: front := by
    intro h
    rcases mem_append.mp h with h | h
    · exact absurd (hblank _ h) (by decide)
    · rcases mem_cons.mp h with h | h
      · cases h
      · exact hfront h
  have hfirst : trim (blank ++ '(' :: front) = '(' :: front.rdropWhile isWhitespace := by
    rw [trim_append_cons (by decide), trimStart, dropWhile_eq_nil_iff.mpr hblank]
    rfl
  have hlast : trim (back ++ [')']) = trimStart back ++ [')'] := by
    rw [trim_append_cons (by decide)]
    rfl
  rw [htext, splicePlaceholderAdapter, spliceAdapter, splitN_append htype, splitN_append hpart]
  simp only [splitN, trim_trimStart, hfirst, hlast]
  simp

/-- **A logic rule without an adapter is no rule of a classical set**: nothing stands behind the
parenthesis that closes its groups. -/
lemma parseRule_splicePlaceholder_logic (htail : ∀ c ∈ tail, isWhitespace c = true)
    (hmem : ',' ∈ groups) :
    parseRule env ctx (splicePlaceholderAdapter
      (trim (ruleType ++ ',' :: (blank ++ '(' :: (groups ++ ')' :: tail))))) =
      .error (ty.text ++ str " rule: expected ',ADAPTER' after payload") := by
  obtain ⟨front, back, rfl, hfront⟩ := eq_append_cons_of_mem hmem
  rw [splicePlaceholder_groups hcomma hblank hfront back htail, parseRule_logic
    (not_mem_trim hcomma) ((logicType_congr (trim_trim ruleType)).trans hlogic)]
  apply parseLogicRule_of_no_tail
  · intro c hc
    cases hc
  · exact balanced_splice hgroups

end Groups

end Logic

/-! ### The two paths -/

section Inline

variable {env : RuleEnv} {ctx : ParserContext}

/-- An entry with a comma is not blank. -/
lemma classicalRule_append (ruleType text : Str) :
    classicalRule env ctx (ruleType ++ ',' :: text) =
      (parseRule env ctx
        (splicePlaceholderAdapter (trim (ruleType ++ ',' :: text)))).toOption := by
  have hne : trim (ruleType ++ ',' :: text) ≠ [] := by
    rw [trim_append_cons (by decide)]
    simp
  rw [classicalRule, if_neg hne]

/-- **Which entries of a classical set match what they match in the list of rules**: those that are
no logic rules. The entry may be any rule that is one in the list of rules with some adapter.

**Proof sketch.** What a line of one rule matches is said by its first two parts, and those are the
same on both paths. A logic rule has a comma in its groups, since each of its inner rules has one;
the placeholder is put behind the first of them, and the parentheses are closed at the end, where
`parse_logic_rule` expects the adapter. -/
theorem classicalRule_eq_inline_iff (entry : Entry) (adapter : Str) (rule : Rule)
    (h : parseRule env ctx (entry.inline adapter) = .ok rule) :
    (∃ rule', classicalRule env ctx entry.text = some rule' ∧ ∀ metadata,
      rule'.matchMetadata env.order metadata = rule.matchMetadata env.order metadata) ↔
        entry.isLogic = false := by
  cases entry with
  | plain ruleType payload extra hcomma hlogic =>
    refine ⟨fun _ => rfl, fun _ => ?_⟩
    have hinline := sameMatch_lineText env ctx hcomma hlogic payload adapter extra
    have hentry := sameMatch_splicePlaceholder env ctx hcomma hlogic (payload ++ extraText extra)
    rw [firstPart_append_extraText] at hentry
    rw [Entry.inline] at h
    rw [h] at hinline
    obtain ⟨leaf, hleaf, hmatch⟩ := hinline.of_ok
    rw [hleaf] at hentry
    obtain ⟨rule', hrule', hmatch'⟩ := hentry.symm.of_ok
    refine ⟨rule', ?_, ?_⟩
    · rw [Entry.text, entryText, classicalRule_append, hrule']
      rfl
    · intro metadata
      rw [hmatch', hmatch]
  | logic ty ruleType blank groups tail hcomma hlogic hblank hgroups htail =>
    refine ⟨?_, fun hfalse => Bool.noConfusion hfalse⟩
    rintro ⟨rule', hrule', -⟩
    have hmem := comma_mem_groups hcomma hlogic hblank hgroups h
    rw [Entry.text, classicalRule_append,
      parseRule_splicePlaceholder_logic hcomma hlogic hblank hgroups htail hmem] at hrule'
    cases hrule'

end Inline

/-- A line that is a rule. -/
lemma exists_rule_of_isSome {x : Except Str Rule} (h : x.toOption.isSome = true) :
    ∃ rule, x = .ok rule := by
  cases x with
  | error e => cases h
  | ok rule => exact ⟨rule, rfl⟩

/-- `IN-NAME,lan` is the same rule on both paths. -/
theorem classicalRule_eq_inline_iff_inName :
    let entry : Entry := .plain (str "IN-NAME") (str "lan") none (by decide) (by decide)
    entry.text = str "IN-NAME,lan" ∧
      ∃ rule, parseRule .plain {} (entry.inline (str "PROXY")) = .ok rule ∧
        ∃ rule', classicalRule .plain {} entry.text = some rule' ∧ ∀ metadata,
          rule'.matchMetadata RuleEnv.plain.order metadata =
            rule.matchMetadata RuleEnv.plain.order metadata := by
  intro entry
  have hsome : (parseRule .plain {} (entry.inline (str "PROXY"))).toOption.isSome = true := by
    decide +kernel
  obtain ⟨rule, hrule⟩ := exists_rule_of_isSome hsome
  exact ⟨rfl, rule, hrule, (classicalRule_eq_inline_iff entry (str "PROXY") rule hrule).mpr rfl⟩

/-- `AND,((IN-NAME,lan),(NETWORK,tcp))` is a rule in the list of rules with an adapter, and none in
a classical set. -/
theorem classicalRule_logic_lost :
    let entry : Entry := .logic .and (str "AND") [] (str "(IN-NAME,lan),(NETWORK,tcp)") []
      (by decide) (by decide) (by simp) (by decide) (by simp)
    entry.text = str "AND,((IN-NAME,lan),(NETWORK,tcp))" ∧
      entry.inline (str "PROXY") = str "AND,((IN-NAME,lan),(NETWORK,tcp)),PROXY" ∧
      (∃ rule, parseRule .plain {} (entry.inline (str "PROXY")) = .ok rule) ∧
      classicalRule .plain {} entry.text = none := by
  intro entry
  have hsome : (parseRule .plain {} (entry.inline (str "PROXY"))).toOption.isSome = true := by
    decide +kernel
  have hnone : (classicalRule .plain {} entry.text).isNone = true := by decide +kernel
  exact ⟨by decide, by decide, exists_rule_of_isSome hsome, Option.isNone_iff_eq_none.mp hnone⟩

end Meow.Rules
