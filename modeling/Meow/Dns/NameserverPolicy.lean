import Meow.Dns.Hosts
import Meow.Lib.Maps
import Meow.Rules.Rule

/-!
# The nameserver policy

`nameserver-policy:` maps patterns to nameservers: names, wildcards, categories of the geosite
database and rule sets. A key may stand for several patterns. Names are kept in a map, in which the
last entry stays; wildcards in a trie, in which the first one stays, and the name behind a wildcard
in the map unless there is something for it; the other patterns in a list that is searched from the
front.

## Main definitions

* `buildNameserverPolicy` — the table.
* `NameserverPolicy.lookup` — the nameservers of a name.

## Main results

* `buildNameserverPolicy_eq` — the table is made of the patterns of the entries.
* `lookup_policyOf` — what a lookup finds, told from the patterns.
-/

namespace Meow.Dns

open Trie List

/-! ### The table -/

/-- Why a `nameserver-policy:` section is rejected. -/
inductive PolicyError where
  | ruleSetNotFound (name : Str)
  | ruleSetIsIpCidr (name : Str)
  | noValidNameservers (key : Str)
  deriving DecidableEq

/-- The text of the error. -/
def PolicyError.message : PolicyError → Str
  | ruleSetNotFound name => str "nameserver-policy: not found rule-set: " ++ name
  | ruleSetIsIpCidr name =>
    str "nameserver-policy: rule-set '" ++ name ++
      str "' behavior is IpCidr, expected domain or classical"
  | noValidNameservers key =>
    str "nameserver-policy entry '" ++ key ++
      str "' has no valid nameservers after skipping unsupported entries (Class A per ADR-0002 — "
      ++ str "DNS leakage risk for internal/corporate domains)"

inductive PolicyPattern where
  | exact (domain : Str)
  | wildcard (pattern : Str)
  | matcher (holds : Str → Bool)

/-- `NameserverPolicy`, with nameservers of any type. -/
structure NameserverPolicy (S : Type) where
  exact : AList fun _ : Str => S
  wildcard : DomainTrie S
  matchers : List ((Str → Bool) × S)

namespace NameserverPolicy

variable {S : Type} (lc : Lowercase) (order : HashOrder)

def new : NameserverPolicy S := ⟨∅, .new, []⟩

def insertExact (self : NameserverPolicy S) (domain : Str) (entry : S) : NameserverPolicy S :=
  { self with exact := self.exact.insert domain entry }

/-- `insert_wildcard`: the name behind a wildcard is entered unless there is something for it. -/
def insertWildcard (self : NameserverPolicy S) (pattern : Str) (entry : S) : NameserverPolicy S :=
  let exact := match stripWildcard pattern with
    | some bare => orInsert self.exact bare entry
    | none => self.exact
  { self with exact := exact, wildcard := (self.wildcard.insert lc pattern entry).2 }

def insertMatcher (self : NameserverPolicy S) (matcher : Str → Bool) (entry : S) :
    NameserverPolicy S := { self with matchers := self.matchers ++ [(matcher, entry)] }

def lookup (self : NameserverPolicy S) (domain : Str) : Option S :=
  (self.exact.lookup domain).or
    ((self.wildcard.search order domain).or
      ((self.matchers.find? fun entry => entry.1 domain).map Prod.snd))

/-- The branch of `build_nameserver_policy` that enters a pattern. -/
def insertPattern (self : NameserverPolicy S) (item : PolicyPattern × S) : NameserverPolicy S :=
  match item.1 with
  | .exact domain => self.insertExact domain item.2
  | .wildcard pattern => self.insertWildcard lc pattern item.2
  | .matcher holds => self.insertMatcher holds item.2

end NameserverPolicy

/-- The parts of a text between commas, without white space around them and without empty ones. -/
def commaParts (s : Str) : List Str := ((s.splitOn ',').map trim).filter fun part => part ≠ []

def expandPolicyKeys (key : Str) : List Str :=
  let key := trim key
  let lower := toAsciiLowercase key
  if (str "geosite:").isPrefixOf lower then
    (commaParts (key.drop 8)).map fun part => str "geosite:" ++ part
  else if (str "rule-set:").isPrefixOf lower then
    (commaParts (key.drop 9)).map fun part => str "rule-set:" ++ part
  else commaParts key

/-- What the patterns refer to, and how the nameservers of an entry are made. -/
structure PolicyEnv (V S : Type) where
  /-- `GeositeDB::lookup`, if there is a database. -/
  geosite : Option (Str → Str → Bool)
  /-- The behaviour of a rule set and the names that it matches. -/
  ruleProviders : Str → Option (Rules.RuleSetBehavior × (Str → Bool))
  /-- `build_policy_resolvers`. -/
  resolvers : Str → V → Except PolicyError S

section Build

variable {V S : Type} (lc : Lowercase) (env : PolicyEnv V S)

/-- The pattern of an expanded key, if it is not skipped. -/
def policyPattern (expandedKey : Str) : Except PolicyError (Option PolicyPattern) :=
  let keyLower := toAsciiLowercase expandedKey
  if (str "geosite:").isPrefixOf keyLower then
    let category := trim (keyLower.drop 8)
    if category = [] then .ok none
    else .ok (env.geosite.map fun lookup => .matcher (lookup category))
  else if (str "rule-set:").isPrefixOf keyLower then
    let name := trim (expandedKey.drop 9)
    if name = [] then .ok none
    else
      match env.ruleProviders name with
      | none => .error (.ruleSetNotFound name)
      | some (.ipCidr, _) => .error (.ruleSetIsIpCidr name)
      | some (_, holds) => .ok (some (.matcher holds))
  else if ':' ∈ keyLower then .ok none
  else if (str "+.").isPrefixOf keyLower then .ok (some (.wildcard keyLower))
  else if keyLower ≠ [] then .ok (some (.exact keyLower))
  else .ok none

/-- The patterns of an entry with its nameservers. -/
def policyItems (item : Str × V) : Except PolicyError (List (PolicyPattern × S)) := do
  let patterns ← (expandPolicyKeys item.1).mapM (policyPattern env)
  let patterns := patterns.reduceOption
  if patterns.isEmpty then return []
  let entry ← env.resolvers item.1 item.2
  return patterns.map fun pattern => (pattern, entry)

/-- `build_nameserver_policy`, over the entries in the order in which the map enumerates them. -/
def buildNameserverPolicy (map : List (Str × V)) : Except PolicyError (NameserverPolicy S) :=
  map.foldlM (fun policy item =>
    (policyItems env item).map fun items => items.foldl (·.insertPattern lc) policy) .new

end Build

/-! ### What the table is made of -/

section Policy

variable {V S : Type} {lc : Lowercase} {env : PolicyEnv V S}

/-- The table of some patterns. -/
def policyOf (lc : Lowercase) (items : List (PolicyPattern × S)) : NameserverPolicy S :=
  items.foldl (·.insertPattern lc) .new

/-- The patterns of an entry, if it is not rejected. -/
def itemsOf (env : PolicyEnv V S) (item : Str × V) : List (PolicyPattern × S) :=
  (policyItems env item).toOption.getD []

/-- The entry is not rejected. -/
def PolicyOk (env : PolicyEnv V S) (item : Str × V) : Prop :=
  ∃ items, policyItems env item = .ok items

variable {map : List (Str × V)}

/-- **The table is made of the patterns of the entries.** -/
theorem buildNameserverPolicy_eq (h : ∀ item ∈ map, PolicyOk env item) :
    buildNameserverPolicy lc env map = .ok (policyOf lc (map.flatMap (itemsOf env))) := by
  have hfold : ∀ policy : NameserverPolicy S, map.foldlM (fun policy item =>
      (policyItems env item).map fun items => items.foldl (·.insertPattern lc) policy) policy =
        .ok ((map.flatMap (itemsOf env)).foldl (·.insertPattern lc) policy) := by
    induction map with
    | nil => exact fun policy => rfl
    | cons item map ih =>
      intro policy
      obtain ⟨items, hitems⟩ := h item mem_cons_self
      have hitemsOf : itemsOf env item = items := by
        rw [itemsOf, hitems]
        rfl
      rw [foldlM_cons, hitems, flatMap_cons, foldl_append, hitemsOf]
      exact ih (fun item hitem => h item (mem_cons_of_mem _ hitem)) _
  exact hfold .new

/-- An entry that is rejected makes the whole section be rejected. -/
lemma buildNameserverPolicy_error (h : ∃ item ∈ map, ¬PolicyOk env item) :
    ∃ e, buildNameserverPolicy lc env map = .error e := by
  obtain ⟨item, hitem, hbad⟩ := h
  cases hbuild : buildNameserverPolicy lc env map with
  | error e => exact ⟨e, rfl⟩
  | ok policy =>
    refine absurd (foldlM_of_mem (motive := fun _ => PolicyOk env item) (fun _ _ _ _ hok _ => hok)
      hitem (fun s s' hinsert => ?_) hbuild) hbad
    cases hitems : policyItems env item with
    | error e =>
      rw [hitems] at hinsert
      cases hinsert
    | ok items => exact ⟨items, hitems⟩

/-- The nameservers of a pattern that is the name. -/
def exactAt (domain : Str) (item : PolicyPattern × S) : Option S :=
  match item.1 with
  | .exact d => if d = domain then some item.2 else none
  | _ => none

/-- The nameservers of a wildcard in front of the name. -/
def bareAt (domain : Str) (item : PolicyPattern × S) : Option S :=
  match item.1 with
  | .wildcard pattern => if stripWildcard pattern = some domain then some item.2 else none
  | _ => none

/-- What a pattern enters in the trie. -/
def wildcardOf (item : PolicyPattern × S) : Option (Str × S) :=
  match item.1 with
  | .wildcard pattern => some (pattern, item.2)
  | _ => none

/-- The nameservers of a matcher that holds of the name. -/
def matcherAt (domain : Str) (item : PolicyPattern × S) : Option S :=
  match item.1 with
  | .matcher holds => if holds domain then some item.2 else none
  | _ => none

/-- What the three parts of a table hold. -/
structure PolicyHolds (lc : Lowercase) (items : List (PolicyPattern × S))
    (policy : NameserverPolicy S) : Prop where
  exact : ∀ domain, policy.exact.lookup domain =
    (items.reverse.findSome? (exactAt domain)).or (items.findSome? (bareAt domain))
  wildcard : policy.wildcard = build lc (items.filterMap wildcardOf)
  matchers : ∀ domain, (policy.matchers.find? fun entry => entry.1 domain).map Prod.snd =
    items.findSome? (matcherAt domain)

/-- One pattern. -/
lemma PolicyHolds.insertPattern {items} {policy : NameserverPolicy S}
    (h : PolicyHolds lc items policy) (item : PolicyPattern × S) :
    PolicyHolds lc (items ++ [item]) (policy.insertPattern lc item) := by
  obtain ⟨pattern, entry⟩ := item
  cases pattern with
  | exact d =>
    refine ⟨fun domain => ?_, ?_, fun domain => ?_⟩
    · show (policy.exact.insert d entry).lookup domain = _
      by_cases hd : d = domain
      · subst hd
        simp [exactAt, AList.lookup_insert]
      · rw [AList.lookup_insert_ne (Ne.symm hd), h.exact]
        simp [exactAt, bareAt, hd]
    · rw [filterMap_append, show [(PolicyPattern.exact d, entry)].filterMap wildcardOf = []
        from rfl, append_nil]
      exact h.wildcard
    · rw [findSome?_append, ← h.matchers domain]
      simp [NameserverPolicy.insertPattern, NameserverPolicy.insertExact, matcherAt]
  | wildcard w =>
    refine ⟨fun domain => ?_, ?_, fun domain => ?_⟩
    · rw [reverse_append, reverse_singleton, singleton_append, findSome?_cons]
      simp only [NameserverPolicy.insertPattern, NameserverPolicy.insertWildcard, exactAt]
      cases hbare : stripWildcard w with
      | none => simp [bareAt, hbare, h.exact]
      | some bare =>
        by_cases hd : bare = domain <;> simp [lookup_orInsert, bareAt, hbare, hd, h.exact]
    · show (policy.wildcard.insert lc w entry).2 = _
      rw [filterMap_append, h.wildcard, build, build, foldl_append]
      rfl
    · rw [findSome?_append, ← h.matchers domain]
      simp [NameserverPolicy.insertPattern, NameserverPolicy.insertWildcard, matcherAt]
  | matcher holds =>
    refine ⟨fun domain => ?_, ?_, fun domain => ?_⟩
    · show policy.exact.lookup domain = _
      rw [reverse_append, reverse_singleton, singleton_append, findSome?_cons, h.exact]
      simp [exactAt, bareAt]
    · rw [filterMap_append, show [(PolicyPattern.matcher holds, entry)].filterMap wildcardOf =
        [] from rfl, append_nil]
      exact h.wildcard
    · rw [findSome?_append, ← h.matchers domain]
      simp only [NameserverPolicy.insertPattern, NameserverPolicy.insertMatcher, find?_append]
      cases policy.matchers.find? fun entry => entry.1 domain with
      | some found => rfl
      | none => cases hholds : holds domain <;> simp [matcherAt, hholds]

/-- **The patterns of a table.** -/
lemma policyHolds_policyOf (lc : Lowercase) (items : List (PolicyPattern × S)) :
    PolicyHolds lc items (policyOf lc items) := by
  induction items using reverseRecOn with
  | nil => exact ⟨fun _ => rfl, rfl, fun _ => rfl⟩
  | append_singleton items item ih =>
    rw [policyOf, foldl_append]
    exact ih.insertPattern item

/-- **What a lookup finds**: the last entry of the name, or else the first wildcard in front of it,
or else what the trie of the wildcards has, or else the first matcher that holds. -/
theorem lookup_policyOf (order : HashOrder) (items : List (PolicyPattern × S)) (domain : Str) :
    (policyOf lc items).lookup order domain =
      ((items.reverse.findSome? (exactAt domain)).or (items.findSome? (bareAt domain))).or
        (((build lc (items.filterMap wildcardOf)).search order domain).or
          (items.findSome? (matcherAt domain))) := by
  have h := policyHolds_policyOf lc items
  rw [NameserverPolicy.lookup, h.exact, h.wildcard, h.matchers]

end Policy

end Meow.Dns
