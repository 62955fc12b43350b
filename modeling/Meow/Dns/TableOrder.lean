import Meow.Lib.FirstMatch
import Meow.Dns.NameserverPolicy

/-!
# The order of a configuration map

The `hosts:` and `nameserver-policy:` sections are hash maps, which are enumerated in any order. The
tables made of them answer alike in every order exactly when the entries that compete for a name
agree: in the hosts table those that enter the most specific pattern of the name, in the policy
those of the first of its parts that has something for the name.

A wildcard is entered for the name behind it, too. There it competes with the entry of that name.

## Main definitions

* `HostsAgree`, `PolicyAgree` — entries that compete for a name agree.

## Main results

* `hosts_orderFree_iff`, `policy_orderFree_iff` — the two tables.
* `tables_orderFree_iff` — both.
-/

namespace Meow.Dns

open Trie List Option

/-! ### Tries -/

section Tries

variable {ι T : Type} {lc : Lowercase} (order : HashOrder) {f : ι → List (Str × T)}
  {entries entries' : List ι}

lemma inserted_perm (hperm : entries'.Perm entries) (p : Pattern) :
    Inserted lc (entries'.flatMap f) p ↔ Inserted lc (entries.flatMap f) p :=
  exists_congr fun _ => and_congr_left fun _ => (hperm.flatMap_right f).mem_iff

lemma mostSpecific_perm (hperm : entries'.Perm entries) {name p}
    (h : MostSpecific lc (entries.flatMap f) name p) :
    MostSpecific lc (entries'.flatMap f) name p :=
  ⟨(inserted_perm hperm p).mpr h.inserted, h.matches,
    fun p' hp' => h.beats p' ((inserted_perm hperm p').mp hp')⟩

lemma firstValue_flatMap (p : Pattern) :
    firstValue lc (entries.flatMap f) p = entries.findSome? fun e => firstValue lc (f e) p := by
  rw [firstValue, find?_flatMap, map_findSome?]
  rfl

/-- The entries that enter the most specific pattern of a query agree. -/
def TrieAgree (lc : Lowercase) (f : ι → List (Str × T)) (entries : List ι) (query : Str) : Prop :=
  ∀ p, MostSpecific lc (entries.flatMap f) (normalizeQuery query) p →
    Agree (fun e => firstValue lc (f e) p) entries

/-- The search does not depend on the order. -/
lemma TrieAgree.search_eq {query} (h : TrieAgree lc f entries query)
    (hperm : entries'.Perm entries) :
    (build lc (entries'.flatMap f)).search order query =
      (build lc (entries.flatMap f)).search order query := by
  cases hsearch : (build lc (entries.flatMap f)).search order query with
  | none =>
    rw [search_build_eq_none_iff] at hsearch ⊢
    exact fun p hp => hsearch p ((inserted_perm hperm p).mp hp)
  | some v =>
    obtain ⟨p, hp, hv⟩ := (search_build_eq_some_iff order _ _ _).mp hsearch
    refine (search_build_eq_some_iff order _ _ _).mpr ⟨p, mostSpecific_perm hperm hp, ?_⟩
    rw [firstValue_flatMap] at hv ⊢
    rw [(h p hp).findSome?_eq hperm, hv]

/-- An entry that comes first is found under its patterns. -/
lemma search_front {query p} (hp : MostSpecific lc (entries.flatMap f) (normalizeQuery query) p)
    {a rest} (hperm : (a :: rest).Perm entries) {v} (hv : firstValue lc (f a) p = some v) :
    (build lc ((a :: rest).flatMap f)).search order query = some v := by
  refine (search_build_eq_some_iff order _ _ _).mpr ⟨p, mostSpecific_perm hperm hp, ?_⟩
  rw [firstValue_flatMap, findSome?_cons, hv]

end Tries

/-! ### The hosts table -/

section Hosts

variable {lc : Lowercase} {order : HashOrder} {fromAscii : Str → Bool}
  {hosts : List (Str × HostsValue)}

/-- **The entries that compete for a name agree.** -/
def HostsAgree (lc : Lowercase) (fromAscii : Str → Bool) (hosts : List (Str × HostsValue)) : Prop :=
  ∀ query, TrieAgree lc (hostInserts fromAscii) hosts query

/-- In this order the aliases of an entry go round in a circle, or come by the entry's own name. -/
def AliasCycle (lc : Lowercase) (order : HashOrder) (fromAscii : Str → Bool)
    (hosts : List (Str × HostsValue)) : Prop :=
  ∃ item ∈ hosts.flatMap (hostAliases fromAscii), ∀ names,
    Chain (aliasOf ((build lc (hosts.flatMap (hostInserts fromAscii))).search order)) item.2 names →
      toAsciiLowercase item.1 ∈ names

lemma buildHostsTrie_of_not_aliasCycle (hok : ∀ item ∈ hosts, ValueOk fromAscii item)
    (h : ¬AliasCycle lc order fromAscii hosts) :
    buildHostsTrie lc order fromAscii (some hosts) =
      .ok (build lc (hosts.flatMap (hostInserts fromAscii))) := by
  unfold AliasCycle at h
  push Not at h
  exact (buildHostsTrie_eq_ok_iff order).mpr ⟨hok, rfl, h⟩

/-- A section with a value that is not well formed or with a circle is rejected. -/
lemma buildHostsTrie_error
    (h : (∃ item ∈ hosts, ¬ValueOk fromAscii item) ∨ AliasCycle lc order fromAscii hosts) :
    ∃ e, buildHostsTrie lc order fromAscii (some hosts) = .error e := by
  cases hbuild : buildHostsTrie lc order fromAscii (some hosts) with
  | error e => exact ⟨e, rfl⟩
  | ok trie =>
    obtain ⟨hok, -, hchains⟩ := (buildHostsTrie_eq_ok_iff order).mp hbuild
    rcases h with ⟨item, hitem, hbad⟩ | ⟨item, hitem, hcycle⟩
    · exact absurd (hok item hitem) hbad
    · obtain ⟨names, hnames, hnot⟩ := hchains item hitem
      exact absurd (hcycle names hnames) hnot

/-- Where the searches are the same, so are the circles. -/
lemma aliasCycle_perm (hagree : HostsAgree lc fromAscii hosts) {hosts' : List (Str × HostsValue)}
    (hperm : hosts'.Perm hosts) :
    AliasCycle lc order fromAscii hosts' ↔ AliasCycle lc order fromAscii hosts := by
  have hsearch : (build lc (hosts'.flatMap (hostInserts fromAscii))).search order =
      (build lc (hosts.flatMap (hostInserts fromAscii))).search order :=
    funext fun query => (hagree query).search_eq order hperm
  unfold AliasCycle
  rw [hsearch]
  exact exists_congr fun item => and_congr_left fun _ => (hperm.flatMap_right _).mem_iff

/-- **The hosts table in any order.** It does not depend on the order if the entries that compete
for a name agree, or if the section is rejected in every order.

**Proof sketch.** Entries that agree give the same searches, and so the same circles. For the other
direction let some order be accepted: an entry that competes for a name is found if it comes first,
so it agrees with what is found in that order. -/
theorem hosts_orderFree_iff :
    OrderFree (fun hosts => buildHostsTrie lc order fromAscii (some hosts))
        (fun trie => trie.search order) hosts ↔
      HostsAgree lc fromAscii hosts ∨ (∃ item ∈ hosts, ¬ValueOk fromAscii item) ∨
        ∀ hosts', hosts'.Perm hosts → AliasCycle lc order fromAscii hosts' := by
  constructor
  · intro hfree
    by_contra hnot
    push Not at hnot
    obtain ⟨hdisagree, hok, hosts₀, hperm₀, hacyclic⟩ := hnot
    have hokPerm : ∀ hosts' : List (Str × HostsValue), hosts'.Perm hosts →
        ∀ item ∈ hosts', ValueOk fromAscii item :=
      fun hosts' hperm item hitem => hok item (hperm.mem_iff.mp hitem)
    refine hdisagree fun query p hp => ?_
    refine @agree_of_front _ _ _ _
      (fun hosts => (build lc (hosts.flatMap (hostInserts fromAscii))).search order query)
      ((build lc (hosts₀.flatMap (hostInserts fromAscii))).search order query)
      (fun hosts' hperm => ?_) fun a ha v hv => ?_
    · have hsame := hfree hosts' hosts₀ hperm hperm₀
      simp only [buildHostsTrie_of_not_aliasCycle (hokPerm hosts₀ hperm₀) hacyclic] at hsame
      by_cases hcycle : AliasCycle lc order fromAscii hosts'
      · obtain ⟨e, he⟩ := buildHostsTrie_error (.inr hcycle)
        rw [he] at hsame
        exact hsame.elim
      · rw [buildHostsTrie_of_not_aliasCycle (hokPerm hosts' hperm) hcycle] at hsame
        exact hsame query
    · obtain ⟨rest, hperm⟩ := exists_perm_cons ha
      exact ⟨a :: rest, hperm, search_front order hp hperm hv⟩
  · intro h
    by_cases hok : ∀ item ∈ hosts, ValueOk fromAscii item
    swap
    · push Not at hok
      obtain ⟨item, hitem, hbad⟩ := hok
      exact .of_error fun hosts' hperm =>
        buildHostsTrie_error (.inl ⟨item, hperm.mem_iff.mpr hitem, hbad⟩)
    have hokPerm : ∀ hosts' : List (Str × HostsValue), hosts'.Perm hosts →
        ∀ item ∈ hosts', ValueOk fromAscii item :=
      fun hosts' hperm item hitem => hok item (hperm.mem_iff.mp hitem)
    by_cases hcycles : ∀ hosts', hosts'.Perm hosts → AliasCycle lc order fromAscii hosts'
    · exact .of_error fun hosts' hperm =>
        buildHostsTrie_error (.inr (hcycles hosts' hperm))
    have hagree : HostsAgree lc fromAscii hosts := by
      rcases h with hagree | ⟨item, hitem, hbad⟩ | hall
      · exact hagree
      · exact absurd (hok item hitem) hbad
      · exact absurd hall hcycles
    -- one order has no circle, so none has
    push Not at hcycles
    obtain ⟨hosts₀, hperm₀, hacyclic⟩ := hcycles
    have htable : ∀ hosts', hosts'.Perm hosts →
        buildHostsTrie lc order fromAscii (some hosts') =
          .ok (build lc (hosts'.flatMap (hostInserts fromAscii))) := fun hosts' hperm =>
      buildHostsTrie_of_not_aliasCycle (hokPerm hosts' hperm)
        (mt (fun hcycle => (aliasCycle_perm hagree hperm₀).mpr
          ((aliasCycle_perm hagree hperm).mp hcycle)) hacyclic)
    intro hosts₁ hosts₂ hperm₁ hperm₂
    simp only [htable hosts₁ hperm₁, htable hosts₂ hperm₂, SameAnswers]
    intro query
    rw [(hagree query).search_eq order hperm₁, (hagree query).search_eq order hperm₂]

end Hosts

/-! ### The nameserver policy -/

section Policy

variable {V S : Type} {lc : Lowercase} {order : HashOrder} {env : PolicyEnv V S}
  {map : List (Str × V)}

/-- The nameservers of an entry for the name, if the name is one of its patterns. -/
def exactIn (env : PolicyEnv V S) (domain : Str) (item : Str × V) : Option S :=
  (itemsOf env item).reverse.findSome? (exactAt domain)

/-- The nameservers of an entry for the name, if a wildcard in front of it is one of its patterns.
-/
def bareIn (env : PolicyEnv V S) (domain : Str) (item : Str × V) : Option S :=
  (itemsOf env item).findSome? (bareAt domain)

/-- What an entry enters in the trie of the wildcards. -/
def wildcardsIn (env : PolicyEnv V S) (item : Str × V) : List (Str × S) :=
  (itemsOf env item).filterMap wildcardOf

/-- The nameservers of an entry for the name, if one of its matchers holds. -/
def matcherIn (env : PolicyEnv V S) (domain : Str) (item : Str × V) : Option S :=
  (itemsOf env item).findSome? (matcherAt domain)

/-- **The entries that compete for a name agree**: those of the name itself; or, if there are none,
those of wildcards in front of it; or those of its most specific wildcard; or those of the matchers
that hold. -/
def PolicyAgree (lc : Lowercase) (env : PolicyEnv V S) (map : List (Str × V)) : Prop :=
  ∀ domain,
    Agree (exactIn env domain) map ∧
    ((∀ item ∈ map, exactIn env domain item = none) →
      Agree (bareIn env domain) map ∧
      ((∀ item ∈ map, bareIn env domain item = none) →
        TrieAgree lc (wildcardsIn env) map domain ∧
        ((∀ p, Inserted lc (map.flatMap (wildcardsIn env)) p →
            ¬p.Matches (normalizeQuery domain)) →
          Agree (matcherIn env domain) map)))

/-- What the entries in some order answer. -/
def policyAnswer (lc : Lowercase) (order : HashOrder) (env : PolicyEnv V S) (domain : Str)
    (map : List (Str × V)) : Option S :=
  (map.reverse.findSome? (exactIn env domain)).or
    ((map.findSome? (bareIn env domain)).or
      (((build lc (map.flatMap (wildcardsIn env))).search order domain).or
        (map.findSome? (matcherIn env domain))))

lemma lookup_eq_policyAnswer (map : List (Str × V)) (domain : Str) :
    (policyOf lc (map.flatMap (itemsOf env))).lookup order domain =
      policyAnswer lc order env domain map := by
  rw [lookup_policyOf, reverse_flatMap, findSome?_flatMap, findSome?_flatMap,
    findSome?_flatMap, filterMap_flatMap, Option.or_assoc]
  rfl

lemma PolicyAgree.policyAnswer_eq (h : PolicyAgree lc env map) {map' : List (Str × V)}
    (hperm : map'.Perm map) (domain : Str) :
    policyAnswer lc order env domain map' = policyAnswer lc order env domain map := by
  obtain ⟨hexact, hrest⟩ := h domain
  refine or_congr_of_none ?_ fun hnone => ?_
  · have hreverse : map'.reverse.Perm map.reverse :=
      (reverse_perm map').trans (hperm.trans (reverse_perm map).symm)
    exact hexact.reverse.findSome?_eq hreverse
  · obtain ⟨hbare, hrest⟩ := hrest fun item hitem =>
      findSome?_eq_none_iff.mp hnone item (List.mem_reverse.mpr (hperm.mem_iff.mpr hitem))
    refine or_congr_of_none (hbare.findSome?_eq hperm) fun hnone => ?_
    obtain ⟨htrie, hrest⟩ := hrest fun item hitem =>
      findSome?_eq_none_iff.mp hnone item (hperm.mem_iff.mpr hitem)
    refine or_congr_of_none (htrie.search_eq order hperm) fun hnone => ?_
    rw [htrie.search_eq order hperm, search_build_eq_none_iff] at hnone
    exact (hrest hnone).findSome?_eq hperm

lemma policyAgree_of_policyAnswer_eq
    (h : ∀ domain map', map'.Perm map →
      policyAnswer lc order env domain map' = policyAnswer lc order env domain map) :
    PolicyAgree lc env map := by
  intro domain
  have hnone : ∀ {g : Str × V → Option S}, (∀ item ∈ map, g item = none) →
      ∀ map' : List (Str × V), map'.Perm map → map'.findSome? g = none :=
    fun hg map' hperm => findSome?_eq_none_iff.mpr fun item hitem =>
      hg item (hperm.mem_iff.mp hitem)
  refine ⟨agree_of_front (h domain) fun a ha v hv => ?_, fun hexact =>
    ⟨agree_of_front (h domain) fun a ha v hv => ?_, fun hbare =>
      ⟨fun p hp => agree_of_front (h domain) fun a ha v hv => ?_, fun hwildcard =>
        agree_of_front (h domain) fun a ha v hv => ?_⟩⟩⟩
  · -- the last entry of the name counts
    obtain ⟨rest, hperm⟩ := exists_perm_cons ha
    refine ⟨(a :: rest).reverse, (reverse_perm _).trans hperm, ?_⟩
    rw [policyAnswer, reverse_reverse, findSome?_cons, hv, some_or]
  all_goals
    obtain ⟨rest, hperm⟩ := exists_perm_cons ha
    refine ⟨a :: rest, hperm, ?_⟩
    rw [policyAnswer, hnone hexact _ ((reverse_perm _).trans hperm), none_or]
  · rw [findSome?_cons, hv, some_or]
  · rw [hnone hbare _ hperm, none_or, search_front order hp hperm hv, some_or]
  · rw [hnone hbare _ hperm, none_or, (search_build_eq_none_iff order _ domain).mpr,
      none_or, findSome?_cons, hv]
    exact fun p hp => hwildcard p ((inserted_perm hperm p).mp hp)

/-- **The nameserver policy in any order.** It does not depend on the order if the entries that
compete for a name agree, or if some entry is rejected. -/
theorem policy_orderFree_iff :
    OrderFree (buildNameserverPolicy lc env) (fun policy => policy.lookup order) map ↔
      PolicyAgree lc env map ∨ ∃ item ∈ map, ¬PolicyOk env item := by
  by_cases hok : ∀ item ∈ map, PolicyOk env item
  · have htable : ∀ map' : List (Str × V), map'.Perm map →
        buildNameserverPolicy lc env map' = .ok (policyOf lc (map'.flatMap (itemsOf env))) :=
      fun map' hperm => buildNameserverPolicy_eq fun item hitem => hok item (hperm.mem_iff.mp hitem)
    constructor
    · intro hfree
      refine .inl (@policyAgree_of_policyAnswer_eq _ _ lc order env map
        fun domain map' hperm => ?_)
      have hsame := hfree map' map hperm (List.Perm.refl map)
      rw [htable map' hperm, htable map (List.Perm.refl map)] at hsame
      rw [← lookup_eq_policyAnswer, ← lookup_eq_policyAnswer]
      exact hsame domain
    · rintro (hagree | ⟨item, hitem, hbad⟩)
      · intro map₁ map₂ hperm₁ hperm₂
        rw [htable map₁ hperm₁, htable map₂ hperm₂]
        intro domain
        simp only [lookup_eq_policyAnswer]
        rw [hagree.policyAnswer_eq hperm₁, hagree.policyAnswer_eq hperm₂]
      · exact absurd (hok item hitem) hbad
  · push Not at hok
    obtain ⟨item, hitem, hbad⟩ := hok
    refine ⟨fun _ => .inr ⟨item, hitem, hbad⟩, fun _ => .of_error fun map' hperm => ?_⟩
    exact buildNameserverPolicy_error ⟨item, hperm.mem_iff.mpr hitem, hbad⟩

end Policy

/-! ### Both tables -/

/-- **The two tables in any order of the configuration maps.** -/
theorem tables_orderFree_iff {V S : Type} (lc : Lowercase) (order : HashOrder)
    (fromAscii : Str → Bool) (env : PolicyEnv V S) (hosts : List (Str × HostsValue))
    (policy : List (Str × V)) :
    (OrderFree (fun hosts => buildHostsTrie lc order fromAscii (some hosts))
        (fun trie => trie.search order) hosts ∧
      OrderFree (buildNameserverPolicy lc env) (fun policy => policy.lookup order) policy) ↔
    ((HostsAgree lc fromAscii hosts ∨ (∃ item ∈ hosts, ¬ValueOk fromAscii item) ∨
        ∀ hosts', hosts'.Perm hosts → AliasCycle lc order fromAscii hosts') ∧
      (PolicyAgree lc env policy ∨ ∃ item ∈ policy, ¬PolicyOk env item)) := by
  rw [hosts_orderFree_iff, policy_orderFree_iff]

/-- A wildcard and the name behind it; a name in two spellings. What is entered first stays in the
hosts table, and what is entered last in the policy. -/
theorem tables_order :
    let hosts := [(str "*.corp.internal", HostsValue.one (str "10.0.0.50")),
      (str "corp.internal", .one (str "10.0.0.53"))]
    let env : PolicyEnv ℕ ℕ := ⟨none, fun _ => none, fun _ servers => .ok servers⟩
    let policy := [(str "example.com", 1), (str " Example.com", 2)]
    ¬OrderFree (fun hosts => buildHostsTrie .asciiOnly .inserted (fun _ => true) (some hosts))
        (fun trie => trie.search .inserted) hosts ∧
      ¬OrderFree (buildNameserverPolicy .asciiOnly env)
        (fun policy => policy.lookup .inserted) policy := by
  intro hosts env policy
  refine ⟨fun hfree => ?_, fun hfree => ?_⟩
  · have hsame := hfree.answer_eq (List.Perm.refl hosts) (reverse_perm hosts)
      (str "corp.internal")
    revert hsame
    decide +kernel
  · have hsame := hfree.answer_eq (List.Perm.refl policy) (reverse_perm policy)
      (str "example.com")
    revert hsame
    decide +kernel

end Meow.Dns
