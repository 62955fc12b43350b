import Meow.Lib.Chain
import Meow.Lib.Fallible
import Meow.Net.ParseIp
import Meow.Trie.Search

/-!
# The hosts table

The `hosts:` section maps names and wildcards to addresses or to another name. The table is a trie
of the entries; a configuration whose aliases go round in a circle is rejected. A lookup follows the
aliases from a name until it comes to addresses, or to a name that is not in the table and is asked
for upstream.

Configuration and lookup follow the same partial function, from a name to the name it is an alias
of. The configuration is accepted when this comes to an end from the target of every alias, and then
it does from every name. The lookup, however, makes no more than 64 steps.

## Main definitions

* `buildHostsTrie`, `mergeSystemHosts` — the table.
* `lookupHostsEntry` — the lookup.
* `aliasOf` — what a name is an alias of.

## Main results

* `rejectHostAliasCycles_eq_ok_iff`, `buildHostsTrie_eq_ok_iff` — the aliases and
  the sections that are accepted.
* `exists_chain` — from every name the aliases come to an end.
* `lookupHostsEntry_end_iff` — when a lookup follows them to the end.
-/

namespace Meow.Dns

open Trie List Prod

/-! ### The table -/

inductive HostEntry where
  | addresses (ips : List IpAddr)
  | «alias» (name : Str)
  deriving DecidableEq

inductive HostsValue where
  | one (s : Str)
  | many (v : List Str)
  deriving DecidableEq

def HostsValue.asSlice : HostsValue → List Str
  | one s => [s]
  | many v => v

/-- Why a `hosts:` section is rejected. -/
inductive HostsError where
  | invalidIp (raw host : Str)
  | invalidAlias (value host : Str)
  | aliasCycle (source : Str)
  deriving DecidableEq

/-- The text of the error. -/
def HostsError.message : HostsError → Str
  | invalidIp raw host =>
    str "hosts: invalid IP '" ++ raw ++ str "' for host '" ++ host ++
      str "': invalid IP address syntax (lists may contain only IP addresses)"
  | invalidAlias value host =>
    str "hosts: value '" ++ value ++ str "' for host '" ++ host ++
      str "' is neither an IP address nor a valid domain alias"
  | aliasCycle source => str "hosts: domain alias cycle detected starting at '" ++ source ++ str "'"

def normalizeHostsWildcard : Str → Str
  | '*' :: '.' :: rest => '+' :: '.' :: rest
  | s => s

/-- `strip_prefix("+.")`. -/
def stripWildcard : Str → Option Str
  | '+' :: '.' :: bare => some bare
  | _ => none

section Build

-- `fromAscii` says whether `hickory_proto::rr::Name::from_ascii` takes a text
variable (lc : Lowercase) (order : HashOrder) (fromAscii : Str → Bool)

def parseHostAlias (value host : Str) : Except HostsError Str :=
  let name := toAsciiLowercase (trimEndMatches '.' value)
  if '.' ∈ name ∧ '*' ∉ name ∧ '+' ∉ name ∧ fromAscii name = true then .ok name
  else .error (.invalidAlias value host)

/-- One of the values of a list. -/
def parseHostIp (host raw : Str) : Except HostsError IpAddr :=
  match parseIpAddr raw with
  | some ip => .ok ip
  | none => .error (.invalidIp raw host)

/-- The entry of a value: a single value is trimmed, the values of a list are not. -/
def hostEntry (host : Str) (value : HostsValue) : Except HostsError (Option HostEntry) :=
  match value.asSlice with
  | [] => .ok none
  | [raw] =>
    match parseIpAddr (trim raw) with
    | some ip => .ok (some (.addresses [ip]))
    | none => (parseHostAlias fromAscii (trim raw) host).map fun name => some (.«alias» name)
  | raws => (raws.mapM (parseHostIp host)).map fun ips => some (.addresses ips)

/-- One turn of the loop of `build_hosts_trie`. A wildcard is entered for the name behind it, too.
-/
def insertHost (state : DomainTrie HostEntry × List (Str × Str)) (item : Str × HostsValue) :
    Except HostsError (DomainTrie HostEntry × List (Str × Str)) :=
  (hostEntry fromAscii item.1 item.2).map fun
    | none => state
    | some entry =>
      let key := normalizeHostsWildcard (trim item.1)
      let aliases := match entry with
        | .«alias» target => state.2 ++ [(key, target)]
        | .addresses _ => state.2
      let trie := (state.1.insert lc key entry).2
      match stripWildcard key with
      | some bare => ((trie.insert lc bare entry).2, aliases)
      | none => (trie, aliases)

/-- The loop that follows the aliases of one entry: whether it comes to an end. -/
def aliasLoop (search : Str → Option HostEntry) : ℕ → List Str → Str → Bool
  | 0, _, _ => false
  | fuel + 1, seen, current =>
    if toAsciiLowercase current ∈ seen then false
    else
      match search current with
      | some (.«alias» next) => aliasLoop search fuel (seen ++ [toAsciiLowercase current]) next
      | _ => true

/-- `reject_host_alias_cycles`. A walk comes by each target at most once. -/
def rejectHostAliasCycles (search : Str → Option HostEntry) (aliases : List (Str × Str)) :
    Except HostsError Unit :=
  aliases.forM fun item =>
    if aliasLoop search (aliases.length + 2) [toAsciiLowercase item.1] item.2 then .ok ()
    else .error (.aliasCycle item.1)

/-- `build_hosts_trie`, over the entries in the order in which the map enumerates them. -/
def buildHostsTrie (hosts : Option (List (Str × HostsValue))) :
    Except HostsError (DomainTrie HostEntry) :=
  match hosts with
  | none => .ok .new
  | some hosts => do
    let (trie, aliases) ← hosts.foldlM (insertHost lc fromAscii) (.new, [])
    rejectHostAliasCycles (trie.search order) aliases
    return trie

/-- `merge_system_hosts`, given what the system's hosts file has. -/
def mergeSystemHosts (trie : DomainTrie HostEntry) (entries : List (Str × List IpAddr)) :
    DomainTrie HostEntry :=
  entries.foldl (fun trie item =>
    if trie.search order item.1 = none then (trie.insert lc item.1 (.addresses item.2)).2
    else trie) trie

end Build

/-! ### The lookup -/

inductive HostsLookup where
  | addresses (ips : List IpAddr)
  | «alias» (name : Str)
  deriving DecidableEq

/-- The loop of `lookup_hosts_entry`. -/
def lookupLoop (search : Str → Option HostEntry) : ℕ → Option Str → Str → Option HostsLookup
  | 0, _, _ => none
  | turns + 1, terminalAlias, current =>
    match search current with
    | some (.addresses ips) => some (.addresses ips)
    | some (.«alias» name) => lookupLoop search turns (some name) name
    | none => terminalAlias.map .«alias»

def lookupHostsEntry (search : Str → Option HostEntry) (host : Str) : Option HostsLookup :=
  lookupLoop search 64 none host

/-! ### What the table is made of -/

section Table

variable {lc : Lowercase} {fromAscii : Str → Bool}

/-- What an entry enters. -/
def hostInserts (fromAscii : Str → Bool) (item : Str × HostsValue) : List (Str × HostEntry) :=
  match hostEntry fromAscii item.1 item.2 with
  | .ok (some entry) =>
    (normalizeHostsWildcard (trim item.1), entry) ::
      ((stripWildcard (normalizeHostsWildcard (trim item.1))).map fun bare => (bare, entry)).toList
  | _ => []

/-- The alias that an entry is, if it is one. -/
def hostAliases (fromAscii : Str → Bool) (item : Str × HostsValue) : List (Str × Str) :=
  match hostEntry fromAscii item.1 item.2 with
  | .ok (some (.«alias» target)) => [(normalizeHostsWildcard (trim item.1), target)]
  | _ => []

/-- The value of an entry is well formed. -/
def ValueOk (fromAscii : Str → Bool) (item : Str × HostsValue) : Prop :=
  ∃ entry, hostEntry fromAscii item.1 item.2 = .ok entry

lemma build_append (inserts inserts' : List (Str × HostEntry)) :
    build lc (inserts ++ inserts') =
      inserts'.foldl (fun t i => (t.insert lc i.1 i.2).2) (build lc inserts) := by
  rw [build, foldl_append, ← build]

variable {item : Str × HostsValue}

lemma insertHost_of_ok (h : ValueOk fromAscii item) (inserts : List (Str × HostEntry))
    (aliases : List (Str × Str)) :
    insertHost lc fromAscii (build lc inserts, aliases) item =
      .ok (build lc (inserts ++ hostInserts fromAscii item),
        aliases ++ hostAliases fromAscii item) := by
  obtain ⟨entry, hentry⟩ := h
  cases entry with
  | none => simp [insertHost, hostInserts, hostAliases, hentry, Except.map]
  | some entry =>
    rw [build_append]
    simp only [insertHost, hostInserts, hostAliases, hentry, Except.map, foldl_cons]
    cases entry <;> cases stripWildcard (normalizeHostsWildcard (trim item.1)) <;> simp

variable {hosts : List (Str × HostsValue)}

/-- **The loop over the entries.** It makes the trie of what they enter. -/
lemma foldlM_insertHost (h : ∀ item ∈ hosts, ValueOk fromAscii item)
    (inserts : List (Str × HostEntry)) (aliases : List (Str × Str)) :
    hosts.foldlM (insertHost lc fromAscii) (build lc inserts, aliases) =
      .ok (build lc (inserts ++ hosts.flatMap (hostInserts fromAscii)),
        aliases ++ hosts.flatMap (hostAliases fromAscii)) := by
  induction hosts generalizing inserts aliases with
  | nil => simp [pure, Except.pure]
  | cons item hosts ih =>
    rw [foldlM_cons, insertHost_of_ok (h item mem_cons_self)]
    show hosts.foldlM (insertHost lc fromAscii) (_, _) = _
    rw [ih fun item hitem => h item (mem_cons_of_mem _ hitem), flatMap_cons,
      flatMap_cons, append_assoc, append_assoc]

/-- The loop fails on a value that is not well formed. -/
lemma valueOk_of_foldlM {state state'}
    (h : hosts.foldlM (insertHost lc fromAscii) state = .ok state') :
    ∀ item ∈ hosts, ValueOk fromAscii item := by
  intro item hitem
  refine foldlM_of_mem (motive := fun _ => ValueOk fromAscii item) (fun _ _ _ _ hok _ => hok) hitem
    (fun s s' hinsert => ?_) h
  cases hentry : hostEntry fromAscii item.1 item.2 with
  | error e =>
    rw [insertHost, hentry] at hinsert
    cases hinsert
  | ok entry => exact ⟨entry, hentry⟩

/-- The targets of aliases have no upper-case letters. -/
lemma toAsciiLowercase_hostAliases {source target}
    (h : (source, target) ∈ hostAliases fromAscii item) : toAsciiLowercase target = target := by
  revert h
  fun_cases hostAliases fromAscii item with
  | case1 name hentry =>
    intro h
    cases mem_singleton.mp h
    revert hentry
    fun_cases hostEntry fromAscii item.1 item.2 with
    | case3 raw _ _ =>
      fun_cases parseHostAlias fromAscii (trim raw) item.1 with
      | case1 name' =>
        intro hentry
        simp only [Except.map, Except.ok.injEq, Option.some.injEq, HostEntry.alias.injEq] at hentry
        rw [← hentry]
        simp [name', toAsciiLowercase, asciiLower_asciiLower]
      | case2 => simp [Except.map]
    | case4 => cases item.2.asSlice.mapM (parseHostIp item.1) <;> simp [Except.map]
    | _ => simp
  | case2 => simp

end Table

/-! ### Following the aliases -/

section Aliases

/-- **What a name is an alias of.** -/
def aliasOf (search : Str → Option HostEntry) (name : Str) : Option Str :=
  match search name with
  | some (.«alias» target) => some target
  | _ => none

lemma aliasOf_eq_some_iff {search name target} :
    aliasOf search name = some target ↔ search name = some (.«alias» target) := by
  unfold aliasOf
  constructor
  · intro h
    split at h
    · rename_i heq
      rw [heq, Option.some.inj h]
    · cases h
  · intro h
    rw [h]

variable {search : Str → Option HostEntry} {aliases : List (Str × Str)}

/-- The aliases that a search finds are those of the section. -/
structure FromAliases (search : Str → Option HostEntry) (aliases : List (Str × Str)) : Prop where
  listed : ∀ name target, aliasOf search name = some target → ∃ source, (source, target) ∈ aliases
  lower : ∀ item ∈ aliases, toAsciiLowercase item.2 = item.2

variable (h : FromAliases search aliases)
include h

/-- The check of an entry is a walk along its aliases. -/
lemma aliasLoop_eq (fuel : ℕ) (seen : List Str) {current}
    (hcurrent : toAsciiLowercase current = current) :
    aliasLoop search fuel seen current = (walk (aliasOf search) fuel seen current).isSome := by
  induction fuel generalizing seen current with
  | zero => rfl
  | succ fuel ih =>
    rw [aliasLoop, walk, hcurrent]
    by_cases hseen : current ∈ seen
    · rw [if_pos hseen, if_pos hseen]
      rfl
    · rw [if_neg hseen, if_neg hseen]
      cases hnext : aliasOf search current with
      | none =>
        unfold aliasOf at hnext
        split at hnext
        · cases hnext
        · simp only [Option.isSome_some]
      | some target =>
        rw [aliasOf_eq_some_iff.mp hnext]
        obtain ⟨source, hsource⟩ := h.listed current target hnext
        exact ih _ (h.lower _ hsource)

/-- What the aliases of a target lead to is a target. -/
lemma FromAliases.mem_targets {target name} (htarget : target ∈ aliases.map snd)
    (hreach : Relation.ReflTransGen (Follows (aliasOf search)) target name) :
    name ∈ aliases.map snd := by
  cases hreach with
  | refl => exact htarget
  | tail _ hlast =>
    obtain ⟨source, hsource⟩ := h.listed _ _ hlast
    exact mem_map.mpr ⟨_, hsource, rfl⟩

/-- **An entry passes the check** if its aliases come to an end and do not come by its own name. -/
lemma aliasLoop_eq_true_iff {item} (hmem : item ∈ aliases) :
    aliasLoop search (aliases.length + 2) [toAsciiLowercase item.1] item.2 ↔
      ∃ names, Chain (aliasOf search) item.2 names ∧ toAsciiLowercase item.1 ∉ names := by
  have htarget : item.2 ∈ aliases.map snd := mem_map.mpr ⟨_, hmem, rfl⟩
  rw [aliasLoop_eq h _ _ (h.lower _ hmem), walk_cons_isSome_iff not_mem_nil]
  refine exists_congr fun names => and_congr_left fun _ => ?_
  have hwalk := @walk_eq_some_iff _ (aliasOf search) (aliases.map snd) [] item.2 _
    (aliases.length + 2) names
    (fun name hreach _ => h.mem_targets htarget hreach) (Visited.nil item.2)
    (by rw [length_map, length_nil]; omega)
  rw [hwalk]
  exact ⟨fun ⟨_, hl, heq⟩ => heq ▸ hl, fun hl => ⟨names, hl, rfl⟩⟩

/-- **The aliases that are accepted**: from the target of each the aliases come to an end, and do
not come by the entry's own name. -/
theorem rejectHostAliasCycles_eq_ok_iff :
    rejectHostAliasCycles search aliases = .ok () ↔
      ∀ item ∈ aliases, ∃ names, Chain (aliasOf search) item.2 names ∧
        toAsciiLowercase item.1 ∉ names := by
  rw [rejectHostAliasCycles, forM_eq_ok_iff]
  refine forall₂_congr fun item hitem => ?_
  rw [← aliasLoop_eq_true_iff h hitem]
  cases aliasLoop search (aliases.length + 2) [toAsciiLowercase item.1] item.2 <;> simp

end Aliases

/-! ### The aliases of a table -/

section TableAliases

variable {lc : Lowercase} (order : HashOrder) {fromAscii : Str → Bool}

lemma fromAliases_build (hosts : List (Str × HostsValue)) :
    FromAliases ((build lc (hosts.flatMap (hostInserts fromAscii))).search order)
      (hosts.flatMap (hostAliases fromAscii)) := by
  refine ⟨fun name target h => ?_, fun item hitem => ?_⟩
  · obtain ⟨p, -, hfirst⟩ := (search_build_eq_some_iff order _ _ _).mp (aliasOf_eq_some_iff.mp h)
    obtain ⟨i, hi, hvalue⟩ := Option.map_eq_some_iff.mp hfirst
    obtain ⟨item, hitem, hinsert⟩ := mem_flatMap.mp (mem_of_find?_eq_some hi)
    refine ⟨normalizeHostsWildcard (trim item.1), mem_flatMap.mpr ⟨item, hitem, ?_⟩⟩
    unfold hostInserts at hinsert
    unfold hostAliases
    split at hinsert
    · rename_i entry hentry
      have hentryEq : entry = .«alias» target := by
        rcases mem_cons.mp hinsert with rfl | hbare
        · exact hvalue
        · obtain ⟨bare, -, rfl⟩ := Option.map_eq_some_iff.mp (Option.mem_toList.mp hbare)
          exact hvalue
      rw [hentry, hentryEq]
      exact mem_singleton_self _
    · cases hinsert
  · obtain ⟨host, -, halias⟩ := mem_flatMap.mp hitem
    exact toAsciiLowercase_hostAliases halias

variable {trie : DomainTrie HostEntry}

/-- **The sections that are accepted**: the entries are well formed, from the target of each alias
the aliases come to an end, and they do not come by the entry's own name. The table is the trie of
what the entries enter. -/
theorem buildHostsTrie_eq_ok_iff {hosts : List (Str × HostsValue)} :
    buildHostsTrie lc order fromAscii (some hosts) = .ok trie ↔
      (∀ item ∈ hosts, ValueOk fromAscii item) ∧
      trie = build lc (hosts.flatMap (hostInserts fromAscii)) ∧
      ∀ item ∈ hosts.flatMap (hostAliases fromAscii), ∃ names,
        Chain (aliasOf ((build lc (hosts.flatMap (hostInserts fromAscii))).search order))
          item.2 names ∧ toAsciiLowercase item.1 ∉ names := by
  rw [← rejectHostAliasCycles_eq_ok_iff (fromAliases_build order hosts)]
  constructor
  · intro h
    obtain ⟨state, hfold, hrest⟩ := bind_eq_ok_iff.mp h
    have hok := valueOk_of_foldlM hfold
    cases hfold.symm.trans (foldlM_insertHost hok [] [])
    obtain ⟨⟨⟩, hcheck, heq⟩ := bind_eq_ok_iff.mp hrest
    cases heq
    exact ⟨hok, rfl, hcheck⟩
  · rintro ⟨hok, rfl, hcheck⟩
    exact bind_eq_ok_iff.mpr
      ⟨_, foldlM_insertHost hok [] [], bind_eq_ok_iff.mpr ⟨(), hcheck, rfl⟩⟩

/-- The system's hosts add addresses only. -/
lemma mergeSystemHosts_eq (inserts : List (Str × HostEntry)) (entries : List (Str × List IpAddr)) :
    ∃ extra, mergeSystemHosts lc order (build lc inserts) entries = build lc (inserts ++ extra) ∧
      ∀ i ∈ extra, ∃ ips, i.2 = .addresses ips := by
  induction entries generalizing inserts with
  | nil => exact ⟨[], by rw [append_nil]; rfl, fun i hi => absurd hi not_mem_nil⟩
  | cons entry entries ih =>
    by_cases hnone : (build lc inserts).search order entry.1 = none
    · obtain ⟨extra, heq, haddresses⟩ := ih (inserts ++ [(entry.1, .addresses entry.2)])
      refine ⟨(entry.1, .addresses entry.2) :: extra, ?_, fun i hi => ?_⟩
      · rw [append_cons, ← heq, build_append]
        simp only [mergeSystemHosts, foldl_cons, if_pos hnone, foldl_nil]
      · rcases mem_cons.mp hi with rfl | hi
        · exact ⟨entry.2, rfl⟩
        · exact haddresses i hi
    · obtain ⟨extra, heq, haddresses⟩ := ih inserts
      refine ⟨extra, ?_, haddresses⟩
      rw [← heq]
      simp only [mergeSystemHosts, foldl_cons, if_neg hnone]

lemma firstValue_append_right (inserts extra : List (Str × HostEntry)) (p : Pattern) :
    firstValue lc (inserts ++ extra) p =
      (firstValue lc inserts p).or (firstValue lc extra p) := by
  unfold firstValue
  rw [find?_append]
  cases inserts.find? fun i => decide (p ∈ patternsOf lc i.1) <;> rfl

/-- Addresses that are added take the place of aliases, and make none. -/
lemma aliasOf_append {inserts extra} (hextra : ∀ i ∈ extra, ∃ ips, i.2 = .addresses ips)
    (name : Str) :
    aliasOf ((build lc (inserts ++ extra)).search order) name = none ∨
      aliasOf ((build lc (inserts ++ extra)).search order) name =
        aliasOf ((build lc inserts).search order) name := by
  cases hmerged : aliasOf ((build lc (inserts ++ extra)).search order) name with
  | none => exact .inl rfl
  | some target =>
    refine .inr (Eq.symm ?_)
    rw [aliasOf_eq_some_iff] at hmerged ⊢
    obtain ⟨p, hp, hfirst⟩ := (search_build_eq_some_iff order _ _ _).mp hmerged
    have hfirst' : firstValue lc inserts p = some (.«alias» target) := by
      rw [firstValue_append_right] at hfirst
      rcases Option.or_eq_some_iff.mp hfirst with h | ⟨-, h⟩
      · exact h
      · obtain ⟨i, hi, hvalue⟩ := Option.map_eq_some_iff.mp h
        obtain ⟨ips, hips⟩ := hextra i (mem_of_find?_eq_some hi)
        rw [hips] at hvalue
        cases hvalue
    have hinserted : ∀ p', Inserted lc inserts p' → Inserted lc (inserts ++ extra) p' :=
      fun p' ⟨i, hi, hpattern⟩ => ⟨i, mem_append_left _ hi, hpattern⟩
    refine (search_build_eq_some_iff order _ _ _).mpr ⟨p, ⟨?_, hp.matches, ?_⟩, hfirst'⟩
    · exact firstValue_isSome_iff.mp (by rw [hfirst']; rfl)
    · exact fun p' hp' => hp.beats p' (hinserted p' hp')

/-- **From every name the aliases of an accepted table come to an end**, with the system's hosts,
too.

**Proof sketch.** If a name is an alias, then of the target of an entry, from which the check came
to an end. Addresses of the system that take the place of an alias end the chain earlier. -/
theorem exists_chain {hosts} (h : buildHostsTrie lc order fromAscii hosts = .ok trie)
    (system : List (Str × List IpAddr)) (host : Str) :
    ∃ names, Chain (aliasOf ((mergeSystemHosts lc order trie system).search order)) host names := by
  -- the table is the trie of some insertions, and every alias in it has a chain
  obtain ⟨inserts, rfl, hchains⟩ : ∃ inserts, trie = build lc inserts ∧
      ∀ name, ∃ names, Chain (aliasOf ((build lc inserts).search order)) name names := by
    cases hosts with
    | none =>
      cases h
      refine ⟨[], rfl, fun name => ⟨[name], .last ?_⟩⟩
      rw [aliasOf, (search_build_eq_none_iff order [] name).mpr]
      rintro p ⟨i, hi, -⟩
      cases hi
    | some hosts =>
      obtain ⟨-, rfl, hchains⟩ := (buildHostsTrie_eq_ok_iff order).mp h
      refine ⟨_, rfl, fun name => ?_⟩
      cases hnext : aliasOf
          ((build lc (hosts.flatMap (hostInserts fromAscii))).search order) name with
      | none => exact ⟨[name], .last hnext⟩
      | some target =>
        obtain ⟨source, hsource⟩ := (fromAliases_build order hosts).listed name target hnext
        obtain ⟨names, hnames, -⟩ := hchains _ hsource
        exact ⟨name :: names, .link hnext hnames⟩
  obtain ⟨extra, hmerged, haddresses⟩ := @mergeSystemHosts_eq lc order inserts system
  obtain ⟨names, hnames⟩ := hchains host
  rw [hmerged]
  exact hnames.exists_of_stops (aliasOf_append order haddresses)

end TableAliases

/-! ### The end of the aliases -/

section End

variable {search : Str → Option HostEntry}

/-- What stands at the end of some names: the addresses of the last, or the last itself. For a name
that is no alias this is `terminal`. -/
def endOf (search : Str → Option HostEntry) (terminal : Option Str) (names : List Str) :
    Option HostsLookup :=
  match names.getLast?.bind search with
  | some (.addresses ips) => some (.addresses ips)
  | _ => (if names.length = 1 then terminal else names.getLast?).map .«alias»

/-- **The lookup along the aliases**, with enough turns and with too few. -/
lemma lookupLoop_eq {name} {names : List Str} (h : Chain (aliasOf search) name names) (turns : ℕ)
    (terminal : Option Str) :
    lookupLoop search turns terminal name =
      if names.length ≤ turns then endOf search terminal names else none := by
  induction h generalizing turns terminal with
  | @last name hnone =>
    cases turns with
    | zero => rfl
    | succ turns =>
      rw [lookupLoop, if_pos (by simp)]
      cases hsearch : search name with
      | none => simp [endOf, hsearch]
      | some entry =>
        cases entry with
        | addresses ips => simp [endOf, hsearch]
        | «alias» target =>
          rw [aliasOf_eq_some_iff.mpr hsearch] at hnone
          cases hnone
  | @link name target names hsome hrest ih =>
    cases turns with
    | zero => rfl
    | succ turns =>
      -- the last name is the same, and the target is the last of one
      have hend : endOf search (some target) names = endOf search terminal (name :: names) := by
        cases hrest with
        | last _ => simp [endOf]
        | link _ hrest' =>
          have hne := ne_nil_of_mem hrest'.mem_self
          simp [endOf, hne, getLast?_cons_cons]
      rw [lookupLoop, aliasOf_eq_some_iff.mp hsome]
      simp only [ih turns (some target), hend, length_cons, Nat.add_le_add_iff_right]

/-- What stands at the end of an alias is not nothing. -/
lemma endOf_ne_none {terminal} {names : List Str} (h : 1 < names.length) :
    endOf search terminal names ≠ none := by
  have hne : names ≠ [] := ne_nil_of_length_pos (by omega)
  have hone : names.length ≠ 1 := by omega
  rw [endOf, getLast?_eq_some_getLast hne, if_neg hone]
  split <;> simp

/-- **The lookup follows the aliases to the end**: it answers what the aliases of the name lead to,
the addresses of the last name or the last name itself. -/
def FollowsToEnd (search : Str → Option HostEntry) (host : Str) : Prop :=
  ∃ names, Chain (aliasOf search) host names ∧
    lookupHostsEntry search host = endOf search none names

/-- **When a lookup follows the aliases to the end.** In an accepted table they come to an end from
every name, and the lookup gets there if there are at most 63 of them.

**Proof sketch.** The lookup makes 64 turns, one for each name of the chain. With too few it has
nothing, and what stands at the end of an alias is never nothing. -/
theorem lookupHostsEntry_end_iff {lc : Lowercase} {order : HashOrder} {fromAscii : Str → Bool}
    {hosts : Option (List (Str × HostsValue))} {trie : DomainTrie HostEntry}
    (h : buildHostsTrie lc order fromAscii hosts = .ok trie) (system : List (Str × List IpAddr))
    (host : Str) :
    let search := (mergeSystemHosts lc order trie system).search order
    (∃ names, Chain (aliasOf search) host names) ∧
      (FollowsToEnd search host ↔
        ∀ names, Chain (aliasOf search) host names → names.length ≤ 64) := by
  intro search
  obtain ⟨names, hnames⟩ := exists_chain order h system host
  have hlookup := lookupLoop_eq hnames 64 none
  refine ⟨⟨names, hnames⟩, ?_, fun hshort => ?_⟩
  · rintro ⟨names', hnames', hend⟩ names'' hnames''
    obtain rfl := hnames'.unique hnames
    obtain rfl := hnames''.unique hnames'
    by_contra hlong
    rw [lookupHostsEntry, hlookup, if_neg hlong] at hend
    exact endOf_ne_none (by omega) hend.symm
  · refine ⟨names, hnames, ?_⟩
    rw [lookupHostsEntry, hlookup, if_pos (hshort names hnames)]

/-- A name, its alias and the addresses of that. -/
theorem lookupHostsEntry_end_iff_short :
    let hosts := [(str "*.corp", HostsValue.one (str "Origin.net.")),
      (str "origin.net", .one (str "10.0.0.1"))]
    ∃ trie, buildHostsTrie .asciiOnly .inserted (fun _ => true) (some hosts) = .ok trie ∧
      (FollowsToEnd ((mergeSystemHosts .asciiOnly .inserted trie []).search .inserted)
          (str "www.corp") ↔
        ∀ names, Chain (aliasOf ((mergeSystemHosts .asciiOnly .inserted trie []).search .inserted))
          (str "www.corp") names → names.length ≤ 64) := by
  intro hosts
  have hok : (buildHostsTrie .asciiOnly .inserted (fun _ => true) (some hosts)).isOk := by
    decide +kernel
  cases htrie : buildHostsTrie .asciiOnly .inserted (fun _ => true) (some hosts) with
  | error e =>
    rw [htrie] at hok
    cases hok
  | ok trie => exact ⟨trie, rfl, (lookupHostsEntry_end_iff htrie [] (str "www.corp")).2⟩

/-- Sixty-four aliases in a row are accepted, and the lookup of the first finds nothing. -/
theorem lookupHostsEntry_stops :
    let name := fun i : ℕ => [Char.ofNat (97 + i % 8), '.', Char.ofNat (97 + i / 8)]
    let hosts := (range 64).map fun i => (name i, HostsValue.one (name (i + 1)))
    ∃ trie, buildHostsTrie .asciiOnly .inserted (fun _ => true) (some hosts) = .ok trie ∧
      aliasOf (trie.search .inserted) (name 0) = some (name 1) ∧
      lookupHostsEntry (trie.search .inserted) (name 0) = none ∧
      ¬FollowsToEnd (trie.search .inserted) (name 0) := by
  intro name hosts
  let trie := build .asciiOnly (hosts.flatMap (hostInserts fun _ => true))
  have hsingle : ((range 64).all fun i =>
      hostAliases (fun _ => true) (name i, .one (name (i + 1))) == [(name i, name (i + 1))]) =
        true := by
    decide +kernel
  simp only [all_eq_true, mem_range, beq_iff_eq] at hsingle
  have hitems : ∀ item ∈ hosts, ∃ i < 64, hostAliases (fun _ => true) item =
      [(name i, name (i + 1))] := by
    intro item hitem
    obtain ⟨i, hi, rfl⟩ := mem_map.mp hitem
    exact ⟨i, mem_range.mp hi, hsingle i (mem_range.mp hi)⟩
  have hvalues : ∀ item ∈ hosts, ValueOk (fun _ => true) item := by
    intro item hitem
    obtain ⟨i, -, halias⟩ := hitems item hitem
    unfold hostAliases at halias
    split at halias
    · rename_i hentry
      exact ⟨_, hentry⟩
    · cases halias
  have hnext : ((range 64).all fun i =>
      aliasOf (trie.search .inserted) (name i) == some (name (i + 1)) &&
        toAsciiLowercase (name i) == name i) = true ∧
      aliasOf (trie.search .inserted) (name 64) = none := by
    decide +kernel
  simp only [all_eq_true, mem_range, Bool.and_eq_true, beq_iff_eq] at hnext
  obtain ⟨hnext, hlast⟩ := hnext
  have hchain := fun i hi => @chain_of_seq _ (aliasOf (trie.search .inserted)) name 64
    (fun i hi => (hnext i hi).1) hlast i hi
  have hbuild : buildHostsTrie .asciiOnly .inserted (fun _ => true) (some hosts) = .ok trie := by
    refine (buildHostsTrie_eq_ok_iff _).mpr ⟨hvalues, rfl, fun item hitem => ?_⟩
    -- each alias is the one of the name before
    obtain ⟨host, hhost, hmem⟩ := mem_flatMap.mp hitem
    obtain ⟨i, hi, halias⟩ := hitems host hhost
    rw [halias, mem_singleton] at hmem
    subst hmem
    refine ⟨_, hchain (i + 1) hi, ?_⟩
    rw [(hnext i hi).2]
    exact fun hmem => (hchain i (Nat.le_of_lt hi)).not_transGen
      (.head' (hnext i hi).1 ((hchain (i + 1) hi).reach_of_mem hmem))
  have hnone : lookupHostsEntry (trie.search .inserted) (name 0) = none := by
    rw [lookupHostsEntry, lookupLoop_eq (hchain 0 (by omega)), if_neg (by simp)]
  refine ⟨trie, hbuild, (hnext 0 (by omega)).1, hnone, ?_⟩
  rintro ⟨names, hnames, hend⟩
  rw [hnone, hnames.unique (hchain 0 (by omega))] at hend
  exact endOf_ne_none (by simp) hend.symm

end End

end Meow.Dns
