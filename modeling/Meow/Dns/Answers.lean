import Meow.Lib.Chain
import Meow.Lib.Maps
import Meow.Net.IpAddr

/-!
# The addresses of a DNS answer

The answer section of a response is a bag of records in any order. The client collects the `CNAME`
records in a table of links, follows the links from the name that was asked for, and takes the
address records of the names it came by. A name with two canonical names, or one that leads back to
itself, makes the answer useless.

What this is for is said over the records alone: the path of canonical names, each the only one of
the name before, that ends at a name without one. Names are those of `hickory_proto`, of which only
the two operations that make their canonical spelling are used.

## Main definitions

* `relevantIpAnswers`, `classifyFamilyMessage` — the client's code.
* `CnamePath` — the path of canonical names.

## Main results

* `walkLinks_spec` — what the loop over the links finds.
* `relevantIpAnswers_path` — the addresses and their lifetime.
-/

namespace Meow.Dns.Client

open List Option AList Set

/-! ### Messages -/

/-- The operations of `hickory_proto::rr::Name` that are used. -/
structure NameOps (Name : Type) where
  toLowercase : Name → Name
  setFqdn : Bool → Name → Name

inductive RecordType where
  | a
  | aaaa
  | other (code : ℕ)
  deriving DecidableEq

/-- The data of a record, as far as the client looks at it. -/
inductive RData (Name : Type) where
  | a (address : BitVec 32)
  | aaaa (address : BitVec 128)
  | cname (target : Name)
  | soa (minimum : ℕ)
  | other
  deriving DecidableEq

structure Record (Name : Type) where
  name : Name
  dnsClass : ℕ
  ttl : ℕ
  data : RData Name
  deriving DecidableEq

structure Query (Name : Type) where
  name : Name
  queryType : RecordType
  queryClass : ℕ
  deriving DecidableEq

inductive ResponseCode where
  | noError
  | nxDomain
  | other (code : ℕ)
  deriving DecidableEq

structure Message (Name : Type) where
  responseCode : ResponseCode
  queries : List (Query Name)
  answers : List (Record Name)
  authorities : List (Record Name)
  deriving DecidableEq

/-- The answer for one family. -/
inductive FamilyAnswer where
  | answer (ips : List IpAddr) (ttl : ℕ)
  | noData (ttl : ℕ)
  | nxDomain (ttl : ℕ)
  | failed
  deriving DecidableEq

/-! ### The client's code -/

section Code

variable {Name : Type} [DecidableEq Name] (ops : NameOps Name)

def ipFromRecord (rec : Record Name) : Option IpAddr :=
  match rec.data with
  | .a address => some (.v4 address)
  | .aaaa address => some (.v6 address)
  | _ => none

def canonicalName (name : Name) : Name := ops.setFqdn true (ops.toLowercase name)

/-- The least of the lifetimes so far and one more. -/
def minTtl (best : Option ℕ) (ttl : ℕ) : Option ℕ := some (best.elim ttl fun b => min b ttl)

def negativeTtl (message : Message Name) : ℕ :=
  (message.authorities.foldl (fun best record =>
    match record.data with
    | .soa minimum => minTtl best (min record.ttl minimum)
    | _ => best) none).getD 0

structure CnameLink (Name : Type) where
  target : Name
  ttl : ℕ
  ambiguous : Bool
  deriving DecidableEq

/-- The table of links: `HashMap<Name, CnameLink>`. -/
abbrev CnameLinks (Name : Type) := AList fun _ : Name => CnameLink Name

/-- Enter a `CNAME` record. -/
def addLink (links : CnameLinks Name) (owner target : Name) (ttl : ℕ) : CnameLinks Name :=
  match links.lookup owner with
  | none => links.insert owner ⟨target, ttl, false⟩
  | some link =>
    if link.target = target then links.insert owner { link with ttl := min link.ttl ttl }
    else links.insert owner { link with ambiguous := true }

/-- The loop over the answer section that collects the links. -/
def cnameLinks (question : Query Name) (answers : List (Record Name)) : CnameLinks Name :=
  answers.foldl (fun links record =>
    if record.dnsClass ≠ question.queryClass then links
    else
      match record.data with
      | .cname target =>
        addLink links (canonicalName ops record.name) (canonicalName ops target) record.ttl
      | _ => links) ∅

/-- The loop that follows the links: the names it came by, and the least lifetime. There is nothing
if it came by a name twice, or by one with two canonical names. -/
def walkLinks (links : CnameLinks Name) :
    ℕ → List Name → Name → Option ℕ → Option (List Name × Option ℕ)
  | 0, _, _, _ => none
  | fuel + 1, reachable, current, cnameTtl =>
    if current ∈ reachable then none
    else
      match links.lookup current with
      | none => some (reachable ++ [current], cnameTtl)
      | some link =>
        if link.ambiguous then none
        else walkLinks links fuel (reachable ++ [current]) link.target (minTtl cnameTtl link.ttl)

/-- The record is of the type that was asked for. -/
def matchesQuery (record : Record Name) (queryType : RecordType) : Bool :=
  match record.data, queryType with
  | .a _, .a => true
  | .aaaa _, .aaaa => true
  | _, _ => false

/-- The loop over the answer section that collects the addresses. -/
def collectAddrs (question : Query Name) (reachable : List Name) (answers : List (Record Name))
    (ttl : Option ℕ) : List IpAddr × Option ℕ :=
  answers.foldl (fun acc record =>
    if record.dnsClass ≠ question.queryClass ∨ canonicalName ops record.name ∉ reachable then acc
    else if matchesQuery record question.queryType then
      (acc.1 ++ (ipFromRecord record).toList, minTtl acc.2 record.ttl)
    else acc) ([], ttl)

/-- `relevant_ip_answers`. A walk over the links takes at most one turn for each link, and one
more. -/
def relevantIpAnswers (message : Message Name) : List IpAddr × Option ℕ :=
  match message.queries.head? with
  | none => ([], none)
  | some question =>
    if question.queryType ≠ .a ∧ question.queryType ≠ .aaaa then ([], none)
    else
      let links := cnameLinks ops question message.answers
      match walkLinks links (links.keys.length + 1) [] (canonicalName ops question.name) none with
      | none => ([], none)
      | some (reachable, cnameTtl) => collectAddrs ops question reachable message.answers cnameTtl

def classifyFamilyMessage (message : Message Name) : FamilyAnswer :=
  match message.responseCode with
  | .noError =>
    let (ips, ttl) := relevantIpAnswers ops message
    if ips = [] then .noData (negativeTtl message) else .answer ips (ttl.getD 0)
  | .nxDomain => .nxDomain (negativeTtl message)
  | .other _ => .failed

end Code

/-! ### The path of canonical names -/

section Path

variable {Name : Type} (ops : NameOps Name) (question : Query Name) (answers : List (Record Name))

/-- A record of the class that was asked for says that `target` is the canonical name of `owner`. -/
def Links (owner target : Name) : Prop :=
  ∃ record ∈ answers, record.dnsClass = question.queryClass ∧
    canonicalName ops record.name = owner ∧
    ∃ name, record.data = .cname name ∧ canonicalName ops name = target

/-- **The path of canonical names**: each is the only one of the name before, and the last name has
none. -/
inductive CnamePath : Name → List Name → Prop where
  | last {name : Name} (h : ∀ target, ¬Links ops question answers name target) :
      CnamePath name [name]
  | link {name target : Name} {names : List Name} (h : Links ops question answers name target)
      (honly : ∀ target', Links ops question answers name target' → target' = target)
      (hrest : CnamePath target names) : CnamePath name (name :: names)

/-- A name that the canonical names lead to has two different ones. -/
def Ambiguous (name : Name) : Prop :=
  ∃ owner, Relation.ReflTransGen (Links ops question answers) name owner ∧
    ∃ target target', Links ops question answers owner target ∧
      Links ops question answers owner target' ∧ target ≠ target'

/-- The canonical names lead to one that leads back to itself. -/
def Looping (name : Name) : Prop :=
  ∃ owner, Relation.ReflTransGen (Links ops question answers) name owner ∧
    Relation.TransGen (Links ops question answers) owner owner

/-- An address record of the type and class that were asked for, owned by one of the names. -/
def IsAddress (names : List Name) (record : Record Name) : Prop :=
  record.dnsClass = question.queryClass ∧ canonicalName ops record.name ∈ names ∧
    matchesQuery record question.queryType = true

/-- A `CNAME` record of the class that was asked for, owned by one of the names. -/
def IsLink (names : List Name) (record : Record Name) : Prop :=
  record.dnsClass = question.queryClass ∧ canonicalName ops record.name ∈ names ∧
    ∃ target, record.data = .cname target

/-- The lifetimes of the records that are used. -/
def usedTtls (names : List Name) : Set ℕ :=
  { ttl | ∃ record ∈ answers, record.ttl = ttl ∧
    (IsLink ops question names record ∨ IsAddress ops question names record) }

end Path

/-! ### The table of links -/

section Table

variable {Name : Type} [DecidableEq Name]

/-- **What the table has under each name**, told from the entries: the target of the first, whether
there is another target, and the least lifetime of the entries with that target. -/
def LinksOk (entries : List (Name × Name × ℕ)) (links : CnameLinks Name) : Prop :=
  ∀ name, match links.lookup name with
    | none => ∀ e ∈ entries, e.1 ≠ name
    | some link =>
      (∃ e ∈ entries, e.1 = name ∧ e.2.1 = link.target) ∧
        (link.ambiguous = true ↔ ∃ e ∈ entries, e.1 = name ∧ e.2.1 ≠ link.target) ∧
        IsLeast { ttl | ∃ e ∈ entries, e.1 = name ∧ e.2.1 = link.target ∧ e.2.2 = ttl } link.ttl

omit [DecidableEq Name] in
/-- Something is said of one of the entries before, or of the last one. -/
lemma exists_mem_concat {α : Type} {l : List α} {x : α} {P : α → Prop} :
    (∃ e ∈ l ++ [x], P e) ↔ (∃ e ∈ l, P e) ∨ P x := by
  simp [or_and_right, exists_or]

/-- One entry. -/
lemma LinksOk.addLink {entries : List (Name × Name × ℕ)} {links : CnameLinks Name}
    (h : LinksOk entries links) (owner target : Name) (ttl : ℕ) :
    LinksOk (entries ++ [(owner, target, ttl)]) (addLink links owner target ttl) := by
  intro name
  have hname := h name
  by_cases hne : name = owner
  · subst hne
    fun_cases Client.addLink links name target ttl with
    | case1 hlookup =>
      rw [hlookup] at hname
      have hnone : ∀ P : Name × Name × ℕ → Prop, ¬∃ e ∈ entries, e.1 = name ∧ P e :=
        fun P ⟨e, he, howner, _⟩ => hname e he howner
      simp only [lookup_insert, exists_mem_concat, hnone, false_or]
      exact ⟨by simp, by simp, by simp, fun t ht => ht.2.2.le⟩
    | case2 link hlookup hsame =>
      subst hsame
      rw [hlookup] at hname
      obtain ⟨hfirst, hambiguous, hleast⟩ := hname
      simp only [lookup_insert, exists_mem_concat]
      refine ⟨.inl hfirst, by simpa using hambiguous, ?_⟩
      simpa [ofPred_or, eq_comm] using hleast.union isLeast_singleton
    | case3 link hlookup hsame =>
      rw [hlookup] at hname
      obtain ⟨hfirst, hambiguous, hleast⟩ := hname
      simp only [lookup_insert, exists_mem_concat]
      exact ⟨.inl hfirst, by simp [Ne.symm hsame], by simpa [Ne.symm hsame] using hleast⟩
  · -- the entries of another name are the same
    have hlookup : (Client.addLink links owner target ttl).lookup name = links.lookup name := by
      fun_cases Client.addLink links owner target ttl <;> exact lookup_insert_ne hne
    rw [hlookup]
    cases hold : links.lookup name with
    | none =>
      rw [hold] at hname
      simpa [or_imp, forall_and, Ne.symm hne] using hname
    | some link =>
      rw [hold] at hname
      simpa [exists_mem_concat, Ne.symm hne] using hname

/-- **The table of all entries.** -/
lemma linksOk_foldl (entries : List (Name × Name × ℕ)) :
    LinksOk entries (entries.foldl (fun links e => addLink links e.1 e.2.1 e.2.2) ∅) := by
  induction entries using reverseRecOn with
  | nil =>
    intro name
    exact fun e he => absurd he not_mem_nil
  | append_singleton entries e ih =>
    rw [foldl_append]
    exact ih.addLink e.1 e.2.1 e.2.2

end Table

/-! ### The walk over the links -/

section Walk

variable {Name : Type} [DecidableEq Name]

/-- The name after another one in the table. -/
def nextName (links : CnameLinks Name) (name : Name) : Option Name :=
  (links.lookup name).map CnameLink.target

lemma mem_keys_of_nextName {links : CnameLinks Name} {name} (h : nextName links name ≠ none) :
    name ∈ links.keys := by
  rw [nextName, Ne, map_eq_none_iff] at h
  exact lookup_isSome.mp (isSome_iff_ne_none.mpr h)

/-- The lifetimes of the links of some names. -/
def linkTtls (links : CnameLinks Name) (names : List Name) : Set ℕ :=
  { ttl | ∃ name ∈ names, ∃ link, links.lookup name = some link ∧ link.ttl = ttl }

/-- **What the loop over the links finds**: the chain from the name, with the least lifetime of its
links; or that the links lead to a name with two canonical names, or go round in a circle. -/
lemma walkLinks_spec (links : CnameLinks Name) {fuel} {reachable : List Name} {current cnameTtl}
    (h : Visited (nextName links) links.keys reachable current)
    (hfuel : links.keys.length < reachable.length + fuel) :
    match walkLinks links fuel reachable current cnameTtl with
    | some (names, ttl) => ∃ path, names = reachable ++ path ∧
        Chain (nextName links) current path ∧
        (∀ name ∈ path, ∀ link, links.lookup name = some link → link.ambiguous = false) ∧
        ∀ S, LeastIn S cnameTtl → LeastIn (S ∪ linkTtls links path) ttl
    | none => ∃ name, Relation.ReflTransGen (Follows (nextName links)) current name ∧
        ((∃ link, links.lookup name = some link ∧ link.ambiguous) ∨
          Relation.TransGen (Follows (nextName links)) name name) := by
  fun_induction walkLinks links fuel reachable current cnameTtl with
  | case1 => exact absurd h.length_le (by omega)
  | case2 _ _ current _ hseen => exact ⟨current, .refl, .inr (h.leads current hseen)⟩
  | case3 _ _ current _ hseen hlookup =>
    have hnext : nextName links current = none := by rw [nextName, hlookup]; rfl
    refine ⟨[current], rfl, .last hnext, fun name hname link hlink => ?_, fun S hS => ?_⟩
    · rw [mem_singleton.mp hname, hlookup] at hlink
      cases hlink
    · have hempty : linkTtls links [current] = ∅ := by simp [linkTtls, hlookup]
      rw [hempty, union_empty]
      exact hS
  | case4 _ _ current _ _ link hlookup hambiguous =>
    exact ⟨current, .refl, .inl ⟨link, hlookup, hambiguous⟩⟩
  | case5 fuel reachable current cnameTtl hseen link hlookup hambiguous ih =>
    have hnext : nextName links current = some link.target := by rw [nextName, hlookup]; rfl
    have hspec := ih (h.step mem_keys_of_nextName hseen hnext)
      (by rw [length_append, length_singleton]; omega)
    generalize walkLinks links fuel (reachable ++ [current]) link.target
      (minTtl cnameTtl link.ttl) = result at hspec
    cases result with
    | none =>
      obtain ⟨name, hreach, hcase⟩ := hspec
      exact ⟨name, .head hnext hreach, hcase⟩
    | some found =>
      obtain ⟨path, hnames, hchain, hunambiguous, hleast⟩ := hspec
      refine ⟨current :: path, by simpa using hnames, .link hnext hchain,
        fun name hname link' hlink' => ?_, fun S hS => ?_⟩
      · rcases mem_cons.mp hname with rfl | hname
        · rw [hlookup] at hlink'
          rw [← some.inj hlink']
          exact Bool.not_eq_true _ ▸ hambiguous
        · exact hunambiguous name hname link' hlink'
      · have hset : linkTtls links (current :: path) = {link.ttl} ∪ linkTtls links path := by
          ext t
          simp [linkTtls, hlookup, eq_comm]
        rw [hset, ← union_assoc]
        exact hleast _ (hS.insert link.ttl)

end Walk

/-! ### The addresses -/

section Addresses

variable {Name : Type} {ops : NameOps Name} {question : Query Name}

/-- The entry of a record in the table of links. -/
def linkOf (ops : NameOps Name) (question : Query Name) (record : Record Name) :
    Option (Name × Name × ℕ) :=
  if record.dnsClass ≠ question.queryClass then none
  else
    match record.data with
    | .cname target =>
      some (canonicalName ops record.name, canonicalName ops target, record.ttl)
    | _ => none

lemma linkOf_eq_some_iff {record : Record Name} {e} :
    linkOf ops question record = some e ↔ record.dnsClass = question.queryClass ∧
      canonicalName ops record.name = e.1 ∧
      (∃ name, record.data = .cname name ∧ canonicalName ops name = e.2.1) ∧
      record.ttl = e.2.2 := by
  obtain ⟨owner, target, ttl⟩ := e
  unfold linkOf
  split_ifs with hclass
  · simp [hclass]
  · cases hdata : record.data <;> simp_all

variable {answers : List (Record Name)}

/-- The links of the records are those of the entries. -/
lemma links_iff {owner target} : Links ops question answers owner target ↔
      ∃ e ∈ answers.filterMap (linkOf ops question), e.1 = owner ∧ e.2.1 = target := by
  simp only [mem_filterMap, linkOf_eq_some_iff]
  constructor
  · rintro ⟨record, hmem, hclass, howner, hdata⟩
    exact ⟨(owner, target, record.ttl), ⟨record, hmem, hclass, howner, hdata, rfl⟩, rfl, rfl⟩
  · rintro ⟨e, ⟨record, hmem, hclass, howner, hdata, -⟩, rfl, rfl⟩
    exact ⟨record, hmem, hclass, howner, hdata⟩

variable {names : List Name}

section

variable {name : Name} (h : CnamePath ops question answers name names)
include h

/-- **A path has no name with two canonical names, and no circle.** -/
lemma CnamePath.not_bad :
    ¬(Ambiguous ops question answers name ∨ Looping ops question answers name) := by
  rw [not_or]
  induction h with
  | last hnone =>
    constructor
    · rintro ⟨owner, hreach, target, -, htarget, -, -⟩
      rcases Relation.ReflTransGen.cases_head hreach with rfl | ⟨c, hc, -⟩
      · exact hnone _ htarget
      · exact hnone _ hc
    · rintro ⟨owner, hreach, hcircle⟩
      obtain ⟨d, hd, -⟩ := Relation.TransGen.head'_iff.mp hcircle
      rcases Relation.ReflTransGen.cases_head hreach with rfl | ⟨c, hc, -⟩
      · exact hnone _ hd
      · exact hnone _ hc
  | @link name target names hlink honly _ ih =>
    constructor
    · rintro ⟨owner, hreach, t, t', ht, ht', hne⟩
      rcases Relation.ReflTransGen.cases_head hreach with rfl | ⟨c, hc, hrest⟩
      · exact hne ((honly t ht).trans (honly t' ht').symm)
      · rw [honly c hc] at hrest
        exact ih.1 ⟨owner, hrest, t, t', ht, ht', hne⟩
    · rintro ⟨owner, hreach, hcircle⟩
      rcases Relation.ReflTransGen.cases_head hreach with rfl | ⟨c, hc, hrest⟩
      · -- the circle goes on from the next name
        obtain ⟨d, hd, hback⟩ := Relation.TransGen.head'_iff.mp hcircle
        rw [honly d hd] at hback
        exact ih.2 ⟨target, .refl, Relation.TransGen.tail' hback hlink⟩
      · rw [honly c hc] at hrest
        exact ih.2 ⟨owner, hrest, hcircle⟩

/-- There is one path. -/
lemma CnamePath.unique {names'} (h' : CnamePath ops question answers name names') :
    names = names' := by
  induction h generalizing names' with
  | last hnone =>
    cases h' with
    | last => rfl
    | link hlink => exact absurd hlink (hnone _)
  | link hlink honly _ ih =>
    cases h' with
    | last hnone => exact absurd hlink (hnone _)
    | link hlink' _ hrest' =>
      obtain rfl := honly _ hlink'
      rw [ih hrest']

end

variable [DecidableEq Name]

instance (names : List Name) (record : Record Name) :
    Decidable (IsAddress ops question names record) := inferInstanceAs (Decidable (_ ∧ _ ∧ _))

lemma cnameLinks_eq (answers : List (Record Name)) : cnameLinks ops question answers =
    (answers.filterMap (linkOf ops question)).foldl
      (fun links e => addLink links e.1 e.2.1 e.2.2) ∅ := by
  rw [cnameLinks, foldl_filterMap]
  congr 1
  funext links record
  unfold linkOf
  split_ifs
  · rfl
  · cases record.data <;> rfl

lemma linksOk_cnameLinks (answers : List (Record Name)) :
    LinksOk (answers.filterMap (linkOf ops question)) (cnameLinks ops question answers) := by
  rw [cnameLinks_eq]
  exact linksOk_foldl _

variable {name : Name}

/-- What the table says of a name without canonical names. -/
lemma not_links_of_lookup (h : (cnameLinks ops question answers).lookup name = none)
    (target : Name) : ¬Links ops question answers name target := by
  rw [links_iff]
  rintro ⟨e, he, howner, -⟩
  have hok := @linksOk_cnameLinks _ ops question _ answers name
  rw [h] at hok
  exact hok e he howner

/-- What the table says of a name with canonical names. -/
lemma links_of_lookup {link : CnameLink Name}
    (h : (cnameLinks ops question answers).lookup name = some link) :
    Links ops question answers name link.target ∧ (link.ambiguous = false ↔
      ∀ target, Links ops question answers name target → target = link.target) := by
  have hok := @linksOk_cnameLinks _ ops question _ answers name
  rw [h] at hok
  obtain ⟨hfirst, hambiguous, -⟩ := hok
  refine ⟨links_iff.mpr hfirst, ?_⟩
  rw [Bool.eq_false_iff, Ne, hambiguous]
  simp [links_iff]

/-- One step over the table is one link of the records. -/
lemma links_of_follows {target}
    (h : Follows (nextName (cnameLinks ops question answers)) name target) :
    Links ops question answers name target := by
  rw [Follows, nextName, map_eq_some_iff] at h
  obtain ⟨link, hlookup, rfl⟩ := h
  exact (links_of_lookup hlookup).1

/-- **A chain over the table without ambiguous links is the path.** -/
lemma cnamePath_of_chain (h : Chain (nextName (cnameLinks ops question answers)) name names)
    (hunambiguous : ∀ name ∈ names, ∀ link,
      (cnameLinks ops question answers).lookup name = some link → link.ambiguous = false) :
    CnamePath ops question answers name names := by
  induction h with
  | last hnone =>
    rw [nextName, map_eq_none_iff] at hnone
    exact .last (not_links_of_lookup hnone)
  | link hsome _ ih =>
    have hlink := hsome
    rw [nextName, map_eq_some_iff] at hlink
    obtain ⟨link, hlookup, rfl⟩ := hlink
    obtain ⟨htarget, hiff⟩ := links_of_lookup hlookup
    exact .link htarget (hiff.mp (hunambiguous _ mem_cons_self link hlookup))
      (ih fun name hname => hunambiguous name (mem_cons_of_mem _ hname))

/-- **The path, or why there is none.** The least lifetime of the links of the table is that of the
records. -/
lemma walk_cnameLinks (start : Name) :
    match walkLinks (cnameLinks ops question answers)
      ((cnameLinks ops question answers).keys.length + 1) [] start none with
    | some (names, ttl) => CnamePath ops question answers start names ∧
        LeastIn { t | ∃ record ∈ answers, record.ttl = t ∧ IsLink ops question names record } ttl
    | none => Ambiguous ops question answers start ∨ Looping ops question answers start := by
  have hspec := @walkLinks_spec _ _ (cnameLinks ops question answers)
    ((cnameLinks ops question answers).keys.length + 1) [] start none (.nil start)
    (by rw [length_nil]; omega)
  generalize walkLinks (cnameLinks ops question answers)
    ((cnameLinks ops question answers).keys.length + 1) [] start none = result at hspec
  cases result with
  | none =>
    obtain ⟨name, hreach, hcase⟩ := hspec
    have hreach' : Relation.ReflTransGen (Links ops question answers) start name :=
      Relation.ReflTransGen.mono (fun _ _ => links_of_follows) _ _ hreach
    rcases hcase with ⟨link, hlookup, hambiguous⟩ | hcircle
    · obtain ⟨htarget, hiff⟩ := links_of_lookup hlookup
      rw [← Bool.not_eq_false, hiff, not_forall] at hambiguous
      obtain ⟨target, hother⟩ := hambiguous
      obtain ⟨hother, hne⟩ := Classical.not_imp.mp hother
      exact .inl ⟨name, hreach', target, link.target, hother, htarget, hne⟩
    · exact .inr ⟨name, hreach', Relation.TransGen.mono (fun _ _ => links_of_follows) _ _ hcircle⟩
  | some found =>
    obtain ⟨path, rfl, hchain, hunambiguous, hleast⟩ := hspec
    refine ⟨cnamePath_of_chain hchain hunambiguous, ?_⟩
    have hlinks := hleast ∅ rfl
    rw [empty_union] at hlinks
    refine hlinks.mono ?_ ?_
    · -- the lifetime of a link is that of one of its records
      rintro t ⟨name, hname, link, hlookup, rfl⟩
      have hok := @linksOk_cnameLinks _ ops question _ answers name
      rw [hlookup] at hok
      obtain ⟨e, he, howner, -, httl⟩ := hok.2.2.1
      obtain ⟨record, hmem, hrecord⟩ := mem_filterMap.mp he
      obtain ⟨hclass, hname', ⟨target, hdata, -⟩, hrecordTtl⟩ := linkOf_eq_some_iff.mp hrecord
      refine ⟨record, hmem, hrecordTtl.trans httl, hclass, ?_, target, hdata⟩
      rw [hname', howner]
      exact hname
    · -- and no record of the name has a shorter one
      rintro t ⟨record, hmem, rfl, hclass, howner, target, hdata⟩
      have hlink := not_imp_not.mpr (fun h => @not_links_of_lookup _ ops question answers _
        (canonicalName ops record.name) h (canonicalName ops target))
        (not_not.mpr ⟨record, hmem, hclass, rfl, target, hdata, rfl⟩)
      obtain ⟨link, hlookup⟩ := ne_none_iff_exists'.mp hlink
      refine ⟨link.ttl, ⟨_, howner, link, hlookup, rfl⟩, ?_⟩
      have hok := @linksOk_cnameLinks _ ops question _ answers (canonicalName ops record.name)
      rw [hlookup] at hok
      refine hok.2.2.2 ⟨(canonicalName ops record.name, canonicalName ops target, record.ttl),
        mem_filterMap.mpr ⟨record, hmem, linkOf_eq_some_iff.mpr
          ⟨hclass, rfl, ⟨target, hdata, rfl⟩, rfl⟩⟩, rfl, ?_, rfl⟩
      -- an unambiguous link has one target
      exact (links_of_lookup hlookup).2.mp (hunambiguous _ howner link hlookup) _
        ⟨record, hmem, hclass, rfl, target, hdata, rfl⟩

/-- **The loop that collects the addresses.** -/
lemma collectAddrs_spec (names : List Name) (answers : List (Record Name)) {ttl S}
    (hS : LeastIn S ttl) :
    (collectAddrs ops question names answers ttl).1 =
      answers.filterMap (fun record =>
        if IsAddress ops question names record then ipFromRecord record else none) ∧
    LeastIn (S ∪ { t | ∃ record ∈ answers, record.ttl = t ∧ IsAddress ops question names record })
      (collectAddrs ops question names answers ttl).2 := by
  induction answers using reverseRecOn with
  | nil => exact ⟨rfl, by simpa [collectAddrs] using hS⟩
  | append_singleton answers record ih =>
    have hstep : collectAddrs ops question names (answers ++ [record]) ttl =
        if IsAddress ops question names record then
          ((collectAddrs ops question names answers ttl).1 ++ (ipFromRecord record).toList,
            minTtl (collectAddrs ops question names answers ttl).2 record.ttl)
        else collectAddrs ops question names answers ttl := by
      rw [collectAddrs, foldl_append, foldl_cons, ← collectAddrs]
      unfold IsAddress
      split_ifs <;> grind
    rw [hstep, filterMap_append, filterMap_cons]
    simp only [exists_mem_concat, ofPred_or]
    split_ifs with haddress
    · refine ⟨?_, by simpa [haddress, eq_comm, minTtl] using ih.2.insert record.ttl⟩
      rw [ih.1]
      cases ipFromRecord record <;> rfl
    · simpa [haddress] using ih

/-- What is accepted for a message with a question for addresses. -/
lemma relevantIpAnswers_cases {message : Message Name}
    (hquestion : message.queries.head? = some question)
    (htype : question.queryType = .a ∨ question.queryType = .aaaa) :
    (∃ names, CnamePath ops question message.answers (canonicalName ops question.name) names ∧
      (relevantIpAnswers ops message).1 = message.answers.filterMap (fun record =>
        if IsAddress ops question names record then ipFromRecord record else none) ∧
      LeastIn (usedTtls ops question message.answers names) (relevantIpAnswers ops message).2) ∨
    ((Ambiguous ops question message.answers (canonicalName ops question.name) ∨
      Looping ops question message.answers (canonicalName ops question.name)) ∧
      relevantIpAnswers ops message = ([], none)) := by
  unfold relevantIpAnswers
  rw [hquestion]
  simp only
  rw [if_neg (by rcases htype with h | h <;> rw [h] <;> decide)]
  have hwalk := @walk_cnameLinks _ ops question message.answers _ (canonicalName ops question.name)
  generalize walkLinks (cnameLinks ops question message.answers)
    ((cnameLinks ops question message.answers).keys.length + 1) []
    (canonicalName ops question.name) none = result at hwalk
  cases result with
  | none => exact .inr ⟨hwalk, rfl⟩
  | some found =>
    obtain ⟨names, ttl⟩ := found
    obtain ⟨hpath, hleast⟩ := hwalk
    obtain ⟨haddrs, httl⟩ := @collectAddrs_spec _ ops question _ names message.answers _ _ hleast
    refine .inl ⟨names, hpath, haddrs, ?_⟩
    convert httl using 1
    ext t
    simp [usedTtls, and_or_left, exists_or]

omit [DecidableEq Name] in
/-- The links do not depend on the order of the records. -/
lemma links_perm {answers answers' : List (Record Name)} (h : answers.Perm answers') :
    Links ops question answers = Links ops question answers' := by
  funext owner target
  simp only [Links, h.mem_iff]

omit [DecidableEq Name] in
lemma CnamePath.perm {answers answers' : List (Record Name)} (h : answers.Perm answers')
    (hpath : CnamePath ops question answers name names) :
    CnamePath ops question answers' name names := by
  induction hpath with
  | last hnone => exact .last (by rw [← links_perm h]; exact hnone)
  | link hlink honly _ ih =>
    rw [links_perm h] at hlink honly
    exact .link hlink honly ih

/-- **The addresses of an answer.** For a question for addresses the canonical names make one path,
or lead to a name with two different ones, or go round in a circle. With a path the addresses are
those of the records of the type and class that were asked for, owned by the names on the path, and
the lifetime is the least of these records and of the `CNAME` records of the path. Without one there
is no address. The order of the records does not matter: another order gives the same addresses, in
its own order, and the same lifetime. -/
theorem relevantIpAnswers_path (ops : NameOps Name) (message : Message Name)
    (question : Query Name) (hquestion : message.queries.head? = some question)
    (htype : question.queryType = .a ∨ question.queryType = .aaaa) :
    let start := canonicalName ops question.name
    let result := relevantIpAnswers ops message
    ((∃ names, CnamePath ops question message.answers start names) ↔
      ¬(Ambiguous ops question message.answers start ∨
        Looping ops question message.answers start)) ∧
    (∀ names, CnamePath ops question message.answers start names →
      (∀ names', CnamePath ops question message.answers start names' → names' = names) ∧
      result.1 = message.answers.filterMap (fun record =>
        if IsAddress ops question names record then ipFromRecord record else none) ∧
      LeastIn (usedTtls ops question message.answers names) result.2) ∧
    (Ambiguous ops question message.answers start ∨ Looping ops question message.answers start →
      result = ([], none) ∧ ∀ ips ttl, classifyFamilyMessage ops message ≠ .answer ips ttl) ∧
    ∀ message' : Message Name, message'.queries = message.queries →
      message'.answers.Perm message.answers →
        (relevantIpAnswers ops message').1.Perm result.1 ∧
          (relevantIpAnswers ops message').2 = result.2 := by
  intro start result
  have hcases := @relevantIpAnswers_cases _ ops question _ message hquestion htype
  refine ⟨⟨?_, fun hnot => ?_⟩, fun names hpath => ?_, fun hbad => ?_,
    fun message' hqueries hperm => ?_⟩
  · rintro ⟨names, hpath⟩
    exact hpath.not_bad
  · rcases hcases with ⟨names, hpath, -⟩ | ⟨hbad, -⟩
    · exact ⟨names, hpath⟩
    · exact absurd hbad hnot
  · refine ⟨fun names' hpath' => hpath'.unique hpath, ?_⟩
    rcases hcases with ⟨names', hpath', haddrs, httl⟩ | ⟨hbad, -⟩
    · rw [hpath.unique hpath']
      exact ⟨haddrs, httl⟩
    · exact absurd hbad hpath.not_bad
  · have hresult : result = ([], none) := by
      rcases hcases with ⟨names, hpath, -⟩ | ⟨-, hresult⟩
      · exact absurd hbad hpath.not_bad
      · exact hresult
    refine ⟨hresult, fun ips ttl hanswer => ?_⟩
    have hrelevant : relevantIpAnswers ops message = ([], none) := hresult
    unfold classifyFamilyMessage at hanswer
    rw [hrelevant] at hanswer
    cases hcode : message.responseCode <;> rw [hcode] at hanswer <;> simp at hanswer
  · have hcases' := @relevantIpAnswers_cases _ ops question _ message'
      (by rw [hqueries]; exact hquestion) htype
    rcases hcases' with ⟨names', hpath', haddrs', httl'⟩ | ⟨hbad', hresult'⟩
    · rcases hcases with ⟨names, hpath, haddrs, httl⟩ | ⟨hbad, -⟩
      · rw [(hpath'.perm hperm).unique hpath] at haddrs' httl'
        simp only [usedTtls, hperm.mem_iff] at httl'
        refine ⟨?_, httl'.unique httl⟩
        rw [haddrs']
        exact (hperm.filterMap _).trans (List.Perm.of_eq haddrs.symm)
      · exact absurd hbad (hpath'.perm hperm).not_bad
    · rcases hcases with ⟨names, hpath, -⟩ | ⟨-, hresult⟩
      · exact absurd hbad' (hpath.perm hperm.symm).not_bad
      · have hsame : result = ([], none) := hresult
        rw [hresult', hsame]
        exact ⟨List.Perm.refl _, rfl⟩

/-- The address record comes before the `CNAME` record that leads to it, or after it. -/
theorem relevantIpAnswers_path_swap :
    let ops : NameOps String := ⟨id, fun _ name => name⟩
    let cname : Record String := ⟨"www.", 1, 30, .cname "host."⟩
    let address : Record String := ⟨"host.", 1, 60, .a 7⟩
    let message : Message String := ⟨.noError, [⟨"www.", .a, 1⟩], [address, cname], []⟩
    let message' : Message String := ⟨.noError, [⟨"www.", .a, 1⟩], [cname, address], []⟩
    relevantIpAnswers ops message = ([.v4 7], some 30) ∧
      (relevantIpAnswers ops message').1.Perm (relevantIpAnswers ops message).1 ∧
      (relevantIpAnswers ops message').2 = (relevantIpAnswers ops message).2 := by
  intro ops cname address message message'
  exact ⟨by decide +kernel, (relevantIpAnswers_path ops message ⟨"www.", .a, 1⟩ rfl
    (.inl rfl)).2.2.2 message' rfl (List.Perm.swap _ _ _)⟩

end Addresses

end Meow.Dns.Client
