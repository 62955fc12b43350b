import Meow.Dns.Answers
import Meow.Dns.Cache

/-!
# Racing the nameservers of a tier

A lookup asks every nameserver of a tier at once and takes the replies as they come in. A reply with
an address ends the race. The first reply without one starts a grace period, after which the best
reply so far is taken: a definitive negative, or else the first reply that was no error.

A client that asks for one family never ends in an error: what went wrong is a family that failed.
Such a reply, too, starts the grace period, and an answer that comes in later is not waited for.

## Main definitions

* `lookupSet` — what a client makes of the replies of its nameserver.
* `queryPoolSet` — the race, over the replies in the order they come in.
* `inTime` — the replies that come in before the pool decides.

## Main results

* `queryPoolSet_eq` — the first positive reply in time, or else the first definitive one,
  or else the first.
* `queryPoolSet_law_iff` — when a failing server does not mask another one's answer.
-/

namespace Meow.Dns

open Option Bool

open Client (FamilyAnswer Message NameOps RecordType)

/-! ### What a client replies -/

/-- The errors of a client. -/
inductive ClientError where
  | timeout
  | io
  | rcode (code : ℕ)
  | protocol (message : String)
  deriving DecidableEq

/-- The answers for the families that were asked for. -/
structure FamilySet where
  v4 : Option FamilyAnswer
  v6 : Option FamilyAnswer
  source : String
  deriving DecidableEq

structure IpLookupResult where
  ips : List IpAddr
  ttl : ℕ
  v4 : Option FamilyAnswer
  v6 : Option FamilyAnswer
  deriving DecidableEq

inductive FamilyLookupResult where
  | response (result : IpLookupResult)
  | nxDomain (ttl : ℕ)
  deriving DecidableEq

section Client

variable {Name : Type} [DecidableEq Name] (ops : NameOps Name)

/-- `lookup_family`, given what became of the query. -/
def lookupFamily (recordType : RecordType) (reply : Except ClientError (Message Name)) :
    Except ClientError FamilyLookupResult := do
  if recordType ≠ .a ∧ recordType ≠ .aaaa then
    throw (.protocol "address family query must be A or AAAA")
  let message ← reply
  match message.responseCode with
  | .nxDomain => return .nxDomain (Client.negativeTtl message)
  | .other code => throw (.rcode code)
  | .noError =>
    let (ips, answerTtl) := Client.relevantIpAnswers ops message
    let ttl := if ips = [] then Client.negativeTtl message else answerTtl.getD 0
    return .response ⟨ips, ttl, none, none⟩

/-- `lookup_ip_with_ipv6_inner`, given what became of the two queries. A client that runs out of
time is one whose queries ended in an error. -/
def lookupIpWithIpv6 (ipv6Enabled : Bool) (replyA replyAaaa : Except ClientError (Message Name)) :
    Except ClientError IpLookupResult := do
  if !ipv6Enabled then
    let message ← replyA
    let answer := Client.classifyFamilyMessage ops message
    match answer with
    | .answer ips ttl => return ⟨ips, ttl, some answer, none⟩
    | .noData ttl | .nxDomain ttl => return ⟨[], ttl, some answer, none⟩
    | .failed => throw (.protocol "no response")
  else
    let v4 := replyA.toOption.map (Client.classifyFamilyMessage ops)
    let v6 := replyAaaa.toOption.map (Client.classifyFamilyMessage ops)
    -- a name that does not exist has neither kind of address
    if let some (.nxDomain ttl) := v4 then
      return ⟨[], ttl, v4, some (.nxDomain ttl)⟩
    let (addrs, best) := match v4 with
      | some (.answer ips ttl) => (ips, some ttl)
      | _ => ([], none)
    let (addrs, best) := match v6 with
      | some (.answer ips ttl) => (addrs ++ ips, Client.minTtl best ttl)
      | _ => (addrs, best)
    if v4 = none ∧ v6 = none then throw (.protocol "no response")
    return ⟨addrs, best.getD 0, v4, v6⟩

/-- `lookup_set`. With a single family an error becomes a family that failed. -/
def lookupSet (source : String) (want : QueryFamilies) (ipv6Enabled : Bool)
    (replyA replyAaaa : Except ClientError (Message Name)) : Except ClientError FamilySet :=
  if want = .both then
    (lookupIpWithIpv6 ops ipv6Enabled replyA replyAaaa).map fun result =>
      ⟨result.v4, result.v6, source⟩
  else if want = .ipv4 then
    .ok ⟨some (familyAnswer (lookupFamily ops .a replyA)), none, source⟩
  else if want = .ipv6 then
    .ok ⟨none, some (familyAnswer (lookupFamily ops .aaaa replyAaaa)), source⟩
  else .error (.protocol "lookup_set requires a single family or BOTH")
where
  familyAnswer : Except ClientError FamilyLookupResult → FamilyAnswer
    | .ok (.response r) => if r.ips = [] then .noData r.ttl else .answer r.ips r.ttl
    | .ok (.nxDomain ttl) => .nxDomain ttl
    | .error _ => .failed

end Client

/-! ### Kinds of replies -/

/-- `clamp_ttl`, in seconds. -/
def clampTtl (raw : ℕ) : ℕ := max 10 (min raw 3600)

namespace FamilyAnswer

def clamped : FamilyAnswer → FamilyAnswer
  | .answer ips ttl => .answer ips (clampTtl ttl)
  | .noData ttl => .noData (clampTtl ttl)
  | .nxDomain ttl => .nxDomain (clampTtl ttl)
  | .failed => .failed

/-- `Answer { ips, .. } if !ips.is_empty()`. -/
def isPositive : FamilyAnswer → Bool
  | .answer ips _ => !ips.isEmpty
  | _ => false

/-- `NoData(_) | NxDomain(_)`. -/
def isNegative : FamilyAnswer → Bool
  | .noData _ => true
  | .nxDomain _ => true
  | _ => false

variable (answer : FamilyAnswer)

@[simp] lemma isPositive_clamped : isPositive (clamped answer) = isPositive answer := by
  cases answer <;> rfl

@[simp] lemma isNegative_clamped : isNegative (clamped answer) = isNegative answer := by
  cases answer <;> rfl

end FamilyAnswer

namespace FamilySet

def hasPositive (self : FamilySet) : Bool :=
  self.v4.any FamilyAnswer.isPositive || self.v6.any FamilyAnswer.isPositive

def isDefinitiveNegative (self : FamilySet) (want : QueryFamilies) : Bool :=
  if want.bits = 0 then false
  else
    let v4Ok := !want.contains .ipv4 || self.v4.any FamilyAnswer.isNegative
    let v6Ok := !want.contains .ipv6 || self.v6.any FamilyAnswer.isNegative
    !self.hasPositive && v4Ok && v6Ok

def clamped (self : FamilySet) : FamilySet :=
  { self with v4 := self.v4.map FamilyAnswer.clamped, v6 := self.v6.map FamilyAnswer.clamped }

variable (self : FamilySet)

@[simp] lemma hasPositive_clamped : self.clamped.hasPositive = self.hasPositive := by
  simp only [hasPositive, clamped, any_map, FamilyAnswer.isPositive_clamped]

variable (want : QueryFamilies)

@[simp] lemma isDefinitiveNegative_clamped :
    self.clamped.isDefinitiveNegative want = self.isDefinitiveNegative want := by
  simp only [isDefinitiveNegative, hasPositive_clamped]
  simp only [clamped, any_map, FamilyAnswer.isNegative_clamped]

lemma not_hasPositive_of_isDefinitiveNegative {self : FamilySet} {want}
    (h : self.isDefinitiveNegative want) : self.hasPositive = false := by
  unfold isDefinitiveNegative at h
  split at h
  · cases h
  · simp only [and_eq_true, not_eq_true'] at h
    exact h.1.1

/-- The reply settles the question: it has an address, or there is none. -/
def answers (self : FamilySet) (want : QueryFamilies) : Bool :=
  self.hasPositive || self.isDefinitiveNegative want

@[simp] lemma answers_clamped : self.clamped.answers want = self.answers want := by
  simp only [answers, hasPositive_clamped, isDefinitiveNegative_clamped]

end FamilySet

open FamilySet

/-! ### The race -/

/-- What became of one client, and when, in milliseconds. -/
structure Arrival where
  time : ℕ
  result : Except ClientError FamilySet

/-- The grace period, in milliseconds. -/
def negativeGracePeriod : ℕ := 300

/-- The loop of `query_pool_set`, over the clients in the order in which they complete. -/
def poolLoop (want : QueryFamilies) :
    Option FamilySet → Option ℕ → ℕ → List Arrival → Option FamilySet
  | negative, _, _, [] => negative
  | negative, deadline, now, arrival :: rest =>
    -- the wait for the next client is cut short at the deadline
    if deadline.any fun d => decide (d ≤ now) || decide (d < arrival.time) then negative
    else
      match arrival.result with
      | .error _ => poolLoop want negative deadline arrival.time rest
      | .ok set =>
        let set := set.clamped
        if set.hasPositive then some set
        else if negative = none then
          poolLoop want (some set) (some (arrival.time + negativeGracePeriod)) arrival.time rest
        else if set.isDefinitiveNegative want &&
            !negative.any fun kept => kept.isDefinitiveNegative want then
          poolLoop want (some set) deadline arrival.time rest
        else poolLoop want negative deadline arrival.time rest

def queryPoolSet (want : QueryFamilies) (arrivals : List Arrival) : Option FamilySet :=
  if arrivals = [] then none else poolLoop want none none 0 arrivals

/-! ### The replies that are looked at -/

/-- Those that come in until the deadline. -/
def untilDeadline (deadline : ℕ) : List Arrival → List Arrival
  | [] => []
  | arrival :: rest =>
    if deadline < arrival.time then []
    else if deadline ≤ arrival.time then [arrival]
    else arrival :: untilDeadline deadline rest

/-- **The replies that come in before the pool decides**: up to the first that is no error, and then
those within the grace period after it. -/
def inTime : List Arrival → List Arrival
  | [] => []
  | arrival :: rest =>
    arrival :: match arrival.result with
      | .error _ => inTime rest
      | .ok _ => untilDeadline (arrival.time + negativeGracePeriod) rest

/-- The replies that are no errors. -/
def replies (arrivals : List Arrival) : List FamilySet :=
  arrivals.filterMap fun arrival => arrival.result.toOption

@[simp] lemma replies_nil : replies [] = [] := rfl

lemma replies_cons_error {arrival : Arrival} {rest e} (h : arrival.result = .error e) :
    replies (arrival :: rest) = replies rest := by
  simp [replies, h, Except.toOption]

variable {set : FamilySet}

lemma replies_cons_ok {arrival : Arrival} {rest} (h : arrival.result = .ok set) :
    replies (arrival :: rest) = set :: replies rest := by
  simp [replies, h, Except.toOption]

variable {arrivals : List Arrival}

lemma mem_replies : set ∈ replies arrivals ↔ ∃ arrival ∈ arrivals, arrival.result = .ok set := by
  simp only [replies, List.mem_filterMap]
  refine exists_congr fun arrival => and_congr_right fun _ => ?_
  cases arrival.result with
  | error | ok => simp [Except.toOption]

lemma untilDeadline_init (deadline : ℕ) (arrivals : List Arrival) :
    untilDeadline deadline arrivals <+: arrivals := by
  induction arrivals with
  | nil => exact List.nil_prefix
  | cons arrival rest ih =>
    rw [untilDeadline]
    split
    · exact List.nil_prefix
    · split
      · exact (List.prefix_cons_inj arrival).mpr List.nil_prefix
      · exact (List.prefix_cons_inj arrival).mpr ih

lemma inTime_init (arrivals : List Arrival) : inTime arrivals <+: arrivals := by
  induction arrivals with
  | nil => exact List.nil_prefix
  | cons arrival rest ih =>
    rw [inTime, List.prefix_cons_inj]
    split
    · exact ih
    · exact untilDeadline_init _ rest

/-! ### What the race ends with -/

/-- The best of some replies: the first with an address, or else the first definitive negative, or
else the first. -/
def best (want : QueryFamilies) (sets : List FamilySet) : Option FamilySet :=
  (sets.find? FamilySet.hasPositive).or
    ((sets.find? fun set => set.isDefinitiveNegative want).or sets.head?)

section Best

variable {want : QueryFamilies} {kept : FamilySet} {sets : List FamilySet}

lemma best_of_hasPositive (h : set.hasPositive) : best want (set :: sets) = some set := by
  simp [best, h]

lemma best_singleton : best want [kept] = some kept := by
  cases hpositive : kept.hasPositive <;> cases hdefinitive : kept.isDefinitiveNegative want <;>
    simp [best, hpositive, hdefinitive]

/-- An address ends the race, whatever is kept. -/
lemma best_cons_of_hasPositive (hkept : kept.hasPositive = false) (h : set.hasPositive) :
    best want (kept :: set :: sets) = some set := by
  simp [best, hkept, h]

/-- A definitive negative takes the place of a reply that is none. -/
lemma best_cons_of_definitive (hkept : kept.hasPositive = false)
    (hweak : kept.isDefinitiveNegative want = false) (h : set.isDefinitiveNegative want) :
    best want (kept :: set :: sets) = best want (set :: sets) := by
  have hset := not_hasPositive_of_isDefinitiveNegative h
  simp [best, hkept, hweak, h, hset]

/-- Between replies of one kind the first is kept. -/
lemma best_cons_of_kept (hset : set.hasPositive = false)
    (h : set.isDefinitiveNegative want → kept.isDefinitiveNegative want) :
    best want (kept :: set :: sets) = best want (kept :: sets) := by
  cases hpositive : kept.hasPositive with
  | true => rw [best_of_hasPositive hpositive, best_of_hasPositive hpositive]
  | false =>
    cases hkept : kept.isDefinitiveNegative want with
    | true => simp [best, hpositive, hset, hkept]
    | false =>
      have hdefinitive : set.isDefinitiveNegative want = false := by
        by_contra hne
        exact absurd (h (by simpa using hne)) (by simp [hkept])
      simp [best, hpositive, hset, hkept, hdefinitive]

/-- The best reply is one of them. -/
lemma mem_of_best (h : best want sets = some set) : set ∈ sets := by
  rcases or_eq_some_iff.mp h with h | ⟨-, h⟩
  · exact List.mem_of_find?_eq_some h
  · rcases or_eq_some_iff.mp h with h | ⟨-, h⟩
    · exact List.mem_of_find?_eq_some h
    · exact List.mem_of_mem_head? h

/-- A first choice that is not taken has no candidate. -/
lemma none_of_find?_or {p other} (h : (sets.find? p).or other = some set) (hset : p set = false) :
    (∀ s ∈ sets, p s = false) ∧ other = some set := by
  cases hfind : sets.find? p with
  | none =>
    rw [hfind, none_or] at h
    exact ⟨fun s hs => by simpa using List.find?_eq_none.mp hfind s hs, h⟩
  | some found =>
    rw [hfind, some_or, some_inj] at h
    have hfound := List.find?_some hfind
    rw [h, hset] at hfound
    cases hfound

/-- If some reply answers, so does the best. -/
lemma answers_of_best (h : best want sets = some set) (hnot : set.answers want = false) :
    ∀ other ∈ sets, other.answers want = false := by
  simp only [answers, or_eq_false_iff] at hnot ⊢
  obtain ⟨hpositive, h⟩ := none_of_find?_or h hnot.1
  obtain ⟨hnegative, -⟩ := none_of_find?_or h hnot.2
  exact fun other hother => ⟨hpositive other hother, hnegative other hother⟩

lemma best_eq_none : best want sets = none ↔ sets = [] := by
  constructor
  · intro h
    rw [best, or_eq_none_iff, or_eq_none_iff] at h
    exact List.head?_eq_none_iff.mp h.2.2
  · rintro rfl
    rfl

end Best

variable (want : QueryFamilies)

/-- **A reply is kept**: the race ends with the best of it and of those until the deadline.

**Proof sketch.** By induction on the clients that are left. A reply with an address is the best; a
definitive negative that takes the place of the one that is kept is the better of the two, and the
better of the two is kept otherwise. -/
lemma poolLoop_kept (deadline : ℕ) (arrivals : List Arrival) :
    ∀ (kept : FamilySet) (now : ℕ), kept.hasPositive = false → now < deadline →
      poolLoop want (some kept.clamped) (some deadline) now arrivals =
        (best want (kept :: replies (untilDeadline deadline arrivals))).map clamped := by
  induction arrivals with
  | nil =>
    intro kept now _ _
    rw [poolLoop, untilDeadline, replies_nil, best_singleton, map_some]
  | cons arrival rest ih =>
    intro kept now hkept hnow
    by_cases hlate : deadline < arrival.time
    · rw [poolLoop, if_pos (by simp [hlate]), untilDeadline, if_pos hlate, replies_nil,
        best_singleton, map_some]
    -- after a reply at the deadline itself the loop returns at once
    have hnext : ∀ kept : FamilySet, kept.hasPositive = false →
        poolLoop want (some kept.clamped) (some deadline) arrival.time rest =
          (best want (kept :: replies (if deadline ≤ arrival.time then []
            else untilDeadline deadline rest))).map clamped := by
      intro kept hkept
      by_cases hend : deadline ≤ arrival.time
      · rw [if_pos hend, replies_nil, best_singleton, map_some]
        cases rest with
        | nil => rw [poolLoop]
        | cons next rest => rw [poolLoop, if_pos (by simp [hend])]
      · rw [if_neg hend]
        exact ih kept arrival.time hkept (Nat.lt_of_not_le hend)
    have hwindow : untilDeadline deadline (arrival :: rest) =
        arrival :: (if deadline ≤ arrival.time then [] else untilDeadline deadline rest) := by
      rw [untilDeadline, if_neg hlate]
      split <;> rfl
    rw [poolLoop, if_neg (by simp [Nat.not_le.mpr hnow, hlate]), hwindow]
    cases hresult : arrival.result with
    | error e =>
      rw [replies_cons_error hresult]
      exact hnext kept hkept
    | ok set =>
      rw [replies_cons_ok hresult]
      simp only [hasPositive_clamped, isDefinitiveNegative_clamped,
        any_some, reduceCtorEq, if_false]
      cases hset : set.hasPositive with
      | true => rw [if_pos rfl, best_cons_of_hasPositive hkept hset, map_some]
      | false =>
        rw [if_neg (by simp)]
        by_cases hbetter : (set.isDefinitiveNegative want &&
            !kept.isDefinitiveNegative want) = true
        · rw [if_pos hbetter, hnext set hset]
          simp only [and_eq_true, not_eq_true'] at hbetter
          rw [best_cons_of_definitive hkept hbetter.2 hbetter.1]
        · rw [if_neg hbetter, hnext kept hkept, best_cons_of_kept hset]
          intro hdefinitive
          simpa [hdefinitive] using hbetter

/-- No reply yet: errors are passed by. -/
lemma poolLoop_none (arrivals : List Arrival) (now : ℕ) :
    poolLoop want none none now arrivals =
      (best want (replies (inTime arrivals))).map clamped := by
  induction arrivals generalizing now with
  | nil => rfl
  | cons arrival rest ih =>
    rw [poolLoop, if_neg (by simp), inTime]
    cases hresult : arrival.result with
    | error e =>
      rw [replies_cons_error hresult]
      exact ih arrival.time
    | ok set =>
      rw [replies_cons_ok hresult]
      simp only [hasPositive_clamped]
      cases hset : set.hasPositive with
      | true => rw [if_pos rfl, best_of_hasPositive hset, map_some]
      | false =>
        exact poolLoop_kept want _ rest set arrival.time hset
          (Nat.lt_add_of_pos_right (by decide))

/-- **What the race ends with**: of the replies that come in in time the first with an address, or
else the first definitive negative, or else the first. -/
theorem queryPoolSet_eq (arrivals : List Arrival) :
    queryPoolSet want arrivals =
      (best want (replies (inTime arrivals))).map clamped := by
  unfold queryPoolSet
  split
  · rename_i h
    rw [h]
    rfl
  · exact poolLoop_none want arrivals 0

/-- **The race invents nothing and drops nothing**: it ends with the reply of a server that came in
in time, with the lifetimes bounded, and with none only if all that came in in time are errors. -/
theorem queryPoolSet_source (arrivals : List Arrival) :
    (∀ set ∈ queryPoolSet want arrivals, ∃ arrival ∈ inTime arrivals, ∃ given,
      arrival.result = .ok given ∧ set = given.clamped) ∧
    (queryPoolSet want arrivals = none ↔
      ∀ arrival ∈ inTime arrivals, ∃ e, arrival.result = .error e) := by
  rw [queryPoolSet_eq, map_eq_none_iff, best_eq_none, List.eq_nil_iff_forall_not_mem]
  constructor
  · rintro _ hset
    obtain ⟨given, hbest, rfl⟩ := map_eq_some_iff.mp hset
    obtain ⟨arrival, harrival, hgiven⟩ := mem_replies.mp (mem_of_best hbest)
    exact ⟨arrival, harrival, given, hgiven, rfl⟩
  · simp only [mem_replies]
    refine ⟨fun h arrival harrival => ?_, fun h set => ?_⟩
    · cases hresult : arrival.result <;> grind
    · grind

/-! ### Masked answers -/

/-- **The law of the race.** A reply with an address that comes in in time is returned, the first of
them; a definitive negative was given by a server, and no address came in before; and if nothing of
the kind is returned, no server gave it. -/
structure PoolLaw (want : QueryFamilies) (arrivals : List Arrival) (outcome : Option FamilySet) :
    Prop where
  positive : ∀ set, (replies (inTime arrivals)).find? FamilySet.hasPositive = some set →
    outcome = some set.clamped
  positive_first : ∀ set, outcome = some set → set.hasPositive = true →
    ((replies arrivals).find? FamilySet.hasPositive).map FamilySet.clamped = some set
  negative : ∀ set, outcome = some set → set.isDefinitiveNegative want = true →
    (∃ given ∈ replies arrivals, given.isDefinitiveNegative want = true ∧ given.clamped = set) ∧
      ∀ other ∈ replies (inTime arrivals), other.hasPositive = false
  error : (∀ set, outcome = some set → set.answers want = false) →
    ∀ set ∈ replies arrivals, set.answers want = false

/-- **If some server answers, one answers in time**: no later than the grace period after the first
reply that is no error. -/
def AnswersInTime (want : QueryFamilies) (arrivals : List Arrival) : Prop :=
  (∃ set ∈ replies arrivals, set.answers want = true) →
    ∃ set ∈ replies (inTime arrivals), set.answers want = true

section

variable {want} (h : queryPoolSet want arrivals = some set)
include h

/-- An address that is returned is the first that any server gave. -/
lemma queryPoolSet_positive_first (hset : set.hasPositive) :
    ((replies arrivals).find? hasPositive).map clamped = some set := by
  rw [queryPoolSet_eq] at h
  obtain ⟨given, hbest, rfl⟩ := map_eq_some_iff.mp h
  rw [hasPositive_clamped] at hset
  obtain ⟨late, hlate⟩ := inTime_init arrivals
  have hfirst : (replies (inTime arrivals)).find? hasPositive = some given := by
    cases hfind : (replies (inTime arrivals)).find? hasPositive with
    | none =>
      have hnone := List.find?_eq_none.mp hfind given (mem_of_best hbest)
      exact absurd hset hnone
    | some found => rwa [best, hfind, some_or] at hbest
  rw [← hlate, replies, List.filterMap_append, ← replies, List.find?_append, hfirst,
    some_or, map_some]

lemma queryPoolSet_negative (hset : set.isDefinitiveNegative want) :
    (∃ given ∈ replies arrivals, given.isDefinitiveNegative want ∧ given.clamped = set) ∧
      ∀ other ∈ replies (inTime arrivals), other.hasPositive = false := by
  rw [queryPoolSet_eq] at h
  obtain ⟨given, hbest, rfl⟩ := map_eq_some_iff.mp h
  rw [isDefinitiveNegative_clamped] at hset
  have hmem : given ∈ replies arrivals := by
    obtain ⟨arrival, harrival, hresult⟩ := mem_replies.mp (mem_of_best hbest)
    exact mem_replies.mpr ⟨arrival, (inTime_init arrivals).subset harrival, hresult⟩
  exact ⟨⟨given, hmem, hset, rfl⟩,
    (none_of_find?_or hbest (not_hasPositive_of_isDefinitiveNegative hset)).1⟩

end

/-- If the race ends without an answer, none came in in time. -/
lemma queryPoolSet_error_iff (arrivals : List Arrival) :
    (∀ set, queryPoolSet want arrivals = some set → set.answers want = false) ↔
      ∀ set ∈ replies (inTime arrivals), set.answers want = false := by
  rw [queryPoolSet_eq]
  constructor
  · intro h
    cases hbest : best want (replies (inTime arrivals)) with
    | none =>
      rw [best_eq_none.mp hbest]
      exact fun set hset => absurd hset List.not_mem_nil
    | some given =>
      refine answers_of_best hbest ?_
      rw [← answers_clamped]
      exact h _ (by rw [hbest, map_some])
  · intro h set hset
    obtain ⟨given, hbest, rfl⟩ := map_eq_some_iff.mp hset
    rw [answers_clamped]
    exact h given (mem_of_best hbest)

/-- **When a failing server does not mask another one's answer.** The law of the race holds exactly
for the replies of which one answers in time, if any answers at all. -/
theorem queryPoolSet_law_iff (want : QueryFamilies) (arrivals : List Arrival) :
    PoolLaw want arrivals (queryPoolSet want arrivals) ↔ AnswersInTime want arrivals := by
  constructor
  · rintro law ⟨set, hset, hanswers⟩
    by_contra hnone
    push Not at hnone
    have herror := law.error ((queryPoolSet_error_iff want arrivals).mpr fun other hother => by
      simpa using hnone other hother)
    rw [herror set hset] at hanswers
    cases hanswers
  · intro h
    refine ⟨fun set hset => ?_, fun set => queryPoolSet_positive_first,
      fun set => queryPoolSet_negative, fun herror set hset => ?_⟩
    · rw [queryPoolSet_eq, best, hset, some_or, map_some]
    · by_contra hanswers
      obtain ⟨other, hother, htrue⟩ := h ⟨set, hset, by simpa using hanswers⟩
      rw [(queryPoolSet_error_iff want arrivals).mp herror other hother] at htrue
      cases htrue

/-- The client of one nameserver fails at once. The grace period runs, and the address that the
other nameserver has after 400 ms is lost. -/
theorem queryPoolSet_masked :
    let ops : NameOps String := ⟨id, fun _ name => name⟩
    let response : Message String :=
      ⟨.noError, [⟨"example.com.", .a, 1⟩], [⟨"example.com.", 1, 60, .a 0x5DB8D822#32⟩], []⟩
    let quick := lookupSet ops "10.0.0.1:53" .ipv4 true (.error .io) (.error .io)
    let slow := lookupSet ops "10.0.0.2:53" .ipv4 true (.ok response) (.error .io)
    slow = .ok ⟨some (.answer [.v4 0x5DB8D822#32] 60), none, "10.0.0.2:53"⟩ ∧
      queryPoolSet .ipv4 [⟨5, quick⟩, ⟨400, slow⟩] = some ⟨some .failed, none, "10.0.0.1:53"⟩ ∧
      ¬PoolLaw .ipv4 [⟨5, quick⟩, ⟨400, slow⟩]
        (queryPoolSet .ipv4 [⟨5, quick⟩, ⟨400, slow⟩]) := by
  intro ops response quick slow
  have hslow : slow = .ok ⟨some (.answer [.v4 0x5DB8D822#32] 60), none, "10.0.0.2:53"⟩ := by
    decide +kernel
  have houtcome : queryPoolSet .ipv4 [⟨5, quick⟩, ⟨400, slow⟩] =
      some ⟨some .failed, none, "10.0.0.1:53"⟩ := by
    decide +kernel
  refine ⟨hslow, houtcome, fun law => ?_⟩
  have hfailed := law.error (fun set hset => by
    rw [← some_inj.mp hset]
    decide +kernel) _ (mem_replies.mpr ⟨_, List.mem_cons_of_mem _ List.mem_cons_self, hslow⟩)
  revert hfailed
  decide +kernel

end Meow.Dns
