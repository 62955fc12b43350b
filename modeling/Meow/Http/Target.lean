import Mathlib
import Meow.Http.Parsed

/-!
# The target of a plain request

The plain HTTP proxy is given an absolute URI. `http_proxy.rs` takes the host and the port out of it
for the rules and the dial, and the path for the head that is sent to the origin. Here this is
compared with the parts that the grammar of such a URI has.

## Main definitions

* `parseUrlHostPort` — the host and the port.
* `Uri` — an absolute URI by its parts.

## Main results

* `target_iff` — the URIs of which the parts are found.
* `query_lost` — a URI with a query and no path is not among them.
-/

namespace Meow.Http

open List Option

/-- `str::parse::<u16>` -/
def parseU16 (s : List UInt8) : Option ℕ :=
  let digits := if s.head? = some 43 then s.tail else s
  if digits ≠ [] ∧ (∀ b ∈ digits, isAsciiDigitByte b) ∧ decimalValue digits < 65536 then
    some (decimalValue digits)
  else none

def parseHostPort (target : List UInt8) (defaultPort : ℕ) : List UInt8 × ℕ :=
  if 58 ∈ target then
    match parseU16 (target.rtakeWhile (· != 58)) with
    | some port => ((target.rdropWhile (· != 58)).dropLast, port)
    | none => (target, defaultPort)
  else (target, defaultPort)

def parseUrlHostPort (url : List UInt8) : List UInt8 × ℕ :=
  parseHostPort ((stripScheme url).takeWhile (· != 47))
    (if bytes "https://" <+: url then 443 else 80)

/-! ### The grammar -/

/-- **An absolute URI**, by the delimiters of its parts: the host is a name, in which there is no
colon, or an address in brackets. -/
structure Uri where
  scheme : List UInt8
  userinfo : Option (List UInt8)
  host : List UInt8
  port : Option (List UInt8)
  path : List UInt8
  query : Option (List UInt8)
  scheme_eq : eqIgnoreAsciiCase scheme (bytes "http") ∨ eqIgnoreAsciiCase scheme (bytes "https")
  userinfo_free : ∀ u ∈ userinfo, 47 ∉ u
  host_free : 47 ∉ host ∧ 63 ∉ host ∧ 64 ∉ host
  host_literal : 58 ∈ host → host.getLast? = some 93
  port_digits : ∀ p ∈ port, ∀ b ∈ p, isAsciiDigitByte b
  path_abs : path.head?.all (· = 47)

namespace Uri

variable (uri : Uri)

def authority : List UInt8 :=
  uri.userinfo.elim [] (· ++ [64]) ++ uri.host ++ uri.port.elim [] (58 :: ·)

/-- The path with the query. -/
def pathQuery : List UInt8 := uri.path ++ uri.query.elim [] (63 :: ·)

def text : List UInt8 := uri.scheme ++ bytes "://" ++ uri.authority ++ uri.pathQuery

def defaultPort : ℕ := if eqIgnoreAsciiCase uri.scheme (bytes "https") then 443 else 80

/-- The port, or that of the scheme when there is none or it is empty. -/
def effectivePort : ℕ :=
  match uri.port with
  | none | some [] => uri.defaultPort
  | some digits => decimalValue digits

/-- What is sent to the origin: the path, or `/`, with the query. -/
def originForm : List UInt8 :=
  (if uri.path = [] then [47] else uri.path) ++ uri.query.elim [] (63 :: ·)

end Uri

/-! ### Ports -/

/-- Only digits, after a sign perhaps, are read as a port. -/
lemma of_parseU16 {s : List UInt8} {port : ℕ} (h : parseU16 s = some port) :
    s ≠ [] ∧ ∀ b ∈ s, b = 43 ∨ isAsciiDigitByte b = true := by
  simp only [parseU16, ite_none_right_eq_some] at h
  obtain ⟨⟨hne, hdigits, -⟩, -⟩ := h
  refine ⟨fun hnil => hne (by rw [hnil]; rfl), fun b hb => ?_⟩
  split_ifs at hdigits with hsign
  · obtain ⟨s, rfl⟩ := head?_eq_some_iff.mp hsign
    exact (mem_cons.mp hb).imp_right (hdigits b)
  · exact .inr (hdigits b hb)

lemma parseU16_digits {p} (h : ∀ b ∈ p, isAsciiDigitByte b) :
    parseU16 p = if p ≠ [] ∧ decimalValue p < 65536 then some (decimalValue p) else none := by
  have hsign : p.head? ≠ some 43 := fun hs => absurd (h _ (mem_of_head? hs)) (by decide)
  simp only [parseU16, if_neg hsign, eq_true h, true_and]

lemma forall_bne {s : List UInt8} {c : UInt8} (h : c ∉ s) : ∀ b ∈ s, (b != c) = true :=
  fun _ hb => bne_iff_ne.mpr fun heq => h (heq ▸ hb)

/-- The text is cut at its last colon. -/
lemma parseHostPort_append {front back : List UInt8} (h : 58 ∉ back) (d : ℕ) :
    parseHostPort (front ++ 58 :: back) d =
      ((parseU16 back).map (front, ·)).getD (front ++ 58 :: back, d) := by
  have hback := forall_bne (mt mem_reverse.mp h)
  have htake : (front ++ 58 :: back).rtakeWhile (· != 58) = back := by
    simp [rtakeWhile, takeWhile_append_of_pos hback]
  have hdrop : ((front ++ 58 :: back).rdropWhile (· != 58)).dropLast = front := by
    simp [rdropWhile, dropWhile_append_of_pos hback]
  rw [parseHostPort, if_pos (by simp), htake, hdrop]
  cases parseU16 back <;> rfl

lemma exists_last_colon {target : List UInt8} (h : 58 ∈ target) :
    ∃ front back, target = front ++ 58 :: back ∧ 58 ∉ back := by
  obtain ⟨back, front, hsplit, hback⟩ := eq_append_cons_of_mem (mem_reverse.mpr h)
  refine ⟨front.reverse, back.reverse, ?_, mt mem_reverse.mp hback⟩
  rw [← reverse_reverse target, hsplit]
  simp

/-- **What is cut off a target** is a port: other bytes are left in the host. -/
lemma mem_parseHostPort {target : List UInt8} {b : UInt8} (hmem : b ∈ target) (hcolon : b ≠ 58)
    (h : ¬(b = 43 ∨ isAsciiDigitByte b)) (d : ℕ) : b ∈ (parseHostPort target d).1 := by
  by_cases hcut : (58 : UInt8) ∈ target
  · obtain ⟨front, back, rfl, hback⟩ := exists_last_colon hcut
    rw [parseHostPort_append hback]
    rcases hport : parseU16 back with _ | port
    · exact hmem
    · simp only [mem_append, mem_cons, hcolon, false_or] at hmem
      exact hmem.resolve_right fun hb => h ((of_parseU16 hport).2 b hb)
  · rwa [parseHostPort, if_neg hcut]

/-! ### The parts -/

namespace Uri

variable {uri : Uri}

/-- The scheme in small letters. -/
def LowerScheme (uri : Uri) : Prop := uri.scheme = bytes "http" ∨ uri.scheme = bytes "https"

lemma stripScheme_text (h : uri.LowerScheme) :
    stripScheme uri.text = uri.authority ++ uri.pathQuery ∧
      (if bytes "https://" <+: uri.text then 443 else 80) = uri.defaultPort := by
  rcases h with h | h <;> simp only [text, defaultPort, h, append_assoc] <;> exact ⟨rfl, rfl⟩

lemma not_mem_scheme {b : UInt8} (h : byteLower b ∉ bytes "https") : b ∉ uri.scheme := by
  intro hb
  have hmem := mem_map_of_mem (f := byteLower) hb
  rcases uri.scheme_eq with heq | heq <;> rw [eqIgnoreAsciiCase, beq_iff_eq] at heq <;>
    rw [heq] at hmem
  · exact h (mem_of_mem_take (i := 4) hmem)
  · exact h hmem

/-- Without its scheme in small letters nothing is stripped, and what is before the first slash is
the scheme with its colon. -/
lemma takeWhile_text (h : ¬uri.LowerScheme) :
    (stripScheme uri.text).takeWhile (· != 47) = uri.scheme ++ [58] := by
  have hne : ∀ s : List UInt8, 58 ∉ s → uri.scheme ≠ s → ¬s ++ bytes "://" <+: uri.text := by
    rintro s hs hne ⟨rest, hrest⟩
    have hsplit := congrArg (takeWhile (· != 58)) hrest
    rw [text, append_assoc, append_assoc, append_assoc, takeWhile_append_of_pos (forall_bne hs),
      takeWhile_append_of_pos (forall_bne (not_mem_scheme (by decide)))] at hsplit
    exact hne (append_cancel_right hsplit).symm
  have hws : uri.scheme ≠ bytes "ws" := by
    intro heq
    rcases uri.scheme_eq with hs | hs <;> rw [heq] at hs <;> exact absurd hs (by decide)
  have hstrip : stripScheme uri.text = uri.text :=
    (if_neg (hne (bytes "http") (by decide) (not_or.mp h).1)).trans <|
      (if_neg (hne (bytes "ws") (by decide) hws)).trans <|
        if_neg (hne (bytes "https") (by decide) (not_or.mp h).2)
  rw [hstrip, text, append_assoc, append_assoc,
    takeWhile_append_of_pos (forall_bne (not_mem_scheme (by decide)))]
  rfl

lemma not_mem_authority : 47 ∉ uri.authority := by
  have hport : ∀ p ∈ uri.port, 47 ∉ p := fun p hp hm =>
    absurd (uri.port_digits p hp _ hm) (by decide)
  have huser := uri.userinfo_free
  cases hu : uri.userinfo <;> cases hp : uri.port <;> simp_all [authority, uri.host_free.1]

/-- A path, or nothing at all, comes behind the authority. -/
lemma takeWhile_pathQuery (h : uri.path = [] → uri.query = none) :
    uri.pathQuery.takeWhile (· != 47) = [] ∧
      (match uri.pathQuery.dropWhile (· != 47) with
        | [] => [47]
        | path => path) = uri.originForm := by
  have habs := uri.path_abs
  rw [pathQuery, originForm]
  cases hpath : uri.path with
  | nil => simp [h hpath]
  | cons b path =>
    rw [hpath] at habs
    simp at habs
    simp [habs]

/-- The host is not cut. -/
lemma parseHostPort_host (d : ℕ) : parseHostPort uri.host d = (uri.host, d) := by
  by_cases hcut : (58 : UInt8) ∈ uri.host
  · have hlast := uri.host_literal hcut
    obtain ⟨front, back, hhost, hback⟩ := exists_last_colon hcut
    rw [hhost] at hlast ⊢
    rw [parseHostPort_append hback]
    rcases hport : parseU16 back with _ | port
    · rfl
    · obtain ⟨hne, hdigits⟩ := of_parseU16 hport
      rw [getLast?_append_of_ne_nil _ (cons_ne_nil _ _), getLast?_cons_of_ne_nil hne] at hlast
      exact absurd (hdigits _ (mem_of_getLast? hlast)) (by decide)
  · exact if_neg hcut

/-- An authority without a user is cut at its port, if that can be read. -/
lemma parseHostPort_authority_iff (huser : uri.userinfo = none) :
    parseHostPort uri.authority uri.defaultPort = (uri.host, uri.effectivePort) ↔
      ∀ p ∈ uri.port, p ≠ [] ∧ decimalValue p < 65536 := by
  rw [authority, huser, effectivePort, elim_none, nil_append]
  cases hp : uri.port with
  | none => simpa using parseHostPort_host _
  | some p =>
    have hdigits := uri.port_digits p hp
    have hcolon : 58 ∉ p := fun hm => absurd (hdigits _ hm) (by decide)
    rw [elim_some, parseHostPort_append hcolon, parseU16_digits hdigits]
    simp only [mem_some_iff, forall_eq']
    split_ifs with hread
    · obtain ⟨b, p, rfl⟩ := exists_cons_of_ne_nil hread.1
      exact iff_of_true rfl hread
    · exact iff_of_false (fun h => by simpa using congrArg Prod.fst h) hread

end Uri

open Uri

/-- **The URIs of which the parts are found.** The host and the port are those of the authority, or
the port of the scheme, and the origin is sent the path, or a slash, with the query, for exactly
the URIs with their scheme in small letters, without user information, with a port in the range
if there is a colon for one, and with a path if there is a query.

**Proof sketch.** With the scheme in small letters the text before the first slash is the authority,
and a query without a path. What is cut off it is a port, so that a user or a query would be left in
the host, and so would a port that cannot be read. -/
theorem target_iff (uri : Uri) :
    (parseUrlHostPort uri.text = (uri.host, uri.effectivePort) ∧
      extractPathFromUrl uri.text = uri.originForm) ↔
    uri.LowerScheme ∧ uri.userinfo = none ∧
      (∀ p ∈ uri.port, p ≠ [] ∧ decimalValue p < 65536) ∧ (uri.path = [] → uri.query = none) := by
  by_cases hlower : uri.LowerScheme
  · obtain ⟨hstrip, hdefault⟩ := stripScheme_text hlower
    have hauthority := forall_bne uri.not_mem_authority
    rw [parseUrlHostPort, extractPathFromUrl, hdefault, hstrip, takeWhile_append_of_pos hauthority,
      dropWhile_append_of_pos hauthority]
    constructor
    · rintro ⟨hhost, -⟩
      have hfree : ∀ b ∉ uri.host, b ≠ 58 → ¬(b = 43 ∨ isAsciiDigitByte b) →
          b ∉ uri.authority ++ uri.pathQuery.takeWhile (· != 47) := by
        intro b hb hcolon hport hmem
        have hleft := mem_parseHostPort hmem hcolon hport uri.defaultPort
        rw [hhost] at hleft
        exact hb hleft
      have huser : uri.userinfo = none := by
        by_contra hsome
        obtain ⟨u, hu⟩ := ne_none_iff_exists'.mp hsome
        refine hfree 64 uri.host_free.2.2 (by decide) (by decide) ?_
        simp [authority, hu]
      have hquery : uri.path = [] → uri.query = none := by
        intro hpath
        by_contra hsome
        obtain ⟨q, hq⟩ := ne_none_iff_exists'.mp hsome
        refine hfree 63 uri.host_free.2.1 (by decide) (by decide) ?_
        simp [pathQuery, hpath, hq]
      rw [(takeWhile_pathQuery hquery).1, append_nil] at hhost
      exact ⟨hlower, huser, (parseHostPort_authority_iff huser).mp hhost, hquery⟩
    · rintro ⟨-, huser, hports, hquery⟩
      obtain ⟨htake, hdrop⟩ := takeWhile_pathQuery hquery
      rw [htake, append_nil]
      exact ⟨(parseHostPort_authority_iff huser).mpr hports, hdrop⟩
  · refine iff_of_false (fun h => ?_) (fun h => hlower h.1)
    -- the colon of the scheme is not cut off, as no port follows
    have hhost := h.1
    rw [parseUrlHostPort, takeWhile_text hlower, parseHostPort_append not_mem_nil] at hhost
    have hlast := uri.host_literal
    rw [← show uri.scheme ++ [58] = uri.host from congrArg Prod.fst hhost] at hlast
    simp at hlast

/-- A URI with a query and no path. -/
def queryOnly : Uri :=
  ⟨bytes "http", none, bytes "a.example", none, [], some (bytes "q=1"), by decide, by decide,
    by decide, by decide, by decide, by decide⟩

/-- **Its query becomes a part of the host**, and is not sent to the origin. -/
theorem query_lost : queryOnly.text = bytes "http://a.example?q=1" ∧
    parseUrlHostPort queryOnly.text = (bytes "a.example?q=1", 80) ∧
    extractPathFromUrl queryOnly.text = bytes "/" ∧ queryOnly.host = bytes "a.example" ∧
    queryOnly.originForm = bytes "/?q=1" := by
  decide +kernel

end Meow.Http
