import Meow.Lib.Spans
import Meow.Rules.Parser

/-!
# The compiled matcher of a port rule

The compiled rules (`rule_ir.rs`) do not keep the list of ranges that the rule parser reads from a
payload. `compile_port_matcher` reads the payload again, sorts the ranges and merges those that
touch, so that payloads which mean the same get the same text for the elimination of duplicates.

## Main definitions

* `compilePortMatcher` — the matcher of a payload.
* `portFingerprint` — its text.

## Main results

* `compilePortMatcher_spec` — the matcher accepts the ports of the rule, is in normal
  form, and its text stands for the set of ports.
-/

namespace Meow.Tunnel

open List Option Nat
open Rules (PortTexts parsePortRange parsePortRanges)
open Spans (Covers Normal)

/-- `PortRange` of the compiled rules. -/
inductive PortRange where
  | single (value : ℕ)
  | range (lo hi : ℕ)
  deriving DecidableEq

/-- `PortRange::matches`. -/
def PortRange.matchesPort : PortRange → UInt16 → Bool
  | single value, port => port.toNat = value
  | range lo hi, port => port.toNat ≥ lo && port.toNat ≤ hi

inductive PortMatcher where
  | single (value : ℕ)
  | range (lo hi : ℕ)
  | multiple (ranges : List PortRange)
  deriving DecidableEq

/-- `PortMatcher::matches`. -/
def PortMatcher.matchesPort : PortMatcher → UInt16 → Bool
  | single value, port => port.toNat = value
  | range lo hi, port => port.toNat ≥ lo && port.toNat ≤ hi
  | multiple ranges, port => ranges.any fun r => r.matchesPort port

/-- One part of a payload. -/
def compileSpan (part : Str) : Option (ℕ × ℕ) :=
  match splitOnce '-' part with
  | some (start, stop) => do
    let start ← (parseUInt 65535 (trim start)).toOption
    let stop ← (parseUInt 65535 (trim stop)).toOption
    if start > stop then none else some (start, stop)
  | none => (parseUInt 65535 part).toOption.map fun value => (value, value)

/-- The order of pairs. -/
def SpanLe (s t : ℕ × ℕ) : Prop := s.1 < t.1 ∨ s.1 = t.1 ∧ s.2 ≤ t.2

instance : DecidableRel SpanLe := fun s t => inferInstanceAs (Decidable (s.1 < t.1 ∨ _))

def spanRange (s : ℕ × ℕ) : PortRange := if s.1 = s.2 then .single s.1 else .range s.1 s.2

/-- The matcher of the merged spans. -/
def mergedMatcher : List (ℕ × ℕ) → Option PortMatcher
  | [] => none
  | [(lo, hi)] => some (if lo = hi then .single lo else .range lo hi)
  | merged => some (.multiple (merged.map spanRange))

def compilePortMatcher (payload : Str) : Option PortMatcher := do
  let parts :=
    ((payload.splitOnP fun c => c = ',' || c = '/').map trim).filter fun part => part ≠ []
  let spans ← parts.mapM compileSpan
  mergedMatcher (Spans.merge (spans.insertionSort SpanLe))

/-- The function `span` of `port_fingerprint`. -/
def spanText : PortRange → Str
  | .single value => natToStr value
  | .range lo hi => natToStr lo ++ '-' :: natToStr hi

def portFingerprint : PortMatcher → Str
  | .single value => natToStr value
  | .range lo hi => natToStr lo ++ '-' :: natToStr hi
  | .multiple ranges => joinStr [','] (ranges.map spanText)

/-! ### The ranges of a matcher -/

/-- The ranges of a matcher. -/
def PortMatcher.ranges : PortMatcher → List PortRange
  | single value => [.single value]
  | range lo hi => [.range lo hi]
  | multiple ranges => ranges

/-- The numbers of a range. -/
def PortRange.span : PortRange → ℕ × ℕ
  | single value => (value, value)
  | range lo hi => (lo, hi)

/-- The spans of a matcher. -/
def PortMatcher.spans (m : PortMatcher) : List (ℕ × ℕ) := m.ranges.map PortRange.span

variable (m : PortMatcher)

lemma matchesPort_iff (port : UInt16) : m.matchesPort port ↔ Covers m.spans port.toNat := by
  have hrange : ∀ r : PortRange,
      r.matchesPort port ↔ r.span.1 ≤ port.toNat ∧ port.toNat ≤ r.span.2 := by
    intro r
    cases r <;> simp [PortRange.matchesPort, PortRange.span]
    omega
  cases m <;>
    simp [PortMatcher.matchesPort, PortMatcher.spans, PortMatcher.ranges, Covers, hrange,
      PortRange.span]
  omega

lemma portFingerprint_eq : portFingerprint m = [','].intercalate (m.ranges.map spanText) := by
  cases m <;> simp [portFingerprint, PortMatcher.ranges, spanText, joinStr, intercalate]

lemma mergedMatcher_spec : ∀ {merged : List (ℕ × ℕ)}, merged ≠ [] →
    ∃ m, mergedMatcher merged = some m ∧ m.ranges ≠ [] ∧ m.spans = merged
  | [(lo, hi)], _ => by
    refine ⟨_, rfl, ?_⟩
    split_ifs with h <;> simp [PortMatcher.spans, PortMatcher.ranges, PortRange.span, h]
  | s :: t :: merged, _ => by
    have hspan : ∀ s, (spanRange s).span = s := by
      intro s
      rw [spanRange]
      split_ifs with h
      · exact Prod.ext rfl h
      · rfl
    refine ⟨_, rfl, by simp [PortMatcher.ranges], ?_⟩
    simp [PortMatcher.spans, PortMatcher.ranges, hspan, Function.comp_def]

/-! ### Reading a payload -/

/-- The numbers of a range of the rule. -/
def ruleSpan : Rules.PortRange → ℕ × ℕ
  | .single port => (port.toNat, port.toNat)
  | .range start stop => (start.toNat, stop.toNat)

lemma ruleSpan_le (r : Rules.PortRange) : (ruleSpan r).2 ≤ 65535 := by
  cases r <;> exact le_of_lt_succ (UInt16.toNat_lt _)

lemma any_contains_iff (ranges : List Rules.PortRange) (port : UInt16) :
    (ranges.any fun r => r.contains port) ↔ Covers (ranges.map ruleSpan) port.toNat := by
  have hrange : ∀ r : Rules.PortRange,
      r.contains port ↔ (ruleSpan r).1 ≤ port.toNat ∧ port.toNat ≤ (ruleSpan r).2 := by
    intro r
    cases r <;> simp [Rules.PortRange.contains, ruleSpan, UInt16.le_iff_toNat_le,
      ← UInt16.toNat_inj]
    omega
  simp [Covers, hrange]

lemma parseUIntDigits_le {max acc n s} (hacc : acc ≤ max) (h : parseUIntDigits max acc s = .ok n) :
    n ≤ max := by
  fun_induction parseUIntDigits max acc s <;> grind

lemma parseUInt_le {max n s} (h : parseUInt max s = .ok n) : n ≤ max := by
  unfold parseUInt at h
  split at h
  · cases h
  · cases h
  · exact parseUIntDigits_le (zero_le _) h
  · exact parseUIntDigits_le (zero_le _) h

lemma mapError_eq_ok_iff {x : Except Str ℕ} {f : Str → Str} {n : ℕ} :
    x.mapError f = .ok n ↔ x = .ok n := by
  cases x <;> simp [Except.mapError]

variable {texts : PortTexts}

/-- The rule parser and the compiler read a part alike. -/
lemma compileSpan_of_parsePortRange {part : Str} {r : Rules.PortRange}
    (h : parsePortRange texts part = .ok r) :
    compileSpan part = some (ruleSpan r) ∧ (ruleSpan r).1 ≤ (ruleSpan r).2 := by
  have hspan : ∀ {lo hi : ℕ}, lo ≤ hi → hi ≤ 65535 →
      ruleSpan (.range (.ofNat lo) (.ofNat hi)) = (lo, hi) := fun hle hhi =>
    Prod.ext (mod_eq_of_lt (by omega)) (mod_eq_of_lt (by omega))
  rw [parsePortRange] at h
  rw [compileSpan]
  split at h
  · rename_i l r' heq
    obtain ⟨start, hstart, h⟩ := bind_eq_ok_iff.mp h
    obtain ⟨stop, hstop, h⟩ := bind_eq_ok_iff.mp h
    rw [mapError_eq_ok_iff] at hstart hstop
    split_ifs at h with hlt
    cases h
    rw [hspan (not_lt.mp hlt) (parseUInt_le hstop)]
    simp [heq, hstart, hstop, hlt, Except.toOption]
    omega
  · rename_i heq
    obtain ⟨port, hport, h⟩ := bind_eq_ok_iff.mp h
    rw [mapError_eq_ok_iff] at hport
    cases h
    have : ruleSpan (.single (.ofNat port)) = (port, port) := hspan le_rfl (parseUInt_le hport)
    simp [heq, hport, this, Except.toOption]

variable {ranges : List Rules.PortRange}

lemma mapM_compileSpan {parts : List Str} (h : parts.mapM (parsePortRange texts) = .ok ranges) :
    parts.mapM compileSpan = some (ranges.map ruleSpan) ∧
      ∀ s ∈ ranges.map ruleSpan, s.1 ≤ s.2 := by
  rw [mapM_eq_ok_iff] at h
  induction h with
  | nil => simp
  | cons hpart _ ih =>
    have := compileSpan_of_parsePortRange hpart
    simp_all [mapM_cons]

/-! ### The normal form -/

instance : Std.Total SpanLe := ⟨fun s t => by simp only [SpanLe]; omega⟩

instance : IsTrans (ℕ × ℕ) SpanLe := ⟨fun s t r => by simp only [SpanLe]; omega⟩

/-- **The matcher of a payload that the rule parser accepts.** -/
lemma compilePortMatcher_of_parse {payload} (h : parsePortRanges texts payload = .ok ranges) :
    ∃ m, compilePortMatcher payload = mergedMatcher m.spans ∧
      compilePortMatcher payload = some m ∧ m.ranges ≠ [] ∧ Normal m.spans ∧
      ∀ n, Covers m.spans n ↔ Covers (ranges.map ruleSpan) n := by
  obtain ⟨ranges', hparse, h⟩ := bind_eq_ok_iff.mp h
  split_ifs at h with hne
  cases h
  obtain ⟨hmapM, hle⟩ := mapM_compileSpan hparse
  have hsorted := (pairwise_insertionSort SpanLe (ranges.map ruleSpan)).imp
    (S := fun s t => s.1 ≤ t.1) fun h => by simp only [SpanLe] at h; omega
  obtain ⟨hnormal, hcovers⟩ := Spans.merge_spec (fun s hs => hle s (by simpa using hs)) hsorted
  replace hcovers : ∀ n, _ ↔ Covers (ranges.map ruleSpan) n := fun n =>
    (hcovers n).trans (by simp [Covers])
  rw [compilePortMatcher, hmapM, bind_eq_bind, bind_some]
  generalize Spans.merge ((ranges.map ruleSpan).insertionSort SpanLe) = merged at *
  have hmerged : merged ≠ [] := by
    rintro rfl
    obtain ⟨r, ranges, rfl⟩ := exists_cons_of_ne_nil hne
    have := hcovers (ruleSpan r).1
    simp_all
  obtain ⟨m, hm, hranges, rfl⟩ := mergedMatcher_spec hmerged
  exact ⟨m, rfl, hm, hranges, hnormal, hcovers⟩

/-! ### The text of a matcher -/

lemma natToStr_inj {a b} (h : natToStr a = natToStr b) : a = b := by
  have ha := parseUnsigned_natToStr (le_max_left a b)
  rw [h, parseUnsigned_natToStr (le_max_right a b)] at ha
  exact (some.inj ha).symm

/-- The ranges can be read from the text. -/
lemma ranges_of_portFingerprint {m m' : PortMatcher} (hm : m.ranges ≠ []) (hm' : m'.ranges ≠ [])
    (h : portFingerprint m = portFingerprint m') : m.ranges = m'.ranges := by
  have hdigits : ∀ {c : Char}, isAsciiDigit c = false → ∀ n, c ∉ natToStr n := by
    intro c hc n hmem
    simp [isAsciiDigit_of_mem_natToStr hmem] at hc
  have hcomma : ∀ ranges : List PortRange, ∀ text ∈ ranges.map spanText, ',' ∉ text := by
    intro ranges text htext
    obtain ⟨r, -, rfl⟩ := mem_map.mp htext
    cases r <;> simp [spanText, hdigits (c := ',') (by decide)]
  have hinj : Function.Injective spanText := by
    have hdash := hdigits (c := '-') (by decide)
    intro r t h
    have hsplit := congrArg (splitOnce '-') h
    cases r <;> cases t <;>
      simp only [spanText, splitOnce_append (hdash _), splitOnce_of_not_mem (hdash _)]
        at h hsplit <;> grind [natToStr_inj]
  rw [portFingerprint_eq, portFingerprint_eq] at h
  have hsplit := congrArg (splitOn ',') h
  rw [splitOn_intercalate ',' (hcomma _) (by simpa using hm),
    splitOn_intercalate ',' (hcomma _) (by simpa using hm')] at hsplit
  exact hinj.list_map hsplit

/-- **The compiled matcher of a port rule.** For every payload that the rule parser accepts there is
a matcher, which accepts the ports of the rule; its spans are in order, and none touches the next;
and its text is that of another payload's matcher exactly if the two rules accept the same ports.

**Proof sketch.** The compiler reads the same ranges. Merging them gives the normal form of the set,
which is unique, and the text can be read back. -/
theorem compilePortMatcher_spec {texts : PortTexts} {payload : Str}
    {ranges : List Rules.PortRange} (h : parsePortRanges texts payload = .ok ranges) :
    ∃ m, compilePortMatcher payload = some m ∧
      (∀ port, m.matchesPort port = ranges.any fun r => r.contains port) ∧ Normal m.spans ∧
      ∀ texts' payload' ranges', parsePortRanges texts' payload' = .ok ranges' →
        ∃ m', compilePortMatcher payload' = some m' ∧
          (portFingerprint m = portFingerprint m' ↔ ∀ port,
            (ranges.any fun r => r.contains port) = ranges'.any fun r => r.contains port) := by
  obtain ⟨m, heq, hm, hne, hnormal, hcovers⟩ := compilePortMatcher_of_parse h
  refine ⟨m, hm, fun port => ?_, hnormal, fun texts' payload' ranges' h' => ?_⟩
  · rw [Bool.eq_iff_iff, matchesPort_iff, any_contains_iff, hcovers]
  obtain ⟨m', heq', hm', hne', hnormal', hcovers'⟩ := compilePortMatcher_of_parse h'
  refine ⟨m', hm', fun htext port => ?_, fun hsame => ?_⟩
  · have hspans : m.spans = m'.spans :=
      congrArg (map PortRange.span) (ranges_of_portFingerprint hne hne' htext)
    rw [Bool.eq_iff_iff, any_contains_iff, any_contains_iff, ← hcovers, ← hcovers', hspans]
  · have hspans : m.spans = m'.spans := by
      refine hnormal.unique hnormal' fun n => ?_
      rw [hcovers, hcovers']
      by_cases hn : n ≤ 65535
      · have := hsame (.ofNat n)
        rw [Bool.eq_iff_iff, any_contains_iff, any_contains_iff] at this
        rwa [show (UInt16.ofNat n).toNat = n from mod_eq_of_lt (by omega)] at this
      · -- beyond the ports neither has a number
        have hfar : ∀ ranges : List Rules.PortRange, ¬Covers (ranges.map ruleSpan) n := by
          rintro ranges ⟨s, hs, -, hle⟩
          obtain ⟨r, -, rfl⟩ := mem_map.mp hs
          exact hn (hle.trans (ruleSpan_le r))
        exact iff_of_false (hfar _) (hfar _)
    rw [heq, hspans, ← heq', hm'] at hm
    rw [some.inj hm]

/-- Two ranges that overlap. -/
theorem compilePortMatcher_eighty : ∃ m, compilePortMatcher (str "80-90/85-100") = some m ∧
    (∀ port, m.matchesPort port =
      [Rules.PortRange.range 80 90, .range 85 100].any fun r => r.contains port) := by
  have h : parsePortRanges Rules.portTexts (str "80-90/85-100") =
      .ok [.range 80 90, .range 85 100] := by decide +kernel
  obtain ⟨m, hm, hports, -⟩ := compilePortMatcher_spec h
  exact ⟨m, hm, hports⟩

end Meow.Tunnel
