import Meow.Http.Head

/-!
# What is known of a request head

The parser of request heads checks bytes, lines and fields. This file has what follows from these
checks for a head that has passed them: its lines hold neither CR nor LF, and are read again as they
were read.

## Main definitions

* `FieldOk`, `RequestLineOk`, `ParsedHead` — a field, a request line and a head that were parsed.

## Main results

* `hasBareLineEnding_unlines` — lines without CR and LF have no bare line ending.
* `parsedHead_of_parse` — what the parser has checked.
* `parseLength_decimal` — a length that was written is read back.
-/

namespace Meow.Http

open List Nat

/-! ### Line endings -/

variable {buf : List UInt8}

lemma bareAt_eq_false_of_length_le {i} (h : buf.length ≤ i) : bareAt buf i = false := by
  have hnone : buf[i]? = none := getElem?_eq_none h
  rw [bareAt, hnone]
  rfl

lemma bareLineEndingFrom_eq_false_iff {start} :
    bareLineEndingFrom buf start = false ↔ ∀ i, start ≤ i → bareAt buf i = false := by
  rw [bareLineEndingFrom, any_eq_false]
  constructor
  · intro h i hi
    rcases lt_or_ge i buf.length with hlt | hge
    · exact Bool.eq_false_iff.mpr (h i (mem_range'_1.mpr (by omega)))
    · exact bareAt_eq_false_of_length_le hge
  · intro h i hi
    rw [h i (mem_range'_1.mp hi).1]
    decide

lemma hasBareLineEnding_eq_false_iff : hasBareLineEnding buf = false ↔ ∀ i, bareAt buf i = false :=
  bareLineEndingFrom_eq_false_iff.trans ⟨fun h i => h i (zero_le i), fun h i _ => h i⟩

/-- A byte in front of a text makes no line ending bare. -/
lemma bareAt_cons_succ {i} (h : bareAt buf i = false) (b : UInt8) :
    bareAt (b :: buf) (i + 1) = false := by
  rw [bareAt] at h ⊢
  rw [getElem?_cons_succ, getElem?_cons_succ, length_cons, Nat.add_sub_cancel]
  cases i with
  | zero =>
    by_cases hlf : buf[0]? = some 10
    · simp [hlf] at h
    · simpa [hlf, succ_le_iff] using h
  | succ i => simpa using h

/-- The bytes of a line. -/
def Clean (line : List UInt8) : Prop := 13 ∉ line ∧ 10 ∉ line

/-- A text of lines has no bare CR or LF. -/
lemma hasBareLineEnding_unlines {lines} (h : ∀ line ∈ lines, Clean line) :
    hasBareLineEnding (unlines lines) = false := by
  rw [hasBareLineEnding_eq_false_iff]
  induction lines with
  | nil => exact fun i => bareAt_eq_false_of_length_le (zero_le i)
  | cons line lines ih =>
    obtain ⟨hline, hlines⟩ := forall_mem_cons.mp h
    rw [unlines_cons]
    clear h
    induction line with
    | nil =>
      intro i
      match i with
      | 0 | 1 => simp [bareAt, CRLF]
      | i + 2 => exact bareAt_cons_succ (bareAt_cons_succ (ih hlines i) 10) 13
    | cons b line ihline =>
      rw [Clean, mem_cons, mem_cons, not_or, not_or] at hline
      intro i
      cases i with
      | zero => simp [bareAt, Ne.symm hline.1.1, Ne.symm hline.2.1]
      | succ i => exact bareAt_cons_succ (ihline ⟨hline.1.2, hline.2.2⟩ i) b

/-! ### Names -/

lemma eqIgnoreAsciiCase_iff {a b : List UInt8} :
    eqIgnoreAsciiCase a b ↔ a.map byteLower = b.map byteLower := beq_iff_eq

/-- A field has one name. -/
lemma HeaderField.is_of_is {h : HeaderField} {a} (ha : h.is a) (b : String) :
    h.is b = eqIgnoreAsciiCase (bytes a) (bytes b) := by
  rw [HeaderField.is, eqIgnoreAsciiCase, eqIgnoreAsciiCase_iff.mp ha]
  rfl

lemma isTchar_ne {b c} (h : isTchar b) (hc : isTchar c = false) : b ≠ c := by
  rintro rfl
  exact absurd h (by rw [hc]; decide)

lemma isTchar_lt {b} (h : isTchar b) : b < 128 := by
  have hmarks : ∀ c ∈ bytes "!#$%&'*+-.^_`|~", c < 128 := by decide +kernel
  simp only [isTchar, isAsciiDigitByte, Bool.or_eq_true, Bool.and_eq_true, decide_eq_true_eq,
    contains_iff_mem] at h
  rcases h with ((h | h) | h) | h
  on_goal 4 => exact hmarks b h
  all_goals exact UInt8.lt_of_le_of_lt h.2 (by decide)

/-! ### The lines of a head -/

/-- What is known of a field that was parsed. -/
structure FieldOk (h : HeaderField) : Prop where
  parse : parseHeader h.raw = .ok h
  clean : Clean h.raw
  ne : h.raw ≠ []

lemma fieldOk_of_parseHeader {line h} (hparse : parseHeader line = .ok h) : FieldOk h := by
  have hraw : h.raw = line := by
    simp only [parseHeader] at hparse
    split_ifs at hparse
    rw [← Except.ok.inj hparse]
  subst hraw
  have hfacts := hparse
  simp only [parseHeader] at hfacts
  split_ifs at hfacts with hcolon hname hvalue
  rw [not_or, Bool.not_eq_false] at hname
  rw [Bool.not_eq_false] at hvalue
  -- the name, the colon and the value
  have hsplit : ∀ b ∈ h.raw, isTchar b ∨ b = 58 ∨ isFieldValueByte b := by
    intro b hb
    rw [← @takeWhile_append_dropWhile _ (· != 58) h.raw, mem_append] at hb
    rcases hb with hb | hb
    · exact .inl (all_eq_true.mp hname.2 b hb)
    · rcases hdrop : h.raw.dropWhile (· != 58) with _ | ⟨c, tail⟩
      · rw [hdrop] at hb
        exact absurd hb not_mem_nil
      · have hc : c = 58 := by
          have hhead := head?_dropWhile_not (· != 58) h.raw
          rw [hdrop] at hhead
          simpa using hhead
        rw [hdrop, mem_cons] at hb
        rcases hb with rfl | hb
        · exact .inr (.inl hc)
        · rw [hdrop] at hvalue
          exact .inr (.inr (all_eq_true.mp hvalue b hb))
  refine ⟨hparse, ⟨fun hb => ?_, fun hb => ?_⟩, fun hnil => ?_⟩
  · rcases hsplit _ hb with h' | h' | h' <;> exact absurd h' (by decide)
  · rcases hsplit _ hb with h' | h' | h' <;> exact absurd h' (by decide)
  · rw [hnil] at hcolon
    exact absurd hcolon not_mem_nil

/-- What is known of a request line that was parsed. -/
structure RequestLineOk (method target version : List UInt8) : Prop where
  method : method ≠ [] ∧ method.all isTchar = true
  target : target ≠ [] ∧ target.all (fun b => 33 ≤ b && b ≤ 126) = true
  version : version = bytes "HTTP/1.0" ∨ version = bytes "HTTP/1.1"

lemma requestLineOk_of_parse {line method target version}
    (h : parseRequestLine line = .ok (method, target, version)) :
    RequestLineOk method target version := by
  unfold parseRequestLine at h
  split_ifs at h with hascii
  split at h
  · split_ifs at h with hbad
    cases h
    simp only [not_or, Bool.not_eq_false, not_and_or, not_not] at hbad
    exact ⟨⟨hbad.1, hbad.2.2.2.1⟩, ⟨hbad.2.1, hbad.2.2.2.2.1⟩, hbad.2.2.2.2.2⟩
  · simp at h

/-- **A request line** of such parts is read as these parts. -/
lemma RequestLineOk.parse {method target version} (h : RequestLineOk method target version) :
    parseRequestLine (method ++ [32] ++ target ++ [32] ++ version)
      = .ok (method, target, version) := by
  have hversion : version ≠ [] ∧ 32 ∉ version ∧ version.all (· < 128) := by
    rcases h.version with rfl | rfl <;> decide
  have hmethod : ∀ b ∈ method, isTchar b := all_eq_true.mp h.method.2
  have htarget : ∀ b ∈ target, 33 ≤ b ∧ b ≤ 126 := fun b hb => by
    have := all_eq_true.mp h.target.2 b hb
    simpa using this
  have hascii : (method ++ [32] ++ target ++ [32] ++ version).all (· < 128) := by
    simp only [all_append, Bool.and_eq_true]
    refine ⟨⟨⟨⟨?_, by decide⟩, ?_⟩, by decide⟩, hversion.2.2⟩
    · exact all_eq_true.mpr fun b hb => decide_eq_true (isTchar_lt (hmethod b hb))
    · exact all_eq_true.mpr fun b hb =>
        decide_eq_true (UInt8.lt_of_le_of_lt (htarget b hb).2 (by decide))
  have hsplit : (method ++ [32] ++ target ++ [32] ++ version).splitOn 32
      = [method, target, version] := by
    have hassoc : method ++ [32] ++ target ++ [32] ++ version
        = method ++ 32 :: (target ++ 32 :: version) := by simp
    rw [hassoc, splitOn_append_cons_self, splitOn_append_cons_self,
      splitOn_eq_singleton fun hb => isTchar_ne (hmethod _ hb) (by decide) rfl,
      splitOn_eq_singleton fun hb => absurd (htarget _ hb).1 (by decide),
      splitOn_eq_singleton hversion.2.1]
    rfl
  rw [parseRequestLine, if_neg (by rw [hascii]; decide), hsplit]
  simp only
  rw [if_neg]
  simp only [not_or]
  exact ⟨h.method.1, h.target.1, hversion.1, by rw [h.method.2]; decide,
    by rw [h.target.2]; decide, fun hnone => hnone.2 (h.version.resolve_left hnone.1)⟩

/-- What is known of a head that was parsed. -/
structure ParsedHead (request : RequestHead) : Prop where
  line : RequestLineOk request.method request.target request.version
  fields : ∀ header ∈ request.headers, FieldOk header
  framing : validateMessageFraming request.headers request.version = .ok request.bodyKind
  options : validateConnectionOptions request.headers = .ok ()
  upgrade : validateUpgradeRequest request.headers request.bodyKind request.version
    = .ok request.upgradeRequested

lemma parsedHead_of_parse {head request} (h : parseRequestHead head = .ok request) :
    ParsedHead request := by
  unfold parseRequestHead at h
  split_ifs at h
  unfold parseLines at h
  split at h
  · simp at h
  · obtain ⟨⟨method, target, version⟩, hline, h⟩ := bind_eq_ok_iff.mp h
    obtain ⟨headers, hheaders, h⟩ := bind_eq_ok_iff.mp h
    obtain ⟨bodyKind, hframing, h⟩ := bind_eq_ok_iff.mp h
    obtain ⟨⟨⟩, hoptions, h⟩ := bind_eq_ok_iff.mp h
    obtain ⟨upgradeRequested, hupgrade, h⟩ := bind_eq_ok_iff.mp h
    cases h
    refine ⟨requestLineOk_of_parse hline, fun header hheader => ?_, hframing, hoptions, hupgrade⟩
    obtain ⟨line, -, hparse⟩ := exists_of_mem_mapM hheaders hheader
    exact fieldOk_of_parseHeader hparse

/-! ### Decimal numbers -/

/-- A digit is one byte. -/
lemma utf8EncodeChar_digit {c : Char} (h : isAsciiDigit c) :
    String.utf8EncodeChar c = [UInt8.ofNat c.toNat] := by
  rw [isAsciiDigit, Bool.and_eq_true, decide_eq_true_eq, decide_eq_true_eq] at h
  have hlow : 48 ≤ c.toNat := h.1
  have hhigh : c.toNat ≤ 57 := h.2
  have hchar : c = Char.ofNat c.toNat := (Char.ofNat_toNat c).symm
  rw [hchar]
  generalize c.toNat = v at hlow hhigh
  interval_cases v <;> decide

/-- The decimal text of a number, as bytes. -/
def decimal (n : ℕ) : List UInt8 := asBytes (natToStr n)

lemma decimal_eq_map (n : ℕ) : decimal n = (natToStr n).map fun c => UInt8.ofNat c.toNat := by
  have hdigits : ∀ c ∈ natToStr n, isAsciiDigit c :=
    fun c hc => isAsciiDigit_of_mem_natToStr hc
  rw [decimal, asBytes]
  generalize natToStr n = s at hdigits
  induction s with
  | nil => rfl
  | cons c s ih =>
    obtain ⟨hc, hs⟩ := forall_mem_cons.mp hdigits
    rw [flatMap_cons, utf8EncodeChar_digit hc, ih hs]
    rfl

/-- The value of a digit. -/
lemma toNat_digit {c : Char} (h : isAsciiDigit c) :
    isAsciiDigitByte (UInt8.ofNat c.toNat) ∧ (UInt8.ofNat c.toNat).toNat = c.toNat := by
  rw [isAsciiDigit, Bool.and_eq_true, decide_eq_true_eq, decide_eq_true_eq] at h
  have hlow : 48 ≤ c.toNat := h.1
  have hhigh : c.toNat ≤ 57 := h.2
  have hval : (UInt8.ofNat c.toNat).toNat = c.toNat := by
    rw [UInt8.toNat_ofNat', mod_eq_of_lt (by omega)]
  refine ⟨?_, hval⟩
  rw [isAsciiDigitByte, Bool.and_eq_true, decide_eq_true_eq, decide_eq_true_eq,
    UInt8.le_iff_toNat_le, UInt8.le_iff_toNat_le, hval]
  exact ⟨hlow, hhigh⟩

lemma isAsciiDigitByte_of_mem_decimal {n b} (h : b ∈ decimal n) : isAsciiDigitByte b = true := by
  rw [decimal_eq_map, mem_map] at h
  obtain ⟨c, hc, rfl⟩ := h
  exact (toNat_digit (isAsciiDigit_of_mem_natToStr hc)).1

lemma decimal_ne_nil (n : ℕ) : decimal n ≠ [] :=
  ne_nil_of_length_pos (length_asBytes_pos toDigits_ne_nil)

/-- The number that decimal digits write. -/
def decimalValue (digits : List UInt8) : ℕ :=
  digits.foldl (fun value b => value * 10 + (b.toNat - 48)) 0

/-- **The length that is read** is the number that is written. It only grows, so that no part of it
overflows when the whole does not. -/
lemma parseLength_eq (value : List UInt8) :
    parseLength value
      = if value.all isAsciiDigitByte ∧ decimalValue value < U64_LIMIT then
          some (decimalValue value)
        else none := by
  induction value using reverseRecOn with
  | nil => rfl
  | append_singleton value b ih =>
    have hvalue : decimalValue (value ++ [b]) = decimalValue value * 10 + (b.toNat - 48) := by
      rw [decimalValue, foldl_append]
      rfl
    rw [parseLength, foldlM_append, ← parseLength, ih, hvalue]
    simp only [all_append, all_cons, all_nil, foldlM_cons, foldlM_nil]
    split_ifs with hall hnext hnext
    all_goals grind

lemma decimalValue_decimal (n : ℕ) : decimalValue (decimal n) = n := by
  have hvalue : digitsValue (natToStr n) = n :=
    ofDigitChars_toDigits (by decide) (by decide)
  rw [decimalValue, decimal_eq_map, foldl_map]
  refine (foldl_ext _ _ _ fun acc c hc => ?_).trans hvalue
  rw [(toNat_digit (isAsciiDigit_of_mem_natToStr hc)).2, mul_comm]
  rfl

/-- **A length that was written is read back.** -/
lemma parseLength_decimal {n} (h : n < U64_LIMIT) : parseLength (decimal n) = some n := by
  rw [parseLength_eq, decimalValue_decimal,
    if_pos ⟨all_eq_true.mpr fun b hb => isAsciiDigitByte_of_mem_decimal hb, h⟩]

lemma trimOws_cons_space {value} (h : ∀ b ∈ value, isOws b = false) :
    trimOws (32 :: value) = value := by
  have hdrop : (32 :: value).dropWhile isOws = value := by
    rw [dropWhile_cons_of_pos (by decide)]
    cases value with
    | nil => rfl
    | cons b value =>
      rw [dropWhile_cons_of_neg (by rw [h b mem_cons_self]; decide)]
  rw [trimOws, hdrop, rdropWhile_eq_self_iff]
  intro hne
  rw [h _ (getLast_mem hne)]
  decide

end Meow.Http
