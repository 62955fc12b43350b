import Mathlib.Tactic
import Mathlib.Data.List.DropRight

/-!
# Text

Text is a list of characters. This file has the operations of `str` and `char` that parsers of
configuration and protocol text are written with, under the names of the standard library.

## Main definitions

* `trim`, `splitOnce`, `rsplitOnce`, `lines` — cutting text.
* `parseUnsigned` — `str::parse` for the unsigned integer types.
* `asBytes`, `fromUtf8`, `fromUtf8Lossy` — text and its bytes.
-/

namespace Meow

open List UInt8 Nat

/-- A text. -/
abbrev Str := List Char

/-- The text of a literal. -/
abbrev str (s : String) : Str := s.toList

/-- `char::to_ascii_lowercase`. -/
def asciiLower (c : Char) : Char := c.toLower

variable (c : Char)

/-- Only the codes of the upper-case ASCII letters change. -/
lemma toNat_asciiLower : (asciiLower c).toNat =
    if 65 ≤ c.toNat ∧ c.toNat ≤ 90 then c.toNat + 32 else c.toNat := by
  have hiff : (c.val ≥ 'A'.val ∧ c.val ≤ 'Z'.val) ↔ 65 ≤ c.toNat ∧ c.toNat ≤ 90 := by
    rfl
  unfold asciiLower Char.toLower
  by_cases hupper : 65 ≤ c.toNat ∧ c.toNat ≤ 90
  · rw [if_pos hupper, dif_pos (hiff.mpr hupper)]
    show (c.val + ('a'.val - 'A'.val)).toNat = _
    show (c.toNat + 32) % 2 ^ 32 = _
    omega
  · rw [if_neg hupper, dif_neg (mt hiff.mp hupper)]

lemma asciiLower_asciiLower : asciiLower (asciiLower c) = asciiLower c := by
  apply Char.toNat_inj.mp
  rw [toNat_asciiLower, toNat_asciiLower]
  split_ifs <;> omega

/-- `str::to_ascii_lowercase`. -/
def toAsciiLowercase (s : Str) : Str := s.map asciiLower

@[simp] lemma toAsciiLowercase_toAsciiLowercase (s : Str) :
    toAsciiLowercase (toAsciiLowercase s) = toAsciiLowercase s := by
  simp [toAsciiLowercase, asciiLower_asciiLower]

/-- `str::to_lowercase`, which follows the Unicode tables. What is used of it: it lowers the ASCII
letters of an ASCII text, and leaves no upper-case ASCII letter in any text. -/
structure Lowercase where
  toLowercase : Str → Str
  ascii : ∀ s : Str, (∀ c ∈ s, c.toNat < 128) → toLowercase s = toAsciiLowercase s
  lower : ∀ s : Str, toAsciiLowercase (toLowercase s) = toLowercase s

/-- A function that lowers the ASCII letters only has these properties. -/
def Lowercase.asciiOnly : Lowercase where
  toLowercase := toAsciiLowercase
  ascii _ _ := rfl
  lower := toAsciiLowercase_toAsciiLowercase

/-- `char::to_ascii_uppercase`. -/
def asciiUpper (c : Char) : Char := c.toUpper

/-- `str::to_ascii_uppercase`. -/
def toAsciiUppercase (s : Str) : Str := s.map asciiUpper

/-- `str::to_uppercase`, which follows the Unicode tables. What is used of it: it raises the ASCII
letters of an ASCII text. -/
structure Uppercase where
  toUppercase : Str → Str
  ascii : ∀ s : Str, (∀ c ∈ s, c.toNat < 128) → toUppercase s = toAsciiUppercase s

/-- A function that raises the ASCII letters only has this property. -/
def Uppercase.asciiOnly : Uppercase where
  toUppercase := toAsciiUppercase
  ascii _ _ := rfl

/-- `str::eq_ignore_ascii_case`. -/
def strEqIgnoreAsciiCase (s t : Str) : Bool := toAsciiLowercase s == toAsciiLowercase t

/-- `char::is_whitespace`: the Unicode property `White_Space`. -/
def isWhitespace (c : Char) : Bool :=
  let n := c.toNat
  (9 ≤ n && n ≤ 13) || n == 32 || n == 0x85 || n == 0xA0 || n == 0x1680 ||
    (0x2000 ≤ n && n ≤ 0x200A) || n == 0x2028 || n == 0x2029 || n == 0x202F || n == 0x205F ||
    n == 0x3000

/-- `str::trim`. -/
def trim (s : Str) : Str := (s.dropWhile isWhitespace).rdropWhile isWhitespace

/-- `str::trim_start`. -/
def trimStart (s : Str) : Str := s.dropWhile isWhitespace

variable {front back : Str}

/-- White space around a text is trimmed away. -/
lemma trim_surrounded (hfront : ∀ c ∈ front, isWhitespace c)
    (hback : ∀ c ∈ back, isWhitespace c) (s : Str) : trim (front ++ s ++ back) = trim s := by
  have hend : ∀ l : Str, (l ++ back).rdropWhile isWhitespace = l.rdropWhile isWhitespace := by
    intro l
    rw [rdropWhile, reverse_append,
      dropWhile_append_of_pos fun c hc => hback c (mem_reverse.mp hc), rdropWhile]
  rw [trim, append_assoc, dropWhile_append_of_pos hfront, dropWhile_append]
  split_ifs with hempty
  · rw [List.isEmpty_iff] at hempty
    rw [trim, hempty, dropWhile_eq_nil_iff.mpr hback]
  · rw [hend, trim]

variable {s : Str}

/-- A text that neither begins nor ends with white space is not trimmed. -/
lemma trim_eq_self (hhead : ∀ c ∈ s.head?, isWhitespace c = false)
    (hlast : ∀ c ∈ s.getLast?, isWhitespace c = false) : trim s = s := by
  have hdrop : s.dropWhile isWhitespace = s := by
    rw [dropWhile_eq_self_iff]
    intro hpos
    simpa using hhead s[0] (by simp [head?_eq_getElem?, getElem?_eq_getElem hpos])
  rw [trim, hdrop, rdropWhile_eq_self_iff]
  intro hne
  simpa using hlast _ (getLast?_eq_some_getLast hne)

/-- A trimmed text neither begins nor ends with white space. -/
lemma not_isWhitespace_ends_trim (s : Str) :
    (∀ c ∈ (trim s).head?, isWhitespace c = false) ∧
      ∀ c ∈ (trim s).getLast?, isWhitespace c = false := by
  refine ⟨fun c hc => ?_, fun c hc => ?_⟩
  · obtain ⟨rest, hrest⟩ := rdropWhile_prefix isWhitespace (l := s.dropWhile isWhitespace)
    have hhead : (s.dropWhile isWhitespace).head? = some c := by
      rw [← hrest, head?_append]
      rw [trim] at hc
      rw [Option.mem_def.mp hc]
      rfl
    have hnot := head?_dropWhile_not isWhitespace s
    rw [hhead] at hnot
    exact hnot
  · obtain ⟨hne, hlast⟩ := mem_getLast?_eq_getLast hc
    rw [hlast, Bool.eq_false_iff]
    exact rdropWhile_last_not isWhitespace _ hne

lemma trim_trim (s : Str) : trim (trim s) = trim s :=
  trim_eq_self (not_isWhitespace_ends_trim s).1 (not_isWhitespace_ends_trim s).2

lemma trim_trimStart (s : Str) : trim (trimStart s) = trim s := by
  have hfront : ∀ c ∈ s.takeWhile isWhitespace, isWhitespace c :=
    fun c hc => mem_takeWhile_imp hc
  have htrim := trim_surrounded hfront (fun c (hc : c ∈ []) => absurd hc not_mem_nil)
    (trimStart s)
  rw [append_nil, trimStart, takeWhile_append_dropWhile] at htrim
  exact htrim.symm

lemma trim_trimEnd (s : Str) : trim (s.rdropWhile isWhitespace) = trim s := by
  have hback : ∀ c ∈ s.rtakeWhile isWhitespace, isWhitespace c :=
    fun c hc => mem_rtakeWhile_imp hc
  have htrim := trim_surrounded (fun c (hc : c ∈ []) => absurd hc not_mem_nil) hback
    (s.rdropWhile isWhitespace)
  rw [nil_append, rdropWhile_append_rtakeWhile] at htrim
  exact htrim.symm

section Parts

variable {c} (hc : isWhitespace c = false) (a b : Str)
include hc

lemma trimEnd_append_cons :
    (a ++ c :: b).rdropWhile isWhitespace = a ++ c :: b.rdropWhile isWhitespace := by
  rw [rdropWhile, reverse_append, reverse_cons, append_assoc, dropWhile_append]
  split_ifs with hempty
  · rw [rdropWhile, isEmpty_iff.mp hempty, singleton_append,
      dropWhile_cons_of_neg (by rw [hc]; exact Bool.false_ne_true)]
    simp
  · rw [rdropWhile]
    simp

/-- Where a text has another character, the white space in front of it and behind it is trimmed
apart. -/
lemma trim_append_cons : trim (a ++ c :: b) = trimStart a ++ c :: b.rdropWhile isWhitespace := by
  have hstart : (a ++ c :: b).dropWhile isWhitespace = trimStart a ++ c :: b := by
    rw [dropWhile_append, trimStart]
    split_ifs with hempty
    · rw [isEmpty_iff.mp hempty, nil_append,
        dropWhile_cons_of_neg (by rw [hc]; exact Bool.false_ne_true)]
    · rfl
  rw [trim, hstart, trimEnd_append_cons hc]

end Parts

/-- `str::split_once` at the first `sep`. -/
def splitOnce (sep : Char) : Str → Option (Str × Str)
  | [] => none
  | c :: s =>
    if c = sep then some ([], s)
    else (splitOnce sep s).map fun p => (c :: p.1, p.2)

variable {sep : Char}

lemma splitOnce_append (h : sep ∉ front) (back : Str) :
    splitOnce sep (front ++ sep :: back) = some (front, back) := by
  induction front with
  | nil => simp [splitOnce]
  | cons c front ih =>
    rw [mem_cons, not_or] at h
    simp [splitOnce, Ne.symm h.1, ih h.2]

/-- What `str::rfind` and two slices give: the text before and after the last `sep`. -/
def rsplitOnce (sep : Char) (s : Str) : Option (Str × Str) :=
  (splitOnce sep s.reverse).map fun (back, front) => (front.reverse, back.reverse)

lemma rsplitOnce_append (h : sep ∉ back) (front : Str) :
    rsplitOnce sep (front ++ sep :: back) = some (front, back) := by
  rw [rsplitOnce, reverse_append, reverse_cons, append_assoc, singleton_append,
    splitOnce_append (by simpa using h)]
  simp

/-- `str::splitn`: at most `n` parts, the last of which is not split. -/
def splitN (sep : Char) : ℕ → Str → List Str
  | 0, _ => []
  | 1, s => [s]
  | n + 2, s =>
    match splitOnce sep s with
    | none => [s]
    | some (part, rest) => part :: splitN sep (n + 1) rest

/-- `str::rsplit` at each `sep`: the parts, the last one first. -/
def rsplit (sep : Char) (s : Str) : List Str := (s.splitOn sep).reverse

/-- `str::trim_end_matches` of one character. -/
def trimEndMatches (c : Char) (s : Str) : Str := s.rdropWhile fun x => x = c

/-- `str::strip_prefix`. -/
def stripPrefix (front s : Str) : Option Str :=
  if front.isPrefixOf s then some (s.drop front.length) else none

/-- `str::contains` of a text. -/
def containsStr (s needle : Str) : Bool := s.tails.any fun t => needle.isPrefixOf t

/-- `<[str]>::join`. -/
def joinStr (sep : Str) (parts : List Str) : Str := (parts.intersperse sep).flatten

/-- The loop of `str::replace`: the next `skip` characters are already replaced. -/
def replaceFrom (needle replacement : Str) : ℕ → Str → Str
  | _, [] => []
  | skip + 1, _ :: s => replaceFrom needle replacement skip s
  | 0, c :: s =>
    if needle.isPrefixOf (c :: s) then
      replacement ++ replaceFrom needle replacement (needle.length - 1) s
    else c :: replaceFrom needle replacement 0 s

/-- `str::replace` of a text that is not empty. -/
def replaceStr (needle replacement s : Str) : Str := replaceFrom needle replacement 0 s

/-- `str::strip_suffix` of one character. -/
def stripSuffixChar (c : Char) (s : Str) : Option Str :=
  if s.getLast? = some c then some s.dropLast else none

/-- `str::lines`: every line but the last ends in a line feed, which goes with a carriage return
before it; an empty last line is none. -/
def lines (s : Str) : List Str :=
  let parts := s.splitOn '\n'
  let last := parts.getLastD []
  parts.dropLast.map (fun l => (stripSuffixChar '\r' l).getD l) ++ if last = [] then [] else [last]

/-- `char::is_ascii_digit`. -/
def isAsciiDigit (c : Char) : Bool := '0' ≤ c && c ≤ '9'

/-- The number that a text of decimal digits writes. -/
def digitsValue (s : Str) : ℕ := s.foldl (fun n c => 10 * n + (c.toNat - '0'.toNat)) 0

/-- `str::parse` for an unsigned integer type with the greatest value `max`: an optional plus
sign, then at least one digit, and no overflow. -/
def parseUnsigned (max : ℕ) (s : Str) : Option ℕ :=
  let digits := match s with
    | '+' :: c :: cs => c :: cs
    | _ => s
  if digits ≠ [] ∧ digits.all isAsciiDigit ∧ digitsValue digits ≤ max then
    some (digitsValue digits)
  else none

/-- The digits of `parseUInt`, after those that make up `acc`. -/
def parseUIntDigits (max : ℕ) : ℕ → Str → Except Str ℕ
  | acc, [] => .ok acc
  | acc, c :: s =>
    if isAsciiDigit c then
      let acc := 10 * acc + (c.toNat - '0'.toNat)
      if acc ≤ max then parseUIntDigits max acc s
      else .error (str "number too large to fit in target type")
    else .error (str "invalid digit found in string")

/-- `str::parse` for an unsigned integer type with the greatest value `max`, with the text of the
`ParseIntError`. -/
def parseUInt (max : ℕ) (s : Str) : Except Str ℕ :=
  match s with
  | [] => .error (str "cannot parse integer from empty string")
  | ['+'] => .error (str "invalid digit found in string")
  | '+' :: digits => parseUIntDigits max 0 digits
  | digits => parseUIntDigits max 0 digits

/-- The decimal text of a number. -/
def natToStr (n : ℕ) : Str := Nat.toDigits 10 n

lemma isAsciiDigit_of_isDigit {c : Char} (h : c.isDigit) : isAsciiDigit c = true := by
  rw [Char.isDigit, Bool.and_eq_true, decide_eq_true_eq, decide_eq_true_eq] at h
  rw [isAsciiDigit, Bool.and_eq_true, decide_eq_true_eq, decide_eq_true_eq]
  exact h

lemma isAsciiDigit_of_mem_natToStr {n c} (h : c ∈ natToStr n) : isAsciiDigit c = true :=
  isAsciiDigit_of_isDigit (isDigit_of_mem_toDigits (by decide) (by decide) h)

/-- **A number that was written is read back.** -/
lemma parseUnsigned_natToStr {max n} (h : n ≤ max) : parseUnsigned max (natToStr n) = some n := by
  have hvalue : digitsValue (natToStr n) = n :=
    ofDigitChars_toDigits (by decide) (by decide)
  have hdigits : ∀ c ∈ natToStr n, isAsciiDigit c :=
    fun c hc => isAsciiDigit_of_mem_natToStr hc
  have hne : natToStr n ≠ [] := toDigits_ne_nil
  have hall : (natToStr n).all isAsciiDigit := all_eq_true.mpr hdigits
  rw [parseUnsigned, if_pos ⟨hne, hall, hvalue.trans_le h⟩, hvalue]
  -- there is no sign in front
  intro c cs heq
  have hplus := hdigits '+' (by rw [heq]; exact mem_cons_self)
  cases hplus

/-! ### Parts of a text -/

lemma isInfix_trim (s : Str) : trim s <:+: s :=
  (List.rdropWhile_prefix _ _).isInfix.trans (dropWhile_suffix _).isInfix

lemma trimStart_suffix (s : Str) : trimStart s <:+ s := dropWhile_suffix _

/-- What is no part of a text is no part of the text without the white space around it. -/
lemma not_mem_trim {c} (h : c ∉ s) : c ∉ trim s := fun hc => h ((isInfix_trim s).mem hc)

lemma splitOnce_of_not_mem (h : sep ∉ s) : splitOnce sep s = none := by
  induction s with
  | nil => rfl
  | cons c s ih => rw [splitOnce, if_neg (by grind), ih (by grind), Option.map_none]

/-- A text is cut at its first separator. -/
lemma splitOnce_eq_some {p} (h : splitOnce sep s = some p) : s = p.1 ++ sep :: p.2 ∧ sep ∉ p.1 := by
  by_cases hmem : sep ∈ s
  · obtain ⟨front, back, rfl, hfront⟩ := eq_append_cons_of_mem hmem
    rw [splitOnce_append hfront] at h
    cases h
    exact ⟨rfl, hfront⟩
  · rw [splitOnce_of_not_mem hmem] at h
    cases h

/-- The first part of a text that is split, and what the others are the parts of. -/
lemma cases_of_splitOn {part : Str} {parts : List Str} (h : s.splitOn sep = part :: parts) :
    sep ∉ part ∧
      (parts = [] ∧ s = part ∨ ∃ rest, s = part ++ sep :: rest ∧ rest.splitOn sep = parts) := by
  by_cases hmem : sep ∈ s
  · obtain ⟨front, back, rfl, hfront⟩ := eq_append_cons_of_mem hmem
    rw [splitOn_append_cons_self, splitOn_eq_singleton hfront] at h
    obtain ⟨rfl, hback⟩ := cons.inj h
    exact ⟨hfront, .inr ⟨back, rfl, hback⟩⟩
  · rw [splitOn_eq_singleton hmem] at h
    obtain ⟨rfl, hparts⟩ := cons.inj h
    exact ⟨hmem, .inl ⟨hparts.symm, rfl⟩⟩

lemma splitN_ne_nil (sep : Char) (n : ℕ) (s : Str) : splitN sep (n + 1) s ≠ [] := by
  cases n with
  | zero => simp [splitN]
  | succ n =>
    rw [splitN]
    split <;> exact cons_ne_nil _ _

/-- The first part of a text. -/
lemma splitN_append (h : sep ∉ front) (n : ℕ) (back : Str) :
    splitN sep (n + 2) (front ++ sep :: back) = front :: splitN sep (n + 1) back := by
  rw [splitN, splitOnce_append h]

lemma splitN_of_not_mem (h : sep ∉ s) (n : ℕ) : splitN sep (n + 1) s = [s] := by
  cases n with
  | zero => rfl
  | succ n => rw [splitN, splitOnce_of_not_mem h]

/-- **The parts of a text, with the separators between them, are the text.** -/
lemma joinStr_splitN (sep : Char) (n : ℕ) (s : Str) : joinStr [sep] (splitN sep (n + 1) s) = s := by
  induction n generalizing s with
  | zero => simp [splitN, joinStr]
  | succ n ih =>
    rw [splitN]
    rcases hsplit : splitOnce sep s with _ | ⟨part, rest⟩
    · simp [joinStr]
    · obtain ⟨p, ps, hparts⟩ := exists_cons_of_ne_nil (splitN_ne_nil sep n rest)
      have hrest := ih rest
      rw [hparts, joinStr] at hrest
      simp [hparts, joinStr, hrest, (splitOnce_eq_some hsplit).1]

/-- A part of a joined text stands in it. -/
lemma infix_joinStr {sep part : Str} {parts : List Str} (h : part ∈ parts) :
    part <:+: joinStr sep parts := by
  induction parts with
  | nil => exact absurd h not_mem_nil
  | cons p ps ih =>
    cases ps with
    | nil =>
      rw [mem_singleton.mp h]
      simp [joinStr]
    | cons q qs =>
      rcases mem_cons.mp h with rfl | h
      · exact (prefix_append _ _).isInfix
      · exact (ih h).trans ((suffix_append _ _).trans (suffix_append _ _)).isInfix

/-- A text without the separator that stands in a joined text stands on one side of it. -/
lemma infix_append_cons {word : Str} (hsep : sep ∉ word) (h : word <:+: front ++ sep :: back) :
    word <:+: front ∨ word <:+: back := by
  obtain ⟨s, t, hst⟩ := h
  rw [append_assoc, append_eq_append_iff] at hst
  rcases hst with ⟨u, hfront, hu⟩ | ⟨u, hs, hu⟩
  · -- the word begins in the front
    rw [append_eq_append_iff] at hu
    rcases hu with ⟨v, hu, _⟩ | ⟨v, hword, hv⟩
    · exact .inl ⟨s, v, by rw [hfront, hu, append_assoc]⟩
    · cases v with
      | nil => exact .inl ⟨s, [], by rw [hfront, hword, append_nil, append_nil]⟩
      | cons c v =>
        refine absurd ?_ hsep
        rw [hword, mem_append]
        exact .inr ((cons.inj hv).1 ▸ mem_cons_self)
  · -- the word begins behind the front
    cases u with
    | nil =>
      cases word with
      | nil => exact .inl ⟨[], front, rfl⟩
      | cons c word =>
        refine absurd ?_ hsep
        rw [(cons.inj hu).1]
        exact mem_cons_self
    | cons c u =>
      exact .inr ⟨u, t, by rw [append_assoc]; exact (cons.inj hu).2.symm⟩

/-! ### UTF-8 -/

/-- `str::as_bytes`. -/
def asBytes (s : Str) : List UInt8 := s.flatMap String.utf8EncodeChar

/-- `str::from_utf8`. -/
def fromUtf8 (bytes : List UInt8) : Option Str := bytes.toByteArray.utf8Decode?.map Array.toList

/-- The bytes of a text are read as that text. -/
lemma fromUtf8_asBytes (s : Str) : fromUtf8 (asBytes s) = some s := by
  have hdec : s.utf8Encode.utf8Decode? = some s.toArray := utf8Decode?_utf8Encode
  show s.utf8Encode.utf8Decode?.map Array.toList = some s
  rw [hdec]
  rfl

lemma utf8EncodeChar_ne_nil : String.utf8EncodeChar c ≠ [] := by
  unfold String.utf8EncodeChar
  dsimp only
  split_ifs <;> exact cons_ne_nil _ _

lemma length_asBytes_pos (h : s ≠ []) : 0 < (asBytes s).length := by
  cases s with
  | nil => exact absurd rfl h
  | cons c s =>
    have hpos := length_pos_of_ne_nil (utf8EncodeChar_ne_nil c)
    rw [asBytes, flatMap_cons, length_append]
    omega

/-- `u8::to_ascii_lowercase`. -/
def byteLower (b : UInt8) : UInt8 := if 65 ≤ b ∧ b ≤ 90 then b + 32 else b

/-- Different texts have different bytes. -/
lemma asBytes_injective : Function.Injective asBytes := by
  intro s s' h
  have henc : s.utf8Encode = s'.utf8Encode := congrArg toByteArray h
  have hdec : s.utf8Encode.utf8Decode? = some s.toArray := utf8Decode?_utf8Encode
  rw [henc] at hdec
  simpa using hdec.symm

lemma byteLower_ofNat {n : ℕ} (hn : n < 256) :
    byteLower (ofNat n) = ofNat (if 65 ≤ n ∧ n ≤ 90 then n + 32 else n) := by
  have hle : ∀ m : ℕ, m < 256 → (ofNat m).toNat = m := fun m hm => by
    rw [toNat_ofNat', mod_eq_of_lt hm]
  have hiff : (65 ≤ ofNat n ∧ ofNat n ≤ 90) ↔ 65 ≤ n ∧ n ≤ 90 := by
    rw [le_iff_toNat_le, le_iff_toNat_le, hle n hn]
    rfl
  unfold byteLower
  by_cases h : 65 ≤ n ∧ n ≤ 90
  · rw [if_pos h, if_pos (hiff.mpr h)]
    apply UInt8.toNat_inj.mp
    rw [UInt8.toNat_add, hle n hn, hle (n + 32) (by omega)]
    show (n + 32) % 256 = n + 32
    omega
  · rw [if_neg h, if_neg (mt hiff.mp h)]

/-- The bytes of a character above ASCII are no letters. -/
lemma byteLower_utf8 {v : ℕ} (h : 128 ≤ v) (h' : v < 256) : byteLower (ofNat v) = ofNat v := by
  rw [byteLower_ofNat h', if_neg (by omega)]

/-- Lowering a character lowers its bytes. -/
lemma utf8EncodeChar_asciiLower :
    String.utf8EncodeChar (asciiLower c) = (String.utf8EncodeChar c).map byteLower := by
  have hval := toNat_asciiLower c
  simp only [Char.toNat] at hval
  simp only [String.utf8EncodeChar, hval]
  by_cases hupper : 65 ≤ c.val.toNat ∧ c.val.toNat ≤ 90
  · rw [if_pos hupper, if_pos (by omega), if_pos (by omega), map_singleton,
      byteLower_ofNat (by omega), if_pos hupper]
  · split_ifs with h1 h2 h3
    · rw [map_singleton, byteLower_ofNat (by omega), if_neg hupper]
    all_goals simp (disch := omega) only [map_cons, map_nil, byteLower_utf8]

lemma asBytes_toAsciiLowercase (s : Str) :
    asBytes (toAsciiLowercase s) = (asBytes s).map byteLower := by
  simp only [asBytes, toAsciiLowercase, flatMap_map, map_flatMap]
  congr 1
  funext c
  exact utf8EncodeChar_asciiLower c

/-- Is the byte a continuation byte in `lo..=hi`? -/
def isCont (b lo hi : UInt8) : Bool := lo ≤ b && b ≤ hi

/-- The allowed range of the second byte after the first byte of a three- or four-byte
sequence, as the well-formedness table of the standard has it. -/
def secondRange (b : UInt8) : UInt8 × UInt8 :=
  if b = 0xE0 then (0xA0, 0xBF) else if b = 0xED then (0x80, 0x9F)
  else if b = 0xF0 then (0x90, 0xBF) else if b = 0xF4 then (0x80, 0x8F) else (0x80, 0xBF)

/-- The scalar value of a sequence from its payload bits. -/
def scalar (n : ℕ) : Char := Char.ofNat n

/-- `String::from_utf8_lossy`: each maximal ill-formed part becomes one replacement
character. -/
def fromUtf8Lossy : List UInt8 → Str
  | [] => []
  | b0 :: rest =>
    if b0 < 0x80 then scalar b0.toNat :: fromUtf8Lossy rest
    else if 0xC2 ≤ b0 ∧ b0 ≤ 0xDF then
      match rest with
      | b1 :: rest' =>
        if isCont b1 0x80 0xBF then
          scalar ((b0.toNat - 0xC0) * 64 + (b1.toNat - 0x80)) :: fromUtf8Lossy rest'
        else '�' :: fromUtf8Lossy (b1 :: rest')
      | [] => ['�']
    else if 0xE0 ≤ b0 ∧ b0 ≤ 0xEF then
      match rest with
      | b1 :: rest' =>
        if isCont b1 (secondRange b0).1 (secondRange b0).2 then
          match rest' with
          | b2 :: rest'' =>
            if isCont b2 0x80 0xBF then
              scalar ((b0.toNat - 0xE0) * 4096 + (b1.toNat - 0x80) * 64 + (b2.toNat - 0x80)) ::
                fromUtf8Lossy rest''
            else '�' :: fromUtf8Lossy (b2 :: rest'')
          | [] => ['�']
        else '�' :: fromUtf8Lossy (b1 :: rest')
      | [] => ['�']
    else if 0xF0 ≤ b0 ∧ b0 ≤ 0xF4 then
      match rest with
      | b1 :: rest' =>
        if isCont b1 (secondRange b0).1 (secondRange b0).2 then
          match rest' with
          | b2 :: rest'' =>
            if isCont b2 0x80 0xBF then
              match rest'' with
              | b3 :: rest''' =>
                if isCont b3 0x80 0xBF then
                  scalar ((b0.toNat - 0xF0) * 262144 + (b1.toNat - 0x80) * 4096 +
                    (b2.toNat - 0x80) * 64 + (b3.toNat - 0x80)) :: fromUtf8Lossy rest'''
                else '�' :: fromUtf8Lossy (b3 :: rest''')
              | [] => ['�']
            else '�' :: fromUtf8Lossy (b2 :: rest'')
          | [] => ['�']
        else '�' :: fromUtf8Lossy (b1 :: rest')
      | [] => ['�']
    else '�' :: fromUtf8Lossy rest

end Meow
