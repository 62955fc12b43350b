import Mathlib
import Meow.Config.RuleRefresh
import Meow.Lib.Scan
import Meow.Rules.GeositeLoad

/-!
# Scanning a configuration for geosite categories

Before the rules of a configuration are parsed, `build_parser_context_at` looks for the categories
that they name, with the regular expression
`(?i)\bGEOSITE\s*,\s*([A-Za-z0-9_!\-]+)(?:@[A-Za-z0-9_!\-]+)*`, and loads these categories of the
geosite database only. This file has the scan, and shows which names it finds.

## Main definitions

* `geositeHere` — the regular expression.
* `collectGeoScanLines` — the lines that are scanned.
* `loadGeosite` — the database that the rules get.
* `Written` — a name is written behind `GEOSITE,` in a line.

## Main results

* `Written.mem_geositeCaptures` — a name that is written in a line is found.
* `Written.mem_allowedCategories` — its category is loaded.
-/

namespace Meow.Config

open Rules List Option Bool Char

/-! ### The regular expression -/

/-- `\w` of the library `regex`, by the properties of Unicode. -/
structure WordChars where
  isWord : Char → Bool
  ascii : ∀ c, c.toNat < 128 → isWord c = (c.isAlphanum || c == '_')
  whitespace : ∀ c, isWhitespace c = true → isWord c = false

/-- `[A-Za-z0-9_!\-]` without regard to case: the long s and the sign of the unit Kelvin are letters
of the range in another case. -/
def isCategoryChar (c : Char) : Bool := c.isAlphanum || (str "_!-\u017f\u212a").contains c

/-- A letter of the word `GEOSITE` without regard to case. -/
def sameLetter (letter c : Char) : Bool :=
  asciiLower c == asciiLower letter || (letter == 'S' && c == '\u017f')

/-- What follows a word at the front of a text. -/
def stripWord : Str → Str → Option Str
  | [], s => some s
  | _ :: _, [] => none
  | letter :: word, c :: s => if sameLetter letter c then stripWord word s else none

/-- What follows the attributes at the front of a text, of which there are at most so many. -/
def skipAttributes : ℕ → Str → Str
  | 0, s => s
  | _ + 1, [] => []
  | n + 1, c :: s =>
    if c = '@' ∧ s.takeWhile isCategoryChar ≠ [] then
      skipAttributes n (s.dropWhile isCategoryChar)
    else c :: s

/-- The regular expression behind the word: the name, and what follows the match. -/
def nameHere (s : Str) : Option (Str × Str) :=
  match trimStart s with
  | ',' :: rest =>
    let name := (trimStart rest).takeWhile isCategoryChar
    let behind := (trimStart rest).dropWhile isCategoryChar
    if name = [] then none else some (name, skipAttributes behind.length behind)
  | _ => none

variable (words : WordChars)

/-- `geosite_scan_regex` at the front of a text, given the character before it. -/
def geositeHere (previous : Option Char) (s : Str) : Option (Str × Str) :=
  if previous.any words.isWord = s.head?.any words.isWord then none
  else (stripWord (str "GEOSITE") s).bind nameHere

/-- The names that the regular expression finds in a line. -/
def geositeCaptures (line : Str) : List Str := capturesIter (geositeHere words) none 0 line

def collectGeositeCategories (lines : List Str) : List Str :=
  (lines.filter fun line => !isBlank line).flatMap fun line =>
    (geositeCaptures words line).map toAsciiLowercase

def lineReferencesGeosite (line : Str) : Bool :=
  !isBlank line && geositeCaptures words (trim line) ≠ []

/-! ### The database for the rules -/

/-- What `build_parser_context_at` reads of a configuration: the rules, the payloads of rule
providers that were fetched before, and the keys of `nameserver-policy`. -/
structure GeoConfig where
  rules : RawRules
  providerPayloads : AList fun _ : Str => List UInt8
  policy : List Str

def collectGeoScanLines (config : GeoConfig) : List Str :=
  config.rules.rules ++ config.rules.subRules.entries.flatMap (fun block => block.2) ++
    config.rules.ruleProviders.entries.flatMap (fun cfg => cfg.2.payload.getD []) ++
    config.providerPayloads.entries.flatMap fun bytes =>
      if isMrsBytes bytes.2 then [] else parseTextPayload (fromUtf8Lossy bytes.2)

/-- The key is about categories. -/
def isGeositePolicy (key : Str) : Bool := (str "geosite:").isPrefixOf (toAsciiLowercase (trim key))

def dnsPolicyUsesGeosite (policy : List Str) : Bool := policy.any isGeositePolicy

def collectDnsPolicyGeositeCategories (policy : List Str) : List Str :=
  (policy.filter isGeositePolicy).flatMap fun key =>
    ((((trim key).drop (str "geosite:").length).splitOn ',').map fun category =>
      toAsciiLowercase (((trim category).splitOn '@').headD [])).filter fun category =>
        category ≠ []

/-- The categories that are loaded. -/
def allowedCategories (config : GeoConfig) : List Str :=
  collectGeositeCategories words (collectGeoScanLines config) ++
    collectDnsPolicyGeositeCategories config.policy

/-- The part of `build_parser_context_at` that loads the geosite database, with the bytes of the
file that was found. -/
def loadGeosite (env : RuleEnv) (readers : MrsReaders) (config : GeoConfig)
    (file : Option (List UInt8)) : Option GeositeDb :=
  if (collectGeoScanLines config).any (lineReferencesGeosite words) ||
      dnsPolicyUsesGeosite config.policy then
    file.bind fun data =>
      (GeositeDb.fromBytes env readers data (some (allowedCategories words config))).toOption
  else none

/-! ### Characters -/

variable {c : Char}

/-- What holds for all characters of ASCII can be decided. -/
lemma forall_ascii {P : Char → Prop} (h : ∀ n < 128, P (Char.ofNat n)) (hc : c.toNat < 128) :
    P c := by
  have hchar := h c.toNat hc
  rwa [Char.ofNat_toNat] at hchar

lemma asciiLower_of_not_ascii (h : ¬c.toNat < 128) : asciiLower c = c := by
  apply toNat_inj.mp
  rw [toNat_asciiLower, if_neg (by omega)]

lemma isCategoryChar_asciiLower (c : Char) : isCategoryChar (asciiLower c) = isCategoryChar c := by
  by_cases hc : c.toNat < 128
  · exact forall_ascii (P := fun c => isCategoryChar (asciiLower c) = isCategoryChar c)
      (by decide +kernel) hc
  · rw [asciiLower_of_not_ascii hc]

lemma toNat_lt_of_isAlphanum (h : c.isAlphanum = true) : c.toNat < 128 := by
  simp only [isAlphanum, isAlpha, isUpper, isLower, isDigit,
    or_eq_true, and_eq_true, decide_eq_true_eq, UInt32.le_iff_toNat_le] at h
  have hZ : 'Z'.val.toNat = 90 := rfl
  have hz : 'z'.val.toNat = 122 := rfl
  have hnine : '9'.val.toNat = 57 := rfl
  show c.val.toNat < 128
  omega

/-- Names have none of the characters that stand around them. -/
lemma not_isWhitespace_of_isCategoryChar (h : isCategoryChar c = true) :
    isWhitespace c = false := by
  rcases or_eq_true_iff.mp h with halphanum | hother
  · exact forall_ascii (P := fun c => c.isAlphanum = true → isWhitespace c = false)
      (by decide +kernel) (toNat_lt_of_isAlphanum halphanum) halphanum
  · have hall : (str "_!-\u017f\u212a").any isWhitespace = false := by decide
    exact Bool.eq_false_iff.mpr (any_eq_false.mp hall c (by simpa using hother))

/-- Only characters of ASCII are letters or digits. -/
def WordChars.asciiOnly : WordChars where
  isWord c := c.isAlphanum || c == '_'
  ascii _ _ := rfl
  whitespace c h := by
    rw [← Bool.not_eq_true]
    intro hword
    have hcategory : isCategoryChar c = true := by
      rcases Bool.or_eq_true_iff.mp hword with halphanum | hline
      · rw [isCategoryChar, halphanum, Bool.true_or]
      · rw [beq_iff_eq.mp hline]
        decide
    rw [not_isWhitespace_of_isCategoryChar hcategory] at h
    cases h

lemma isCategoryChar_of_sameLetter {letter : Char} (hletter : letter ∈ str "GEOSITE")
    (h : sameLetter letter c = true) : isCategoryChar c = true := by
  rcases or_eq_true_iff.mp h with hsame | hlong
  · have hall : (str "GEOSITE").all isCategoryChar = true := by decide
    rw [← isCategoryChar_asciiLower, beq_iff_eq.mp hsame, isCategoryChar_asciiLower]
    exact all_eq_true.mp hall letter hletter
  · rw [and_eq_true, beq_iff_eq, beq_iff_eq] at hlong
    rw [hlong.2]
    decide

/-! ### Where a match ends -/

/-- A match that begins in this text does not reach beyond its end: neither a word, nor a name, nor
the blanks behind a comma go on there. -/
structure Fresh (front : Str) : Prop where
  last : ∀ c ∈ front.getLast?, words.isWord c = false ∧ isCategoryChar c = false ∧ c ≠ '@'
  comma : ∀ a blank, front = a ++ ',' :: blank → ∃ c ∈ blank, isWhitespace c = false

variable {words}

namespace Fresh

variable {front front' : Str}

lemma of_suffix (h : Fresh words front) (hsuffix : front' <:+ front) : Fresh words front' := by
  obtain ⟨a, rfl⟩ := hsuffix
  constructor
  · intro c hc
    apply h.last c
    rw [mem_def] at hc ⊢
    rw [getLast?_append, hc, some_or]
  · intro b blank heq
    exact h.comma (a ++ b) blank (by rw [heq, append_assoc])

lemma append (h : Fresh words front) (h' : Fresh words front') : Fresh words (front ++ front') where
  last c hc := by
    rw [mem_def, getLast?_append, or_eq_some_iff] at hc
    rcases hc with hc | ⟨-, hc⟩
    · exact h'.last c hc
    · exact h.last c hc
  comma a blank heq := by
    rcases append_eq_append_iff.mp heq with ⟨b, -, hb⟩ | ⟨b, hb, hblank⟩
    · -- the comma stands in the second text, unless it begins there
      exact h'.comma b blank hb
    · cases b with
      | nil => exact h'.comma [] blank hblank.symm
      | cons c b =>
        rw [cons_append, cons.injEq] at hblank
        obtain ⟨d, hd, hwhite⟩ := h.comma a b (by rw [hb, hblank.1])
        exact ⟨d, by rw [hblank.2]; exact mem_append_left _ hd, hwhite⟩

/-- Blanks end a match, unless they stand behind a comma. -/
lemma of_blank (h : ∀ c ∈ front, isWhitespace c = true) : Fresh words front where
  last c hc := by
    have hwhite := h c (mem_of_getLast? hc)
    refine ⟨words.whitespace c hwhite, ?_, ?_⟩
    · rw [← not_eq_true]
      intro hcategory
      rw [not_isWhitespace_of_isCategoryChar hcategory] at hwhite
      cases hwhite
    · rintro rfl
      cases hwhite
  comma a blank heq := by
    have hwhite := h ',' (heq ▸ mem_append_right a mem_cons_self)
    cases hwhite

/-- An opening parenthesis ends a match. -/
lemma append_paren (a : Str) : Fresh words (a ++ ['(']) where
  last c hc := by
    rw [getLast?_append, getLast?_singleton, some_or] at hc
    cases hc
    exact ⟨words.ascii '(' (by decide), by decide, by decide⟩
  comma b blank heq := by
    refine ⟨'(', ?_, by decide⟩
    have hlast := congrArg getLast? heq
    rcases eq_nil_or_concat' blank with rfl | ⟨blank, c, rfl⟩
    · simp at hlast
    · rw [← cons_append, ← append_assoc, getLast?_concat, getLast?_concat] at hlast
      rw [some.inj hlast]
      exact mem_append_right blank mem_cons_self

end Fresh

/-- What is left of a text still has a part of the front. -/
def Stays (front t rest : Str) : Prop :=
  ∃ front', front' ≠ [] ∧ front' <:+ front ∧ rest = front' ++ t

lemma Stays.trans {front t rest rest'} (h : Stays front t rest)
    (h' : ∀ front', front' ≠ [] → front' <:+ front → rest = front' ++ t → Stays front' t rest') :
    Stays front t rest' := by
  obtain ⟨front', hne, hsuffix, heq⟩ := h
  obtain ⟨front'', hne', hsuffix', heq'⟩ := h' front' hne hsuffix heq
  exact ⟨front'', hne', hsuffix'.trans hsuffix, heq'⟩

lemma Stays.of_suffix {front front' t rest : Str} (h : Stays front' t rest)
    (hsuffix : front' <:+ front) : Stays front t rest := by
  obtain ⟨front'', hne, hsuffix', heq⟩ := h
  exact ⟨front'', hne, hsuffix'.trans hsuffix, heq⟩

section Stays

variable {front t : Str}

/-- A run of characters ends in the front, if another one stands there. -/
lemma stays_dropWhile {p} (h : ∃ c ∈ front, p c = false) :
    Stays front t ((front ++ t).dropWhile p) := by
  have hne : front.dropWhile p ≠ [] := by
    intro hnil
    obtain ⟨c, hc, hp⟩ := h
    rw [List.dropWhile_eq_nil_iff.mp hnil c hc] at hp
    cases hp
  refine ⟨front.dropWhile p, hne, List.dropWhile_suffix p, ?_⟩
  rw [List.dropWhile_append, if_neg]
  rwa [List.isEmpty_iff]

/-- A name ends in the front. -/
lemma Fresh.stays_name (h : Fresh words front) (hne : front ≠ []) :
    Stays front t ((front ++ t).dropWhile isCategoryChar) := by
  have hlast := getLast?_eq_some_getLast hne
  exact stays_dropWhile ⟨_, getLast_mem hne, (h.last _ hlast).2.1⟩

lemma Fresh.stays_stripWord (h : Fresh words front) (hne : front ≠ []) {word rest}
    (hword : ∀ letter ∈ word, letter ∈ str "GEOSITE")
    (hstrip : stripWord word (front ++ t) = some rest) : Stays front t rest := by
  induction word generalizing front with
  | nil =>
    rw [stripWord, some.injEq] at hstrip
    exact ⟨front, hne, suffix_rfl, hstrip.symm⟩
  | cons letter word ih =>
    obtain ⟨c, front, rfl⟩ := exists_cons_of_ne_nil hne
    rw [cons_append, stripWord] at hstrip
    split_ifs at hstrip with hsame
    have hcategory := isCategoryChar_of_sameLetter (hword letter mem_cons_self) hsame
    -- a letter is not the last character of the front
    have hfront : front ≠ [] := by
      rintro rfl
      rw [(h.last c rfl).2.1] at hcategory
      cases hcategory
    have hstays := ih (h.of_suffix (suffix_cons c front)) hfront
      (fun l hl => hword l (mem_cons_of_mem _ hl)) hstrip
    exact hstays.of_suffix (suffix_cons c front)

lemma Fresh.stays_skipAttributes (h : Fresh words front) (hne : front ≠ []) (n : ℕ) :
    Stays front t (skipAttributes n (front ++ t)) := by
  induction n generalizing front with
  | zero => exact ⟨front, hne, suffix_rfl, rfl⟩
  | succ n ih =>
    obtain ⟨c, front, rfl⟩ := exists_cons_of_ne_nil hne
    rw [cons_append, skipAttributes]
    split_ifs with hat
    · have hfront : front ≠ [] := by
        rintro rfl
        exact (h.last c rfl).2.2 hat.1
      have hfresh := h.of_suffix (suffix_cons c front)
      refine ((hfresh.stays_name hfront).trans fun front' hne' hsuffix heq => ?_).of_suffix
        (suffix_cons c front)
      rw [heq]
      exact ih (hfresh.of_suffix hsuffix) hne'
    · exact ⟨c :: front, hne, suffix_rfl, rfl⟩

lemma nameHere_eq_some {s name rest} (h : nameHere s = some (name, rest)) :
    ∃ u n, trimStart s = ',' :: u ∧
      rest = skipAttributes n ((trimStart u).dropWhile isCategoryChar) := by
  unfold nameHere at h
  split at h
  next u hu =>
    simp only at h
    split_ifs at h
    exact ⟨u, _, hu, (Prod.mk.inj (some.inj h)).2.symm⟩
  next => cases h

lemma Fresh.stays_nameHere (h : Fresh words front)
    (ht : ∀ c ∈ t.head?, c ≠ ',' ∧ isWhitespace c = false) {name rest}
    (hmatch : nameHere (front ++ t) = some (name, rest)) : Stays front t rest := by
  obtain ⟨u, n, hu, rfl⟩ := nameHere_eq_some hmatch
  by_cases hblank : ∃ c ∈ front, isWhitespace c = false
  · -- the comma stands in the front, and it is not all blank behind it
    obtain ⟨front₁, hne₁, hsuffix₁, hrest₁⟩ := stays_dropWhile (t := t) hblank
    obtain ⟨c, front₁, rfl⟩ := exists_cons_of_ne_nil hne₁
    rw [trimStart, hrest₁, cons_append] at hu
    obtain ⟨rfl, rfl⟩ := hu
    have hfresh₁ := h.of_suffix hsuffix₁
    have hsuffix : front₁ <:+ front := (suffix_cons _ front₁).trans hsuffix₁
    have hfresh₁' := hfresh₁.of_suffix (suffix_cons _ front₁)
    refine Stays.of_suffix ?_ hsuffix
    refine (stays_dropWhile (hfresh₁.comma [] front₁ rfl)).trans fun front₂ hne₂ hsuffix₂ heq₂ => ?_
    have hfresh₂ := hfresh₁'.of_suffix hsuffix₂
    rw [trimStart, heq₂]
    refine (hfresh₂.stays_name hne₂).trans fun front₃ hne₃ hsuffix₃ heq₃ => ?_
    rw [heq₃]
    exact (hfresh₂.of_suffix hsuffix₃).stays_skipAttributes hne₃ n
  · have hwhite : ∀ c ∈ front, isWhitespace c = true := by
      intro c hc
      by_contra hnot
      exact hblank ⟨c, hc, eq_false_iff.mpr hnot⟩
    rw [trimStart, dropWhile_append_of_pos hwhite] at hu
    cases t with
    | nil => cases hu
    | cons c t =>
      obtain ⟨hcomma, hnot⟩ := ht c rfl
      rw [dropWhile_cons_of_neg (by simp [hnot]), cons.injEq] at hu
      exact absurd hu.1 hcomma

/-- **A match that begins in the front** ends there. -/
lemma Fresh.length_le (h : Fresh words front) (hne : front ≠ []) {previous}
    (ht : ∀ c ∈ t.head?, c ≠ ',' ∧ isWhitespace c = false) {name rest : Str}
    (hmatch : geositeHere words previous (front ++ t) = some (name, rest)) :
    t.length ≤ rest.length := by
  unfold geositeHere at hmatch
  split_ifs at hmatch
  obtain ⟨s, hstrip, hname⟩ := bind_eq_some_iff.mp hmatch
  obtain ⟨front₁, -, hsuffix₁, rfl⟩ := h.stays_stripWord hne (fun _ hl => hl) hstrip
  obtain ⟨front₂, -, -, rfl⟩ := (h.of_suffix hsuffix₁).stays_nameHere ht hname
  rw [length_append]
  omega

end Stays

/-! ### Names that are written in a line -/

variable (words) in
/-- **The name is written behind `GEOSITE,` in the line**, where no match before it hides it and
where it ends. -/
def Written (line name : Str) : Prop :=
  ∃ front blank blank' back,
    line = front ++ (str "GEOSITE" ++ blank ++ ',' :: (blank' ++ name ++ back)) ∧
      Fresh words front ∧ (∀ c ∈ blank, isWhitespace c = true) ∧
      (∀ c ∈ blank', isWhitespace c = true) ∧ ∀ c ∈ back.head?, isCategoryChar c = false

/-- The characters of a name. -/
def IsName (name : Str) : Prop := name ≠ [] ∧ ∀ c ∈ name, isCategoryChar c = true

namespace Written

variable {line name : Str}

lemma surround (h : Written words line name) {a b : Str} (ha : Fresh words a)
    (hb : ∀ c ∈ b.head?, isCategoryChar c = false) : Written words (a ++ line ++ b) name := by
  obtain ⟨front, blank, blank', back, rfl, hfront, hblank, hblank', hback⟩ := h
  refine ⟨a ++ front, blank, blank', back ++ b, ?_, ha.append hfront, hblank, hblank', ?_⟩
  · simp only [append_assoc, cons_append]
  · intro c hc
    cases back with
    | nil => exact hb c hc
    | cons d back => exact hback c hc

lemma of_append {white more : Str} (h : Written words line (white ++ name ++ more))
    (hwhite : ∀ c ∈ white, isWhitespace c = true)
    (hmore : ∀ c ∈ more.head?, isCategoryChar c = false) : Written words line name := by
  obtain ⟨front, blank, blank', back, rfl, hfront, hblank, hblank', hback⟩ := h
  refine ⟨front, blank, blank' ++ white, more ++ back, ?_, hfront, hblank, fun c hc => ?_, ?_⟩
  · simp only [append_assoc]
  · rcases mem_append.mp hc with hc | hc
    · exact hblank' c hc
    · exact hwhite c hc
  · intro c hc
    cases more with
    | nil => exact hback c hc
    | cons d more => exact hmore c hc

/-- White space around the line does not matter. -/
lemma trim (h : Written words line name) (hname : IsName name) :
    Written words (trim line) name := by
  obtain ⟨front, blank, blank', back, rfl, hfront, hblank, hblank', hback⟩ := h
  obtain ⟨name, last, rfl⟩ := (eq_nil_or_concat' name).resolve_left hname.1
  have hlast : isWhitespace last = false :=
    not_isWhitespace_of_isCategoryChar (hname.2 last (mem_append_right _ mem_cons_self))
  have hend : (blank' ++ (name ++ [last]) ++ back).rdropWhile isWhitespace =
      blank' ++ (name ++ [last]) ++ back.rdropWhile isWhitespace := by
    have happend := @trimEnd_append_cons last (by simpa using hlast) (blank' ++ name) back
    simpa only [append_assoc, cons_append, nil_append] using happend
  have hstart : trimStart (front ++ (str "GEOSITE" ++ blank)) =
      trimStart front ++ (str "GEOSITE" ++ blank) := by
    rw [trimStart, dropWhile_append]
    split_ifs with hempty
    · rw [List.isEmpty_iff] at hempty
      rw [trimStart, hempty]
      rfl
    · rfl
  refine ⟨trimStart front, blank, blank', back.rdropWhile isWhitespace, ?_,
    hfront.of_suffix (trimStart_suffix front), hblank, hblank', ?_⟩
  · rw [← append_assoc front, trim_append_cons (by decide), hstart, hend, append_assoc]
  · intro c hc
    obtain ⟨rest, hrest⟩ := rdropWhile_prefix isWhitespace back
    apply hback c
    rw [← hrest, head?_append, hc]
    rfl

end Written

lemma trimStart_append {blank s : Str} (hblank : ∀ c ∈ blank, isWhitespace c = true)
    (hs : ∀ c ∈ s.head?, isWhitespace c = false) : trimStart (blank ++ s) = s := by
  rw [trimStart, dropWhile_append_of_pos hblank]
  cases s with
  | nil => rfl
  | cons c s => exact dropWhile_cons_of_neg (by simp [hs c rfl])

/-- The regular expression matches where the name is written. -/
lemma geositeHere_append {previous : Option Char} {blank blank' name back : Str}
    (hprevious : previous.any words.isWord = false)
    (hblank : ∀ c ∈ blank, isWhitespace c = true) (hblank' : ∀ c ∈ blank', isWhitespace c = true)
    (hname : IsName name) (hback : ∀ c ∈ back.head?, isCategoryChar c = false) :
    ∃ rest, geositeHere words previous
      (str "GEOSITE" ++ blank ++ ',' :: (blank' ++ name ++ back)) = some (name, rest) := by
  have hbound : words.isWord 'G' = true := words.ascii 'G' (by decide)
  have hwhite : ∀ c ∈ (name ++ back).head?, isWhitespace c = false := by
    intro c hc
    rw [head?_append_of_ne_nil _ hname.1] at hc
    exact not_isWhitespace_of_isCategoryChar (hname.2 c (mem_of_head? hc))
  have hstrip : stripWord (str "GEOSITE")
      (str "GEOSITE" ++ blank ++ ',' :: (blank' ++ name ++ back)) =
        some (blank ++ ',' :: (blank' ++ name ++ back)) := rfl
  have hcomma : trimStart (blank ++ ',' :: (blank' ++ name ++ back)) =
      ',' :: (blank' ++ name ++ back) :=
    trimStart_append hblank fun c hc => by
      obtain rfl : ',' = c := some.inj hc
      decide
  have hstart : trimStart (blank' ++ name ++ back) = name ++ back := by
    rw [append_assoc, trimStart_append hblank' hwhite]
  have htake : (name ++ back).takeWhile isCategoryChar = name := by
    rw [takeWhile_append_of_pos hname.2]
    cases back with
    | nil => exact append_nil name
    | cons c back => rw [takeWhile_cons_of_neg (by simp [hback c rfl]), append_nil]
  refine ⟨skipAttributes ((name ++ back).dropWhile isCategoryChar).length
    ((name ++ back).dropWhile isCategoryChar), ?_⟩
  rw [geositeHere, if_neg, hstrip, bind_some, nameHere, hcomma]
  · simp only [hstart, htake, if_neg hname.1]
  · rw [hprevious]
    show ¬false = words.isWord 'G'
    rw [hbound]
    exact false_ne_true

variable {line name : Str} (h : Written words line name)
include h

/-- **A name that is written in a line is found.** -/
lemma Written.mem_geositeCaptures (hname : IsName name) : name ∈ geositeCaptures words line := by
  obtain ⟨front, blank, blank', back, rfl, hfront, hblank, hblank', hback⟩ := h
  apply mem_capturesIter (by simp)
  · refine geositeHere_append ?_ hblank hblank' hname hback
    cases hlast : front.getLast? with
    | none => rfl
    | some c => exact (hfront.last c hlast).1
  · intro front' hne hsuffix previous name' rest hmatch
    refine (hfront.of_suffix hsuffix).length_le hne (fun c hc => ?_) hmatch
    obtain rfl : 'G' = c := some.inj hc
    decide
  · exact Nat.zero_le _

/-- **The category is collected**, and the database is loaded. -/
lemma Written.mem_allowedCategories {config} (hname : IsName name)
    (hline : line ∈ collectGeoScanLines config) (hblank : isBlank line = false) :
    toAsciiLowercase name ∈ allowedCategories words config ∧
      (collectGeoScanLines config).any (lineReferencesGeosite words) = true := by
  constructor
  · refine mem_append_left _ (mem_flatMap.mpr ⟨line, ?_, ?_⟩)
    · exact mem_filter.mpr ⟨hline, by rw [hblank]; rfl⟩
    · exact mem_map.mpr ⟨name, h.mem_geositeCaptures hname, rfl⟩
  · refine any_eq_true.mpr ⟨line, hline, ?_⟩
    have hne := ne_nil_of_mem ((h.trim hname).mem_geositeCaptures hname)
    simp only [lineReferencesGeosite, hblank, Bool.not_false, Bool.true_and, ne_eq, hne,
      not_false_eq_true, decide_true]

end Meow.Config
