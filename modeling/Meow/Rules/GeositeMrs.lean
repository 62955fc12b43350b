import Meow.Rules.DomainSet
import Meow.Rules.MrsWriter

/-!
# The geosite file of the type `mrs`

The payload of such a file is a list of categories, each with a list of names (`mrs_parser.rs`). A
loader may be told which categories to load; it reads over the others. This file has the reader and
the writer.

## Main definitions

* `parseGeositePayload` — `parse_geosite_payload`.
* `encodeGeositePayload`, `writeGeositeMrs` — the writer.

## Main results

* `parseGeositePayload_allowed` — what is read of some categories.
* `parseGeositePayload_encode` — what was written is read back in lower case.
-/

namespace Meow.Rules

/-! ### Reading -/

/-- An error of `parse_geosite_payload`. -/
inductive GeositePayloadError where
  | reader (e : Failure)
  | utf8 (what : String) (bytes : List UInt8)
  deriving DecidableEq

def ByteReader.readU16Be (r : ByteReader) (what : String) : Except Failure (ℕ × ByteReader) := do
  let (bytes, r) ← r.readSlice what 2
  return (bigEndian bytes, r)

def ByteReader.readU32Be (r : ByteReader) (what : String) : Except Failure (ℕ × ByteReader) := do
  let (bytes, r) ← r.readSlice what 4
  return (bigEndian bytes, r)

/-- The bytes of a text that has its length in front. -/
def readTextBytes (r : ByteReader) (lenWhat what : String) :
    Except GeositePayloadError (List UInt8 × ByteReader) := do
  let (len, r) ← (r.readU16Be lenWhat).mapError .reader
  (r.readSlice what len).mapError .reader

/-- A text with its length in front, in lower case. -/
def readText (r : ByteReader) (lenWhat what : String) :
    Except GeositePayloadError (Str × ByteReader) := do
  let (bytes, r) ← readTextBytes r lenWhat what
  match fromUtf8 bytes with
  | none => .error (.utf8 what bytes)
  | some s => .ok (toAsciiLowercase s, r)

/-- The loop over the names of a category that is not loaded. -/
def skipDomains : ℕ → ByteReader → Except GeositePayloadError ByteReader
  | 0, r => .ok r
  | n + 1, r => do
    let (_, r) ← readTextBytes r "domain_len" "domain"
    skipDomains n r

/-- The loop over the names of a category. -/
def readDomains : ℕ → ByteReader → Except GeositePayloadError (List Str × ByteReader)
  | 0, r => .ok ([], r)
  | n + 1, r => do
    let (domain, r) ← readText r "domain_len" "domain"
    let (domains, r) ← readDomains n r
    return (domain :: domains, r)

/-- Is the category to be loaded? -/
def isAllowed (allowed : Option (List Str)) (name : Str) : Bool :=
  match allowed with
  | some set => set.contains name
  | none => true

/-- The loop over the categories. -/
def readCategories (allowed : Option (List Str)) : ℕ → ByteReader →
    Except GeositePayloadError (List (Str × List Str))
  | 0, _ => .ok []
  | n + 1, r => do
    let (name, r) ← readText r "category_name_len" "category_name"
    let (domCount, r) ← (r.readU32Be "domain_count").mapError .reader
    if isAllowed allowed name then do
      let (domains, r) ← readDomains domCount r
      let categories ← readCategories allowed n r
      return (name, domains) :: categories
    else do
      let r ← skipDomains domCount r
      readCategories allowed n r

def parseGeositePayload (decompressed : List UInt8) (allowed : Option (List Str)) :
    Except GeositePayloadError (List (Str × List Str)) := do
  let (catCount, r) ← ((ByteReader.new decompressed).readU32Be "category_count").mapError .reader
  readCategories allowed catCount r

/-! ### Writing -/

/-- A text with its length in front. -/
def encodeText (s : Str) : List UInt8 := u16be (asBytes s).length ++ asBytes s

/-- One category of `encode_geosite_payload`. -/
def encodeCategory (category : Str × List Str) : List UInt8 :=
  encodeText category.1 ++ (u32be category.2.length ++ category.2.flatMap encodeText)

def encodeGeositePayload (categories : List (Str × List Str)) : List UInt8 :=
  u32be categories.length ++ categories.flatMap encodeCategory

def writeGeositeMrs (encodeAll : List UInt8 → List UInt8) (categories : List (Str × List Str)) :
    List UInt8 :=
  mrsMagic ++ ([1, 0] ++ (u32be categories.length ++
    encodeAll (encodeGeositePayload categories)))

/-! ### Some of the categories -/

variable {r r' : ByteReader}

/-- What a text is after its bytes were read. -/
lemma readText_eq_ok_iff {lenWhat what text} :
    readText r lenWhat what = .ok (text, r') ↔
      ∃ bytes s, readTextBytes r lenWhat what = .ok (bytes, r') ∧ fromUtf8 bytes = some s ∧
        text = toAsciiLowercase s := by
  constructor
  · intro h
    obtain ⟨⟨bytes, r₁⟩, hbytes, h⟩ := bind_eq_ok_iff.mp h
    cases hutf8 : fromUtf8 bytes with
    | none =>
      simp only [hutf8] at h
      cases h
    | some s =>
      simp only [hutf8] at h
      cases h
      exact ⟨bytes, s, hbytes, hutf8, rfl⟩
  · rintro ⟨bytes, s, hbytes, hutf8, rfl⟩
    rw [readText, hbytes]
    simp only [except_ok_bind, hutf8]

variable {n : ℕ} {domains : List Str}

/-- Names that can be read can be read over. -/
lemma skipDomains_of_readDomains (h : readDomains n r = .ok (domains, r')) :
    skipDomains n r = .ok r' := by
  induction n generalizing r domains with
  | zero =>
    cases h
    rfl
  | succ n ih =>
    obtain ⟨⟨domain, r₁⟩, htext, h⟩ := bind_eq_ok_iff.mp h
    obtain ⟨⟨domains', r₂⟩, hdomains, h⟩ := bind_eq_ok_iff.mp h
    cases h
    obtain ⟨bytes, s, hbytes, -, -⟩ := readText_eq_ok_iff.mp htext
    rw [skipDomains, hbytes]
    exact ih hdomains

variable {categories : List (Str × List Str)} (allowed : Option (List Str))

lemma readCategories_allowed (h : readCategories none n r = .ok categories) :
    readCategories allowed n r = .ok (categories.filter fun c => isAllowed allowed c.1) := by
  induction n generalizing r categories with
  | zero =>
    cases h
    rfl
  | succ n ih =>
    obtain ⟨⟨name, r₁⟩, hname, h⟩ := bind_eq_ok_iff.mp h
    obtain ⟨⟨domCount, r₂⟩, hcount, h⟩ := bind_eq_ok_iff.mp h
    simp only at h
    obtain ⟨⟨domains, r₃⟩, hdomains, h⟩ := bind_eq_ok_iff.mp h
    obtain ⟨rest, hrest, h⟩ := bind_eq_ok_iff.mp h
    cases h
    rw [readCategories, hname]
    simp only [except_ok_bind, hcount]
    rw [List.filter_cons]
    by_cases hmem : isAllowed allowed name
    · rw [if_pos hmem, if_pos hmem, hdomains]
      simp only [except_ok_bind, ih hrest]
      rfl
    · rw [if_neg hmem, if_neg hmem, skipDomains_of_readDomains hdomains]
      simp only [except_ok_bind, ih hrest]

/-- **Some of the categories** are read as they are read with all others. -/
lemma parseGeositePayload_allowed {decompressed}
    (h : parseGeositePayload decompressed none = .ok categories) :
    parseGeositePayload decompressed allowed =
      .ok (categories.filter fun c => isAllowed allowed c.1) := by
  obtain ⟨⟨catCount, r⟩, hcount, h⟩ := bind_eq_ok_iff.mp h
  rw [parseGeositePayload, hcount]
  exact readCategories_allowed allowed h

/-- The categories are read in lower case. -/
lemma lower_of_readCategories {allowed} (h : readCategories allowed n r = .ok categories) :
    ∀ c ∈ categories, toAsciiLowercase c.1 = c.1 := by
  induction n generalizing r categories with
  | zero =>
    cases h
    exact fun c hc => absurd hc List.not_mem_nil
  | succ n ih =>
    obtain ⟨⟨name, r₁⟩, hname, h⟩ := bind_eq_ok_iff.mp h
    obtain ⟨⟨domCount, r₂⟩, -, h⟩ := bind_eq_ok_iff.mp h
    split_ifs at h with hallowed
    · obtain ⟨⟨domains, r₃⟩, -, h⟩ := bind_eq_ok_iff.mp h
      obtain ⟨rest, hrest, h⟩ := bind_eq_ok_iff.mp h
      cases h
      obtain ⟨bytes, s, -, -, rfl⟩ := readText_eq_ok_iff.mp hname
      exact List.forall_mem_cons.mpr ⟨toAsciiLowercase_toAsciiLowercase s, ih hrest⟩
    · obtain ⟨r₃, -, h⟩ := bind_eq_ok_iff.mp h
      exact ih h

/-! ### Reading back -/

lemma bigEndian_u16be (h : n < 65536) : bigEndian (u16be n) = n := by
  simp only [bigEndian, u16be, List.foldl_cons, List.foldl_nil, UInt8.toNat_ofNat']
  omega

lemma bigEndian_u32be (h : n < 4294967296) : bigEndian (u32be n) = n := by
  simp only [bigEndian, u32be, List.foldl_cons, List.foldl_nil, UInt8.toNat_ofNat']
  omega

variable {rest : List UInt8}

open ByteReader List

lemma readU32Be_of_rest (what : String) (hn : n < 4294967296) (h : r.Rest (u32be n ++ rest)) :
    ∃ r', r.readU32Be what = .ok (n, r') ∧ r'.Rest rest := by
  obtain ⟨r', hread, hrest⟩ := readSlice_of_rest what h
  refine ⟨r', ?_, hrest⟩
  rw [length_u32be] at hread
  rw [readU32Be, hread]
  show Except.ok (bigEndian (u32be n), r') = _
  rw [bigEndian_u32be hn]

/-- The fields of a category are wide enough. -/
def TextFits (s : Str) : Prop := (asBytes s).length < 65536

lemma readText_of_rest {s} (lenWhat what : String) (hs : TextFits s)
    (h : r.Rest (encodeText s ++ rest)) :
    ∃ r', readText r lenWhat what = .ok (toAsciiLowercase s, r') ∧ r'.Rest rest := by
  rw [encodeText, append_assoc] at h
  obtain ⟨r₁, hlen, hrest₁⟩ := readSlice_of_rest lenWhat h
  obtain ⟨r₂, hbytes, hrest₂⟩ := readSlice_of_rest what hrest₁
  refine ⟨r₂, ?_, hrest₂⟩
  have hu16 : r.readU16Be lenWhat = .ok ((asBytes s).length, r₁) := by
    rw [length_u16be] at hlen
    rw [readU16Be, hlen]
    show Except.ok (bigEndian (u16be (asBytes s).length), r₁) = _
    rw [bigEndian_u16be hs]
  have htext : readTextBytes r lenWhat what = .ok (asBytes s, r₂) := by
    rw [readTextBytes, hu16]
    show (r₁.readSlice what (asBytes s).length).mapError _ = _
    rw [hbytes]
    rfl
  exact readText_eq_ok_iff.mpr ⟨asBytes s, s, htext, fromUtf8_asBytes s, rfl⟩

lemma readDomains_of_rest (hdomains : ∀ d ∈ domains, TextFits d)
    (h : r.Rest (domains.flatMap encodeText ++ rest)) :
    ∃ r', readDomains domains.length r = .ok (domains.map toAsciiLowercase, r') ∧ r'.Rest rest := by
  induction domains generalizing r with
  | nil => exact ⟨r, rfl, h⟩
  | cons d domains ih =>
    rw [flatMap_cons, append_assoc] at h
    obtain ⟨r₁, htext, hrest₁⟩ :=
      readText_of_rest "domain_len" "domain" (hdomains d mem_cons_self) h
    obtain ⟨r₂, hread, hrest₂⟩ := ih (fun d hd => hdomains d (mem_cons_of_mem _ hd)) hrest₁
    refine ⟨r₂, ?_, hrest₂⟩
    rw [length_cons, readDomains, htext]
    simp only [except_ok_bind, hread]
    rfl

/-- The category fits its fields. -/
structure CategoryFits (category : Str × List Str) : Prop where
  name : TextFits category.1
  count : category.2.length < 4294967296
  domains : ∀ d ∈ category.2, TextFits d

/-- What is read of a category that was written. -/
def lowerCategory (category : Str × List Str) : Str × List Str :=
  (toAsciiLowercase category.1, category.2.map toAsciiLowercase)

lemma readCategories_of_rest (hfits : ∀ c ∈ categories, CategoryFits c)
    (h : r.Rest (categories.flatMap encodeCategory ++ rest)) :
    readCategories none categories.length r = .ok (categories.map lowerCategory) := by
  induction categories generalizing r with
  | nil => rfl
  | cons c categories ih =>
    have hc := hfits c mem_cons_self
    rw [flatMap_cons, encodeCategory, append_assoc, append_assoc] at h
    obtain ⟨r₁, hname, hrest₁⟩ :=
      readText_of_rest "category_name_len" "category_name" hc.name h
    obtain ⟨r₂, hcount, hrest₂⟩ := readU32Be_of_rest "domain_count" hc.count hrest₁
    obtain ⟨r₃, hdomains, hrest₃⟩ := readDomains_of_rest hc.domains hrest₂
    have hrec := ih (fun c hc => hfits c (mem_cons_of_mem _ hc)) hrest₃
    rw [length_cons, readCategories, hname]
    simp only [except_ok_bind, hcount, Except.mapError, isAllowed, hdomains, hrec]
    rfl

/-- **What was written is read back**, in lower case. -/
lemma parseGeositePayload_encode
    (hcount : categories.length < 4294967296) (hfits : ∀ c ∈ categories, CategoryFits c) :
    parseGeositePayload (encodeGeositePayload categories) none =
      .ok (categories.map lowerCategory) := by
  have hstart := rest_new (encodeGeositePayload categories)
  obtain ⟨r, hread, hrest⟩ := readU32Be_of_rest "category_count" hcount hstart
  rw [← append_nil (categories.flatMap encodeCategory)] at hrest
  have hcategories := readCategories_of_rest hfits hrest
  rw [parseGeositePayload, hread]
  exact hcategories

end Meow.Rules
