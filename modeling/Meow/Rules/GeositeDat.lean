import Meow.Lib.Maps
import Meow.Rules.GeositeMrs

/-!
# The geosite file of the type `dat`

Such a file is a message in the encoding of Protocol Buffers: a list of categories (`GeoSite`), each
with its name and its names of hosts (`Domain`), which have attributes (`geosite_dat.rs`). A host
with attributes is entered in the category, and in a category of its own for each attribute.

A message is a sequence of fields, each a tag and a value. All loops of the parser read a tag and
then the value of the field, to use it or to go over it, so they are one loop here.

## Main definitions

* `PbReader`, `parseFields` — the reader, and the loop over the fields.
* `parseGeositeEntry`, `parseDomainEntry` — the messages.
* `fromDatBytes` — `from_dat_bytes`.

## Main results

* `parseFields_eq_ok_iff` — a loop goes over the fields of the message.
* `fromDatBytes_allowed` — what is read of some categories.
-/

namespace Meow.Rules

open Trie List Except AList

/-! ### The reader -/

inductive DatError where
  | truncated (offset : ℕ)
  | varintOverflow (offset : ℕ)
  | invalidUtf8 (offset : ℕ)
  | unknownWireType (offset : ℕ) (wire : UInt32)
  deriving DecidableEq

structure PbReader where
  buf : List UInt8
  pos : ℕ
  deriving DecidableEq

/-- The value of a field. The parsers use numbers and bytes only. -/
inductive PbValue where
  | varint (n : UInt64)
  | bytes (bytes : List UInt8)
  | i64
  | i32
  deriving DecidableEq

structure PbField where
  number : UInt32
  value : PbValue
  deriving DecidableEq

namespace PbReader

def new (buf : List UInt8) : PbReader := ⟨buf, 0⟩

def remaining (r : PbReader) : ℕ := r.buf.length - r.pos

def isAtEnd (r : PbReader) : Bool := r.pos ≥ r.buf.length

/-- The loop of `read_varint`. -/
def varintLoop (start : ℕ) : List UInt8 → ℕ → UInt64 → ℕ → Except DatError (UInt64 × ℕ)
  | [], _, _, _ => .error (.truncated start)
  | b :: rest, pos, result, shift =>
    if shift ≥ 64 then .error (.varintOverflow start)
    else
      let result := result ||| ((b &&& 0x7F).toUInt64 <<< UInt64.ofNat shift)
      if b &&& 0x80 = 0 then .ok (result, pos + 1)
      else varintLoop start rest (pos + 1) result (shift + 7)

def readVarint (r : PbReader) : Except DatError (UInt64 × PbReader) := do
  let (n, pos) ← varintLoop r.pos (r.buf.drop r.pos) r.pos 0 0
  return (n, { r with pos := pos })

/-- `read_tag`: the field number and the wire type. -/
def readTag (r : PbReader) : Except DatError (UInt32 × UInt32 × PbReader) := do
  let (tag, r) ← r.readVarint
  return ((tag >>> 3).toUInt32, (tag &&& 0x7).toUInt32, r)

def readLengthDelimited (r : PbReader) : Except DatError (List UInt8 × PbReader) := do
  let start := r.pos
  let (len, r) ← r.readVarint
  if r.remaining < len.toNat then .error (.truncated start)
  else .ok ((r.buf.drop r.pos).take len.toNat, { r with pos := r.pos + len.toNat })

/-- The value of a field whose tag was read: `skip_field`, with what it goes over. -/
def readValue (r : PbReader) (wire : UInt32) : Except DatError (PbValue × PbReader) :=
  if wire = 0 then do
    let (n, r) ← r.readVarint
    return (.varint n, r)
  else if wire = 2 then do
    let (bytes, r) ← r.readLengthDelimited
    return (.bytes bytes, r)
  else if wire = 1 then
    if r.remaining < 8 then .error (.truncated r.pos)
    else .ok (.i64, { r with pos := r.pos + 8 })
  else if wire = 5 then
    if r.remaining < 4 then .error (.truncated r.pos)
    else .ok (.i32, { r with pos := r.pos + 4 })
  else .error (.unknownWireType r.pos wire)

/-- A field: its tag and its value. -/
def readField (r : PbReader) : Except DatError (PbField × PbReader) := do
  let (number, wire, r) ← r.readTag
  let (value, r) ← r.readValue wire
  return (⟨number, value⟩, r)

end PbReader

section Fields

variable {σ : Type} (step : σ → PbField → ℕ → Except DatError σ)

/-- `while !r.is_at_end()`, with what is done with a field and the position behind it. Every turn
reads a byte at least, so there are not more turns than bytes. -/
def fieldLoop : ℕ → σ → PbReader → Except DatError σ
  | 0, s, _ => .ok s
  | n + 1, s, r =>
    if r.isAtEnd then .ok s
    else do
      let (f, r) ← r.readField
      let s ← step s f r.pos
      fieldLoop n s r

/-- The loop over all fields of a message. -/
def parseFields (s : σ) (data : List UInt8) : Except DatError σ :=
  fieldLoop step data.length s (.new data)

end Fields

/-- `std::str::from_utf8`, in front of a position. -/
def utf8At (bytes : List UInt8) (pos : ℕ) : Except DatError Str :=
  match fromUtf8 bytes with
  | none => .error (.invalidUtf8 pos)
  | some s => .ok s

/-! ### The messages -/

/-- The loop of `parse_attribute_key`. -/
def attributeStep (key : Option Str) (f : PbField) (pos : ℕ) : Except DatError (Option Str) :=
  match f.value with
  | .bytes bytes =>
    if f.number = 1 then do
      let s ← utf8At bytes pos
      let s := toAsciiLowercase (trim s)
      return if s = [] then key else some s
    else .ok key
  | _ => .ok key

def parseAttributeKey (data : List UInt8) : Except DatError (Option Str) :=
  parseFields attributeStep none data

structure ParsedDomainEntry where
  domType : UInt64
  value : Str
  attrs : List Str
  deriving DecidableEq

/-- The variables of `parse_domain_entry`. -/
structure DomainScan where
  domType : UInt64 := 2
  value : Option Str := none
  attrs : List Str := []
  sawType : Bool := false
  deriving DecidableEq

/-- The loop of `parse_domain_entry`. -/
def domainStep (s : DomainScan) (f : PbField) (pos : ℕ) : Except DatError DomainScan :=
  match f.value with
  | .varint n => if f.number = 1 then .ok { s with domType := n, sawType := true } else .ok s
  | .bytes bytes =>
    if f.number = 2 then do
      let value ← utf8At bytes pos
      return { s with value := some (toAsciiLowercase value) }
    else if f.number = 3 then do
      let key ← parseAttributeKey bytes
      return { s with attrs := s.attrs ++ key.toList }
    else .ok s
  | _ => .ok s

def parseDomainEntry (data : List UInt8) : Except DatError (Option ParsedDomainEntry) := do
  let s ← parseFields domainStep {} data
  let domType := if s.sawType then s.domType else 0
  match s.value with
  | none => return none
  | some value => return if value = [] then none else some ⟨domType, value, s.attrs⟩

/-- What is known of one category. -/
structure Bucket where
  trie : DomainTrie Unit
  regexes : List Str
  keywords : List Str

def insertDomainEntry (env : RuleEnv) (entry : ParsedDomainEntry) (b : Bucket) : Bucket :=
  if entry.domType = 0 then { b with keywords := b.keywords ++ [entry.value] }
  else if entry.domType = 1 then
    if (env.regexNew entry.value).isOk then { b with regexes := b.regexes ++ [entry.value] } else b
  else if entry.domType = 2 then
    let trie := (b.trie.insert env.lc entry.value ()).2
    { b with trie := (trie.insert env.lc (str "+." ++ entry.value) ()).2 }
  else if entry.domType = 3 then { b with trie := (b.trie.insert env.lc entry.value ()).2 }
  else b

/-- The maps of `from_dat_bytes`. -/
structure DatMaps where
  categories : AList fun _ : Str => DomainTrie Unit := ∅
  regexPatterns : AList fun _ : Str => List Str := ∅
  keywordPatterns : AList fun _ : Str => List Str := ∅

namespace DatMaps

/-- The entries of a category, with `or_default`. -/
def bucket (m : DatMaps) (key : Str) : Bucket where
  trie := (m.categories.lookup key).getD .new
  regexes := (m.regexPatterns.lookup key).getD []
  keywords := (m.keywordPatterns.lookup key).getD []

/-- The entries of a category after they have changed. -/
def setBucket (m : DatMaps) (key : Str) (b : Bucket) : DatMaps where
  categories := m.categories.insert key b.trie
  regexPatterns := m.regexPatterns.insert key b.regexes
  keywordPatterns := m.keywordPatterns.insert key b.keywords

/-- A host in one category. -/
def insertAt (env : RuleEnv) (entry : ParsedDomainEntry) (m : DatMaps) (key : Str) : DatMaps :=
  m.setBucket key (insertDomainEntry env entry (m.bucket key))

/-- The body of the loop over the hosts of a category: the category, then its attributes. -/
def insertEntry (env : RuleEnv) (country : Str) (m : DatMaps) (entry : ParsedDomainEntry) :
    DatMaps :=
  entry.attrs.foldl (fun m attr => m.insertAt env entry (country ++ '@' :: attr))
    (m.insertAt env entry country)

/-- The loop over the hosts of a category. -/
def insertDomain (env : RuleEnv) (country : Str) (m : DatMaps) (bytes : List UInt8) :
    Except DatError DatMaps := do
  match ← parseDomainEntry bytes with
  | none => return m
  | some entry => return m.insertEntry env country entry

end DatMaps

open DatMaps

/-- The variables of the first loop of `parse_geosite_entry`. -/
structure EntryScan where
  country : Option Str := none
  deferredDomains : List (List UInt8) := []
  dominated : Bool := true
  deriving DecidableEq

/-- The first loop of `parse_geosite_entry`. -/
def entryStep (allowed : Option (List Str)) (s : EntryScan) (f : PbField) (pos : ℕ) :
    Except DatError EntryScan :=
  match f.value with
  | .bytes bytes =>
    if f.number = 1 then do
      let name ← utf8At bytes pos
      let name := toAsciiLowercase name
      return { s with
        country := some name
        dominated := if isAllowed allowed name then s.dominated else false }
    else if f.number = 2 then
      .ok (if s.dominated then { s with deferredDomains := s.deferredDomains ++ [bytes] } else s)
    else .ok s
  | _ => .ok s

def parseGeositeEntry (env : RuleEnv) (allowed : Option (List Str)) (m : DatMaps)
    (data : List UInt8) : Except DatError DatMaps := do
  let s ← parseFields (entryStep allowed) {} data
  match s.country with
  | none => return m
  | some country =>
    if isAllowed allowed country then s.deferredDomains.foldlM (DatMaps.insertDomain env country) m
    else return m

/-- The loop of `from_dat_bytes`. -/
def listStep (env : RuleEnv) (allowed : Option (List Str)) (m : DatMaps) (f : PbField) (_pos : ℕ) :
    Except DatError DatMaps :=
  match f.value with
  | .bytes bytes => if f.number = 1 then parseGeositeEntry env allowed m bytes else .ok m
  | _ => .ok m

def GeositeDb.fromParts (env : RuleEnv) (m : DatMaps) : GeositeDb where
  categories := mapValues (·.seal env.order) m.categories
  keywords := m.keywordPatterns
  regexCompiled := mapValues (·.filterMap fun p => (env.regexNew p).toOption) m.regexPatterns

def fromDatBytes (env : RuleEnv) (allowed : Option (List Str)) (data : List UInt8) :
    Except DatError GeositeDb := do
  let m ← parseFields (listStep env allowed) {} data
  return .fromParts env m

/-! ### The loop over the fields -/

namespace PbReader

lemma lt_of_varintLoop {start rest pos result shift n pos'}
    (h : varintLoop start rest pos result shift = .ok (n, pos')) : pos < pos' := by
  induction rest generalizing pos result shift with
  | nil => cases h
  | cons b rest ih =>
    rw [varintLoop] at h
    split_ifs at h with hshift hlast
    · cases h
      omega
    · have hlt := ih h
      omega

variable {r r' : PbReader}

/-- Reading goes forward in the same buffer. -/
lemma readVarint_forward {n} (h : r.readVarint = .ok (n, r')) :
    r.pos < r'.pos ∧ r'.buf = r.buf := by
  obtain ⟨⟨n', pos⟩, hloop, h⟩ := bind_eq_ok_iff.mp h
  cases h
  exact ⟨lt_of_varintLoop hloop, rfl⟩

lemma readTag_forward {number wire} (h : r.readTag = .ok (number, wire, r')) :
    r.pos < r'.pos ∧ r'.buf = r.buf := by
  obtain ⟨⟨tag, r₁⟩, htag, h⟩ := bind_eq_ok_iff.mp h
  obtain ⟨-, -, rfl⟩ := h
  exact readVarint_forward htag

lemma readLengthDelimited_forward {bytes} (h : r.readLengthDelimited = .ok (bytes, r')) :
    r.pos ≤ r'.pos ∧ r'.buf = r.buf := by
  obtain ⟨⟨len, r₁⟩, hlen, h⟩ := bind_eq_ok_iff.mp h
  obtain ⟨hlt, hbuf⟩ := readVarint_forward hlen
  simp only at h
  split_ifs at h with hshort
  cases h
  exact ⟨by simp only; omega, hbuf⟩

lemma readValue_forward {wire value} (h : r.readValue wire = .ok (value, r')) :
    r.pos ≤ r'.pos ∧ r'.buf = r.buf := by
  unfold readValue at h
  split_ifs at h
  · obtain ⟨⟨n, r₁⟩, hread, h⟩ := bind_eq_ok_iff.mp h
    cases h
    have hforward := readVarint_forward hread
    exact ⟨hforward.1.le, hforward.2⟩
  · obtain ⟨⟨bytes, r₁⟩, hread, h⟩ := bind_eq_ok_iff.mp h
    cases h
    exact readLengthDelimited_forward hread
  · cases h
    exact ⟨by simp, rfl⟩
  · cases h
    exact ⟨by simp, rfl⟩

lemma readField_forward {f} (h : r.readField = .ok (f, r')) : r.pos < r'.pos ∧ r'.buf = r.buf := by
  obtain ⟨⟨number, wire, r₁⟩, htag, h⟩ := bind_eq_ok_iff.mp h
  obtain ⟨⟨value, r₂⟩, hvalue, h⟩ := bind_eq_ok_iff.mp h
  cases h
  obtain ⟨hlt, hbuf⟩ := readTag_forward htag
  obtain ⟨hle, hbuf'⟩ := readValue_forward hvalue
  exact ⟨by omega, hbuf'.trans hbuf⟩

end PbReader

section Fields

variable {σ : Type} (step : σ → PbField → ℕ → Except DatError σ) {r : PbReader} {n : ℕ}

/-- **The loop ends at the end of the message**: more turns than there are bytes change nothing. -/
lemma fieldLoop_add {s} (h : r.remaining ≤ n) (k : ℕ) :
    fieldLoop step (n + k) s r = fieldLoop step n s r := by
  unfold PbReader.remaining at h
  induction n generalizing s r with
  | zero =>
    have hend : r.isAtEnd := decide_eq_true (by omega)
    cases k with
    | zero => rfl
    | succ k =>
      exact if_pos hend
  | succ n ih =>
    rw [Nat.add_right_comm, fieldLoop, fieldLoop]
    split_ifs with hend
    · rfl
    · cases hfield : r.readField with
      | error e => rfl
      | ok p =>
        obtain ⟨f, r'⟩ := p
        simp only [except_ok_bind]
        cases step s f r'.pos with
        | error e => rfl
        | ok s' =>
          apply ih
          obtain ⟨hlt, hbuf⟩ := PbReader.readField_forward hfield
          rw [hbuf]
          omega

/-- What collects the fields. -/
def collectStep (fs : List (PbField × ℕ)) (f : PbField) (pos : ℕ) :
    Except DatError (List (PbField × ℕ)) := .ok (fs ++ [(f, pos)])

/-- The fields of a message, with the positions behind them. -/
def fieldsOf (data : List UInt8) : Except DatError (List (PbField × ℕ)) :=
  parseFields collectStep [] data

/-- Collecting keeps what was collected. -/
lemma exists_of_collect {acc fs} (h : fieldLoop collectStep n acc r = .ok fs) :
    ∃ rest, fs = acc ++ rest := by
  induction n generalizing acc r with
  | zero => exact ⟨[], by rw [append_nil, ← ok.inj h]⟩
  | succ n ih =>
    rw [fieldLoop] at h
    split_ifs at h with hend
    · exact ⟨[], by rw [append_nil, ← ok.inj h]⟩
    · obtain ⟨⟨f, r'⟩, -, h⟩ := bind_eq_ok_iff.mp h
      obtain ⟨rest, hrest⟩ := ih h
      exact ⟨(f, r'.pos) :: rest, by rw [hrest, append_assoc, singleton_append]⟩

variable {step}

lemma fieldLoop_eq_ok_iff {s s'} (acc : List (PbField × ℕ)) :
    fieldLoop step n s r = .ok s' ↔
      ∃ fs, fieldLoop collectStep n acc r = .ok (acc ++ fs) ∧
        fs.foldlM (fun s f => step s f.1 f.2) s = .ok s' := by
  -- at the end of the message no fields are collected
  have hstop : ∀ (s : σ) (acc : List (PbField × ℕ)), (ok s : Except DatError σ) = .ok s' ↔
      ∃ fs, (ok acc : Except DatError (List (PbField × ℕ))) = .ok (acc ++ fs) ∧
        fs.foldlM (fun s f => step s f.1 f.2) s = .ok s' := by
    intro s acc
    constructor
    · intro h
      exact ⟨[], by rw [append_nil], h⟩
    · rintro ⟨fs, hfs, h⟩
      have hnil : fs = [] := append_right_eq_self.mp (ok.inj hfs).symm
      rw [hnil] at h
      exact h
  induction n generalizing s r acc with
  | zero => exact hstop s acc
  | succ n ih =>
    rw [fieldLoop, fieldLoop]
    split_ifs with hend
    · exact hstop s acc
    · cases r.readField with
      | error e => exact ⟨nofun, fun ⟨_, h, _⟩ => (nomatch h)⟩
      | ok p =>
        obtain ⟨f, r'⟩ := p
        simp only [except_ok_bind]
        rw [bind_eq_ok_iff]
        show _ ↔ ∃ fs, fieldLoop collectStep n (acc ++ [(f, r'.pos)]) r' = .ok (acc ++ fs) ∧ _
        constructor
        · rintro ⟨s₁, hstep, h⟩
          obtain ⟨fs, hfs, hfold⟩ := (ih (acc ++ [(f, r'.pos)])).mp h
          refine ⟨(f, r'.pos) :: fs, ?_, ?_⟩
          · rw [hfs, append_assoc, singleton_append]
          · rw [foldlM_cons, hstep]
            exact hfold
        · rintro ⟨fs, hfs, hfold⟩
          obtain ⟨rest, hrest⟩ := exists_of_collect hfs
          rw [append_assoc, append_cancel_left_eq, singleton_append] at hrest
          rw [hrest] at hfold
          obtain ⟨s₁, hstep, hfold⟩ := bind_eq_ok_iff.mp hfold
          refine ⟨s₁, hstep, (ih (acc ++ [(f, r'.pos)])).mpr ⟨rest, ?_, hfold⟩⟩
          rw [hfs, hrest, append_assoc, singleton_append]

/-- **A loop goes over the fields of the message.** -/
lemma parseFields_eq_ok_iff {s s' data} :
    parseFields step s data = .ok s' ↔
      ∃ fs, fieldsOf data = .ok fs ∧ fs.foldlM (fun s f => step s f.1 f.2) s = .ok s' :=
  fieldLoop_eq_ok_iff []

end Fields

/-! ### Some of the categories -/

/-- The values of the fields with this number that are bytes. -/
def bytesOf (number : UInt32) (fs : List (PbField × ℕ)) : List (List UInt8) :=
  fs.filterMap fun f =>
    match f.1.value with
    | .bytes bytes => if f.1.number = number then some bytes else none
    | _ => none

/-- The names that an entry has. -/
def countryCodes (fs : List (PbField × ℕ)) : List Str :=
  (bytesOf 1 fs).filterMap fun bytes => (fromUtf8 bytes).map toAsciiLowercase

/-- The file has an entry with this name. -/
def NamesCountry (data : List UInt8) (country : Str) : Prop :=
  ∃ fs, fieldsOf data = .ok fs ∧ ∃ e ∈ bytesOf 1 fs, ∃ es, fieldsOf e = .ok es ∧
    country ∈ countryCodes es

/-- No entry of the file has two names. -/
def OneCountryEach (data : List UInt8) : Prop :=
  ∀ fs, fieldsOf data = .ok fs → ∀ e ∈ bytesOf 1 fs, ∀ es, fieldsOf e = .ok es →
    ∀ c ∈ countryCodes es, ∀ c' ∈ countryCodes es, c = c'

/-- Hosts of an entry with this name go into the category. -/
def FillsBucket (country key : Str) : Prop := key = country ∨ ∃ attr, key = country ++ '@' :: attr

section Scan

variable {allowed : Option (List Str)}
  {fs : List (PbField × ℕ)} {f : PbField × ℕ} {bytes : List UInt8}

lemma mem_bytesOf {number} (hf : f ∈ fs) (hvalue : f.1.value = .bytes bytes)
    (hnumber : f.1.number = number) : bytes ∈ bytesOf number fs := by
  refine mem_filterMap.mpr ⟨f, hf, ?_⟩
  rw [hvalue]
  exact if_pos hnumber

/-- **What a field of an entry does.** It names the category, is no text, has a host, or is none of
the entry's. -/
lemma entryStep_cases (f : PbField) (pos : ℕ) :
    (∃ bytes name, f.value = .bytes bytes ∧ f.number = 1 ∧ fromUtf8 bytes = some name ∧
      ∀ allowed s, entryStep allowed s f pos = .ok { s with
        country := some (toAsciiLowercase name)
        dominated := if isAllowed allowed (toAsciiLowercase name) then s.dominated else false }) ∨
      (∃ e, ∀ allowed s, entryStep allowed s f pos = .error e) ∨
      (∃ bytes, ∀ allowed s, entryStep allowed s f pos = .ok (if s.dominated then
        { s with deferredDomains := s.deferredDomains ++ [bytes] } else s)) ∨
      ∀ allowed s, entryStep allowed s f pos = .ok s := by
  cases hvalue : f.value with
  | bytes bytes =>
    by_cases hname : f.number = 1
    · cases hfrom : fromUtf8 bytes with
      | none =>
        refine .inr (.inl ⟨.invalidUtf8 pos, fun allowed s => ?_⟩)
        simp only [entryStep, hvalue, if_pos hname, utf8At, hfrom]
        rfl
      | some name =>
        refine .inl ⟨bytes, name, rfl, hname, hfrom, fun allowed s => ?_⟩
        simp only [entryStep, hvalue, if_pos hname, utf8At, hfrom]
        rfl
    · by_cases hdomain : f.number = 2
      · refine .inr (.inr (.inl ⟨bytes, fun allowed s => ?_⟩))
        simp only [entryStep, hvalue, if_neg hname, if_pos hdomain]
      · refine .inr (.inr (.inr fun allowed s => ?_))
        simp only [entryStep, hvalue, if_neg hname, if_neg hdomain]
  | _ =>
    refine .inr (.inr (.inr fun allowed s => ?_))
    simp only [entryStep, hvalue]

/-- The names of a list of fields are those of its fields. -/
lemma mem_countryCodes {name} (hf : f ∈ fs) (hvalue : f.1.value = .bytes bytes)
    (hnumber : f.1.number = 1) (hname : fromUtf8 bytes = some name) :
    toAsciiLowercase name ∈ countryCodes fs := by
  refine mem_filterMap.mpr ⟨bytes, mem_bytesOf hf hvalue hnumber, ?_⟩
  rw [hname]
  rfl

variable {s : EntryScan}

/-- The category of an entry is one of its names. -/
lemma country_mem_of_scan (h : fs.foldlM (fun s f => entryStep allowed s f.1 f.2) {} = .ok s)
    {country} (hcountry : s.country = some country) : country ∈ countryCodes fs := by
  have hall : ∀ c, s.country = some c → c ∈ countryCodes fs := by
    refine foldlM_induction (motive := fun s => ∀ c, s.country = some c → c ∈ countryCodes fs)
      ?_ (fun c (hc : none = some c) => nomatch hc) h
    intro f hf s s' ih hstep c hc
    rcases entryStep_cases f.1 f.2 with ⟨bytes, name, hvalue, hnumber, hname, heq⟩ | ⟨e, heq⟩ |
      ⟨bytes, heq⟩ | heq <;> rw [heq] at hstep <;> cases hstep
    · cases hc
      exact mem_countryCodes hf hvalue hnumber hname
    · split_ifs at hc <;> exact ih c hc
    · exact ih c hc
  exact hall country hcountry

variable (allowed) in
/-- The category of an entry is the same for all loads. -/
lemma scan_country {fs : List (PbField × ℕ)}
    (h : fs.foldlM (fun s f => entryStep none s f.1 f.2) {} = .ok s) :
    ∃ s', fs.foldlM (fun s f => entryStep allowed s f.1 f.2) {} = .ok s' ∧
      s'.country = s.country := by
  refine foldlM_simulation (R := fun s s' : EntryScan => s'.country = s.country) ?_ rfl h
  intro f _ s t s' hR hstep
  rcases entryStep_cases f.1 f.2 with ⟨bytes, name, -, -, -, heq⟩ | ⟨e, heq⟩ | ⟨bytes, heq⟩ | heq
    <;> rw [heq] at hstep <;> cases hstep
  · exact ⟨_, heq allowed t, rfl⟩
  · refine ⟨_, heq allowed t, ?_⟩
    split_ifs <;> exact hR
  · exact ⟨t, heq allowed t, hR⟩

/-- An entry all of whose names are loaded is read as in a load of all. -/
lemma scan_of_allowed (hcodes : ∀ c ∈ countryCodes fs, isAllowed allowed c)
    (h : fs.foldlM (fun s f => entryStep none s f.1 f.2) {} = .ok s) :
    fs.foldlM (fun s f => entryStep allowed s f.1 f.2) {} = .ok s := by
  obtain ⟨s', hs', rfl⟩ :
      ∃ s', fs.foldlM (fun s f => entryStep allowed s f.1 f.2) {} = .ok s' ∧ s' = s := by
    refine foldlM_simulation (R := fun s s' => s' = s) ?_ rfl h
    rintro f hf s t s' rfl hstep
    refine ⟨s', ?_, rfl⟩
    rcases entryStep_cases f.1 f.2 with ⟨bytes, name, hvalue, hnumber, hname, heq⟩ | ⟨e, heq⟩ |
      ⟨bytes, heq⟩ | heq <;> rw [heq] at hstep ⊢
    · rw [← hstep, hcodes _ (mem_countryCodes hf hvalue hnumber hname)]
      rfl
    all_goals exact hstep
  exact hs'

end Scan

/-- The two loads have the same of a category. -/
structure SameBucket (key : Str) (m m' : DatMaps) : Prop where
  categories : m'.categories.lookup key = m.categories.lookup key
  regexPatterns : m'.regexPatterns.lookup key = m.regexPatterns.lookup key
  keywordPatterns : m'.keywordPatterns.lookup key = m.keywordPatterns.lookup key

namespace SameBucket

variable {env : RuleEnv} {key : Str} {m m' : DatMaps}

lemma refl (key : Str) (m : DatMaps) : SameBucket key m m := ⟨rfl, rfl, rfl⟩

/-- Both loads enter a host in a category. -/
lemma insertAt (h : SameBucket key m m') (entry : ParsedDomainEntry) (key' : Str) :
    SameBucket key (m.insertAt env entry key') (m'.insertAt env entry key') := by
  by_cases hkey : key' = key
  · subst hkey
    have hbucket : m'.bucket key' = m.bucket key' := by
      rw [bucket, bucket, h.categories, h.regexPatterns, h.keywordPatterns]
    rw [insertAt, insertAt, hbucket]
    constructor
    all_goals rw [setBucket, setBucket, lookup_insert, lookup_insert]
  · have hne : key ≠ key' := fun heq => hkey heq.symm
    constructor
    · exact (lookup_insert_ne hne).trans
        (h.categories.trans (lookup_insert_ne hne).symm)
    · exact (lookup_insert_ne hne).trans
        (h.regexPatterns.trans (lookup_insert_ne hne).symm)
    · exact (lookup_insert_ne hne).trans
        (h.keywordPatterns.trans (lookup_insert_ne hne).symm)

/-- One load enters a host in another category. -/
lemma insertAt_left (h : SameBucket key m m') (entry : ParsedDomainEntry) {key'}
    (hne : key ≠ key') :
    SameBucket key (m.insertAt env entry key') m' := by
  constructor
  · exact h.categories.trans (lookup_insert_ne hne).symm
  · exact h.regexPatterns.trans (lookup_insert_ne hne).symm
  · exact h.keywordPatterns.trans (lookup_insert_ne hne).symm

/-- Both loads enter a host of a category. -/
lemma insertEntry (h : SameBucket key m m') (country : Str) (entry : ParsedDomainEntry) :
    SameBucket key (m.insertEntry env country entry) (m'.insertEntry env country entry) := by
  exact foldl_rel (h.insertAt entry country) fun attr _ _ _ h => h.insertAt entry _

variable {country : Str}

/-- One load enters a host of a category that does not fill this one. -/
lemma insertEntry_left (h : SameBucket key m m') (hnot : ¬FillsBucket country key)
    (entry : ParsedDomainEntry) : SameBucket key (m.insertEntry env country entry) m' := by
  refine foldlRecOn (motive := fun m => SameBucket key m m') entry.attrs _
    (h.insertAt_left entry fun heq => hnot (.inl heq)) ?_
  exact fun m h attr _ => h.insertAt_left entry fun heq => hnot (.inr ⟨attr, heq⟩)

/-- Both loads read a host. -/
lemma insertDomain {m₁} (m' : DatMaps) {bytes} (hm : m.insertDomain env country bytes = .ok m₁) :
    ∃ m₁', m'.insertDomain env country bytes = .ok m₁' ∧
      ∀ key, SameBucket key m m' → SameBucket key m₁ m₁' := by
  obtain ⟨entry, hentry, hm⟩ := bind_eq_ok_iff.mp hm
  cases entry with
  | none =>
    cases hm
    exact ⟨m', by rw [DatMaps.insertDomain, hentry]; rfl, fun key h => h⟩
  | some entry =>
    cases hm
    exact ⟨_, by rw [DatMaps.insertDomain, hentry]; rfl, fun key h => h.insertEntry country entry⟩

/-- One load reads a host of a category that does not fill this one. -/
lemma insertDomain_left (h : SameBucket key m m') (hnot : ¬FillsBucket country key)
    (bytes : List UInt8) {m₁} (hm : m.insertDomain env country bytes = .ok m₁) :
    SameBucket key m₁ m' := by
  obtain ⟨entry, -, hm⟩ := bind_eq_ok_iff.mp hm
  cases entry with
  | none =>
    cases hm
    exact h
  | some entry =>
    cases hm
    exact h.insertEntry_left hnot entry

end SameBucket

section Allowed

variable {env : RuleEnv} {allowed : Option (List Str)} {keys : Str → Prop} {data : List UInt8}

/-- **One entry.** An entry with one name that is loaded, or fills other categories, leaves the
categories the same in both loads. -/
lemma parseGeositeEntry_allowed {m m' m₁} (h : ∀ key, keys key → SameBucket key m m')
    (hm : parseGeositeEntry env none m data = .ok m₁)
    (hone : ∀ es, fieldsOf data = .ok es → ∀ c ∈ countryCodes es, ∀ c' ∈ countryCodes es, c = c')
    (hfill : ∀ es, fieldsOf data = .ok es → ∀ c ∈ countryCodes es, ∀ key, keys key →
      FillsBucket c key → isAllowed allowed c) :
    ∃ m₁', parseGeositeEntry env allowed m' data = .ok m₁' ∧
      ∀ key, keys key → SameBucket key m₁ m₁' := by
  obtain ⟨s, hscan, hm⟩ := bind_eq_ok_iff.mp hm
  obtain ⟨es, hes, hfold⟩ := parseFields_eq_ok_iff.mp hscan
  obtain ⟨s', hfold', hcountry'⟩ := scan_country allowed hfold
  have hparse : parseFields (entryStep allowed) {} data = .ok s' :=
    parseFields_eq_ok_iff.mpr ⟨es, hes, hfold'⟩
  rw [parseGeositeEntry, hparse]
  cases hcountry : s.country with
  | none =>
    rw [hcountry] at hm hcountry'
    cases hm
    refine ⟨m', ?_, h⟩
    simp only [except_ok_bind, hcountry']
    rfl
  | some country =>
    rw [hcountry] at hm hcountry'
    have hm' : s.deferredDomains.foldlM (insertDomain env country) m = .ok m₁ := hm
    have hcode := country_mem_of_scan hfold hcountry
    simp only [except_ok_bind, hcountry']
    by_cases hallowed : isAllowed allowed country
    · -- all names of the entry are this one, so that all its hosts are read in both loads
      have hcodes : ∀ c ∈ countryCodes es, isAllowed allowed c := by
        intro c hc
        rw [hone es hes c hc country hcode]
        exact hallowed
      obtain rfl : s' = s := ok.inj (hfold'.symm.trans (scan_of_allowed hcodes hfold))
      rw [if_pos hallowed]
      refine foldlM_simulation (R := fun m m' => ∀ key, keys key → SameBucket key m m') ?_ h hm'
      intro bytes _ m m' m₁ hR hstep
      obtain ⟨m₁', hm₁', hsame⟩ := SameBucket.insertDomain m' hstep
      exact ⟨m₁', hm₁', fun key hkey => hsame key (hR key hkey)⟩
    · refine ⟨m', ?_, fun key hkey => ?_⟩
      · rw [if_neg hallowed]
        rfl
      · have hnot : ¬FillsBucket country key := by
          intro hfills
          exact hallowed (hfill es hes country hcode key hkey hfills)
        refine foldlM_induction (motive := fun m => SameBucket key m m') ?_ (h key hkey) hm'
        intro bytes _ m m₁ hR hstep
        exact hR.insertDomain_left hnot bytes hstep

/-- One field of the file. -/
lemma listStep_allowed {fs f} (hf : f ∈ fs)
    {m m' m₁} (h : ∀ key, keys key → SameBucket key m m')
    (hm : listStep env none m f.1 f.2 = .ok m₁)
    (hentry : ∀ e ∈ bytesOf 1 fs, parseGeositeEntry env none m e = .ok m₁ →
      ∃ m₁', parseGeositeEntry env allowed m' e = .ok m₁' ∧
        ∀ key, keys key → SameBucket key m₁ m₁') :
    ∃ m₁', listStep env allowed m' f.1 f.2 = .ok m₁' ∧
      ∀ key, keys key → SameBucket key m₁ m₁' := by
  unfold listStep at hm ⊢
  cases hvalue : f.1.value with
  | bytes e =>
    simp only [hvalue] at hm ⊢
    by_cases hnumber : f.1.number = 1
    · rw [if_pos hnumber] at hm ⊢
      exact hentry e (mem_bytesOf hf hvalue hnumber) hm
    · rw [if_neg hnumber] at hm ⊢
      exact ⟨m', rfl, ok.inj hm ▸ h⟩
  | _ =>
    simp only [hvalue] at hm ⊢
    exact ⟨m', rfl, ok.inj hm ▸ h⟩

/-- A category is the same in two databases. -/
structure GeositeDb.SameAt (key : Str) (db db' : GeositeDb) : Prop where
  categories : db'.categories.lookup key = db.categories.lookup key
  keywords : db'.keywords.lookup key = db.keywords.lookup key
  regexCompiled : db'.regexCompiled.lookup key = db.regexCompiled.lookup key

lemma SameBucket.fromParts {key m m'} (h : SameBucket key m m') :
    GeositeDb.SameAt key (.fromParts env m) (.fromParts env m') := by
  constructor
  · rw [GeositeDb.fromParts, GeositeDb.fromParts, lookup_mapValues, lookup_mapValues, h.categories]
  · exact h.keywordPatterns
  · rw [GeositeDb.fromParts, GeositeDb.fromParts, lookup_mapValues, lookup_mapValues,
      h.regexPatterns]

/-- **Some of the categories.** A file that can be loaded can be loaded in part, and a category that
is filled by loaded entries only is the same then. -/
lemma fromDatBytes_allowed {db : GeositeDb} (h : fromDatBytes env none data = .ok db)
    (hone : OneCountryEach data) (allowed : Option (List Str)) :
    ∃ db', fromDatBytes env allowed data = .ok db' ∧
      ∀ key, (∀ c, NamesCountry data c → FillsBucket c key → isAllowed allowed c) →
        db.SameAt key db' := by
  obtain ⟨m, hm, h⟩ := bind_eq_ok_iff.mp h
  cases h
  obtain ⟨fs, hfs, hfold⟩ := parseFields_eq_ok_iff.mp hm
  obtain ⟨m', hm', hR⟩ : ∃ m', fs.foldlM (fun m f => listStep env allowed m f.1 f.2) {} = .ok m' ∧
      ∀ key, (∀ c, NamesCountry data c → FillsBucket c key → isAllowed allowed c) →
        SameBucket key m m' := by
    refine foldlM_simulation (R := fun m m' => ∀ key, (∀ c, NamesCountry data c →
      FillsBucket c key → isAllowed allowed c) → SameBucket key m m') ?_
      (fun key _ => .refl key _) hfold
    intro f hf m m' m₁ hR hstep
    refine listStep_allowed hf hR hstep fun e he hentry => ?_
    exact parseGeositeEntry_allowed hR hentry (hone fs hfs e he) fun es hes c hc key hkey =>
      hkey c ⟨fs, hfs, e, he, es, hes, hc⟩
  have hparse : parseFields (listStep env allowed) {} data = .ok m' :=
    parseFields_eq_ok_iff.mpr ⟨fs, hfs, hm'⟩
  refine ⟨.fromParts env m', ?_, fun key hkey => (hR key hkey).fromParts⟩
  rw [fromDatBytes, hparse]
  rfl

end Allowed

end Meow.Rules
