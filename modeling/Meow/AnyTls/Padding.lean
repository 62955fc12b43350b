import Meow.Lib.Text

/-!
# Padding schemes

A padding scheme (`padding/factory.rs`) is a text of lines `key=value`, pushed by the peer: `stop`
is the number of packets that are padded at all, and the line of a packet number lists the sizes
of the records that the packet is cut into. A size is drawn from a range; the mark `c` ends the
packet early when its payload is out.

A `PaddingSize` carries the bounds that the parser checks, so that every scheme that was accepted
draws sizes that fit the length field of a frame.

## Main definitions

* `StringMap` — the key-value text of settings and schemes.
* `PaddingFactory`, `PaddingFactory.new` — an accepted scheme.
* `PaddingFactory.generateRecordPayloadSizes` — the record sizes of one packet.

## Main results

* `PaddingFactory.recordSize_generate` — every size put out is the check mark or
  fits the length field.
-/

namespace Meow.AnyTls

/-! ### Key-value text -/

/-- `StringMap`: the entries of a hash map, at most one for a key. The order in which the map is
walked is not specified; here it is that of the entries. -/
abbrev StringMap := List (Str × Str)

/-- `HashMap::insert`: the new value takes the place of an old one. -/
def StringMap.insert (map : StringMap) (key value : Str) : StringMap :=
  map.filter (fun e => e.1 ≠ key) ++ [(key, value)]

def StringMap.get (map : StringMap) (key : Str) : Option Str := map.lookup key

/-- `StringMap::from_bytes`: lines without `=` are skipped. -/
def StringMap.fromBytes (data : List UInt8) : StringMap :=
  (lines (fromUtf8Lossy data)).foldl (fun map line =>
    match splitOnce '=' line with
    | some (key, value) => map.insert (trim key) (trim value)
    | none => map) []

/-! ### Schemes -/

/-- `PaddingSize`: a check mark or the range of a record size. -/
inductive PaddingSize where
  | check
  | range (min max : UInt16) (pos : 0 < min) (le : min ≤ max)
  deriving DecidableEq

/-- `PaddingFactory`: the packets that are padded, and the sizes for the packet numbers that
have a line, under the text of their number. -/
structure PaddingFactory where
  sizes : List (Str × List PaddingSize)
  stop : ℕ
  deriving DecidableEq

/-- `CHECK_MARK`. -/
def checkMark : ℤ := -1

/-- `MAX_PACKET_PADDING`. -/
def maxPacketPadding : ℕ := 1024 * 1024

/-- The closure `parse_size` of `PaddingFactory::new`. -/
def parseSize (value : Str) : Except String {n : UInt16 // 0 < n} :=
  match parseUnsigned 65535 (trim value) with
  | some n =>
    if h : 0 < UInt16.ofNat n then .ok ⟨UInt16.ofNat n, h⟩
    else .error "padding size must be between 1 and 65535"
  | none => .error "padding size must be between 1 and 65535"

/-- The range between two sizes, given in either order. -/
def PaddingSize.between (a b : {n : UInt16 // 0 < n}) : PaddingSize :=
  if h : a.1 ≤ b.1 then .range a.1 b.1 a.2 h
  else .range b.1 a.1 b.2 (UInt16.le_of_lt (UInt16.not_le.mp h))

/-- The loop of `PaddingFactory::new` over the parts of one line. `total` bounds what the sizes
so far can take on the wire, each with the header of a frame. -/
def parseSizes : List Str → ℕ → Except String (List PaddingSize)
  | [], _ => .ok []
  | part :: parts, total =>
    if part = str "c" then (parseSizes parts total).map (.check :: ·)
    else
      match splitOnce '-' part with
      | none => .error "invalid padding range"
      | some (min, max) => do
        let min ← parseSize min
        let max ← parseSize max
        let total := total + (if min.1 ≤ max.1 then max.1 else min.1).toNat + 7
        if total > maxPacketPadding then .error "padding for one packet exceeds 1 MiB"
        else (parseSizes parts total).map (.between min max :: ·)

/-- The loop of `PaddingFactory::new` over the lines: only those of packet numbers count. -/
def parseLines : List (Str × Str) → Except String (List (Str × List PaddingSize))
  | [] => .ok []
  | (key, spec) :: scheme =>
    if (parseUnsigned 4294967295 key).isNone then parseLines scheme
    else do
      let sizes ← parseSizes ((spec.splitOn ',').map trim) 0
      (parseLines scheme).map ((key, sizes) :: ·)

def PaddingFactory.new (rawScheme : List UInt8) : Except String PaddingFactory := do
  let scheme := StringMap.fromBytes rawScheme
  let stop ← match scheme.get (str "stop") with
    | none => .error "missing 'stop' in padding scheme"
    | some value =>
      match parseUnsigned 4294967295 value with
      | none => .error "invalid 'stop' value"
      | some stop => .ok stop
  let sizes ← parseLines scheme
  .ok ⟨sizes, stop⟩

/-- The size that the draw `n` gives for an entry: a range of one size needs no draw, and
`random_range(min..=max)` may give any size of the range. -/
def PaddingSize.draw (n : ℕ) : PaddingSize → ℤ
  | .check => checkMark
  | .range min max _ _ =>
    if min = max then (min.toNat : ℤ)
    else ((min.toNat + n % (max.toNat - min.toNat + 1) : ℕ) : ℤ)

/-- `PaddingFactory::generate_record_payload_sizes`, with the draws of the random source. -/
def PaddingFactory.generateRecordPayloadSizes (f : PaddingFactory) (pkt : ℕ) (draws : ℕ → ℕ) :
    List ℤ :=
  match f.sizes.lookup (natToStr pkt) with
  | none => []
  | some spec => spec.zipIdx.map fun p => p.1.draw (draws p.2)

/-- A record size: the check mark, or a size that is positive and fits a length field. -/
def RecordSize (size : ℤ) : Prop := size = checkMark ∨ (1 ≤ size ∧ size ≤ 65535)

/-- Every draw lies in the range. -/
lemma PaddingSize.recordSize_draw (n : ℕ) (s : PaddingSize) : RecordSize (s.draw n) := by
  cases s with
  | check => exact .inl rfl
  | range min max pos le =>
    have hmin : 0 < min.toNat := UInt16.lt_iff_toNat_lt.mp pos
    have hle : min.toNat ≤ max.toNat := UInt16.le_iff_toNat_le.mp le
    have hmax : max.toNat < 65536 := max.toNat_lt
    right
    simp only [PaddingSize.draw]
    split_ifs
    · omega
    · have hmod := Nat.mod_lt n (show 0 < max.toNat - min.toNat + 1 by omega)
      omega

/-- Every size that a scheme puts out for a packet is the check mark or fits a length field. -/
lemma PaddingFactory.recordSize_generate (f : PaddingFactory) (pkt : ℕ) (draws : ℕ → ℕ) :
    ∀ size ∈ f.generateRecordPayloadSizes pkt draws, RecordSize size := by
  intro size hsize
  unfold generateRecordPayloadSizes at hsize
  split at hsize
  · simp at hsize
  · obtain ⟨p, -, rfl⟩ := List.mem_map.mp hsize
    exact p.1.recordSize_draw _

/-- `DEFAULT_PADDING_SCHEME`. -/
def defaultPaddingScheme : String :=
  "stop=8\n0=30-30\n1=100-400\n2=400-500,c,500-1000,c,500-1000,c,500-1000,c,500-1000\n" ++
    "3=9-9,500-1000\n4=500-1000\n5=500-1000\n6=500-1000\n7=500-1000"

/-- The default scheme is accepted, so that `PaddingFactory::default` does not panic. -/
lemma defaultPaddingScheme_accepted :
    ((PaddingFactory.new (defaultPaddingScheme.toList.map fun c => UInt8.ofNat c.toNat)).map
      PaddingFactory.stop).toOption = some 8 := by
  decide +kernel

end Meow.AnyTls
