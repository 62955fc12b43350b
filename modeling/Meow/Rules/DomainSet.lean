import Meow.Lib.Bytes
import Meow.Lib.Text
import Meow.Lib.Louds
import Meow.Lib.LoudsWalk

/-!
# The domain set of a rule file

A rule file of the type `mrs` has its domains as a tree of reversed bytes in level order: a bit
vector of the nodes that end a domain, one with a zero for each edge and a one for each node, and
the labels of the edges. `mrs_parser.rs` reads the three, makes an index for rank and select over
the second, and walks the tree to list the domains. The walk does not end on every input, so it is
given a number of steps, and gives nothing when they are used up.

## Main definitions

* `ByteReader` — the reader of the file, with its errors.
* `DomainSetIndex` — rank and select.
* `DomainSetTraversal.traverse` — the walk.
* `parseUpstreamDomainSet` — `parse_upstream_domain_set`.

## Main results

* `DomainSetIndex.countZeros_new`, `DomainSetIndex.selectOne_new` — what the
  index computes, over the list of all bits.
* `DomainSetTraversal.walks_node` — the walk over a tree in level order.
-/

namespace Meow.Rules

open List Nat Louds

/-! ### Reading -/

/-- `MrsError`, as far as the domain set raises it. -/
inductive MrsError where
  | truncated (what : String) (offset need available : ℕ)
  | invalidDomainSetVersion (version : UInt8)
  | invalidLength (what : String) (len : ℤ)
  deriving DecidableEq

/-- Parsing ends without a result. -/
inductive Failure where
  | error (e : MrsError)
  /-- `Vec::with_capacity` panics when the capacity is more than `isize::MAX` bytes. -/
  | capacityOverflow
  deriving DecidableEq

structure ByteReader where
  data : List UInt8
  pos : ℕ
  deriving DecidableEq

namespace ByteReader

def new (data : List UInt8) : ByteReader := ⟨data, 0⟩

/-- `read_slice`; the other functions read a slice of a fixed length. -/
def readSlice (r : ByteReader) (what : String) (n : ℕ) :
    Except Failure (List UInt8 × ByteReader) :=
  if r.pos + n > r.data.length then
    .error (.error (.truncated what r.pos n (r.data.length - r.pos)))
  else .ok ((r.data.drop r.pos).take n, { r with pos := r.pos + n })

def readU8 (r : ByteReader) (what : String) : Except Failure (UInt8 × ByteReader) := do
  let (bytes, r) ← r.readSlice what 1
  return (UInt8.ofNat (bigEndian bytes), r)

def readU64Be (r : ByteReader) (what : String) : Except Failure (UInt64 × ByteReader) := do
  let (bytes, r) ← r.readSlice what 8
  return (UInt64.ofNat (bigEndian bytes), r)

/-- A word as `i64`. -/
def toI64 (n : ℕ) : ℤ := if n < 2 ^ 63 then n else (n : ℤ) - 2 ^ 64

def readI64Be (r : ByteReader) (what : String) : Except Failure (ℤ × ByteReader) := do
  let (bytes, r) ← r.readSlice what 8
  return (toI64 (bigEndian bytes), r)

/-- What is left to read. -/
def Rest (r : ByteReader) (rest : List UInt8) : Prop :=
  r.pos ≤ r.data.length ∧ r.data.drop r.pos = rest

end ByteReader

/-- The loop of `read_u64_vec`. -/
def readU64s (what : String) : ℕ → ByteReader → Except Failure (List UInt64 × ByteReader)
  | 0, r => .ok ([], r)
  | n + 1, r => do
    let (word, r) ← r.readU64Be what
    let (words, r) ← readU64s what n r
    return (word :: words, r)

def readU64Vec (r : ByteReader) (what : String) : Except Failure (List UInt64 × ByteReader) := do
  let (len, r) ← r.readI64Be what
  if len < 1 then .error (.error (.invalidLength what len))
  else if len.toNat * 8 > 2 ^ 63 - 1 then .error .capacityOverflow
  else readU64s what len.toNat r

/-! ### Rank and select -/

def getBit (bits : List UInt64) (idx : ℕ) : Bool :=
  bits[idx / 64]?.any fun word => word &&& (1 <<< UInt64.ofNat (idx % 64)) ≠ 0

/-- The inner loop of `DomainSetIndex::new`: the places of the ones of a word. -/
def wordOnes (wordIdx : ℕ) (remaining : UInt64) : List ℕ :=
  if remaining ≠ 0 then
    (wordIdx * 64 + trailingZeros remaining) :: wordOnes wordIdx (remaining &&& (remaining - 1))
  else []
termination_by remaining.toNat
decreasing_by exact and_sub_one_lt ‹_›

structure DomainSetIndex where
  rankOnesByWord : List ℕ
  selectOnes : List ℕ
  deriving DecidableEq

namespace DomainSetIndex

/-- The loop of `DomainSetIndex::new`. -/
def newLoop : ℕ → ℕ → List UInt64 → DomainSetIndex
  | _, seenOnes, [] => ⟨[seenOnes], []⟩
  | wordIdx, seenOnes, word :: words =>
    let index := newLoop (wordIdx + 1) (seenOnes + countOnes word) words
    ⟨seenOnes :: index.rankOnesByWord, wordOnes wordIdx word ++ index.selectOnes⟩

def new (bits : List UInt64) : DomainSetIndex := newLoop 0 0 bits

def countZeros (index : DomainSetIndex) (bits : List UInt64) (upto : ℕ) : ℕ :=
  let totalBits := min (bits.length * 64) (2 ^ 64 - 1)
  let upto := min upto totalBits
  let word := upto / 64
  let bit := upto % 64
  let ones := index.rankOnesByWord[word]?.getD 0
  let ones :=
    if bit > 0 then
      match bits[word]? with
      | some value => ones + countOnes (value &&& ((1 <<< UInt64.ofNat bit) - 1))
      | none => ones
    else ones
  upto - ones

def selectOne (index : DomainSetIndex) (nth : ℕ) : Option ℕ := index.selectOnes[nth]?

end DomainSetIndex

/-! ### The walk -/

structure DomainSetTraversal where
  leaves : List UInt64
  labelBitmap : List UInt64
  labelIndex : DomainSetIndex
  labels : List UInt8
  deriving DecidableEq

namespace DomainSetTraversal

/-- The head of `traverse`: a node that ends a domain. -/
def visit (t : DomainSetTraversal) (nodeId : ℕ) (current : List UInt8)
    (out : List (List UInt8)) : List (List UInt8) :=
  if getBit t.leaves nodeId then out ++ [current] else out

/-- The loop of `traverse` over the children of a node, with at most so many steps. -/
def children (t : DomainSetTraversal) :
    ℕ → ℕ → ℕ → List UInt8 → List (List UInt8) → Option (List (List UInt8))
  | 0, _, _, _, _ => none
  | fuel + 1, nodeId, idx, current, out =>
    if getBit t.labelBitmap idx then some out
    else
      match t.labels[idx - nodeId]? with
      | none => some out
      | some label =>
        let nextNodeId := t.labelIndex.countZeros t.labelBitmap (idx + 1)
        match t.labelIndex.selectOne (nextNodeId - 1) with
        | none => some out
        | some prevTerminator => do
          let current' := current ++ [label]
          let out ← children t fuel nextNodeId (prevTerminator + 1) current'
            (t.visit nextNodeId current' out)
          children t fuel nodeId (idx + 1) current out

def traverse (t : DomainSetTraversal) (fuel nodeId bmIdx : ℕ) (current : List UInt8)
    (out : List (List UInt8)) : Option (List (List UInt8)) :=
  t.children fuel nodeId bmIdx current (t.visit nodeId current out)

end DomainSetTraversal

/-- `parse_upstream_domain_set`, whose walk takes at most `fuel` nested steps. -/
def parseUpstreamDomainSet (fuel : ℕ) (data : List UInt8) :
    Except Failure (Option (List Str)) := do
  let r := ByteReader.new data
  let (version, r) ← r.readU8 "domain_set_version"
  if version ≠ 1 then .error (.error (.invalidDomainSetVersion version))
  else
    let (leaves, r) ← readU64Vec r "domain_set_leaves"
    let (labelBitmap, r) ← readU64Vec r "domain_set_label_bitmap"
    let (labelsLen, r) ← r.readI64Be "domain_set_labels_len"
    if labelsLen < 1 then .error (.error (.invalidLength "domain_set_labels_len" labelsLen))
    else
      let (labels, _) ← r.readSlice "domain_set_labels" labelsLen.toNat
      let traversal : DomainSetTraversal :=
        { leaves, labelBitmap, labelIndex := .new labelBitmap, labels }
      return (traversal.traverse fuel 0 0 [] []).map
        fun reversed => reversed.filterMap fun bytes => fromUtf8 bytes.reverse

/-- The bytes of a domain set, as the encoder writes them at its end. -/
def writeDomainSet (leaves labelBitmap : List UInt64) (labels : List UInt8) : List UInt8 :=
  [1] ++ (u64be leaves.length ++ leaves.flatMap (fun word => u64be word.toNat) ++
    (u64be labelBitmap.length ++ labelBitmap.flatMap (fun word => u64be word.toNat) ++
      (u64be labels.length ++ labels)))

/-! ### What the reader gives -/

lemma ok_bind {α β : Type} (a : α) (f : α → Except Failure β) : (Except.ok a >>= f) = f a := rfl

namespace ByteReader

lemma rest_new (data : List UInt8) : (new data).Rest data := ⟨zero_le _, rfl⟩

variable {r : ByteReader} {rest : List UInt8} (what : String)

/-- Bytes that are there are read. -/
lemma readSlice_of_rest {bytes : List UInt8} (h : r.Rest (bytes ++ rest)) :
    ∃ r', r.readSlice what bytes.length = .ok (bytes, r') ∧ r'.Rest rest := by
  obtain ⟨hpos, hdrop⟩ := h
  have hlen := congrArg length hdrop
  rw [length_drop, length_append] at hlen
  refine ⟨{ r with pos := r.pos + bytes.length }, ?_, by simp only; omega, ?_⟩
  · rw [readSlice, if_neg (by omega), hdrop, take_left]
  · rw [← drop_drop, hdrop, drop_left]

lemma word_of_rest {α : Type} (f : ℕ → α) {n} (what : String) (hn : n < 2 ^ 64)
    (h : r.Rest (u64be n ++ rest)) :
    ∃ r', (r.readSlice what 8 >>= fun p => pure (f (bigEndian p.1), p.2)) = .ok (f n, r') ∧
      r'.Rest rest := by
  obtain ⟨r', hread, hrest⟩ := readSlice_of_rest what h
  refine ⟨r', ?_, hrest⟩
  rw [length_u64be] at hread
  rw [hread, ok_bind, bigEndian_u64be hn]
  rfl

lemma readU64Be_of_rest {word : UInt64} (h : r.Rest (u64be word.toNat ++ rest)) :
    ∃ r', r.readU64Be what = .ok (word, r') ∧ r'.Rest rest := by
  have hread := word_of_rest UInt64.ofNat what word.toNat_lt h
  rwa [UInt64.ofNat_toNat] at hread

lemma readI64Be_of_rest {n} (hn : n < 2 ^ 63) (h : r.Rest (u64be n ++ rest)) :
    ∃ r', r.readI64Be what = .ok ((n : ℤ), r') ∧ r'.Rest rest := by
  have hread := word_of_rest toI64 what (by omega) h
  rwa [toI64, if_pos hn] at hread

end ByteReader

open ByteReader

lemma readU64s_of_rest {r : ByteReader} {words : List UInt64} {rest} (what : String)
    (h : r.Rest (words.flatMap (fun word => u64be word.toNat) ++ rest)) :
    ∃ r', readU64s what words.length r = .ok (words, r') ∧ r'.Rest rest := by
  induction words generalizing r with
  | nil => exact ⟨r, rfl, h⟩
  | cons word words ih =>
    obtain ⟨r₁, hword, hrest₁⟩ := readU64Be_of_rest what h
    obtain ⟨r₂, hwords, hrest₂⟩ := ih hrest₁
    refine ⟨r₂, ?_, hrest₂⟩
    rw [length_cons, readU64s, hword, ok_bind]
    simp only
    rw [hwords]
    rfl

/-- A vector that was written is read. -/
lemma readU64Vec_of_rest {r : ByteReader} {words : List UInt64} {rest} (what : String)
    (hpos : 0 < words.length) (hlen : words.length * 8 < 2 ^ 63)
    (h : r.Rest (u64be words.length ++ words.flatMap (fun word => u64be word.toNat) ++ rest)) :
    ∃ r', readU64Vec r what = .ok (words, r') ∧ r'.Rest rest := by
  obtain ⟨r₁, hread, hrest₁⟩ := readI64Be_of_rest what (by omega) h
  obtain ⟨r₂, hwords, hrest₂⟩ := readU64s_of_rest what hrest₁
  refine ⟨r₂, ?_, hrest₂⟩
  rw [readU64Vec, hread, ok_bind]
  simp only
  rw [if_neg (by omega), Int.toNat_natCast, if_neg (by omega), hwords]

/-! ### What the index computes -/

lemma getBit_eq (bits : List UInt64) (idx : ℕ) :
    getBit bits idx = ((bitsOf bits)[idx]?).getD false := by
  rw [getBit, getElem?_bitsOf]
  cases bits[idx / 64]? with
  | none => rfl
  | some word =>
    rw [Option.any_some, Option.map_some, Bool.eq_iff_iff, decide_eq_true_eq]
    exact and_shiftLeft_ne_zero word (mod_lt _ (by norm_num))

lemma wordOnes_eq (wordIdx : ℕ) (word : UInt64) :
    wordOnes wordIdx word = (wordBits word).findIdxs id (wordIdx * 64) := by
  rw [findIdxs_wordBits]
  fun_induction wordOnes wordIdx word with
  | case1 remaining hne ih =>
    rw [filter_testBit_eq_cons hne, map_cons, ih]
  | case2 remaining hzero =>
    rw [not_not] at hzero
    rw [hzero]
    rfl

lemma countOnes_eq (word : UInt64) : countOnes word = (wordBits word).countP id := by
  rfl

namespace DomainSetIndex

lemma selectOnes_newLoop (wordIdx seenOnes : ℕ) (words : List UInt64) :
    (newLoop wordIdx seenOnes words).selectOnes = (bitsOf words).findIdxs id (wordIdx * 64) := by
  induction words generalizing wordIdx seenOnes with
  | nil => rfl
  | cons word words ih =>
    rw [newLoop, bitsOf_cons, findIdxs_append, length_wordBits]
    rw [ih, wordOnes_eq, add_mul]

/-- **Select**, over all bits. -/
lemma selectOne_new (words : List UInt64) (nth : ℕ) :
    (new words).selectOne nth = ((bitsOf words).findIdxs id 0)[nth]? := by
  rw [selectOne, new, selectOnes_newLoop]

lemma rankOnesByWord_newLoop (wordIdx seenOnes : ℕ) (words : List UInt64) {w}
    (h : w ≤ words.length) :
    (newLoop wordIdx seenOnes words).rankOnesByWord[w]? =
      some (seenOnes + (bitsOf (words.take w)).countP id) := by
  induction words generalizing wordIdx seenOnes w with
  | nil =>
    obtain rfl : w = 0 := by simpa using h
    rfl
  | cons word words ih =>
    cases w with
    | zero => rfl
    | succ w =>
      rw [newLoop, getElem?_cons_succ, ih _ _ (by simpa using h), take_succ_cons,
        bitsOf_cons, countP_append, countOnes_eq, add_assoc]

/-- The ones among the first bits of a word. -/
lemma countOnes_mask (word : UInt64) {k : ℕ} (h : k < 64) :
    countOnes (word &&& ((1 <<< UInt64.ofNat k) - 1)) = ((wordBits word).take k).countP id := by
  have hfilter : (range 64).countP (fun i => word.toNat.testBit i && decide (i < k)) =
      (range k).countP word.toNat.testBit := by
    have hlow : (range k).countP (fun i => word.toNat.testBit i && decide (i < k)) =
        (range k).countP word.toNat.testBit :=
      countP_congr fun i hi => by simp [mem_range.mp hi]
    have hhigh : ((range (64 - k)).map (k + ·)).countP
        (fun i => word.toNat.testBit i && decide (i < k)) = 0 := by
      refine countP_eq_zero.mpr fun i hi => ?_
      obtain ⟨j, _, rfl⟩ := mem_map.mp hi
      simp
    rw [(by omega : 64 = k + (64 - k)), range_add, countP_append, hlow, hhigh]
    rfl
  rw [wordBits, ← map_take, take_range, min_eq_left (by omega), countP_map, Function.id_comp,
    ← hfilter]
  refine countP_congr fun i _ => ?_
  rw [testBit_and_mask word h]

/-- **Rank**, over all bits. -/
lemma countZeros_new (words : List UInt64) {upto} (h : upto ≤ words.length * 64)
    (hsize : upto < 2 ^ 64) :
    (new words).countZeros words upto = ((bitsOf words).take upto).countP fun b => !b := by
  -- the bits before `upto`: whole words, and the first bits of the next
  have hsplit : (bitsOf words).take upto =
      bitsOf (words.take (upto / 64)) ++
        ((bitsOf (words.drop (upto / 64))).take (upto % 64)) := by
    conv_lhs => rw [← take_append_drop (upto / 64) words, bitsOf_append]
    rw [take_append, length_bitsOf, length_take, min_eq_left (by omega),
      take_of_length_le (by rw [length_bitsOf, length_take]; omega),
      (by omega : upto - 64 * (upto / 64) = upto % 64)]
  have hones : ((bitsOf words).take upto).countP id +
      ((bitsOf words).take upto).countP (fun b => !b) = upto :=
    ones_add_zeros (by rw [length_bitsOf]; omega)
  have hrank := rankOnesByWord_newLoop 0 0 words (w := upto / 64) (by omega)
  rw [countZeros, min_eq_left (by omega), new, hrank, Option.getD_some, zero_add]
  have hid := congrArg (countP id) hsplit
  rw [countP_append] at hid
  split_ifs with hbit
  · have hlt : upto / 64 < words.length := by omega
    rw [drop_eq_getElem_cons hlt, bitsOf_cons,
      take_append_of_le_length (by rw [length_wordBits]; omega)] at hid
    rw [getElem?_eq_getElem hlt]
    simp only
    rw [countOnes_mask _ (by omega)]
    omega
  · rw [(by omega : upto % 64 = 0), take_zero, countP_nil] at hid
    omega

end DomainSetIndex

open DomainSetIndex

/-! ### The walk over a tree in level order -/

namespace DomainSetTraversal

/-- With enough steps the loop over the children of a node ends, with the result `out'`. -/
def Walks (t : DomainSetTraversal) (nodeId idx : ℕ) (current : List UInt8)
    (out out' : List (List UInt8)) : Prop :=
  ∃ n, ∀ fuel ≥ n, t.children fuel nodeId idx current out = some out'

section Walks

variable {t : DomainSetTraversal} {nodeId idx : ℕ} {current : List UInt8}
  {out out₁ out₂ : List (List UInt8)}

lemma walks_end (h : getBit t.labelBitmap idx) : t.Walks nodeId idx current out out := by
  refine ⟨1, fun fuel hfuel => ?_⟩
  obtain ⟨fuel, rfl⟩ := Nat.exists_eq_add_of_le' hfuel
  rw [children, if_pos h]

lemma walks_child {next prev label} (hbit : getBit t.labelBitmap idx = false)
    (hlabel : t.labels[idx - nodeId]? = some label)
    (hrank : t.labelIndex.countZeros t.labelBitmap (idx + 1) = next)
    (hselect : t.labelIndex.selectOne (next - 1) = some prev)
    (hchild : t.Walks next (prev + 1) (current ++ [label])
      (t.visit next (current ++ [label]) out) out₁)
    (hrest : t.Walks nodeId (idx + 1) current out₁ out₂) :
    t.Walks nodeId idx current out out₂ := by
  obtain ⟨n₁, hchild⟩ := hchild
  obtain ⟨n₂, hrest⟩ := hrest
  refine ⟨max n₁ n₂ + 1, fun fuel hfuel => ?_⟩
  obtain ⟨fuel, rfl⟩ := Nat.exists_eq_add_of_le' (le_trans (Nat.le_add_left 1 _) hfuel)
  rw [children, if_neg (by rw [hbit]; decide), hlabel]
  simp only
  rw [hrank, hselect]
  show (t.children fuel next (prev + 1) (current ++ [label])
    (t.visit next (current ++ [label]) out)).bind (t.children fuel nodeId (idx + 1) current) = _
  rw [hchild fuel (by omega), Option.bind_some, hrest fuel (by omega)]

end Walks

section Tree

variable {N : Type*} {kids : N → List (UInt8 × N)} {leaf : N → Bool} {root : N} {nodes : List N}

/-- The vectors and labels are those of the nodes, in level order. -/
structure Stores (t : DomainSetTraversal) (kids : N → List (UInt8 × N)) (leaf : N → Bool)
    (root : N) (nodes : List N) : Prop where
  order : Louds.LevelOrder kids root nodes
  bitmap : ∃ pad, bitsOf t.labelBitmap = Louds.bitmap kids nodes ++ pad
  index : t.labelIndex = .new t.labelBitmap
  labels : t.labels = Louds.labels kids nodes
  leaves : ∀ (i : ℕ) (n : N), nodes[i]? = some n → getBit t.leaves i = leaf n
  size : (Louds.bitmap kids nodes).length < 2 ^ 64

/-- What `words` must say of a node: its own word if it ends one, and the words of its children with
their labels. -/
def WordsOf (kids : N → List (UInt8 × N)) (leaf : N → Bool) (words : N → List (List UInt8))
    (n : N) : Prop :=
  words n = (if leaf n then [[]] else []) ++
    (kids n).flatMap fun p => (words p.2).map (p.1 :: ·)

variable {t : DomainSetTraversal} (h : t.Stores kids leaf root nodes)
include h

/-- The walk over the children that are left, once it is known what it does at each of them. -/
lemma walks_kids {words : N → List (List UInt8)} {n : N} {front back : List N}
    (hnodes : nodes = front ++ n :: back)
    (hkid : ∀ p ∈ kids n, ∀ front' back', nodes = front' ++ p.2 :: back' → ∀ current out,
      t.Walks front'.length (bitmap kids front').length current
        (t.visit front'.length current out) (out ++ (words p.2).map (current ++ ·)))
    (current : List UInt8) (todo : List (UInt8 × N)) :
    ∀ (done : List (UInt8 × N)) (out : List (List UInt8)), kids n = done ++ todo →
      t.Walks front.length ((bitmap kids front).length + done.length) current out
        (out ++ (todo.flatMap fun p => (words p.2).map (p.1 :: ·)).map (current ++ ·)) := by
  obtain ⟨pad, hpad⟩ := h.bitmap
  induction todo with
  | nil =>
    intro done out hdone
    rw [append_nil] at hdone
    rw [flatMap_nil, map_nil, append_nil]
    refine walks_end ?_
    rw [getBit_eq, hpad, ← hdone, getElem?_end hnodes]
    rfl
  | cons p todo ih =>
    obtain ⟨label, c⟩ := p
    intro done out hdone
    obtain ⟨front', back', hchild, hlen⟩ := h.order.child hnodes hdone
    have hlt : (bitmap kids front).length + done.length <
        (bitmap kids nodes).length := by
      rw [hnodes, bitmap_append_cons, row, hdone]
      simp
      omega
    have hbits := congrArg length hpad
    rw [length_bitsOf, length_append] at hbits
    have hsize := h.size
    have hfront : front' ≠ [] := ne_nil_of_length_pos (by omega)
    have hrow : 0 < (bitmap kids front').length := by
      rw [length_bitmap]
      omega
    refine @walks_child t _ _ _ _ (out ++ (words c).map (current ++ [label] ++ ·)) _
      front'.length ((bitmap kids front').length - 1) label ?_ ?_ ?_ ?_ ?_ ?_
    · rw [getBit_eq, hpad, getElem?_child hnodes hdone]
      rfl
    · rw [h.labels, length_bitmap,
        (by omega : front.length + (below kids front).length + done.length - front.length =
          (below kids front).length + done.length)]
      exact getElem?_label hnodes hdone
    · rw [h.index, countZeros_new _ (by omega) (by omega), hpad,
        rank_child hnodes hdone, hlen]
    · rw [h.index, selectOne_new, hpad, select_child hchild hfront]
    · rw [Nat.sub_add_cancel hrow]
      exact hkid (label, c) (by rw [hdone]; simp) front' back' hchild _ _
    · have hrest := ih (done ++ [(label, c)]) (out ++ (words c).map (current ++ [label] ++ ·))
        (by rw [hdone]; simp)
      rw [length_append, ← add_assoc] at hrest
      have hmap : (flatMap (fun p => (words p.2).map (p.1 :: ·)) ((label, c) :: todo)).map
          (current ++ ·) = (words c).map (current ++ [label] ++ ·) ++
            (todo.flatMap fun p => (words p.2).map (p.1 :: ·)).map (current ++ ·) := by
        rw [flatMap_cons, map_append, map_map]
        congr 1
        refine map_congr_left fun w _ => ?_
        simp
      rw [hmap, ← append_assoc]
      exact hrest

/-- **The walk from a node lists its words**, each after the bytes on the way to the node.

**Proof sketch.** By induction on the size of the node. Its own word is listed first. Then comes one
turn of the loop for each child: the bit is zero, the label is the child's, rank gives the number of
the child and select the place of its bits, where the walk lists the words of the child. The one
after the last child ends the loop. -/
theorem walks_node (words : N → List (List UInt8)) (hwords : ∀ n ∈ nodes, WordsOf kids leaf words n)
    (size : N → ℕ) (hsize : ∀ n ∈ nodes, ∀ p ∈ kids n, size p.2 < size n) :
    ∀ (n : N) (front back : List N), nodes = front ++ n :: back → ∀ current out,
      t.Walks front.length (bitmap kids front).length current
        (t.visit front.length current out) (out ++ (words n).map (current ++ ·)) := by
  intro n
  induction hn : size n using Nat.strong_induction_on generalizing n with
  | _ k ih =>
    intro front back hnodes current out
    have hmem : n ∈ nodes := by rw [hnodes]; simp
    have hwalk := walks_kids h hnodes
      (fun p hp front' back' hnodes' => ih (size p.2) (hn ▸ hsize n hmem p hp) p.2 rfl front' back'
        hnodes') current (kids n) [] (t.visit front.length current out) rfl
    have hleaf : getBit t.leaves front.length = leaf n :=
      h.leaves front.length n (by rw [hnodes]; simp)
    have hvisit : t.visit front.length current out =
        out ++ (if leaf n then [[]] else []).map (current ++ ·) := by
      rw [visit, hleaf]
      split_ifs <;> simp
    have hsplit : out ++ (words n).map (current ++ ·) = t.visit front.length current out ++
        ((kids n).flatMap fun p => (words p.2).map (p.1 :: ·)).map (current ++ ·) := by
      rw [hvisit, hwords n hmem, map_append, append_assoc]
    rw [hsplit]
    exact hwalk

end Tree

end DomainSetTraversal

open DomainSetTraversal

/-- **What the parser gives** for the bytes of a tree in level order. -/
theorem parseUpstreamDomainSet_of_stores {leaves labelBitmap : List UInt64} {labels : List UInt8}
    {N : Type*} {kids : N → List (UInt8 × N)} {leaf : N → Bool} {root : N} {nodes : List N}
    (hleaves : 0 < leaves.length) (hbitmap : 0 < labelBitmap.length) (hlabels : 0 < labels.length)
    (hlen : leaves.length * 8 + labelBitmap.length * 8 + labels.length < 2 ^ 63)
    (hstores : DomainSetTraversal.Stores
      { leaves, labelBitmap, labelIndex := .new labelBitmap, labels } kids leaf root nodes)
    (words : N → List (List UInt8))
    (hwords : ∀ n ∈ nodes, DomainSetTraversal.WordsOf kids leaf words n) (size : N → ℕ)
    (hsize : ∀ n ∈ nodes, ∀ p ∈ kids n, size p.2 < size n) :
    ∃ steps, ∀ fuel ≥ steps,
      parseUpstreamDomainSet fuel (writeDomainSet leaves labelBitmap labels) =
        .ok (some ((words root).filterMap fun bytes => fromUtf8 bytes.reverse)) := by
  obtain ⟨steps, hwalk⟩ := walks_node hstores words hwords size hsize root []
    (below kids nodes) hstores.order [] []
  refine ⟨steps, fun fuel hfuel => ?_⟩
  have hwalk' : traverse
      { leaves, labelBitmap, labelIndex := .new labelBitmap, labels } fuel 0 0 [] [] =
      some (words root) := by
    have hchildren := hwalk fuel hfuel
    rw [nil_append, (by simp : (words root).map (([] : List UInt8) ++ ·) = words root)]
      at hchildren
    exact hchildren
  have hstart : (new (writeDomainSet leaves labelBitmap labels)).Rest
      ([1] ++ (u64be leaves.length ++ leaves.flatMap (fun word => u64be word.toNat) ++
        (u64be labelBitmap.length ++ labelBitmap.flatMap (fun word => u64be word.toNat) ++
          (u64be labels.length ++ (labels ++ []))))) := by
    rw [append_nil]
    exact rest_new _
  obtain ⟨r₁, hread₁, hrest₁⟩ := readSlice_of_rest "domain_set_version" hstart
  obtain ⟨r₂, hread₂, hrest₂⟩ := readU64Vec_of_rest "domain_set_leaves" hleaves (by omega) hrest₁
  obtain ⟨r₃, hread₃, hrest₃⟩ :=
    readU64Vec_of_rest "domain_set_label_bitmap" hbitmap (by omega) hrest₂
  obtain ⟨r₄, hread₄, hrest₄⟩ :=
    readI64Be_of_rest "domain_set_labels_len" (by omega) hrest₃
  obtain ⟨r₅, hread₅, -⟩ := readSlice_of_rest "domain_set_labels" hrest₄
  have hversion : (new (writeDomainSet leaves labelBitmap labels)).readU8
      "domain_set_version" = .ok (1, r₁) := by
    rw [readU8, show 1 = [(1 : UInt8)].length from rfl, hread₁]
    rfl
  simp only [parseUpstreamDomainSet, hversion, ok_bind]
  rw [if_neg (by decide)]
  simp only [hread₂, hread₃, hread₄, ok_bind]
  rw [if_neg (by omega), Int.toNat_natCast, hread₅]
  simp only [ok_bind, hwalk']
  rfl

end Meow.Rules
