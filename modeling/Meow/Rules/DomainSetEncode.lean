import Meow.Rules.DomainSet

/-!
# Encoding a domain set

The encoder of `mrs_parser.rs` sorts the reversed domains and goes over the ranges of them that
agree up to a column, in level order: a range whose first domain ends at the column is a leaf, and
each run of domains with the same byte there is an edge, with a range one column further. This file
shows that the parser gives the domains back.

## Main definitions

* `Encoder`, `encodeDomainSet` — the encoder.

## Main results

* `Encoder.Inv.step` — what a turn of the loop keeps.
* `parseUpstreamDomainSet_encodeDomainSet` — the round trip.
-/

namespace Meow.Rules

open List Nat Louds

/-! ### The encoder -/

def setBit (bits : List UInt64) (idx : ℕ) (value : Bool) : List UInt64 :=
  let word := idx / 64
  let bits :=
    if bits.length ≤ word then bits ++ List.replicate (word + 1 - bits.length) 0 else bits
  if value then bits.modify word fun w => w ||| (1 <<< UInt64.ofNat (idx % 64)) else bits

/-- A range of the sorted keys, all the same up to a column: what they have from that column on. -/
abbrev Range := List (List UInt8)

/-- One more key before the runs of the keys after it. -/
def extendRun (b : UInt8) (key : List UInt8) : List (UInt8 × Range) → List (UInt8 × Range)
  | [] => [(b, [key])]
  | (b', run) :: runs => if b' = b then (b, key :: run) :: runs else (b, [key]) :: (b', run) :: runs

/-- The inner loops: the keys are cut into runs with the same byte. A key that ends here is indexed
out of range. -/
def runs : Range → Option (List (UInt8 × Range))
  | [] => some []
  | [] :: _ => none
  | (b :: key) :: keys => (runs keys).map (extendRun b key)

/-- Whether the first key of a range ends, and the runs of the others. The first key of an empty
range is indexed out of range. -/
def branch : Range → Option (Bool × List (UInt8 × Range))
  | [] => none
  | [] :: keys => (runs keys).map fun kids => (true, kids)
  | (b :: key) :: keys => (runs ((b :: key) :: keys)).map fun kids => (false, kids)

/-- The state of the loop. -/
structure Encoder where
  leaves : List UInt64
  labelBitmap : List UInt64
  labels : List UInt8
  labelIdx : ℕ
  queue : List Range
  idx : ℕ
  deriving DecidableEq

namespace Encoder

def start (keys : Range) : Encoder :=
  { leaves := [], labelBitmap := [], labels := [], labelIdx := 0, queue := [keys], idx := 0 }

/-- A run is put into the queue. -/
def push (e : Encoder) (kid : UInt8 × Range) : Encoder :=
  { e with
    queue := e.queue ++ [kid.2]
    labels := e.labels ++ [kid.1]
    labelBitmap := setBit e.labelBitmap e.labelIdx false
    labelIdx := e.labelIdx + 1 }

/-- The end of a turn. -/
def finish (e : Encoder) : Encoder :=
  { e with
    labelBitmap := setBit e.labelBitmap e.labelIdx true
    labelIdx := e.labelIdx + 1
    idx := e.idx + 1 }

/-- A turn of the loop, for a range with these runs. -/
def turn (e : Encoder) (leaf : Bool) (kids : List (UInt8 × Range)) : Encoder :=
  (kids.foldl push
    { e with leaves := if leaf then setBit e.leaves e.idx true else e.leaves }).finish

/-- The loop, with at most so many turns; `none` when it panics. -/
def loop : ℕ → Encoder → Option Encoder
  | 0, _ => none
  | fuel + 1, e =>
    match e.queue[e.idx]? with
    | none => some e
    | some range => (branch range).bind fun (leaf, kids) => loop fuel (e.turn leaf kids)

end Encoder

/-- The keys: the reversed bytes of the entries, sorted. -/
def sortedKeys (entries : List Str) : Range :=
  (entries.map fun entry => (asBytes entry).reverse).insertionSort (· ≤ ·)

/-- `encode_domain_set`; `none` when it panics. The loop has a turn for each part of a key up to a
column, so that the bytes of the keys bound their number. -/
def encodeDomainSet (entries : List Str) : Option (List UInt8) :=
  let keys := sortedKeys entries
  (Encoder.loop ((keys.map List.length).sum + 2) (.start keys)).map fun e =>
    writeDomainSet e.leaves e.labelBitmap e.labels

/-! ### Bits that are set -/

variable (bits : List UInt64)

lemma getBit_eq_testBit (i : ℕ) :
    getBit bits i = (bits[i / 64]?.map fun w => w.toNat.testBit (i % 64)).getD false := by
  rw [getBit_eq, getElem?_bitsOf]

/-- Words that are zero add no bits. -/
lemma getBit_append_replicate (n i : ℕ) : getBit (bits ++ replicate n 0) i = getBit bits i := by
  rw [getBit_eq_testBit, getBit_eq_testBit, getElem?_append]
  split_ifs with h
  · rfl
  · rw [getElem?_eq_none (Nat.le_of_not_lt h), getElem?_replicate]
    split_ifs <;> simp

/-- A bit after one was set. -/
lemma getBit_setBit (idx : ℕ) (value : Bool) (i : ℕ) :
    getBit (setBit bits idx value) i = ((decide (i = idx) && value) || getBit bits i) := by
  rw [setBit]
  -- the words after the vector was made long enough
  obtain ⟨bits', hlen, hsame, heq⟩ : ∃ bits' : List UInt64, idx / 64 < bits'.length ∧
      (∀ i, getBit bits' i = getBit bits i) ∧
      (if bits.length ≤ idx / 64 then bits ++ replicate (idx / 64 + 1 - bits.length) 0
        else bits) = bits' := by
    split_ifs with h
    · refine ⟨_, ?_, getBit_append_replicate bits _, rfl⟩
      simp
      omega
    · exact ⟨bits, by omega, fun _ => rfl, rfl⟩
  rw [heq, ← hsame i]
  cases value with
  | false => simp
  | true =>
    rw [if_pos rfl, Bool.and_true, getBit_eq_testBit, getBit_eq_testBit, getElem?_modify]
    by_cases hword : idx / 64 = i / 64
    · have hi : i / 64 < bits'.length := by omega
      rw [getElem?_eq_getElem hi]
      simp only [hword, if_true, Option.map_eq_map, Option.map_some, Option.getD_some]
      rw [testBit_or_shiftLeft _ (mod_lt _ (by norm_num))]
      congr 2
      rw [eq_iff_iff]
      omega
    · rw [decide_eq_false (by rintro rfl; exact hword rfl)]
      simp only [hword]
      cases bits'[i / 64]? <;> rfl

/-- The words that are there after a bit was set. -/
lemma length_setBit (idx : ℕ) (value : Bool) :
    (setBit bits idx value).length = max bits.length (idx / 64 + 1) := by
  rw [setBit]
  split_ifs <;> simp <;> omega

/-! ### Ranges -/

/-- How many turns the loop can need for a range and all the ranges under it. -/
def Range.weight (range : Range) : ℕ := (range.map List.length).sum + 1

/-- A range the encoder can come to: it has keys, and they are sorted and different. -/
def Range.Good (range : Range) : Prop := range ≠ [] ∧ range.Pairwise (· < ·)

/-- The keys of runs, with their bytes. -/
def unruns (kids : List (UInt8 × Range)) : Range := kids.flatMap fun p => p.2.map (p.1 :: ·)

lemma unruns_extendRun (b : UInt8) (key : List UInt8) (kids : List (UInt8 × Range)) :
    unruns (extendRun b key kids) = (b :: key) :: unruns kids := by
  cases kids with
  | nil => rfl
  | cons p kids =>
    obtain ⟨b', run⟩ := p
    rw [extendRun]
    split_ifs with h
    · rw [h]
      rfl
    · rfl

variable {kids : List (UInt8 × Range)} {key : List UInt8}

lemma ne_nil_of_mem_extendRun {b} (h : ∀ p ∈ kids, p.2 ≠ []) :
    ∀ p ∈ extendRun b key kids, p.2 ≠ [] := by
  cases kids with
  | nil => simp [extendRun]
  | cons p kids =>
    obtain ⟨hrun, hkids⟩ := forall_mem_cons.mp h
    rw [extendRun]
    split_ifs
    · exact forall_mem_cons.mpr ⟨cons_ne_nil _ _, hkids⟩
    · exact forall_mem_cons.mpr ⟨cons_ne_nil _ _, h⟩

/-- Keys that do not end are cut into runs. -/
lemma runs_spec {keys} (h : [] ∉ keys) :
    ∃ kids, runs keys = some kids ∧ unruns kids = keys ∧ ∀ p ∈ kids, p.2 ≠ [] := by
  induction keys with
  | nil => exact ⟨[], rfl, rfl, by simp⟩
  | cons key keys ih =>
    rw [mem_cons, not_or] at h
    obtain ⟨kids, hruns, hkeys, hne⟩ := ih h.2
    cases key with
    | nil => exact absurd rfl h.1
    | cons b key =>
      refine ⟨extendRun b key kids, ?_, ?_, ne_nil_of_mem_extendRun hne⟩
      · rw [runs, hruns]
        rfl
      · rw [unruns_extendRun, hkeys]

/-- The keys of a run are sorted as the keys of the range are. -/
lemma pairwise_of_mem_unruns (h : (unruns kids).Pairwise (· < ·)) {p} (hp : p ∈ kids) :
    p.2.Pairwise (· < ·) := by
  have hinfix : p.2.map (p.1 :: ·) <:+: unruns kids := by
    exact infix_of_mem_flatten (mem_map.mpr ⟨p, hp, rfl⟩)
  have hpair := h.sublist hinfix.sublist
  rw [pairwise_map] at hpair
  refine hpair.imp fun hlt => ?_
  rcases cons_lt_cons_iff.mp hlt with hlt | ⟨_, hlt⟩
  · exact absurd hlt (Std.lt_irrefl)
  · exact hlt

open Range

/-- A run weighs no more than the bytes of its keys. -/
lemma sum_weight_le (h : ∀ p ∈ kids, p.2 ≠ []) :
    (kids.map fun p => p.2.weight).sum ≤ ((unruns kids).map length).sum := by
  induction kids with
  | nil => exact le_rfl
  | cons p kids ih =>
    obtain ⟨hp, hkids⟩ := forall_mem_cons.mp h
    have hpos := length_pos_of_ne_nil hp
    have hsum : ((p.2.map (p.1 :: ·)).map length).sum = (p.2.map length).sum +
        p.2.length := by
      simp [Function.comp_def, sum_map_add]
    rw [map_cons, sum_cons, unruns, flatMap_cons, ← unruns, map_append, sum_append, weight]
    have htail := ih hkids
    omega

/-- **What a turn finds**: whether a key ends, and the runs of the others, which are all the keys
of the range. -/
lemma branch_spec {range : Range} (h : range.Good) :
    ∃ leaf kids, branch range = some (leaf, kids) ∧
      range = (if leaf then [[]] else []) ++ unruns kids ∧
      (∀ p ∈ kids, p.2.Good) ∧ (kids.map fun p => p.2.weight).sum < range.weight := by
  obtain ⟨hne, hsorted⟩ := h
  -- only the first key can end here
  have hrest : ∀ {key : List UInt8} {keys : Range}, (key :: keys).Pairwise (· < ·) → [] ∉ keys :=
    fun hpair hmem => not_lt_nil _ ((pairwise_cons.mp hpair).1 [] hmem)
  have hruns : ∀ {keys : Range}, [] ∉ keys → keys.Pairwise (· < ·) → ∃ kids,
      runs keys = some kids ∧ unruns kids = keys ∧ (∀ p ∈ kids, p.2.Good) ∧
        (kids.map fun p => p.2.weight).sum < keys.weight := by
    intro keys hnil hpair
    obtain ⟨kids, hruns, rfl, hkids⟩ := runs_spec hnil
    exact ⟨kids, hruns, rfl, fun p hp => ⟨hkids p hp, pairwise_of_mem_unruns hpair hp⟩,
      lt_succ_of_le (sum_weight_le hkids)⟩
  cases range with
  | nil => exact absurd rfl hne
  | cons key keys =>
    cases key with
    | nil =>
      obtain ⟨kids, hruns, hkeys, hkids, hweight⟩ :=
        hruns (hrest hsorted) (pairwise_cons.mp hsorted).2
      exact ⟨true, kids, by rw [branch, hruns]; rfl, by rw [hkeys]; rfl, hkids,
        by simpa [weight] using hweight⟩
    | cons b key =>
      obtain ⟨kids, hruns, hkeys, hkids, hweight⟩ :=
        hruns (by simp [hrest hsorted]) hsorted
      exact ⟨false, kids, by rw [branch, hruns]; rfl, by rw [hkeys]; rfl, hkids, hweight⟩

/-- Whether a range is a leaf. -/
def leafOf (range : Range) : Bool := ((branch range).map Prod.fst).getD false

/-- The edges from a range. -/
def kidsOf (range : Range) : List (UInt8 × Range) := ((branch range).map Prod.snd).getD []

section Kids

variable {range : Range}

/-- **What is under a range**: its words are its keys, and the runs are lighter. -/
lemma kidsOf_spec (h : range.Good) :
    DomainSetTraversal.WordsOf kidsOf leafOf (fun range => range) range ∧
      (∀ p ∈ kidsOf range, p.2.Good) ∧
      ((kidsOf range).map fun p => p.2.weight).sum < range.weight := by
  obtain ⟨leaf, kids, hbranch, hspec⟩ := branch_spec h
  rw [DomainSetTraversal.WordsOf, leafOf, kidsOf, hbranch]
  exact hspec

lemma weight_lt_of_mem_kidsOf (h : range.Good) : ∀ p ∈ kidsOf range, p.2.weight < range.weight :=
  fun p hp => (le_sum_of_mem (mem_map.mpr ⟨p, hp, rfl⟩)).trans_lt (kidsOf_spec h).2.2

end Kids

/-! ### The loop -/

namespace Encoder

/-- What holds before each turn: the ranges before `idx` are done, the queue has the root and the
ranges under them, and the vectors and the labels are theirs. -/
structure Inv (root : Range) (e : Encoder) : Prop where
  idx_le : e.idx ≤ e.queue.length
  queue : e.queue = root :: Louds.below kidsOf (e.queue.take e.idx)
  good : ∀ range ∈ e.queue, range.Good
  labelIdx : e.labelIdx = (Louds.bitmap kidsOf (e.queue.take e.idx)).length
  bits : ∀ i, getBit e.labelBitmap i =
    ((Louds.bitmap kidsOf (e.queue.take e.idx))[i]?).getD false
  words : e.labelIdx ≤ 64 * e.labelBitmap.length
  labels : e.labels = Louds.labels kidsOf (e.queue.take e.idx)
  leaves : ∀ i, getBit e.leaves i = (((e.queue.take e.idx).map leafOf)[i]?).getD false

lemma inv_start {keys : Range} (h : keys.Good) : Inv keys (start keys) where
  idx_le := zero_le _
  queue := rfl
  good := forall_mem_singleton.mpr h
  labelIdx := rfl
  bits _ := rfl
  words := le_rfl
  labels := rfl
  leaves _ := rfl

/-- What putting the runs into the queue does. -/
lemma foldl_push (kids : List (UInt8 × Range)) (e : Encoder) :
    (kids.foldl push e).queue = e.queue ++ kids.map Prod.snd ∧
      (kids.foldl push e).labels = e.labels ++ kids.map Prod.fst ∧
      (kids.foldl push e).labelIdx = e.labelIdx + kids.length ∧
      (∀ i, getBit (kids.foldl push e).labelBitmap i = getBit e.labelBitmap i) ∧
      (kids.foldl push e).leaves = e.leaves ∧ (kids.foldl push e).idx = e.idx := by
  induction kids generalizing e with
  | nil => simp
  | cons p kids ih =>
    obtain ⟨hqueue, hlabels, hlabelIdx, hbits, hleaves, hidx⟩ := ih (e.push p)
    rw [foldl_cons, hqueue, hlabels, hlabelIdx, hleaves, hidx]
    refine ⟨by simp [push], by simp [push], by simp only [push, length_cons]; omega,
      fun i => ?_, rfl, rfl⟩
    rw [hbits, push, getBit_setBit]
    simp

/-- **A turn of the loop**: the runs of the range go to the end of the queue. -/
lemma turn_spec (e : Encoder) (leaf : Bool) (kids : List (UInt8 × Range)) :
    (e.turn leaf kids).queue = e.queue ++ kids.map Prod.snd ∧
      (e.turn leaf kids).labels = e.labels ++ kids.map Prod.fst ∧
      (e.turn leaf kids).labelIdx = e.labelIdx + kids.length + 1 ∧
      (∀ i, getBit (e.turn leaf kids).labelBitmap i =
        (decide (i = e.labelIdx + kids.length) || getBit e.labelBitmap i)) ∧
      (e.turn leaf kids).labelIdx ≤ 64 * (e.turn leaf kids).labelBitmap.length ∧
      (e.turn leaf kids).leaves = (if leaf then setBit e.leaves e.idx true else e.leaves) ∧
      (e.turn leaf kids).idx = e.idx + 1 := by
  obtain ⟨hqueue, hlabels, hlabelIdx, hbits, hleaves, hidx⟩ :=
    foldl_push kids { e with leaves := if leaf then setBit e.leaves e.idx true else e.leaves }
  refine ⟨hqueue, hlabels, congrArg (· + 1) hlabelIdx, fun i => ?_, ?_, hleaves,
    congrArg (· + 1) hidx⟩
  · rw [turn, finish, getBit_setBit, hbits, hlabelIdx, Bool.and_true]
  · rw [turn, finish, length_setBit]
    simp only
    omega

/-- The bits before a place, and what is at it. -/
lemma getD_append_singleton (l : List Bool) (b : Bool) (i : ℕ) :
    ((l ++ [b])[i]?).getD false = ((decide (i = l.length) && b) || (l[i]?).getD false) := by
  rcases lt_trichotomy i l.length with h | h | h
  · rw [getElem?_append_left h, decide_eq_false (by omega)]
    simp
  · rw [h, getElem?_eq_none le_rfl]
    simp
  · rw [getElem?_eq_none (by simp; omega), getElem?_eq_none (by omega), decide_eq_false (by omega)]
    simp

/-- Zeros at the end do not count. -/
lemma getD_append_replicate (l : List Bool) (n i : ℕ) :
    ((l ++ replicate n false)[i]?).getD false = (l[i]?).getD false := by
  rw [getElem?_append]
  split_ifs with h
  · rfl
  · rw [getElem?_eq_none (Nat.le_of_not_lt h), getElem?_replicate]
    split_ifs <;> rfl

variable {e : Encoder} {range : Range}

/-- **A turn of the loop keeps the invariant.** -/
lemma Inv.step {root} (h : Inv root e) (hrange : e.queue[e.idx]? = some range) :
    Inv root (e.turn (leafOf range) (kidsOf range)) := by
  obtain ⟨hlt, hget⟩ := List.getElem?_eq_some_iff.mp hrange
  obtain ⟨hqueue, hlabels, hlabelIdx, hbits, hwords, hleaves, hidx⟩ :=
    turn_spec e (leafOf range) (kidsOf range)
  generalize e.turn (leafOf range) (kidsOf range) = e' at *
  -- the ranges that are done after the turn
  have htake : e'.queue.take e'.idx = e.queue.take e.idx ++ [range] := by
    rw [hqueue, hidx, take_append_of_le_length hlt, ← hget]
    exact (take_concat_get' e.queue e.idx hlt).symm
  have hbitmap : bitmap kidsOf (e.queue.take e.idx ++ [range]) =
      bitmap kidsOf (e.queue.take e.idx) ++
        replicate (kidsOf range).length false ++ [true] := by
    rw [bitmap_append_cons, row]
    simp [bitmap]
  refine ⟨?_, ?_, ?_, ?_, fun i => ?_, hwords, ?_, fun i => ?_⟩
  · rw [hqueue, length_append]
    omega
  · rw [htake, hqueue, below, flatMap_append, flatMap_singleton]
    conv_lhs => rw [h.queue]
    rfl
  · rw [hqueue]
    intro r hr
    rcases mem_append.mp hr with hr | hr
    · exact h.good r hr
    · obtain ⟨p, hp, rfl⟩ := mem_map.mp hr
      exact (kidsOf_spec (h.good range (mem_of_getElem? hrange))).2.1 p hp
  · rw [htake, hbitmap, hlabelIdx, h.labelIdx]
    simp only [length_append, length_replicate, length_singleton]
  · rw [htake, hbitmap, getD_append_singleton, getD_append_replicate, hbits, h.bits, h.labelIdx]
    simp only [length_append, length_replicate, Bool.and_true]
  · rw [htake, Louds.labels, flatMap_append, ← Louds.labels, ← h.labels, flatMap_singleton]
    exact hlabels
  · have hlen : (map leafOf (e.queue.take e.idx)).length = e.idx := by
      rw [length_map, length_take, min_eq_left h.idx_le]
    rw [htake, map_append, map_singleton, getD_append_singleton, hlen, ← h.leaves, hleaves]
    cases leafOf range with
    | false => simp
    | true => simp [getBit_setBit]

variable {root : Range}

/-- The ranges that are left weigh less after a turn. -/
lemma weight_turn (h : Inv root e) (hrange : e.queue[e.idx]? = some range) :
    (((e.turn (leafOf range) (kidsOf range)).queue.drop
      (e.turn (leafOf range) (kidsOf range)).idx).map weight).sum <
      ((e.queue.drop e.idx).map weight).sum := by
  obtain ⟨hlt, hget⟩ := List.getElem?_eq_some_iff.mp hrange
  obtain ⟨hqueue, -, -, -, -, -, hidx⟩ := turn_spec e (leafOf range) (kidsOf range)
  have hweight := (kidsOf_spec (h.good range (mem_of_getElem? hrange))).2.2
  rw [hqueue, hidx, drop_append_of_le_length (by omega : e.idx + 1 ≤ e.queue.length),
    drop_eq_getElem_cons hlt, hget, map_append, sum_append, map_cons, sum_cons, map_map]
  have hcomp : (weight ∘ Prod.snd : UInt8 × Range → ℕ) = fun p => p.2.weight := rfl
  rw [hcomp]
  omega

/-- **The loop ends**, with all ranges done. -/
theorem loop_spec (fuel : ℕ) :
    ∀ e : Encoder, Inv root e → ((e.queue.drop e.idx).map weight).sum < fuel →
      ∃ e', loop fuel e = some e' ∧ Inv root e' ∧ e'.idx = e'.queue.length := by
  induction fuel with
  | zero => exact fun e _ hfuel => absurd hfuel (not_lt_zero _)
  | succ fuel ih =>
    intro e h hfuel
    rw [loop]
    rcases hrange : e.queue[e.idx]? with _ | range
    · exact ⟨e, rfl, h, le_antisymm h.idx_le (getElem?_eq_none_iff.mp hrange)⟩
    · have hbranch : branch range = some (leafOf range, kidsOf range) := by
        obtain ⟨leaf, kids, hbranch, -⟩ :=
          branch_spec (h.good range (mem_of_getElem? hrange))
        rw [leafOf, kidsOf, hbranch]
        rfl
      have hlt := weight_turn h hrange
      simp only [hbranch, Option.bind_some]
      exact ih _ (h.step hrange) (by omega)

/-- The vectors and labels at the end are those of the ranges, in level order. -/
lemma Inv.stores (h : Inv root e) (hend : e.idx = e.queue.length)
    (hsize : e.labels.length < 2 ^ 63) : DomainSetTraversal.Stores
      { leaves := e.leaves, labelBitmap := e.labelBitmap, labelIndex := .new e.labelBitmap
        labels := e.labels } kidsOf leafOf root e.queue := by
  have htake : e.queue.take e.idx = e.queue := by rw [hend, take_length]
  have hqueue := h.queue
  have hlabelIdx := h.labelIdx
  have hbits := h.bits
  have hlabels := h.labels
  have hleaves := h.leaves
  rw [htake] at hqueue hlabelIdx hbits hlabels hleaves
  refine ⟨hqueue, ⟨(bitsOf e.labelBitmap).drop e.labelIdx, ?_⟩, rfl, hlabels, fun i n hn => ?_, ?_⟩
  · -- the two agree at every place below the length of the one, and have as many places there
    have hfront : (bitsOf e.labelBitmap).take e.labelIdx = bitmap kidsOf e.queue := by
      have hwords := h.words
      refine ext_getElem? fun i => ?_
      rcases lt_or_ge i e.labelIdx with hi | hi
      · have hbit := hbits i
        rw [getBit_eq, getElem?_eq_getElem (by rw [length_bitsOf]; omega),
          getElem?_eq_getElem (by omega), Option.getD_some, Option.getD_some] at hbit
        rw [getElem?_take_of_lt hi, getElem?_eq_getElem (by rw [length_bitsOf]; omega),
          getElem?_eq_getElem (by omega), hbit]
      · rw [getElem?_eq_none (by rw [length_take]; omega), getElem?_eq_none (by omega)]
    rw [← hfront, take_append_drop]
  · rw [hleaves, getElem?_map, hn]
    rfl
  · have hcount := congrArg length hqueue
    rw [length_cons, ← length_labels, ← hlabels] at hcount
    rw [length_bitmap, ← length_labels, ← hlabels]
    omega

/-- Under every range of the queue there is one where a key ends. -/
lemma exists_leafOf {queue} (hqueue : Louds.LevelOrder kidsOf root queue)
    (hgood : ∀ range ∈ queue, range.Good) :
    ∀ range ∈ queue, ∃ leaf ∈ queue, leafOf leaf = true := by
  intro range
  induction hw : range.weight using Nat.strong_induction_on generalizing range with
  | _ w ih =>
    intro hrange
    have hwords := (kidsOf_spec (hgood range hrange)).1
    rcases hleaf : leafOf range with _ | _
    · -- no key ends here, so there is a run, and it is lighter
      rcases hkids : kidsOf range with _ | ⟨p, kids⟩
      · rw [DomainSetTraversal.WordsOf, hleaf, hkids] at hwords
        exact absurd hwords (hgood range hrange).1
      · have hp : p ∈ kidsOf range := by rw [hkids]; exact mem_cons_self
        have hmem : p.2 ∈ queue := by
          rw [hqueue]
          right
          exact mem_flatMap.mpr ⟨range, hrange, mem_map.mpr ⟨p, hp, rfl⟩⟩
        exact ih p.2.weight (hw ▸ weight_lt_of_mem_kidsOf (hgood range hrange) p hp) p.2 rfl hmem
    · exact ⟨range, hrange, hleaf⟩

end Encoder

open Encoder

/-! ### The round trip -/

/-- The keys of different entries are sorted and different. -/
lemma good_sortedKeys {entries : List Str} (hset : entries.Nodup) (hne : entries ≠ []) :
    (sortedKeys entries).Good := by
  have hperm := perm_insertionSort (· ≤ ·)
    (entries.map fun entry => (asBytes entry).reverse)
  refine ⟨fun hnil => hne ?_, ?_⟩
  · rw [sortedKeys] at hnil
    rw [hnil] at hperm
    exact map_eq_nil_iff.mp hperm.symm.eq_nil
  · have hnodup : (sortedKeys entries).Nodup := by
      refine hperm.nodup_iff.mpr (hset.map fun s s' heq => ?_)
      exact asBytes_injective (reverse_injective heq)
    have hle : (sortedKeys entries).Pairwise (· ≤ ·) := pairwise_insertionSort _ _
    exact (hle.and hnodup).imp fun hand => Std.lt_of_le_of_ne hand.1 hand.2

/-- A key that is not empty is below an edge. -/
lemma kidsOf_ne_nil {range : Range} (h : range.Good) (hkey : key ∈ range) (hne : key ≠ []) :
    kidsOf range ≠ [] := by
  intro hkids
  have hwords : range = (if leafOf range then [[]] else []) ++
      (kidsOf range).flatMap fun p => p.2.map (p.1 :: ·) := (kidsOf_spec h).1
  rw [hkids, flatMap_nil] at hwords
  rw [hwords] at hkey
  split_ifs at hkey
  · exact hne (mem_singleton.mp hkey)
  · exact absurd hkey not_mem_nil

/-- Every key is read as the entry it is made from. -/
lemma perm_filterMap_sortedKeys (entries : List Str) :
    ((sortedKeys entries).filterMap fun bytes => fromUtf8 bytes.reverse).Perm entries := by
  have hback : (entries.map fun entry => (asBytes entry).reverse).filterMap
      (fun bytes => fromUtf8 bytes.reverse) = entries := by
    simp [fromUtf8_asBytes]
  have hperm := (perm_insertionSort (· ≤ ·)
    (entries.map fun entry => (asBytes entry).reverse)).filterMap
      fun bytes => fromUtf8 bytes.reverse
  rw [hback] at hperm
  exact hperm

lemma length_flatMap_u64be (words : List UInt64) :
    (words.flatMap fun word => u64be word.toNat).length = words.length * 8 := by
  simp [length_flatMap]

/-- **Domains come back.** A set of domains and wildcard patterns, of which one at least is not
empty, is encoded without a panic, and where the encoding fits into memory the parser, given enough
steps, gives exactly these domains and patterns, each of them once.

**Proof sketch.** The encoder's loop keeps the ranges in level order, with the vectors and labels of
those it has done, and ends because the ranges that are left weigh less at each turn. The walk of
the parser over such vectors lists the words of the root, and the words of a range are its keys: the
sorted reversed bytes of the entries. Each is read back as the entry it is made from. -/
theorem parseUpstreamDomainSet_encodeDomainSet (entries : List Str) (hset : entries.Nodup)
    (hsome : ∃ entry ∈ entries, entry ≠ []) :
    ∃ bytes, encodeDomainSet entries = some bytes ∧
      (bytes.length < 2 ^ 63 → ∃ out : List Str, out.Perm entries ∧
        ∃ steps, ∀ fuel ≥ steps, parseUpstreamDomainSet fuel bytes = .ok (some out)) := by
  obtain ⟨entry, hentry, hnonempty⟩ := hsome
  have hgood := good_sortedKeys hset (ne_nil_of_mem hentry)
  obtain ⟨e, hloop, hinv, hend⟩ := loop_spec
    (((sortedKeys entries).map length).sum + 2) _ (inv_start hgood)
    (by simp [start, weight])
  refine ⟨writeDomainSet e.leaves e.labelBitmap e.labels, ?_, fun hlen => ?_⟩
  · rw [encodeDomainSet]
    simp only [hloop]
    rfl
  · simp only [writeDomainSet, length_append, length_flatMap_u64be, length_singleton] at hlen
    have hstores := hinv.stores hend (by omega)
    have horder := hstores.order
    -- some key ends, so that there is a leaf, and some key does not end at the root
    have hroot : sortedKeys entries ∈ e.queue := by
      rw [horder]
      exact mem_cons_self
    have hleaves : 0 < e.leaves.length := by
      obtain ⟨leaf, hmem, hleaf⟩ := exists_leafOf horder hinv.good _ hroot
      obtain ⟨i, hi⟩ := getElem?_of_mem hmem
      have hbit : getBit e.leaves i = true := (hstores.leaves i leaf hi).trans hleaf
      refine length_pos_of_ne_nil fun hnil => ?_
      rw [hnil] at hbit
      exact absurd hbit (by simp [getBit])
    have hkey : (asBytes entry).reverse ∈ sortedKeys entries := by
      rw [sortedKeys, mem_insertionSort]
      exact mem_map.mpr ⟨entry, hentry, rfl⟩
    have hkeyne : (asBytes entry).reverse ≠ [] :=
      ne_nil_of_length_pos (by
        rw [length_reverse]
        exact length_asBytes_pos hnonempty)
    have hlabels : 0 < e.labels.length := by
      have hkids := length_pos_of_ne_nil (kidsOf_ne_nil hgood hkey hkeyne)
      have heq : e.labels = labels kidsOf e.queue := hstores.labels
      rw [heq, length_labels, horder, below_cons, length_append, length_map]
      omega
    have hbitmap : 0 < e.labelBitmap.length := by
      have hwords := hinv.words
      have hlabelIdx := hinv.labelIdx
      rw [hend, take_length, length_bitmap] at hlabelIdx
      have hpos := length_pos_of_mem hroot
      omega
    refine ⟨_, perm_filterMap_sortedKeys entries, ?_⟩
    exact parseUpstreamDomainSet_of_stores hleaves hbitmap hlabels (by omega) hstores
      (fun range => range) (fun range hrange => (kidsOf_spec (hinv.good range hrange)).1)
      weight (fun range hrange => weight_lt_of_mem_kidsOf (hinv.good range hrange))

/-- The domains of a test of the parser. -/
def sampleEntries : List Str := [str "example.com", str "+.foo.com"]

/-- A plain domain and a wildcard pattern. -/
theorem sampleEntries_roundtrip :
    ∃ bytes, encodeDomainSet sampleEntries = some bytes ∧ bytes.length = 57 ∧
      ∃ out : List Str, out.Perm sampleEntries ∧
        ∃ steps, ∀ fuel ≥ steps, parseUpstreamDomainSet fuel bytes = .ok (some out) := by
  obtain ⟨bytes, hencode, hparse⟩ := parseUpstreamDomainSet_encodeDomainSet sampleEntries
    (by decide) ⟨str "example.com", by decide, by decide⟩
  have hlen : (encodeDomainSet sampleEntries).map length = some 57 := by decide +kernel
  rw [hencode] at hlen
  have hlen' : bytes.length = 57 := Option.some.inj hlen
  exact ⟨bytes, hencode, hlen', hparse (by omega)⟩

end Meow.Rules
