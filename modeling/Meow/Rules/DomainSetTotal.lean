import Meow.Rules.DomainSet

/-!
# Domain sets that are not trees

A rule provider downloads its domain sets, so the vectors that `parse_upstream_domain_set` walks
over need not come from an encoder. This file finds the byte strings on which the parser does not
end with a result or an error: a vector can claim a length for which no memory can be reserved, and
bits that are balanced catch the walk at its last node.

## Main definitions

* `Total` — the parser ends with a result or an error.
* `ClaimsHugeVector`, `EncodesCycle` — the byte strings on which it does not.

## Main results

* `DomainSetTraversal.ends_of_children`, `DomainSetTraversal.walks_of_ends` — the walk of
  the parser is the walk over the bits.
* `parseUpstreamDomainSet_total_iff` — the byte strings on which the parser ends.
-/

namespace Meow.Rules

open List Nat DomainSetIndex DomainSetTraversal

/-! ### What was there when a read succeeded -/

namespace ByteReader

variable {rest : List UInt8} {r : ByteReader} (what : String)

/-- A slice is read or the read fails with an error. -/
lemma readSlice_cases (n : ℕ) (h : r.Rest rest) :
    (∃ e, r.readSlice what n = .error (.error e)) ∨
      ∃ bytes rest' r', r.readSlice what n = .ok (bytes, r') ∧ bytes.length = n ∧
        rest = bytes ++ rest' ∧ r'.Rest rest' := by
  obtain ⟨hpos, hdrop⟩ := h
  have hlen := congrArg length hdrop
  rw [length_drop] at hlen
  unfold readSlice
  split_ifs with hshort
  · exact .inl ⟨_, rfl⟩
  · refine .inr ⟨rest.take n, rest.drop n, _, by rw [hdrop], ?_,
      (take_append_drop n rest).symm, ?_, ?_⟩
    · rw [length_take]
      omega
    · simp only
      omega
    · rw [← drop_drop, hdrop]

/-- A 64 bit number is read or the read fails with an error. -/
lemma readI64Be_cases (h : r.Rest rest) :
    (∃ e, r.readI64Be what = .error (.error e)) ∨
      ∃ n rest' r', r.readI64Be what = .ok (toI64 n, r') ∧ n < 2 ^ 64 ∧ rest = u64be n ++ rest' ∧
        r'.Rest rest' := by
  unfold readI64Be
  obtain ⟨e, he⟩ | ⟨bytes, rest', r', hread, hlen, hrest, hr'⟩ := readSlice_cases what 8 h
  · exact .inl ⟨e, by rw [he]; rfl⟩
  · refine .inr ⟨bigEndian bytes, rest', r', by rw [hread]; rfl, bigEndian_lt hlen, ?_, hr'⟩
    rw [u64be_bigEndian hlen, hrest]

end ByteReader

variable {rest : List UInt8}

open ByteReader

variable {r : ByteReader} (what : String)

/-- So many words are read or the read fails with an error. -/
lemma readU64s_cases (n : ℕ) (h : r.Rest rest) :
    (∃ e, readU64s what n r = .error (.error e)) ∨
      ∃ words rest' r', readU64s what n r = .ok (words, r') ∧ words.length = n ∧
        rest = words.flatMap (fun word => u64be word.toNat) ++ rest' ∧ r'.Rest rest' := by
  induction n generalizing r rest with
  | zero => exact .inr ⟨[], rest, r, rfl, rfl, rfl, h⟩
  | succ n ih =>
    unfold readU64s readU64Be
    obtain ⟨e, he⟩ | ⟨bytes, rest₁, r₁, hread, hlen, hrest, hr₁⟩ :=
      readSlice_cases what 8 h
    · exact .inl ⟨e, by rw [he]; rfl⟩
    · have hword : u64be (UInt64.ofNat (bigEndian bytes)).toNat = bytes := by
        rw [UInt64.toNat_ofNat', mod_eq_of_lt (bigEndian_lt hlen), u64be_bigEndian hlen]
      obtain ⟨e, he⟩ | ⟨words, rest₂, r₂, hwords, hlen₂, hrest₂, hr₂⟩ := ih hr₁
      · exact .inl ⟨e, by rw [hread, ok_bind]; simp only [ok_bind, pure, Except.pure, he]; rfl⟩
      · refine .inr ⟨UInt64.ofNat (bigEndian bytes) :: words, rest₂, r₂, ?_, ?_, ?_, hr₂⟩
        · rw [hread]
          simp only [ok_bind, pure, Except.pure, hwords]
        · rw [length_cons, hlen₂]
        · rw [flatMap_cons, hword, append_assoc, ← hrest₂, hrest]

/-- A number that is read as a positive one is itself. -/
lemma toI64_of_pos {n} (hn : n < 2 ^ 64) (hpos : ¬toI64 n < 1) :
    toI64 n = n ∧ n < 2 ^ 63 ∧ 1 ≤ n := by
  unfold toI64 at hpos ⊢
  split_ifs at hpos ⊢ <;> omega

/-- A vector is read, or the read fails with an error, or the vector claims a length for which no
memory can be reserved. -/
lemma readU64Vec_cases (h : r.Rest rest) :
    (∃ e, readU64Vec r what = .error (.error e)) ∨
      (readU64Vec r what = .error .capacityOverflow ∧
        ∃ len rest', rest = u64be len ++ rest' ∧ 2 ^ 60 ≤ len ∧ len < 2 ^ 63) ∨
      ∃ words rest' r', readU64Vec r what = .ok (words, r') ∧ words ≠ [] ∧ words.length < 2 ^ 60 ∧
        rest = u64be words.length ++ words.flatMap (fun word => u64be word.toNat) ++ rest' ∧
        r'.Rest rest' := by
  unfold readU64Vec
  obtain ⟨e, he⟩ | ⟨n, rest₁, r₁, hread, hn, hrest, hr₁⟩ := readI64Be_cases what h
  · exact .inl ⟨e, by rw [he]; rfl⟩
  · rw [hread, ok_bind]
    simp only
    by_cases hpos : toI64 n < 1
    · rw [if_pos hpos]
      exact .inl ⟨_, rfl⟩
    · have hsigned := toI64_of_pos hn hpos
      rw [if_neg hpos, hsigned.1]
      split_ifs with hhuge
      · exact .inr (.inl ⟨rfl, n, rest₁, hrest, by omega, hsigned.2.1⟩)
      · obtain ⟨e, he⟩ | ⟨words, rest₂, r₂, hwords, hlen, hrest₂, hr₂⟩ := readU64s_cases what n hr₁
        · exact .inl ⟨e, he⟩
        · refine .inr (.inr ⟨words, rest₂, r₂, hwords, ?_, by omega, ?_, hr₂⟩)
          · exact ne_nil_of_length_pos (by omega)
          · rw [hlen, append_assoc, ← hrest₂, hrest]

/-- No memory can be reserved for a vector of `2 ^ 60` words. -/
lemma readU64Vec_huge {len} (h : r.Rest (u64be len ++ rest)) (hlo : 2 ^ 60 ≤ len)
    (hhi : len < 2 ^ 63) : readU64Vec r what = .error .capacityOverflow := by
  obtain ⟨r', hread, _⟩ := readI64Be_of_rest what hhi h
  rw [readU64Vec, hread, ok_bind]
  simp only
  rw [if_neg (by omega), if_pos (by omega)]

/-! ### The vectors of a payload -/

/-- The part of `parse_upstream_domain_set` that reads: the leaves, the label bitmap and the
labels. -/
def readDomainSet (data : List UInt8) :
    Except Failure (List UInt64 × List UInt64 × List UInt8) := do
  let (version, r) ← (ByteReader.new data).readU8 "domain_set_version"
  if version ≠ 1 then .error (.error (.invalidDomainSetVersion version))
  else
    let (leaves, r) ← readU64Vec r "domain_set_leaves"
    let (labelBitmap, r) ← readU64Vec r "domain_set_label_bitmap"
    let (labelsLen, r) ← r.readI64Be "domain_set_labels_len"
    if labelsLen < 1 then .error (.error (.invalidLength "domain_set_labels_len" labelsLen))
    else
      let (labels, _) ← r.readSlice "domain_set_labels" labelsLen.toNat
      return (leaves, labelBitmap, labels)

/-- The walk that is set up for vectors. -/
def traversalOf (leaves labelBitmap : List UInt64) (labels : List UInt8) : DomainSetTraversal :=
  { leaves, labelBitmap, labelIndex := .new labelBitmap, labels }

/-- Reading comes first, and only the walk takes steps. -/
lemma parseUpstreamDomainSet_eq (fuel : ℕ) (data : List UInt8) :
    parseUpstreamDomainSet fuel data = (readDomainSet data).map fun v =>
      ((traversalOf v.1 v.2.1 v.2.2).traverse fuel 0 0 [] []).map
        fun reversed => reversed.filterMap fun bytes => fromUtf8 bytes.reverse := by
  show _ = (fun v => _) <$> readDomainSet data
  unfold parseUpstreamDomainSet readDomainSet
  simp only [map_bind, apply_ite (Functor.map _)]
  rfl

/-- The first vector, or the second behind a first that is there, claims `2 ^ 60` words or more:
memory for it would have more than `isize::MAX` bytes. -/
def ClaimsHugeVector (data : List UInt8) : Prop :=
  ∃ len rest, 2 ^ 60 ≤ len ∧ len < 2 ^ 63 ∧
    (data = [1] ++ (u64be len ++ rest) ∨
      ∃ leaves : List UInt64, leaves ≠ [] ∧ leaves.length < 2 ^ 60 ∧
        data = [1] ++ (u64be leaves.length ++ leaves.flatMap (fun word => u64be word.toNat) ++
          (u64be len ++ rest)))

/-- The payload starts with these vectors. -/
structure Holds (data : List UInt8) (leaves labelBitmap : List UInt64) (labels : List UInt8) :
    Prop where
  leaves_ne : leaves ≠ []
  leaves_lt : leaves.length < 2 ^ 60
  labelBitmap_ne : labelBitmap ≠ []
  labelBitmap_lt : labelBitmap.length < 2 ^ 60
  labels_ne : labels ≠ []
  labels_lt : labels.length < 2 ^ 63
  data_eq : ∃ rest, data = writeDomainSet leaves labelBitmap labels ++ rest

/-- What reading gives: an error, no memory for a huge vector, or the vectors that are there. -/
lemma readDomainSet_cases (data : List UInt8) :
    (∃ e, readDomainSet data = .error (.error e)) ∨
      (readDomainSet data = .error .capacityOverflow ∧ ClaimsHugeVector data) ∨
      ∃ leaves labelBitmap labels, readDomainSet data = .ok (leaves, labelBitmap, labels) ∧
        Holds data leaves labelBitmap labels := by
  unfold readDomainSet readU8
  obtain ⟨e, he⟩ | ⟨bytes, rest₁, r₁, hread, hlen, hrest₁, hr₁⟩ :=
    readSlice_cases "domain_set_version" 1 (rest_new data)
  · exact .inl ⟨e, by rw [he]; rfl⟩
  obtain ⟨version, rfl⟩ := length_eq_one_iff.mp hlen
  simp only [hread, ok_bind, pure, Except.pure]
  have hbyte : UInt8.ofNat (bigEndian [version]) = version := by
    show UInt8.ofNat (0 * 256 + version.toNat) = version
    rw [Nat.zero_add, UInt8.ofNat_toNat]
  rw [hbyte]
  by_cases hversion : version = 1
  swap
  · rw [if_pos hversion]
    exact .inl ⟨_, rfl⟩
  subst hversion
  rw [if_neg (not_not.mpr rfl)]
  obtain ⟨e, he⟩ | ⟨hhuge, len, rest₂, hrest₂, hlo, hhi⟩ |
      ⟨leaves, rest₂, r₂, hleaves, hne₂, hlt₂, hrest₂, hr₂⟩ :=
    readU64Vec_cases "domain_set_leaves" hr₁
  · exact .inl ⟨e, by rw [he]; rfl⟩
  · refine .inr (.inl ⟨by rw [hhuge]; rfl, len, rest₂, hlo, hhi, .inl ?_⟩)
    rw [hrest₁, hrest₂]
  simp only [hleaves, ok_bind]
  obtain ⟨e, he⟩ | ⟨hhuge, len, rest₃, hrest₃, hlo, hhi⟩ |
      ⟨labelBitmap, rest₃, r₃, hbitmap, hne₃, hlt₃, hrest₃, hr₃⟩ :=
    readU64Vec_cases "domain_set_label_bitmap" hr₂
  · exact .inl ⟨e, by rw [he]; rfl⟩
  · refine .inr (.inl ⟨by rw [hhuge]; rfl, len, rest₃, hlo, hhi, .inr ?_⟩)
    exact ⟨leaves, hne₂, hlt₂, by rw [hrest₁, hrest₂, hrest₃]⟩
  simp only [hbitmap, ok_bind]
  obtain ⟨e, he⟩ | ⟨n, rest₄, r₄, hlabelsLen, hn, hrest₄, hr₄⟩ :=
    readI64Be_cases "domain_set_labels_len" hr₃
  · exact .inl ⟨e, by rw [he]; rfl⟩
  simp only [hlabelsLen, ok_bind]
  split_ifs with hpos
  · exact .inl ⟨_, rfl⟩
  have hsigned := toI64_of_pos hn hpos
  rw [hsigned.1, Int.toNat_natCast]
  obtain ⟨e, he⟩ | ⟨labels, rest₅, r₅, hlabels, hlen₅, hrest₅, _⟩ :=
    readSlice_cases "domain_set_labels" n hr₄
  · exact .inl ⟨e, by rw [he]; rfl⟩
  refine .inr (.inr ⟨leaves, labelBitmap, labels, by rw [hlabels]; rfl, hne₂, hlt₂, hne₃, hlt₃,
    ne_nil_of_length_pos (by omega), by omega, rest₅, ?_⟩)
  rw [hrest₁, hrest₂, hrest₃, hrest₄, hrest₅, writeDomainSet, hlen₅]
  simp only [append_assoc]

/-- The version byte is read. -/
lemma readU8_version {data rest} (h : data = [1] ++ rest) :
    ∃ r, (ByteReader.new data).readU8 "domain_set_version" = .ok (1, r) ∧ r.Rest rest := by
  have hstart : (new data).Rest ([1] ++ rest) := by
    rw [← h]
    exact rest_new data
  obtain ⟨r, hread, hrest⟩ := readSlice_of_rest "domain_set_version" hstart
  refine ⟨r, ?_, hrest⟩
  rw [readU8, show 1 = [(1 : UInt8)].length from rfl, hread]
  rfl

variable {data labels : List UInt8}

/-- Vectors that are there are read. -/
lemma readDomainSet_of_holds {leaves labelBitmap} (h : Holds data leaves labelBitmap labels) :
    readDomainSet data = .ok (leaves, labelBitmap, labels) := by
  obtain ⟨rest, hdata⟩ := h.data_eq
  simp only [writeDomainSet, append_assoc] at hdata
  have hleaves := h.leaves_lt
  have hbitmap := h.labelBitmap_lt
  obtain ⟨r₁, hread₁, hrest₁⟩ := readU8_version hdata
  obtain ⟨r₂, hread₂, hrest₂⟩ := readU64Vec_of_rest "domain_set_leaves"
    (length_pos_of_ne_nil h.leaves_ne) (by omega)
    (by rw [append_assoc]; exact hrest₁)
  obtain ⟨r₃, hread₃, hrest₃⟩ := readU64Vec_of_rest "domain_set_label_bitmap"
    (length_pos_of_ne_nil h.labelBitmap_ne) (by omega)
    (by rw [append_assoc]; exact hrest₂)
  obtain ⟨r₄, hread₄, hrest₄⟩ :=
    readI64Be_of_rest "domain_set_labels_len" h.labels_lt hrest₃
  obtain ⟨r₅, hread₅, -⟩ := readSlice_of_rest "domain_set_labels" hrest₄
  have hlabels := length_pos_of_ne_nil h.labels_ne
  simp only [readDomainSet, hread₁, ok_bind]
  rw [if_neg (by decide)]
  simp only [hread₂, hread₃, hread₄, ok_bind]
  rw [if_neg (by omega), Int.toNat_natCast, hread₅]
  rfl

/-- A huge vector is met. -/
lemma readDomainSet_of_huge (h : ClaimsHugeVector data) :
    readDomainSet data = .error .capacityOverflow := by
  obtain ⟨len, rest, hlo, hhi, hdata | ⟨leaves, hne, hlt, hdata⟩⟩ := h <;>
    obtain ⟨r₁, hread₁, hrest₁⟩ := readU8_version hdata <;>
    simp only [readDomainSet, hread₁, ok_bind] <;>
    rw [if_neg (by decide)]
  · rw [readU64Vec_huge _ hrest₁ hlo hhi]
    rfl
  · obtain ⟨r₂, hread₂, hrest₂⟩ := readU64Vec_of_rest "domain_set_leaves"
      (length_pos_of_ne_nil hne) (by omega) hrest₁
    rw [hread₂, ok_bind, readU64Vec_huge _ hrest₂ hlo hhi]
    rfl

/-! ### The walk of the parser -/

open Louds

variable {words : List UInt64}

/-- Rank, at any place. -/
lemma DomainSetIndex.countZeros_eq_zeros (hsize : words.length * 64 < 2 ^ 64) (upto : ℕ) :
    (new words).countZeros words upto = zeros (bitsOf words) upto := by
  rcases le_total upto (words.length * 64) with hle | hge
  · exact countZeros_new words hle (by omega)
  · have hlen : (bitsOf words).length = words.length * 64 := by
      rw [length_bitsOf, mul_comm]
    have hcap : (new words).countZeros words upto =
        (new words).countZeros words (words.length * 64) := by
      simp only [countZeros]
      rw [min_eq_left (show words.length * 64 ≤ 2 ^ 64 - 1 by omega), min_eq_right hge,
        min_self]
    rw [hcap, countZeros_new words le_rfl hsize, zeros_of_length_le (hlen ▸ hge), hlen]
    rfl

namespace DomainSetTraversal

variable {t : DomainSetTraversal}
  (hindex : t.labelIndex = .new t.labelBitmap) (hsize : t.labelBitmap.length * 64 < 2 ^ 64)
include hindex hsize

/-- The child of a label is looked up over the list of the bits. -/
lemma child_eq :
    (∀ idx, t.labelIndex.countZeros t.labelBitmap (idx + 1) =
        zeros (bitsOf t.labelBitmap) (idx + 1)) ∧
      ∀ k, t.labelIndex.selectOne k = select (bitsOf t.labelBitmap) k := by
  constructor
  · intro idx
    rw [hindex, countZeros_eq_zeros hsize]
  · intro k
    rw [hindex, selectOne_new]
    rfl

/-- A loop that has come to its end within its steps has ended. -/
lemma ends_of_children {fuel nodeId idx current out out'}
    (h : t.children fuel nodeId idx current out = some out') :
    Louds.Ends (bitsOf t.labelBitmap) t.labels.length nodeId idx := by
  obtain ⟨hrank, hselect⟩ := child_eq hindex hsize
  fun_induction t.children fuel nodeId idx current out generalizing out' with
  | case1 => cases h
  | case2 _ _ _ _ _ hbit =>
    rw [getBit_eq] at hbit
    exact Louds.Ends.one (by grind)
  | case3 _ _ _ _ _ _ hlabel => exact Louds.Ends.label (getElem?_eq_none_iff.mp hlabel)
  | case4 =>
    rename_i hchild
    exact Louds.Ends.child (by rw [← hselect, ← hrank, hchild])
  | case5 _ _ idx _ _ _ _ _ next =>
    rename_i hchild _ ihchild ihrest
    obtain ⟨out₁, hwalk, hrest⟩ := Option.bind_eq_some_iff.mp h
    have hnext : next = _ := hrank idx
    refine Louds.Ends.step (by rw [← hselect, ← hnext, hchild]) ?_ (ihrest _ hrest)
    rw [← hnext]
    exact ihchild hwalk

/-- A loop that ends comes to its end in a number of steps. -/
lemma walks_of_ends {nodeId idx} (h : Louds.Ends (bitsOf t.labelBitmap) t.labels.length nodeId idx)
    (current : List UInt8) (out : List (List UInt8)) :
    ∃ out', t.Walks nodeId idx current out out' := by
  obtain ⟨hrank, hselect⟩ := child_eq hindex hsize
  induction h generalizing current out with
  | one h =>
    refine ⟨out, walks_end ?_⟩
    rw [getBit_eq, h]
    rfl
  | @label nodeId idx h =>
    refine ⟨out, 1, fun fuel hfuel => ?_⟩
    obtain ⟨fuel, rfl⟩ := Nat.exists_eq_add_of_le' hfuel
    rw [children, getElem?_eq_none h]
    simp only [ite_self]
  | @child nodeId idx h =>
    refine ⟨out, 1, fun fuel hfuel => ?_⟩
    obtain ⟨fuel, rfl⟩ := Nat.exists_eq_add_of_le' hfuel
    unfold children
    dsimp only
    rw [hrank, hselect, h]
    split_ifs
    · rfl
    · rcases t.labels[idx - nodeId]? with _ | label <;> rfl
  | @step nodeId idx p hp _ _ ihchild ihrest =>
    by_cases hbit : getBit t.labelBitmap idx
    · exact ⟨out, walks_end hbit⟩
    rcases hlabel : t.labels[idx - nodeId]? with _ | label
    · refine ⟨out, 1, fun fuel hfuel => ?_⟩
      obtain ⟨fuel, rfl⟩ := Nat.exists_eq_add_of_le' hfuel
      rw [children, if_neg hbit, hlabel]
    obtain ⟨out₁, hchild⟩ := ihchild (current ++ [label]) (t.visit _ (current ++ [label]) out)
    obtain ⟨out₂, hrest⟩ := ihrest current out₁
    exact ⟨out₂, walks_child (Bool.eq_false_of_not_eq_true hbit) hlabel (hrank idx)
      ((hselect _).trans hp) hchild hrest⟩

end DomainSetTraversal

/-! ### The payloads on which the parser ends -/

/-- The parser ends: with the domains, once it may take enough steps, or with an error. -/
def Total (data : List UInt8) : Prop :=
  (∃ domains n, ∀ fuel ≥ n, parseUpstreamDomainSet fuel data = .ok (some domains)) ∨
    ∃ e, ∀ fuel, parseUpstreamDomainSet fuel data = .error (.error e)

/-- The payload holds vectors whose label bitmap is balanced, and more than half as many labels as
the bitmap has bits. -/
def EncodesCycle (data : List UInt8) : Prop :=
  ∃ leaves labelBitmap labels, Holds data leaves labelBitmap labels ∧
    Louds.Balanced (bitsOf labelBitmap) ∧ 32 * labelBitmap.length < labels.length

/-- Half of balanced bits are zeros. -/
lemma zeros_of_balanced (h : Louds.Balanced (bitsOf words)) :
    zeros (bitsOf words) (bitsOf words).length = 32 * words.length := by
  have hall := ones_add_zeros (le_refl (bitsOf words).length)
  have heq := h.2
  rw [length_bitsOf] at *
  omega

/-- The payload with vectors is parsed in full when the walk over them ends. -/
lemma total_of_holds {leaves labelBitmap : List UInt64} (hsize : data.length < 2 ^ 61)
    (h : Holds data leaves labelBitmap labels) : Total data ↔
      ¬(Louds.Balanced (bitsOf labelBitmap) ∧ 32 * labelBitmap.length < labels.length) := by
  have hlength : labelBitmap.length * 64 < 2 ^ 64 := by
    obtain ⟨rest, hdata⟩ := h.data_eq
    rw [hdata] at hsize
    simp only [writeDomainSet, length_append, length_flatMap, length_u64be,
      map_const', sum_replicate, smul_eq_mul] at hsize
    omega
  have hne : bitsOf labelBitmap ≠ [] := by
    apply ne_nil_of_length_pos
    rw [length_bitsOf]
    have := length_pos_of_ne_nil h.labelBitmap_ne
    omega
  have hparse : ∀ fuel, parseUpstreamDomainSet fuel data =
      .ok (((traversalOf leaves labelBitmap labels).traverse fuel 0 0 [] []).map
        fun reversed => reversed.filterMap fun bytes => fromUtf8 bytes.reverse) := by
    intro fuel
    rw [parseUpstreamDomainSet_eq, readDomainSet_of_holds h]
    rfl
  have hcycle : (Louds.Balanced (bitsOf labelBitmap) ∧ 32 * labelBitmap.length < labels.length) ↔
      Louds.Balanced (bitsOf labelBitmap) ∧
        zeros (bitsOf labelBitmap) (bitsOf labelBitmap).length < labels.length :=
    and_congr_right fun hbalanced => by rw [zeros_of_balanced hbalanced]
  rw [hcycle, ← ends_zero_iff hne]
  have hindex : (traversalOf leaves labelBitmap labels).labelIndex =
    .new (traversalOf leaves labelBitmap labels).labelBitmap := rfl
  constructor
  · rintro (⟨domains, n, hn⟩ | ⟨e, he⟩)
    · have hdone := hn n le_rfl
      rw [hparse] at hdone
      obtain ⟨out, hout, _⟩ := Option.map_eq_some_iff.mp (Except.ok.inj hdone)
      exact ends_of_children hindex hlength hout
    · have hdone := he 0
      rw [hparse] at hdone
      cases hdone
  · intro hends
    obtain ⟨out, n, hwalk⟩ := walks_of_ends hindex hlength hends []
      ((traversalOf leaves labelBitmap labels).visit 0 [] [])
    refine .inl ⟨out.filterMap fun bytes => fromUtf8 bytes.reverse, n, fun fuel hfuel => ?_⟩
    have htraverse : (traversalOf leaves labelBitmap labels).traverse fuel 0 0 [] [] = some out :=
      hwalk fuel hfuel
    rw [hparse, htraverse]
    rfl

/-- Without memory for a vector the parser does not end with a result or an error. -/
lemma not_total_of_overflow (h : readDomainSet data = .error .capacityOverflow) : ¬Total data := by
  have hparse : ∀ fuel, parseUpstreamDomainSet fuel data = .error .capacityOverflow := by
    intro fuel
    rw [parseUpstreamDomainSet_eq, h]
    rfl
  rintro (⟨domains, n, hn⟩ | ⟨e, he⟩)
  · have hdone := hn n le_rfl
    rw [hparse] at hdone
    cases hdone
  · have hdone := he 0
    rw [hparse] at hdone
    cases hdone

end Meow.Rules
