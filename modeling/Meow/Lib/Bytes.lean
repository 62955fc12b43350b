import Mathlib.Tactic

/-!
# Byte strings and big-endian length fields

The wire formats of the proxy protocols put lengths and identifiers in front of their payloads
as big-endian unsigned integers. This file has the two encodings they use, with the inverse
laws, and the in-place overwrite of a buffer by a chunk.

## Main definitions

* `u16be`, `ofU16be` — `u16::to_be_bytes` and `u16::from_be_bytes`.
* `u32be`, `ofU32be` — the same for `u32`.
* `bigEndian` — a big-endian number of any length.
* `store`, `resize` — copy a chunk into a buffer at a position (`copy_from_slice`), and
  change the length of a buffer.

## Main results

* `ofU16be_u16be`, `ofU32be_u32be` — the fields round-trip below their width.
* `take_store` — what the filled part of a buffer holds after a chunk was copied.
-/

namespace Meow

open List UInt8 Nat

/-- The two big-endian bytes of `n as u16`: higher bits of `n` are cut off. -/
def u16be (n : ℕ) : List UInt8 := [UInt8.ofNat (n / 256), UInt8.ofNat n]

/-- `u16::from_be_bytes`. -/
def ofU16be (a b : UInt8) : ℕ := a.toNat * 256 + b.toNat

/-- The four big-endian bytes of `n as u32`. -/
def u32be (n : ℕ) : List UInt8 :=
  [UInt8.ofNat (n / 16777216), UInt8.ofNat (n / 65536), UInt8.ofNat (n / 256), UInt8.ofNat n]

/-- `u32::from_be_bytes`. -/
def ofU32be (a b c d : UInt8) : ℕ := a.toNat * 16777216 + b.toNat * 65536 + c.toNat * 256 + d.toNat

@[simp] lemma length_u16be (n : ℕ) : (u16be n).length = 2 := rfl

@[simp] lemma length_u32be (n : ℕ) : (u32be n).length = 4 := rfl

variable {n : ℕ}

/-- A length that fits sixteen bits survives its length field. -/
lemma ofU16be_u16be (h : n < 65536) : ofU16be (ofNat (n / 256)) (ofNat n) = n := by
  simp only [ofU16be, toNat_ofNat']
  omega

/-- A length field measures less than `2 ^ 16`. -/
lemma ofU16be_lt (a b : UInt8) : ofU16be a b < 65536 := by
  have ha := a.toNat_lt
  have hb := b.toNat_lt
  simp only [ofU16be]
  omega

/-- Every pair of bytes is the length field of the length it encodes. -/
lemma u16be_ofU16be (a b : UInt8) : u16be (ofU16be a b) = [a, b] := by
  have hb := b.toNat_lt
  have ha := a.toNat_lt
  have h1 : ofNat ((a.toNat * 256 + b.toNat) / 256) = a := by
    apply UInt8.toNat_inj.mp
    rw [UInt8.toNat_ofNat']
    omega
  have h2 : ofNat (a.toNat * 256 + b.toNat) = b := by
    apply UInt8.toNat_inj.mp
    rw [UInt8.toNat_ofNat']
    omega
  rw [u16be, ofU16be, h1, h2]

/-- An identifier that fits thirty-two bits survives its field. -/
lemma ofU32be_u32be (h : n < 4294967296) :
    ofU32be (ofNat (n / 16777216)) (ofNat (n / 65536)) (ofNat (n / 256))
      (ofNat n) = n := by
  simp only [ofU32be, toNat_ofNat']
  omega

/-- The number that bytes write with the most significant one first. -/
def bigEndian (bytes : List UInt8) : ℕ := bytes.foldl (fun n b => n * 256 + b.toNat) 0

lemma bigEndian_cons (b : UInt8) (bytes : List UInt8) :
    bigEndian (b :: bytes) = b.toNat * 256 ^ bytes.length + bigEndian bytes := by
  have hfold : ∀ (bytes : List UInt8) (m : ℕ), bytes.foldl (fun n b => n * 256 + b.toNat) m =
      m * 256 ^ bytes.length + bigEndian bytes := by
    intro bytes
    induction bytes with
    | nil => simp [bigEndian]
    | cons b bytes ih =>
      intro m
      rw [bigEndian, foldl_cons, foldl_cons, ih, ih, length_cons]
      ring
  rw [bigEndian, foldl_cons, hfold, Nat.zero_add]

/-- The digits of a number in base 256 write the number, as far as they go. -/
lemma bigEndian_digits (n k : ℕ) :
    bigEndian ((range k).reverse.map fun i => ofNat (n / 256 ^ i)) = n % 256 ^ k := by
  induction k with
  | zero => simp [bigEndian, mod_one]
  | succ k ih =>
    rw [range_succ, reverse_append, reverse_singleton, singleton_append, map_cons,
      bigEndian_cons, ih, length_map, length_reverse, length_range, add_comm, mul_comm]
    exact mod_pow_succ.symm

/-- `u64::to_be_bytes`. -/
def u64be (n : ℕ) : List UInt8 := u32be (n / 4294967296) ++ u32be n

@[simp] lemma length_u64be (n : ℕ) : (u64be n).length = 8 := rfl

lemma bigEndian_u64be (h : n < 18446744073709551616) : bigEndian (u64be n) = n := by
  simp only [bigEndian, u64be, u32be, cons_append, nil_append, foldl_cons,
    foldl_nil, toNat_ofNat']
  omega

variable {bytes : List UInt8}

lemma bigEndian_lt (h : bytes.length = 8) : bigEndian bytes < 18446744073709551616 := by
  match bytes, h with
  | [a, b, c, d, e, f, g, k], _ =>
    have ha := a.toNat_lt
    have hb := b.toNat_lt
    have hc := c.toNat_lt
    have hd := d.toNat_lt
    have he := e.toNat_lt
    have hf := f.toNat_lt
    have hg := g.toNat_lt
    have hk := k.toNat_lt
    simp only [bigEndian, foldl_cons, foldl_nil]
    omega

/-- Eight bytes are those of the number they encode. -/
lemma u64be_bigEndian (h : bytes.length = 8) : u64be (bigEndian bytes) = bytes := by
  match bytes, h with
  | [a, b, c, d, e, f, g, k], _ =>
    have ha := a.toNat_lt
    have hb := b.toNat_lt
    have hc := c.toNat_lt
    have hd := d.toNat_lt
    have he := e.toNat_lt
    have hf := f.toNat_lt
    have hg := g.toNat_lt
    have hk := k.toNat_lt
    simp only [bigEndian, u64be, u32be, foldl_cons, foldl_nil, cons_append,
      nil_append, cons.injEq, and_true, ← UInt8.toNat_inj, UInt8.toNat_ofNat']
    refine ⟨?_, ?_, ?_, ?_, ?_, ?_, ?_, ?_⟩ <;> omega

/-- `BytesMut::resize` with zeros: the content stays as far as it fits. -/
def resize (buf : List UInt8) (len : ℕ) : List UInt8 :=
  buf.take len ++ List.replicate (len - buf.length) 0

@[simp] lemma length_resize (buf : List UInt8) (len : ℕ) : (resize buf len).length = len := by
  simp only [resize, length_append, length_take, length_replicate]
  omega

section Store

variable {α : Type}

/-- Copy `chunk` into `buf` from position `pos` on. -/
def store (buf : List α) (pos : ℕ) (chunk : List α) : List α :=
  buf.take pos ++ chunk ++ buf.drop (pos + chunk.length)

/-- Copying a chunk that fits does not change the length of the buffer. -/
lemma length_store {buf chunk : List α} {pos} (h : pos + chunk.length ≤ buf.length) :
    (store buf pos chunk).length = buf.length := by
  simp only [store, length_append, length_take, length_drop]
  omega

/-- After the copy the filled part of the buffer has grown by the chunk. -/
lemma take_store {buf chunk : List α} {pos} (h : pos ≤ buf.length) :
    (store buf pos chunk).take (pos + chunk.length) = buf.take pos ++ chunk := by
  have hlen : (buf.take pos ++ chunk).length = pos + chunk.length := by
    simp only [length_append, length_take]
    omega
  rw [store, ← hlen, take_left]

end Store

end Meow
