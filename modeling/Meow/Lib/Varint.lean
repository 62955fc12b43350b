import Mathlib.Tactic

/-!
# Variable-length integers and chunks

The integers of QUIC take one, two, four or eight bytes: the two high bits of the first byte say
which, the other bits are the value with the most significant byte first. The second part of the
file cuts a byte string into chunks of one length.

## Main definitions

* `putVarint`, `varintLen`, `readVarint` — the encoding, its length, the decoding.
* `chunks` — `slice::chunks`.

## Main results

* `readVarint_putVarint` — an encoded value is read back and the bytes after it are left.
* `flatten_chunks`, `length_chunks` — the chunks are the whole string, and their number.
-/

namespace Meow

open List UInt8 Nat

/-! ### Varints -/

/-- The low byte of `n`. -/
def lowByte (n : ℕ) : UInt8 := UInt8.ofNat n

/-- The encoding of a value below `2 ^ 62`; there is none for the others. -/
def putVarint (value : ℕ) : Option (List UInt8) :=
  if value ≤ 63 then some [lowByte value]
  else if value ≤ 16383 then some [lowByte (value / 2 ^ 8) ||| 0x40, lowByte value]
  else if value ≤ 1073741823 then
    some [lowByte (value / 2 ^ 24) ||| 0x80, lowByte (value / 2 ^ 16), lowByte (value / 2 ^ 8),
      lowByte value]
  else if value ≤ 4611686018427387903 then
    some [lowByte (value / 2 ^ 56) ||| 0xc0, lowByte (value / 2 ^ 48), lowByte (value / 2 ^ 40),
      lowByte (value / 2 ^ 32), lowByte (value / 2 ^ 24), lowByte (value / 2 ^ 16),
      lowByte (value / 2 ^ 8), lowByte value]
  else none

/-- The number of bytes of the encoding. -/
def varintLen (value : ℕ) : ℕ :=
  if value ≤ 63 then 1 else if value ≤ 16383 then 2 else if value ≤ 1073741823 then 4 else 8

/-- The value at the front of the input with the bytes after it; none if the input ends inside
it. -/
def readVarint : List UInt8 → Option (ℕ × List UInt8)
  | [] => none
  | first :: rest =>
    let len := 2 ^ (first.toNat / 64)
    if rest.length + 1 < len then none
    else
      some ((rest.take (len - 1)).foldl (fun value b => value * 256 + b.toNat) (first.toNat % 64),
        rest.drop (len - 1))

lemma toNat_lowByte (n : ℕ) : (lowByte n).toNat = n % 256 := toNat_ofNat'

/-- Setting the two high bits of a byte that has them clear. -/
lemma toNat_or_high {x : UInt8} {k} (hx : x.toNat < 64) (hk : k < 4) :
    (x ||| UInt8.ofNat (k * 64)).toNat = k * 64 + x.toNat := by
  have hmask : (ofNat (k * 64)).toNat = 2 ^ 6 * k := by
    rw [toNat_ofNat']
    omega
  rw [UInt8.toNat_or, hmask, Nat.or_comm, ← Nat.two_pow_add_eq_or_of_lt hx, Nat.mul_comm]

variable {value : ℕ} {out : List UInt8}

lemma length_putVarint (h : putVarint value = some out) : out.length = varintLen value := by
  unfold putVarint at h
  unfold varintLen
  split_ifs at h ⊢ <;> rw [← Option.some.inj h] <;> rfl

/-- Every value below `2 ^ 62` has an encoding. -/
lemma putVarint_isSome (h : value < 2 ^ 62) : (putVarint value).isSome = true := by
  unfold putVarint
  split_ifs
  all_goals first | rfl | omega

/-- What is read when the first byte announces `2 ^ k` bytes and the others are there. -/
lemma readVarint_cons {first : UInt8} {k v} {tail : List UInt8} (hv : v < 64)
    (hfirst : first.toNat = k * 64 + v) (htail : tail.length + 1 = 2 ^ k) (rest : List UInt8) :
    readVarint (first :: tail ++ rest) =
      some (tail.foldl (fun value b => value * 256 + b.toNat) v, rest) := by
  have hdiv : first.toNat / 64 = k := by omega
  have hmod : first.toNat % 64 = v := by omega
  have hlen : 2 ^ k - 1 = tail.length := by omega
  rw [cons_append, readVarint]
  simp only [hdiv, hmod, hlen]
  rw [if_neg (by rw [length_append]; omega), take_left, drop_left]

/-- **An encoded value is read back**, and the bytes after it are left. -/
theorem readVarint_putVarint (h : putVarint value = some out) (rest : List UInt8) :
    readVarint (out ++ rest) = some (value, rest) := by
  unfold putVarint at h
  split_ifs at h with h1 h2 h3 h4
  · cases h
    have hfirst : (lowByte value).toNat = 0 * 64 + value := by
      rw [toNat_lowByte]
      omega
    exact readVarint_cons (by omega) hfirst rfl rest
  · cases h
    have hsmall : (lowByte (value / 2 ^ 8)).toNat < 64 := by
      rw [toNat_lowByte]
      omega
    refine (readVarint_cons hsmall (toNat_or_high (k := 1) hsmall (by omega)) rfl
      rest).trans ?_
    simp only [foldl_cons, foldl_nil, toNat_lowByte]
    rw [show value / 2 ^ 8 % 256 * 256 + value % 256 = value by omega]
  · cases h
    have hsmall : (lowByte (value / 2 ^ 24)).toNat < 64 := by
      rw [toNat_lowByte]
      omega
    refine (readVarint_cons hsmall (toNat_or_high (k := 2) hsmall (by omega)) rfl
      rest).trans ?_
    simp only [foldl_cons, foldl_nil, toNat_lowByte]
    congr 2
    omega
  · cases h
    have hsmall : (lowByte (value / 2 ^ 56)).toNat < 64 := by
      rw [toNat_lowByte]
      omega
    refine (readVarint_cons hsmall (toNat_or_high (k := 3) hsmall (by omega)) rfl
      rest).trans ?_
    simp only [foldl_cons, foldl_nil, toNat_lowByte]
    congr 2
    omega

/-! ### Chunks -/

section Chunks

variable {α : Type}

/-- `usize::div_ceil`. -/
def divCeil (a b : ℕ) : ℕ := (a + b - 1) / b

/-- `slice::chunks`: pieces of length `n`, the last one with what is left. -/
def chunks (n : ℕ) (l : List α) : List (List α) :=
  (List.range (divCeil l.length n)).map fun i => (l.drop (i * n)).take n

@[simp] lemma length_chunks (n : ℕ) (l : List α) : (chunks n l).length = divCeil l.length n := by
  simp [chunks]

lemma length_le_of_mem_chunks {n} {l c : List α} (h : c ∈ chunks n l) : c.length ≤ n := by
  obtain ⟨i, -, rfl⟩ := mem_map.mp h
  exact length_take_le _ _

/-- The first `k` chunks are the first `k * n` elements. -/
lemma flatten_chunks_take (n : ℕ) (l : List α) (k : ℕ) :
    ((range k).map fun i => (l.drop (i * n)).take n).flatten = l.take (k * n) := by
  induction k with
  | zero => simp
  | succ k ih =>
    rw [range_succ, map_append, flatten_append, ih, succ_mul, take_add]
    simp

/-- Put together, the chunks are the whole list. -/
theorem flatten_chunks {n} (hn : 0 < n) (l : List α) : (chunks n l).flatten = l := by
  have hall : l.length ≤ divCeil l.length n * n := by
    have hmod := div_add_mod (l.length + n - 1) n
    have hlt := mod_lt (l.length + n - 1) hn
    rw [divCeil, mul_comm]
    omega
  rw [chunks, flatten_chunks_take, take_of_length_le hall]

end Chunks

end Meow
