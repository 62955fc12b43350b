import Meow.Lib.Bytes

/-!
# Authenticated encryption

The cipher of an encrypted stream is known here by its documented interface: what was encrypted
under a nonce is decrypted under the same nonce, and the ciphertext is longer than the message by
the tag. Messages up to a length that no frame reaches are always encrypted.

## Main definitions

* `Aead` — the interface and its laws, with the derivation of keys from a salt.
* `tagAead` — messages followed by their nonce, which have the interface.
-/

namespace Meow

/-- The number of bytes of a tag. -/
def tagSize : ℕ := 16

/-- The longest message that is always encrypted. -/
def maxMessage : ℕ := 2 ^ 36

/-- The interface of an AEAD cipher with keys that are derived from a secret and a salt. -/
structure Aead where
  Key : Type
  /-- The key for a secret and a salt. -/
  derive : List UInt8 → List UInt8 → Key
  /-- `encrypt_in_place` without associated data. -/
  encrypt : Key → List UInt8 → List UInt8 → Option (List UInt8)
  /-- `decrypt_in_place` without associated data. -/
  decrypt : Key → List UInt8 → List UInt8 → Option (List UInt8)
  encrypt_isSome : ∀ key nonce message, message.length ≤ maxMessage →
    (encrypt key nonce message).isSome = true
  decrypt_encrypt : ∀ key nonce message ciphertext,
    encrypt key nonce message = some ciphertext → decrypt key nonce ciphertext = some message
  length_encrypt : ∀ key nonce message ciphertext,
    encrypt key nonce message = some ciphertext → ciphertext.length = message.length + tagSize

namespace Aead

variable (aead : Aead)

/-- What a short message is encrypted to. -/
lemma exists_encrypt (key : aead.Key) (nonce : List UInt8) {message : List UInt8}
    (h : message.length ≤ maxMessage) :
    ∃ ciphertext, aead.encrypt key nonce message = some ciphertext :=
  Option.isSome_iff_exists.mp (aead.encrypt_isSome key nonce message h)

end Aead

/-- A nonce as a tag. -/
def nonceTag (nonce : List UInt8) : List UInt8 := (nonce ++ List.replicate tagSize 0).take tagSize

lemma length_nonceTag (nonce : List UInt8) : (nonceTag nonce).length = tagSize := by
  rw [nonceTag, List.length_take, List.length_append, List.length_replicate]
  omega

/-- A message followed by the nonce: an interface without secrecy, to run examples with. -/
def tagAead : Aead where
  Key := List UInt8
  derive secret salt := secret ++ salt
  encrypt _ nonce message := some (message ++ nonceTag nonce)
  decrypt _ nonce ciphertext :=
    if ciphertext.drop (ciphertext.length - tagSize) = nonceTag nonce then
      some (ciphertext.take (ciphertext.length - tagSize))
    else none
  encrypt_isSome _ _ _ _ := rfl
  decrypt_encrypt key nonce message ciphertext h := by
    cases h
    have hlen : (message ++ nonceTag nonce).length - tagSize = message.length := by
      rw [List.length_append, length_nonceTag, Nat.add_sub_cancel]
    rw [hlen, List.drop_left, if_pos rfl, List.take_left]
  length_encrypt key nonce message ciphertext h := by
    cases h
    rw [List.length_append, length_nonceTag]

end Meow
