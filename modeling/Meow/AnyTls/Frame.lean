import Meow.Lib.Bytes
import Meow.Lib.Framing

/-!
# AnyTLS frames

The frames of an AnyTLS session (`protocol/frame.rs`) and their codec (`protocol/codec.rs`): a
command byte, a stream id and a payload length in front of the payload. The receiving loop of a
session reads what the connection has and decodes all whole frames of its buffer after each
read.

## Main definitions

* `Command`, `Frame` — the frames.
* `encode`, `decode` — `FrameCodec`.
* `recvFrames` — the frames the receiving loop decodes from a series of reads.

## Main results

* `decode_encode` — a frame is decoded from its own bytes, whatever follows.
* `incremental_decode` — decoding can be resumed as bytes arrive.
* `recvFrames_start` — the receiving loop decodes the first frames of a stream of
  frames, however it is cut into reads.
-/

namespace Meow.AnyTls

open List

/-! ### Frames -/

/-- `Command`: the types of frames. -/
inductive Command where
  | waste
  | syn
  | push
  | fin
  | settings
  | alert
  | updatePaddingScheme
  | synAck
  | heartRequest
  | heartResponse
  | serverSettings
  deriving DecidableEq

/-- `From<Command> for u8`. -/
def Command.toByte : Command → UInt8
  | .waste => 0
  | .syn => 1
  | .push => 2
  | .fin => 3
  | .settings => 4
  | .alert => 5
  | .updatePaddingScheme => 6
  | .synAck => 7
  | .heartRequest => 8
  | .heartResponse => 9
  | .serverSettings => 10

/-- `From<u8> for Command`: a byte that is no command is treated as waste. -/
def Command.ofByte (value : UInt8) : Command :=
  if value = 1 then .syn
  else if value = 2 then .push
  else if value = 3 then .fin
  else if value = 4 then .settings
  else if value = 5 then .alert
  else if value = 6 then .updatePaddingScheme
  else if value = 7 then .synAck
  else if value = 8 then .heartRequest
  else if value = 9 then .heartResponse
  else if value = 10 then .serverSettings
  else .waste

@[simp] lemma Command.ofByte_toByte (cmd : Command) : ofByte cmd.toByte = cmd := by
  cases cmd <;> rfl

structure Frame where
  cmd : Command
  streamId : UInt32
  data : List UInt8
  deriving DecidableEq

/-- `HEADER_OVERHEAD_SIZE`. -/
def headerOverheadSize : ℕ := 7

/-! ### The codec -/

open Frame

/-- The bytes that `FrameCodec::encode` appends for a frame it accepts. -/
def Frame.bytes (f : Frame) : List UInt8 :=
  f.cmd.toByte :: (u32be f.streamId.toNat ++ (u16be f.data.length ++ f.data))

/-- `FrameCodec::encode`: a payload that sixteen bits cannot measure is refused. -/
def encode (f : Frame) (dst : List UInt8) : Except String (List UInt8) :=
  if f.data.length > 65535 then .error "AnyTLS frame payload exceeds u16 length"
  else .ok (dst ++ f.bytes)

/-- `FrameCodec::decode`: the first frame of the buffer and the bytes behind it, or nothing
while the header or the payload is incomplete. -/
def decode : List UInt8 → Option (Frame × List UInt8)
  | cmd :: a :: b :: c :: d :: e :: g :: rest =>
    let dataLen := ofU16be e g
    if headerOverheadSize + rest.length < headerOverheadSize + dataLen then none
    else some
      (⟨.ofByte cmd, UInt32.ofNat (ofU32be a b c d), rest.take dataLen⟩, rest.drop dataLen)
  | _ => none

/-- The frames decoded by the receiving loop from the chunks its reads returned, and the bytes
left in its buffer. -/
def recvFrames (chunks : List (List UInt8)) : List Frame × List UInt8 := feed decode [] chunks

/-! ### Laws of the codec -/

/-- A frame whose payload fits its length field. -/
def Frame.Fits (f : Frame) : Prop := f.data.length ≤ 65535

instance (f : Frame) : Decidable f.Fits := inferInstanceAs (Decidable (_ ≤ _))

/-- A frame is decoded from its own bytes, whatever follows. -/
lemma decode_encode (f : Frame) (rest : List UInt8) (hf : f.Fits) :
    decode (f.bytes ++ rest) = some (f, rest) := by
  have hlen : f.data.length < 65536 := Nat.lt_succ_of_le hf
  have hid : f.streamId.toNat < 4294967296 := f.streamId.toNat_lt
  simp only [bytes, u32be, u16be, cons_append, nil_append, decode,
    ofU16be_u16be hlen, ofU32be_u32be hid, length_append, Command.ofByte_toByte,
    UInt32.ofNat_toNat, take_left, drop_left]
  rw [if_neg (by omega)]

/-- The decoder can be run on what has arrived so far. -/
lemma incremental_decode : Incremental decode := by
  have hread : ∀ {x fr r}, decode x = some (fr, r) →
      (∀ y, decode (x ++ y) = some (fr, r ++ y)) ∧ r.length < x.length := by
    intro x fr r h
    match x, h with
    | cmd :: a :: b :: c :: d :: e :: g :: rest, h =>
      simp only [decode] at h
      split_ifs at h with hshort
      cases h
      refine ⟨fun y => ?_, by simp only [length_cons, length_drop]; omega⟩
      simp only [cons_append, decode, length_append]
      rw [if_neg (by omega), take_append_of_le_length (by omega),
        drop_append_of_le_length (by omega)]
  exact ⟨fun y h => (hread h).1 y, fun h => (hread h).2⟩

/-- **The receiving loop on the start of a stream of frames.** However the bytes are cut into
reads, the frames put out are the first of the stream; with the bytes left in the buffer they
are all that has arrived, no further frame can be decoded from these, and all frames are out
when all bytes have arrived. -/
lemma recvFrames_start {fs : List Frame} (hfs : ∀ f ∈ fs, f.Fits) {chunks : List (List UInt8)}
    (h : chunks.flatten <+: fs.flatMap bytes) :
    (recvFrames chunks).1 <+: fs ∧
      (recvFrames chunks).1.flatMap bytes ++ (recvFrames chunks).2 = chunks.flatten ∧
      decode (recvFrames chunks).2 = none ∧
      (chunks.flatten = fs.flatMap bytes → recvFrames chunks = (fs, [])) := by
  obtain ⟨rest, hrest⟩ := h
  have hdec : ∀ (f : Frame) r, f.Fits → decode (f.bytes ++ r) = some (f, r) := decode_encode
  rw [recvFrames, incremental_decode.feed_eq_decodeAll [] chunks rfl]
  obtain ⟨hpre, hjoin⟩ := incremental_decode.decodeAll_start hdec hfs hrest
  refine ⟨hpre, hjoin, incremental_decode.decode_rest _, fun hall => ?_⟩
  have hnil : decodeAll decode [] = ([], []) := Incremental.decodeAll_of_none rfl
  have hdecode := incremental_decode.decodeAll_frames hdec hfs []
  rwa [append_nil, ← hall, hnil, append_nil] at hdecode

end Meow.AnyTls
