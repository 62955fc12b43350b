import Meow.Snell.Conn

/-!
# The records of a Snell stream

What a Snell writer sends is a salt and records that are sealed under consecutive nonces. A reader
that is anywhere in such a stream knows what it will hand to its caller; a read hands out the first
of it and opens the next records in order, however the transport cuts the stream up.

## Main definitions

* `Record`, `Records` — sealed records, and the nonces they begin and end at.
* `Ahead` — what a reader in some state will make of the bytes to come.

## Main results

* `swapPadding_swapPadding` — swapping twice changes nothing.
* `Ahead.append` — a record that is sent next is ahead of the reader too.
* `Ahead.pollReadLoop` — what a read does with the bytes to come.
* `Ahead.all_read` — when nothing is on the way, everything was read.
-/

namespace Meow.Snell

open List Option Poll

variable {aead : Aead}

/-! ### Padding -/

@[simp] lemma length_swapPadding (padding cipher : List UInt8) :
    (swapPadding padding cipher).1.length = padding.length ∧
      (swapPadding padding cipher).2.length = cipher.length := by
  fun_induction swapPadding padding cipher <;> grind

/-- **Swapping twice changes nothing.** -/
lemma swapPadding_swapPadding (padding cipher : List UInt8) :
    swapPadding (swapPadding padding cipher).1 (swapPadding padding cipher).2 =
      (padding, cipher) := by
  fun_induction swapPadding padding cipher with
  | case1 p p' padding c c' cipher r ih => simp [swapPadding, r, ih]
  | case2 | case3 =>
    -- one of the two has no second byte
    unfold swapPadding
    split <;> grind

/-! ### The versions -/

/-- What the two versions have in common: a header survives, and a record that fits is staged. -/
structure Codec.Lawful (codec : Codec) : Prop where
  length_header : ∀ p n, (codec.header p n).length = codec.headerPlainSize
  parse_header : ∀ p n, p ≤ codec.maxPadding → 0 < n → n ≤ maxPayloadLength →
    codec.parse (codec.header p n) = .frame p n
  parse_zero : codec.parse (codec.header 0 0) = .zeroChunk
  check_frame : ∀ p n, p ≤ codec.maxPadding → 0 < n → n ≤ maxPayloadLength →
    codec.check p n = none
  check_zero : codec.check 0 0 = none
  headerPlainSize_le : codec.headerPlainSize ≤ maxMessage

lemma v3_lawful : v3.Lawful where
  length_header _ _ := rfl
  parse_header p n hp hn hle := by
    obtain rfl := Nat.le_zero.mp hp
    have hlen := ofU16be_u16be (show n < 65536 by unfold maxPayloadLength at hle; omega)
    have hmask : n &&& maxPayloadLength = n := by
      rw [maxPayloadLength, show 0x3FFF = 2 ^ 14 - 1 from rfl, Nat.and_two_pow_sub_one_eq_mod]
      exact Nat.mod_eq_of_lt (by unfold maxPayloadLength at hle; omega)
    simp only [v3, u16be, length_cons, length_nil, getD_cons_zero, getD_cons_succ, hlen, hmask]
    rw [if_neg (by omega), if_neg (by omega)]
  parse_zero := by decide
  check_frame p n _ _ hle := if_neg (by omega)
  check_zero := by decide
  headerPlainSize_le := by decide

lemma v4_lawful : v4.Lawful where
  length_header _ _ := rfl
  parse_header p n hp hn hle := by
    have hp' : p ≤ maxPayloadLength := hp
    have hplen := ofU16be_u16be (show p < 65536 by unfold maxPayloadLength at hp'; omega)
    have hnlen := ofU16be_u16be (show n < 65536 by unfold maxPayloadLength at hle; omega)
    simp only [v4, u16be, cons_append, nil_append, length_cons, getD_cons_zero, getD_cons_succ,
      hplen, hnlen]
    rw [if_neg (by decide), if_neg (by omega), if_neg (by omega)]
  parse_zero := by decide
  check_frame p n hp hn hle := by
    have hp' : p ≤ maxPayloadLength := hp
    simp only [v4]
    rw [if_neg (by omega), if_neg (by omega)]
  check_zero := by decide
  headerPlainSize_le := by decide

/-! ### Records -/

/-- The nonce of the seal with a number. -/
def nonceAt (k : ℕ) : List UInt8 := counterAt nonceSize k

/-- The nonces from one number to another. -/
def noncesFrom (k k' : ℕ) : List (List UInt8) := (List.range' k (k' - k)).map nonceAt

lemma noncesFrom_append {k k' k''} (h : k ≤ k') (h' : k' ≤ k'') :
    noncesFrom k k' ++ noncesFrom k' k'' = noncesFrom k k'' := by
  obtain ⟨m, rfl⟩ := Nat.exists_eq_add_of_le h
  obtain ⟨n, rfl⟩ := Nat.exists_eq_add_of_le h'
  rw [noncesFrom, noncesFrom, noncesFrom, ← map_append, Nat.add_sub_cancel_left,
    Nat.add_sub_cancel_left, Nat.add_assoc, Nat.add_sub_cancel_left, range'_append_1]

/-- **A sealed record**, from the nonce with one number up to that with another. -/
inductive Record (codec : Codec) (key : aead.Key) (k : ℕ) : List UInt8 → List UInt8 → ℕ → Prop
  | data {payload padding header cipher : List UInt8} (hne : payload ≠ [])
      (hlen : payload.length ≤ maxPayloadLength) (hpadding : padding.length ≤ codec.maxPadding)
      (hheader : aead.encrypt key (nonceAt k) (codec.header padding.length payload.length) =
        some header)
      (hcipher : aead.encrypt key (nonceAt (k + 1)) payload = some cipher) :
      Record codec key k
        (header ++ ((swapPadding padding cipher).1 ++ (swapPadding padding cipher).2)) payload
        (k + 2)
  | zero {header : List UInt8}
      (hheader : aead.encrypt key (nonceAt k) (codec.header 0 0) = some header) :
      Record codec key k header [] (k + 1)

/-- One record after the other, and their payloads. -/
inductive Records (codec : Codec) (key : aead.Key) :
    ℕ → List UInt8 → List (List UInt8) → ℕ → Prop
  | nil (k : ℕ) : Records codec key k [] [] k
  | cons {k k' k'' : ℕ} {record wire payload : List UInt8} {payloads : List (List UInt8)}
      (first : Record codec key k record payload k')
      (rest : Records codec key k' wire payloads k'') :
      Records codec key k (record ++ wire) (payload :: payloads) k''

section Format

variable {codec : Codec} {key : aead.Key} {k k' k'' : ℕ} {record wire payload : List UInt8}
  {payloads : List (List UInt8)}

lemma Record.lt (h : Record codec key k record payload k') : k < k' := by
  cases h <;> omega

lemma Record.le_add_two (h : Record codec key k record payload k') : k' ≤ k + 2 := by
  cases h <;> omega

lemma Records.le (h : Records codec key k wire payloads k') : k ≤ k' := by
  induction h with
  | nil => exact le_rfl
  | cons first rest ih => exact first.lt.le.trans ih

/-- The records go on with what is sent next. -/
lemma Records.snoc (h : Records codec key k wire payloads k')
    (hrecord : Record codec key k' record payload k'') :
    Records codec key k (wire ++ record) (payloads ++ [payload]) k'' := by
  induction h with
  | nil k =>
    have := Records.cons hrecord (.nil k'')
    rwa [append_nil] at this
  | cons first rest ih =>
    rw [append_assoc]
    exact .cons first (ih hrecord)

/-- A record is no shorter than its header. -/
lemma Record.length_ge (hlawful : codec.Lawful) (h : Record codec key k record payload k') :
    codec.headerCipherSize ≤ record.length := by
  cases h with
  | data _ _ _ hheader =>
    rw [length_append, aead.length_encrypt _ _ _ _ hheader, hlawful.length_header]
    exact Nat.le_add_right _ _
  | zero hheader =>
    rw [aead.length_encrypt _ _ _ _ hheader, hlawful.length_header]
    exact le_rfl

/-- Records that are shorter than a header are none. -/
lemma Records.eq_nil_of_short (hlawful : codec.Lawful) (h : Records codec key k wire payloads k')
    (hshort : wire.length < codec.headerCipherSize) : wire = [] ∧ payloads = [] ∧ k' = k := by
  cases h with
  | nil => exact ⟨rfl, rfl, rfl⟩
  | cons first rest =>
    have := first.length_ge hlawful
    rw [length_append] at hshort
    omega

end Format

/-! ### The reader -/

/-- **What a reader will make of the bytes to come.** The stream has `started` when its salt is
sent; the reader has opened as many seals as `opened`, and from its state, with `wire` the bytes
that have not been read, `plain` is what it will hand to its caller, up to the seal `k`. -/
def Ahead (codec : Codec) (psk salt : List UInt8) (started : Bool) (reader : ReaderState aead)
    (opened : ℕ) (wire plain : List UInt8) (k : ℕ) : Prop :=
  match reader with
  | .needSalt saltBuf =>
    opened = 0 ∧ saltBuf.length < saltSize ∧
      ((started = false ∧ saltBuf = [] ∧ wire = [] ∧ plain = [] ∧ k = 0) ∨
        (started = true ∧ ∃ wire' payloads, saltBuf ++ wire = salt ++ wire' ∧
          Records codec (aead.derive psk salt) 0 wire' payloads k ∧ plain = payloads.flatten))
  | .readingHeader key nonce headerBuf =>
    started = true ∧ key = aead.derive psk salt ∧ nonce = nonceAt opened ∧
      headerBuf.length < codec.headerCipherSize ∧
      ∃ payloads, Records codec key opened (headerBuf ++ wire) payloads k ∧
        plain = payloads.flatten
  | .readingBody key nonce paddingLen payloadLen bodyBuf =>
    started = true ∧ key = aead.derive psk salt ∧ nonce = nonceAt opened ∧
      bodyBuf.length ≤ paddingLen + payloadLen + tagSize ∧
      ∃ payload padding cipher wire' payloads,
        payload.length = payloadLen ∧ padding.length = paddingLen ∧
        aead.encrypt key nonce payload = some cipher ∧
        bodyBuf ++ wire =
          ((swapPadding padding cipher).1 ++ (swapPadding padding cipher).2) ++ wire' ∧
        Records codec key (opened + 1) wire' payloads k ∧ plain = payload ++ payloads.flatten
  | .drain key nonce payload =>
    started = true ∧ key = aead.derive psk salt ∧ nonce = nonceAt opened ∧
      ∃ payloads, Records codec key opened wire payloads k ∧ plain = payload ++ payloads.flatten

/-- What is ahead behind a whole header: it is opened, and is that of a record. -/
def HeaderAhead (codec : Codec) (psk salt : List UInt8) (started : Bool) (key : aead.Key)
    (nonce header : List UInt8) (opened : ℕ) (wire plain : List UInt8) (k : ℕ) : Prop :=
  match (aead.decrypt key nonce header).map codec.parse with
  | some .zeroChunk => Ahead codec psk salt started (.readingHeader key (incrementBytes nonce) [])
      (opened + 1) wire plain k
  | some (.frame p n) => Ahead codec psk salt started
      (.readingBody key (incrementBytes nonce) p n []) (opened + 1) wire plain k
  | _ => False

section Reader

variable {codec : Codec} {psk salt : List UInt8} {started : Bool} {reader : ReaderState aead}
  {opened k k' : ℕ} {wire plain record payload : List UInt8}

/-- **A record that is sent next is ahead of the reader too**, behind the salt if it is the first.

**Proof sketch.** In each state what is ahead ends with records, and `Records.snoc` puts one more
at their end. Before the salt there is nothing else. -/
lemma Ahead.append (h : Ahead codec psk salt started reader opened wire plain k)
    (hrecord : Record codec (aead.derive psk salt) k record payload k') :
    Ahead codec psk salt true reader opened
      (wire ++ ((if started then [] else salt) ++ record)) (plain ++ payload) k' := by
  have hflatten : ∀ payloads : List (List UInt8),
      payloads.flatten ++ payload = (payloads ++ [payload]).flatten := by
    intro payloads
    rw [flatten_append, flatten_singleton]
  cases reader with
  | needSalt saltBuf =>
    obtain ⟨hopened, hlen, ⟨rfl, rfl, rfl, rfl, rfl⟩ |
      ⟨rfl, wire', payloads, hw, hrecords, rfl⟩⟩ := h
    · refine ⟨hopened, hlen, .inr ⟨rfl, record, [payload], rfl, ?_, ?_⟩⟩
      · have := Records.cons hrecord (.nil k')
        rwa [append_nil] at this
      · exact (flatten_singleton).symm
    · refine ⟨hopened, hlen, .inr ⟨rfl, wire' ++ record, payloads ++ [payload], ?_,
        hrecords.snoc hrecord, hflatten payloads⟩⟩
      rw [if_pos rfl, nil_append, ← append_assoc, hw, append_assoc]
  | readingHeader key nonce headerBuf =>
    obtain ⟨rfl, rfl, hnonce, hlen, payloads, hrecords, rfl⟩ := h
    refine ⟨rfl, rfl, hnonce, hlen, payloads ++ [payload], ?_, hflatten payloads⟩
    rw [if_pos rfl, ← append_assoc]
    exact hrecords.snoc hrecord
  | readingBody key nonce paddingLen payloadLen bodyBuf =>
    obtain ⟨rfl, rfl, hnonce, hlen, payload', padding, cipher, wire', payloads, hn, hp, hcipher, hw,
      hrecords, rfl⟩ := h
    refine ⟨rfl, rfl, hnonce, hlen, payload', padding, cipher, wire' ++ record,
      payloads ++ [payload], hn, hp, hcipher, ?_, hrecords.snoc hrecord, ?_⟩
    · rw [if_pos rfl, nil_append, ← append_assoc, hw, append_assoc]
    · rw [append_assoc, hflatten]
  | drain key nonce payload' =>
    obtain ⟨rfl, rfl, hnonce, payloads, hrecords, rfl⟩ := h
    refine ⟨rfl, rfl, hnonce, payloads ++ [payload], ?_, ?_⟩
    · exact hrecords.snoc hrecord
    · rw [append_assoc, hflatten]

/-- The whole salt. -/
lemma Ahead.salt_done (hsalt : salt.length = saltSize) {saltBuf got}
    (h : Ahead codec psk salt started (.needSalt saltBuf : ReaderState aead) opened (got ++ wire)
      plain k) (hlen : (saltBuf ++ got).length = saltSize) (hcodec : 0 < codec.headerCipherSize) :
    opened = 0 ∧ Ahead codec psk salt started
      (.readingHeader (aead.derive psk (saltBuf ++ got)) (replicate nonceSize 0) []) 0 wire
      plain k := by
  obtain ⟨hopened, -, ⟨rfl, rfl, hnil, rfl, rfl⟩ | ⟨rfl, wire', payloads, hw, hrecords, rfl⟩⟩ := h
  · obtain ⟨rfl, rfl⟩ := append_eq_nil_iff.mp hnil
    cases hlen
  · rw [← append_assoc] at hw
    obtain ⟨heq, rfl⟩ := append_inj hw (hlen.trans hsalt.symm)
    rw [heq]
    exact ⟨hopened, rfl, rfl, rfl, hcodec, payloads, hrecords, rfl⟩

variable {key : aead.Key} {nonce : List UInt8}

/-- **A whole header** is opened, and says what comes next. -/
lemma Ahead.header_done (hlawful : codec.Lawful) {headerBuf got}
    (h : Ahead codec psk salt started (.readingHeader key nonce headerBuf) opened (got ++ wire)
      plain k)
    (hlen : (headerBuf ++ got).length = codec.headerCipherSize) :
    HeaderAhead codec psk salt started key nonce (headerBuf ++ got) opened wire plain k := by
  obtain ⟨rfl, rfl, rfl, hlt, payloads, hrecords, rfl⟩ := h
  have hnext : incrementBytes (nonceAt opened) = nonceAt (opened + 1) :=
    incrementBytes_counterAt nonceSize opened
  rw [← append_assoc] at hrecords
  generalize hbytes : headerBuf ++ got ++ wire = bytes at hrecords
  cases hrecords with
  | nil =>
    rw [append_eq_nil_iff] at hbytes
    rw [hbytes.1, length_nil] at hlen
    omega
  | cons first rest =>
    cases first with
    | @data payload padding header cipher hne hplen hpadding hheader hcipher =>
      have hsize := aead.length_encrypt _ _ _ _ hheader
      rw [hlawful.length_header] at hsize
      rw [append_assoc header] at hbytes
      obtain ⟨heq, rfl⟩ := append_inj hbytes (hlen.trans hsize.symm)
      rw [HeaderAhead, heq, aead.decrypt_encrypt _ _ _ _ hheader, map_some,
        hlawful.parse_header _ _ hpadding (length_pos_iff.mpr hne) hplen]
      exact ⟨rfl, rfl, hnext, Nat.zero_le _, _, padding, cipher, _, _, rfl, rfl,
        hnext.symm ▸ hcipher, rfl, rest, rfl⟩
    | zero hheader =>
      have hsize := aead.length_encrypt _ _ _ _ hheader
      rw [hlawful.length_header] at hsize
      obtain ⟨heq, rfl⟩ := append_inj hbytes (hlen.trans hsize.symm)
      rw [HeaderAhead, heq, aead.decrypt_encrypt _ _ _ _ hheader, map_some,
        hlawful.parse_zero]
      exact ⟨rfl, rfl, hnext, Nat.add_pos_right _ (by decide), _, rest, rfl⟩

/-- What was opened is handed out. -/
lemma Ahead.drain_take {payload : List UInt8}
    (h : Ahead codec psk salt started (.drain key nonce payload) opened wire plain k) (cap : ℕ) :
    ∃ plain', payload.take cap ++ plain' = plain ∧
      Ahead codec psk salt started (.drain key nonce (payload.drop cap)) opened wire plain' k := by
  obtain ⟨rfl, hkey, hnonce, payloads, hrecords, rfl⟩ := h
  refine ⟨payload.drop cap ++ payloads.flatten, ?_, rfl, hkey, hnonce, payloads, hrecords, rfl⟩
  rw [← append_assoc, take_append_drop]

/-- When all of it is, a header is ahead. -/
lemma Ahead.drain_nil (h : Ahead codec psk salt started (.drain key nonce []) opened wire plain k)
    (hcodec : 0 < codec.headerCipherSize) :
    Ahead codec psk salt started (.readingHeader key nonce []) opened wire plain k := by
  obtain ⟨rfl, hkey, hnonce, payloads, hrecords, rfl⟩ := h
  exact ⟨rfl, hkey, hnonce, hcodec, payloads, hrecords, rfl⟩

end Reader

/-! ### A read -/

/-- The errors of a read that have nothing to do with the records: the end of what the peer writes,
and the transport's own. -/
def ReadFault (codec : Codec) (e : IoError) : Prop :=
  e = codec.zeroChunkErr ∨ e = codec.eofBeforeSalt ∨ e = codec.eofMidHeader ∨
    e = codec.eofMidBody ∨ e = transportError

/-- The bytes that a reader holds. -/
def ReaderState.held : ReaderState aead → ℕ
  | .needSalt saltBuf => saltBuf.length
  | .readingHeader _ _ headerBuf => headerBuf.length
  | .readingBody _ _ _ _ bodyBuf => bodyBuf.length
  | .drain _ _ payload => payload.length

/-- The size of the salt, the header or the body that a reader is collecting. -/
def ReaderState.size (codec : Codec) : ReaderState aead → ℕ
  | .needSalt _ => saltSize
  | .readingHeader .. => codec.headerCipherSize
  | .readingBody _ _ paddingLen payloadLen _ => paddingLen + payloadLen + tagSize
  | .drain .. => 0

/-- A reader that holds some bytes more. -/
def ReaderState.extend (got : List UInt8) : ReaderState aead → ReaderState aead
  | .needSalt saltBuf => .needSalt (saltBuf ++ got)
  | .readingHeader key nonce headerBuf => .readingHeader key nonce (headerBuf ++ got)
  | .readingBody key nonce paddingLen payloadLen bodyBuf =>
    .readingBody key nonce paddingLen payloadLen (bodyBuf ++ got)
  | .drain key nonce payload => .drain key nonce payload

/-- A measure of what is left to do for a reader: each byte has to be taken from the transport and
to be dealt with. -/
def work (reader : ReaderState aead) (wire : List UInt8) : ℕ := 2 * wire.length + reader.held

/-- **What a read does**, with `x` the bytes of a record that are not sent yet: it hands out the
first of the bytes ahead, opens the next seals in order, and finds nothing wrong with them. It
leaves no more work than there was; and less if there was some, there is room, and the transport
hands over what has arrived. -/
structure ReadOk (codec : Codec) (psk salt : List UInt8) (started : Bool) (opened : ℕ)
    (x plain : List UInt8) (k cap : ℕ) (evs : List ReadEv) (reader : ReaderState aead)
    (wire : List UInt8) (r : Read aead) : Prop where
  valid : ∀ e, r.poll = .err e → ReadFault codec e
  split : ∃ plain' opened', r.out ++ plain' = plain ∧ opened ≤ opened' ∧
    r.opens = noncesFrom opened opened' ∧
    Ahead codec psk salt started r.reader opened' (r.wire ++ x) plain' k
  le : work r.reader r.wire ≤ work reader wire
  lt : cap ≠ 0 → AllData evs → evs ≠ [] → x = [] → work reader wire ≠ 0 →
    work r.reader r.wire < work reader wire

section Loop

variable {codec : Codec} {psk salt : List UInt8} {started : Bool} {opened k cap : ℕ}
  {x plain wire : List UInt8} {reader : ReaderState aead} {evs : List ReadEv}

lemma noncesFrom_self (k : ℕ) : noncesFrom k k = [] := by
  rw [noncesFrom, Nat.sub_self]
  rfl

lemma noncesFrom_succ (k : ℕ) : noncesFrom k (k + 1) = [nonceAt k] := by
  rw [noncesFrom, Nat.add_sub_cancel_left]
  rfl

variable {r : Collected UInt8} {next : ReaderState aead} {poll : Poll IoError Unit}

/-- A read that returns with a part of a salt, a header or a body. -/
lemma ReadOk.part (hsplit : r.got ++ r.wire = wire) (hheld : next.held = reader.held + r.got.length)
    (hvalid : ∀ e, poll = .err e → ReadFault codec e)
    (hahead : Ahead codec psk salt started next opened (r.wire ++ x) plain k)
    (hgot : AllData evs → evs ≠ [] → x = [] → work reader wire ≠ 0 → r.got ≠ []) :
    ReadOk codec psk salt started opened x plain k cap evs reader wire
      ⟨poll, [], next, r.wire, []⟩ := by
  have hlen := congrArg length hsplit
  rw [length_append] at hlen
  refine ⟨hvalid, ⟨plain, opened, rfl, le_rfl, (noncesFrom_self opened).symm, hahead⟩, ?_, ?_⟩
  · simp only [work]
    omega
  · intro _ hdata hevs hx hwork
    have := length_pos_iff.mpr (hgot hdata hevs hx hwork)
    simp only [work]
    omega

variable {wire' : List UInt8} {evs' : List ReadEv} {read : Read aead}

/-- A read that goes on with less work. -/
lemma ReadOk.rest (hwork : work next wire' < work reader wire)
    (h : ReadOk codec psk salt started opened x plain k cap evs' next wire' read) :
    ReadOk codec psk salt started opened x plain k cap evs reader wire read := by
  have hle := h.le
  exact ⟨h.valid, h.split, by omega, fun _ _ _ _ _ => by omega⟩

/-- A read that goes on with less work after it has opened a seal. -/
lemma ReadOk.unsealed {nonce} (hnonce : nonce = nonceAt opened)
    (hwork : work next wire' < work reader wire)
    (h : ReadOk codec psk salt started (opened + 1) x plain k cap evs' next wire' read) :
    ReadOk codec psk salt started opened x plain k cap evs reader wire
      { read with opens := nonce :: read.opens } := by
  obtain ⟨hvalid, ⟨plain', opened', hout, hle, hopens, hahead⟩, hwork', -⟩ := h
  have hopened : opened ≤ opened' := by omega
  refine ⟨hvalid, ⟨plain', opened', hout, hopened, ?_, hahead⟩, ?_, fun _ _ _ _ _ => ?_⟩
  · rw [hopens, hnonce, ← singleton_append, ← noncesFrom_succ,
      noncesFrom_append (Nat.le_succ opened) hle]
  all_goals
    dsimp only
    omega

open ReaderState

/-- **With nothing on the way** and no salt, header or body whole, nothing is held and nothing is
ahead, and every seal was opened. -/
lemma Ahead.all_read (hlawful : codec.Lawful) (hsalt : salt.length = saltSize)
    (h : Ahead codec psk salt started reader opened [] plain k)
    (hheld : reader.held < reader.size codec ∨ reader.held = 0) :
    reader.held = 0 ∧ plain = [] ∧ opened = k := by
  have hcodec : 0 < codec.headerCipherSize := Nat.add_pos_right _ (by decide)
  cases reader with
  | needSalt saltBuf =>
    obtain ⟨rfl, hlen, ⟨-, rfl, -, rfl, rfl⟩ | ⟨-, wire', payloads, hw, -⟩⟩ := h
    · exact ⟨rfl, rfl, rfl⟩
    · have := congrArg length hw
      rw [append_nil, length_append] at this
      omega
  | readingHeader key nonce headerBuf =>
    obtain ⟨-, -, -, hlen, payloads, hrecords, rfl⟩ := h
    rw [append_nil] at hrecords
    obtain ⟨rfl, rfl, rfl⟩ := hrecords.eq_nil_of_short hlawful hlen
    exact ⟨rfl, rfl, rfl⟩
  | readingBody key nonce p n bodyBuf =>
    -- a body has a tag at least
    obtain ⟨-, -, -, -, payload, padding, cipher, wire', payloads, rfl, rfl, hcipher, hw, -⟩ := h
    have hlen := congrArg length hw
    have htag : 0 < tagSize := by decide
    obtain ⟨hp, hc⟩ := length_swapPadding padding cipher
    rw [append_nil, length_append, length_append, hc, aead.length_encrypt _ _ _ _ hcipher] at hlen
    simp only [held, size] at hheld
    omega
  | drain key nonce payload =>
    obtain ⟨-, -, -, payloads, hrecords, rfl⟩ := h
    obtain rfl := length_eq_zero_iff.mp (hheld.resolve_left (Nat.not_lt_zero _))
    obtain ⟨-, rfl, rfl⟩ := hrecords.eq_nil_of_short hlawful hcodec
    exact ⟨rfl, rfl, rfl⟩

/-- A loop over the transport does not find fault with the bytes. -/
lemma stopPoll_fault {eof status e} (heof : ∀ e, eof = .err e → ReadFault codec e)
    (h : stopPoll eof status = .err e) : ReadFault codec e := by
  cases status with
  | done | blocked => exact nomatch h
  | closed => exact heof e h
  | failed => exact .inr (.inr (.inr (.inr (err.inj h).symm)))

/-- A part of a salt, a header or a body. -/
lemma Ahead.part {got : List UInt8}
    (h : Ahead codec psk salt started reader opened (got ++ wire) plain k)
    (hlen : reader.held + got.length < reader.size codec) :
    Ahead codec psk salt started (reader.extend got) opened wire plain k ∧
      (reader.extend got).held = reader.held + got.length := by
  cases reader with
  | needSalt saltBuf =>
    have hlen : (saltBuf ++ got).length < saltSize := length_append ▸ hlen
    obtain ⟨hopened, -, ⟨rfl, rfl, hnil, rfl, rfl⟩ | ⟨rfl, wire', payloads, hw, hrecords⟩⟩ := h
    · obtain ⟨rfl, rfl⟩ := append_eq_nil_iff.mp hnil
      exact ⟨⟨hopened, hlen, .inl ⟨rfl, rfl, rfl, rfl, rfl⟩⟩, length_append⟩
    · rw [← append_assoc] at hw
      exact ⟨⟨hopened, hlen, .inr ⟨rfl, wire', payloads, hw, hrecords⟩⟩, length_append⟩
  | readingHeader key nonce headerBuf =>
    have hlen : (headerBuf ++ got).length < codec.headerCipherSize := length_append ▸ hlen
    obtain ⟨rfl, hkey, hnonce, -, payloads, hrecords, hplain⟩ := h
    rw [← append_assoc] at hrecords
    exact ⟨⟨rfl, hkey, hnonce, hlen, payloads, hrecords, hplain⟩, length_append⟩
  | readingBody key nonce p n bodyBuf =>
    have hlen : (bodyBuf ++ got).length < p + n + tagSize := length_append ▸ hlen
    obtain ⟨rfl, hkey, hnonce, -, payload, padding, cipher, wire', payloads, hn, hp, hcipher, hw,
      hrecords⟩ := h
    rw [← append_assoc] at hw
    exact ⟨⟨rfl, hkey, hnonce, hlen.le, payload, padding, cipher, wire', payloads, hn, hp, hcipher,
      hw, hrecords⟩, length_append⟩
  | drain key nonce payload => exact absurd hlen (Nat.not_lt_zero _)

/-- **A read that stops** in the salt, in a header or in a body. -/
lemma ReadOk.stop (hlawful : codec.Lawful) (hsalt : salt.length = saltSize)
    (h : Ahead codec psk salt started reader opened (wire ++ x) plain k)
    (hheld : reader.held ≤ reader.size codec)
    (hr : collect (reader.size codec) evs wire (reader.size codec - reader.held) = r)
    (hstatus : r.status ≠ .done) (hvalid : ∀ e, poll = .err e → ReadFault codec e) :
    ReadOk codec psk salt started opened x plain k cap evs reader wire
      ⟨poll, [], reader.extend r.got, r.wire, []⟩ := by
  obtain ⟨hsplit, hle, hiff⟩ := collect_spec (reader.size codec) evs wire
    (reader.size codec - reader.held)
  rw [hr] at hsplit hle hiff
  have hne : ¬_ = _ := fun heq => hstatus (hiff.mpr heq)
  have hpart : reader.held + r.got.length < reader.size codec := by omega
  have h' := h
  rw [← hsplit, append_assoc] at h'
  obtain ⟨hahead, hheld'⟩ := h'.part hpart
  refine .part hsplit hheld' hvalid hahead ?_
  -- the transport hands some of the bytes over
  rintro hdata hevs rfl hwork
  rw [append_nil] at h
  rw [← hr]
  refine (collect_of_data hdata (by omega) wire _).2.2 hevs (by omega) ?_
  rintro rfl
  exact hwork ((Nat.zero_add _).trans (h.all_read hlawful hsalt (.inl (by omega))).1)

/-- When the rest of a header has arrived. -/
lemma Ahead.collect_header (hlawful : codec.Lawful) {key : aead.Key} {nonce headerBuf : List UInt8}
    (h : Ahead codec psk salt started (.readingHeader key nonce headerBuf) opened (wire ++ x)
      plain k) (hr : collect codec.headerCipherSize evs wire
      (codec.headerCipherSize - headerBuf.length) = r) (hdone : r.status = .done) :
    nonce = nonceAt opened ∧ r.wire.length < wire.length ∧
      HeaderAhead codec psk salt started key nonce (headerBuf ++ r.got) opened (r.wire ++ x) plain
        k := by
  have hlt := h.2.2.2.1
  obtain ⟨hsplit, hgot, hlen⟩ := collect_done hr hdone
  refine ⟨h.2.2.1, by omega, ?_⟩
  rw [← hsplit, append_assoc] at h
  exact h.header_done hlawful (by rw [length_append]; omega)

/-- **A whole body** is opened to its payload. -/
lemma Ahead.collect_body {key p n} {nonce bodyBuf : List UInt8}
    (h : Ahead codec psk salt started (.readingBody key nonce p n bodyBuf) opened (wire ++ x)
      plain k) (hr : collect (p + n + tagSize) evs wire (p + n + tagSize - bodyBuf.length) = r)
    (hdone : r.status = .done) :
    nonce = nonceAt opened ∧ p + n + tagSize + r.wire.length = bodyBuf.length + wire.length ∧
    ∃ payload, payload.length = n ∧
      aead.decrypt key nonce
        (swapPadding ((bodyBuf ++ r.got).take p) ((bodyBuf ++ r.got).drop p)).2 = some payload ∧
      Ahead codec psk salt started (.drain key (incrementBytes nonce) payload) (opened + 1)
        (r.wire ++ x) plain k := by
  obtain ⟨hsplit, hgot, hlen⟩ := collect_done hr hdone
  obtain ⟨rfl, rfl, rfl, hle, payload, padding, cipher, wire', payloads, rfl, rfl, hcipher, hw,
    hrecords, rfl⟩ := h
  have hnext : incrementBytes (nonceAt opened) = nonceAt (opened + 1) :=
    incrementBytes_counterAt nonceSize opened
  obtain ⟨hp, hc⟩ := length_swapPadding padding cipher
  rw [← hsplit, append_assoc, ← append_assoc] at hw
  obtain ⟨heq, rfl⟩ := append_inj hw (by
    rw [length_append, length_append, hp, hc, aead.length_encrypt _ _ _ _ hcipher]
    omega)
  refine ⟨rfl, by omega, payload, rfl, ?_, rfl, rfl, hnext, payloads, hrecords, rfl⟩
  rw [heq, ← hp, take_left, drop_left, swapPadding_swapPadding]
  exact aead.decrypt_encrypt _ _ _ _ hcipher

/-- **What a read does with the bytes to come.**

**Proof sketch.** Induction along the loop. Where the salt, a header or a body is not whole, the
read stops there. A whole one is what the writer sent, so it is opened, and the loop goes on in a
state of which the same holds, with less work. -/
lemma Ahead.pollReadLoop (hlawful : codec.Lawful) (hsalt : salt.length = saltSize) (cap : ℕ)
    (evs : List ReadEv) (reader : ReaderState aead) (wire : List UInt8) :
    ∀ (opened : ℕ) (plain : List UInt8),
      Ahead codec psk salt started reader opened (wire ++ x) plain k →
      ReadOk codec psk salt started opened x plain k cap evs reader wire
        (Snell.pollReadLoop codec psk cap evs reader wire) := by
  have hcodec : 0 < codec.headerCipherSize := Nat.add_pos_right _ (by decide)
  fun_induction Snell.pollReadLoop codec psk cap evs reader wire <;> intro opened plain h
  case case1 evs wire saltBuf r hdone ih =>
    obtain ⟨hsplit, hgot, hlen⟩ := collect_done (r := r) rfl hdone
    have hlt := h.2.1
    rw [← hsplit, append_assoc] at h
    obtain ⟨rfl, hahead⟩ := h.salt_done hsalt (by rw [length_append, hgot]; omega) hcodec
    refine .rest ?_ (ih _ _ hahead)
    simp only [work, held, length_nil]
    omega
  case case2 evs wire saltBuf r hdone =>
    refine .stop hlawful hsalt h h.2.1.le rfl hdone fun e he => ?_
    exact stopPoll_fault (fun e he => .inr (.inl (err.inj he).symm)) he
  case case3 evs wire key nonce ih =>
    obtain ⟨hvalid, hsplit, hle, hlt⟩ := ih _ _ (h.drain_nil hcodec)
    exact ⟨hvalid, hsplit, hle, hlt⟩
  case case4 evs wire key nonce payload hne =>
    obtain ⟨plain', hplain, hahead⟩ := h.drain_take cap
    have hpos := length_pos_iff.mpr hne
    refine ⟨nofun, ⟨plain', opened, hplain, le_rfl, (noncesFrom_self _).symm,
      hahead⟩, ?_, fun hcap _ _ _ _ => ?_⟩ <;>
      (simp only [work, held, length_drop]; omega)
  case case5 | case6 =>
    exact absurd h.2.2.2.1 (by omega)
  case case7 evs wire key nonce headerBuf hfull r hdone hdecrypt =>
    obtain ⟨-, -, hahead⟩ := h.collect_header hlawful (r := r) rfl hdone
    simp only [HeaderAhead, hdecrypt, map_none] at hahead
  case case8 evs wire key nonce headerBuf hfull r hdone header hdecrypt next e hparse =>
    obtain ⟨-, -, hahead⟩ := h.collect_header hlawful (r := r) rfl hdone
    simp only [HeaderAhead, hdecrypt, map_some, hparse] at hahead
  case case9 evs wire key nonce headerBuf hfull r hdone header hdecrypt next hparse =>
    obtain ⟨hnonce, hlen, hahead⟩ := h.collect_header hlawful (r := r) rfl hdone
    simp only [HeaderAhead, hdecrypt, map_some, hparse] at hahead
    have hwork : work (.readingHeader key next [] : ReaderState aead) r.wire <
        work (.readingHeader key nonce headerBuf) wire := by
      simp only [work, held, length_nil]
      omega
    refine ⟨fun e he => .inl (err.inj he).symm, ⟨plain, opened + 1, rfl, Nat.le_succ _, ?_,
      hahead⟩, hwork.le, fun _ _ _ _ _ => hwork⟩
    rw [noncesFrom_succ, hnonce]
  case case10 evs wire key nonce headerBuf hfull r hdone header hdecrypt next p n hparse read ih =>
    obtain ⟨hnonce, hlen, hahead⟩ := h.collect_header hlawful (r := r) rfl hdone
    simp only [HeaderAhead, hdecrypt, map_some, hparse] at hahead
    refine .unsealed hnonce ?_ (ih _ _ hahead)
    simp only [work, held, length_nil]
    omega
  case case11 evs wire key nonce headerBuf hfull r hdone eof =>
    refine .stop hlawful hsalt h h.2.2.2.1.le rfl hdone fun e he => ?_
    refine stopPoll_fault (fun e he => ?_) he
    simp only [eof] at he
    split_ifs at he
    exact .inr (.inr (.inl (err.inj he).symm))
  case case12 evs wire key nonce p n bodyBuf r body hdone swapped hdecrypt =>
    obtain ⟨-, -, payload, -, hsome, -⟩ := h.collect_body (r := r) rfl hdone
    exact nomatch hsome.symm.trans hdecrypt
  case case13 evs wire key nonce p n bodyBuf r body hdone swapped payload hdecrypt read ih =>
    obtain ⟨hnonce, hlen, payload', hn, hsome, hahead⟩ := h.collect_body (r := r) rfl hdone
    obtain rfl := some.inj (hsome.symm.trans hdecrypt)
    have hle := h.2.2.2.1
    have htag : 0 < tagSize := by decide
    refine .unsealed hnonce ?_ (ih _ _ hahead)
    simp only [work, held]
    omega
  case case14 evs wire key nonce p n bodyBuf r body hdone =>
    refine .stop hlawful hsalt h h.2.2.2.1 rfl hdone fun e he => ?_
    exact stopPoll_fault
      (fun e he => .inr (.inr (.inr (.inl (err.inj he).symm)))) he

/-- A reader has opened no more seals than there are. -/
lemma Ahead.opened_le (h : Ahead codec psk salt started reader opened wire plain k) :
    opened ≤ k := by
  cases reader with
  | needSalt saltBuf => exact h.1 ▸ Nat.zero_le k
  | readingHeader key nonce headerBuf =>
    obtain ⟨-, -, -, -, payloads, hrecords, -⟩ := h
    exact hrecords.le
  | readingBody key nonce p n bodyBuf =>
    obtain ⟨-, -, -, -, payload, padding, cipher, wire', payloads, -, -, -, -, hrecords, -⟩ := h
    exact (Nat.le_succ opened).trans hrecords.le
  | drain key nonce payload =>
    obtain ⟨-, -, -, payloads, hrecords, -⟩ := h
    exact hrecords.le

end Loop

end Meow.Snell
