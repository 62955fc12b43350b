import Meow.Vless.Vision

/-!
# The stream of the XTLS-Vision wrapper

What a Vision connection sends has a format: frames, the first of them behind the user id, and
after the last one bytes as they are, in the connection or in raw passthrough. A reader that is
anywhere in such a stream knows what it will hand to its caller, and a read hands out the first of
it, however the transport cuts the stream up.

## Main definitions

* `Stream` — the format of what a writer sends.
* `Output` — what a writer may send next.
* `Ahead` — what a reader in some state will make of the bytes to come.

## Main results

* `Ahead.append` — what is sent next is ahead of the reader too.
* `Ahead.pollReadLoop` — what a read does with the bytes to come, and that it gets ahead.
-/

namespace Meow.Vless

open VisionConn List

/-! ### The format of the stream -/

/-- A frame. -/
def encodeFrame (uuid : List UInt8) (needUuid : Bool) (command : UInt8)
    (content padding : List UInt8) : List UInt8 :=
  (if needUuid then uuid else []) ++ [command] ++ u16be content.length ++
    u16be padding.length ++ content ++ padding

/-- What a writer sends next: frames, the first of them with the user id if that is still to be
sent; bytes as they are; or bytes as they are in raw passthrough. -/
inductive Tail where
  | framed (needUuid : Bool)
  | through
  | direct
  deriving DecidableEq

/-- **The format.** From the header of a frame on, the bytes before and after the switch to raw
passthrough, the bytes that they stand for, and what comes next. -/
inductive Stream (uuid : List UInt8) :
    Bool → List UInt8 → List UInt8 → List UInt8 → Tail → Prop
  | nil (needUuid : Bool) : Stream uuid needUuid [] [] [] (.framed needUuid)
  | continue {needUuid content padding wrapped raw plain tail}
      (hcontent : content.length ≤ 16384) (hpadding : padding.length < 1400)
      (rest : Stream uuid false wrapped raw plain tail) :
      Stream uuid needUuid
        (encodeFrame uuid needUuid commandPaddingContinue content padding ++ wrapped) raw
        (content ++ plain) tail
  | end {needUuid content padding}
      (hcontent : content.length ≤ 16384) (hpadding : padding.length < 1400)
      (bytes : List UInt8) :
      Stream uuid needUuid
        (encodeFrame uuid needUuid commandPaddingEnd content padding ++ bytes) []
        (content ++ bytes) .through
  | direct {needUuid content padding}
      (hcontent : content.length ≤ 16384) (hpadding : padding.length < 1400)
      (bytes : List UInt8) :
      Stream uuid needUuid
        (encodeFrame uuid needUuid commandPaddingDirect content padding) bytes
        (content ++ bytes) .direct

/-- What a writer may send next: nothing, a frame, or bytes as they are. -/
inductive Output (uuid : List UInt8) :
    Tail → List UInt8 → List UInt8 → List UInt8 → Tail → Prop
  | continue {needUuid content padding}
      (hcontent : content.length ≤ 16384) (hpadding : padding.length < 1400) :
      Output uuid (.framed needUuid)
        (encodeFrame uuid needUuid commandPaddingContinue content padding) [] content
        (.framed false)
  | end {needUuid content padding}
      (hcontent : content.length ≤ 16384) (hpadding : padding.length < 1400) :
      Output uuid (.framed needUuid)
        (encodeFrame uuid needUuid commandPaddingEnd content padding) [] content .through
  | direct {needUuid content padding}
      (hcontent : content.length ≤ 16384) (hpadding : padding.length < 1400) :
      Output uuid (.framed needUuid)
        (encodeFrame uuid needUuid commandPaddingDirect content padding) [] content .direct
  | nothing (tail : Tail) : Output uuid tail [] [] [] tail
  | through (bytes : List UInt8) : Output uuid .through bytes [] bytes .through
  | raw (bytes : List UInt8) : Output uuid .direct [] bytes bytes .direct

/-- What follows a frame with a command. -/
inductive After (uuid : List UInt8) :
    UInt8 → List UInt8 → List UInt8 → List UInt8 → Tail → Prop
  | continue {wrapped raw plain tail} (h : Stream uuid false wrapped raw plain tail) :
      After uuid commandPaddingContinue wrapped raw plain tail
  | end (bytes : List UInt8) : After uuid commandPaddingEnd bytes [] bytes .through
  | direct (bytes : List UInt8) : After uuid commandPaddingDirect [] bytes bytes .direct

section Format

variable {uuid wrapped raw plain wrapped' raw' plain' : List UInt8} {needUuid : Bool}
  {tail tail' : Tail}

/-- A stream goes on with what is sent next. -/
lemma Stream.append (h : Stream uuid needUuid wrapped raw plain tail)
    (hout : Output uuid tail wrapped' raw' plain' tail') :
    Stream uuid needUuid (wrapped ++ wrapped') (raw ++ raw') (plain ++ plain') tail' := by
  induction h with
  | nil needUuid =>
    cases hout with
    | nothing => exact .nil needUuid
    | «continue» hcontent hpadding =>
      simpa using Stream.continue hcontent hpadding (.nil false)
    | «end» hcontent hpadding => simpa using Stream.end hcontent hpadding []
    | direct hcontent hpadding => simpa using Stream.direct hcontent hpadding []
  | «continue» hcontent hpadding rest ih =>
    rw [append_assoc, append_assoc]
    exact .continue hcontent hpadding (ih hout)
  | «end» hcontent hpadding bytes =>
    cases hout with
    | nothing => simpa using Stream.end hcontent hpadding bytes
    | through =>
      rw [append_assoc, append_assoc]
      exact .end hcontent hpadding _
  | direct hcontent hpadding bytes =>
    cases hout with
    | nothing => simpa using Stream.direct hcontent hpadding bytes
    | raw =>
      rw [append_nil, append_assoc]
      exact .direct hcontent hpadding _

lemma After.append {command} (h : After uuid command wrapped raw plain tail)
    (hout : Output uuid tail wrapped' raw' plain' tail') :
    After uuid command (wrapped ++ wrapped') (raw ++ raw') (plain ++ plain') tail' := by
  cases h with
  | «continue» h => exact .continue (h.append hout)
  | «end» bytes =>
    cases hout with
    | nothing => simpa using After.end _
    | through => exact .end _
  | direct bytes =>
    cases hout with
    | nothing => simpa using After.direct _
    | raw => exact .direct _

/-- A stream that has begun starts with a whole frame. -/
lemma Stream.cases_frame (h : Stream uuid needUuid wrapped raw plain tail) :
    (wrapped = [] ∧ raw = [] ∧ plain = [] ∧ tail = .framed needUuid) ∨
      ∃ command content padding rest plain', content.length ≤ 16384 ∧ padding.length < 1400 ∧
        wrapped = encodeFrame uuid needUuid command content padding ++ rest ∧
        plain = content ++ plain' ∧ After uuid command rest raw plain' tail := by
  cases h with
  | nil => exact .inl ⟨rfl, rfl, rfl, rfl⟩
  | «continue» hcontent hpadding rest =>
    exact .inr ⟨_, _, _, _, _, hcontent, hpadding, rfl, rfl, .continue rest⟩
  | «end» hcontent hpadding bytes =>
    exact .inr ⟨_, _, _, _, _, hcontent, hpadding, rfl, rfl, .end bytes⟩
  | direct hcontent hpadding =>
    exact .inr ⟨_, _, _, [], _, hcontent, hpadding, by rw [append_nil], rfl, .direct raw⟩

end Format

/-! ### The reader -/

/-- **What a reader will make of the bytes to come**: from its state, with `wrapped` and `raw` the
bytes that have not been read, `plain` is what it will hand to its caller. -/
def Ahead (uuid : List UInt8) (state : ReadState) (rawRead : Bool)
    (wrapped raw plain : List UInt8) (tail : Tail) : Prop :=
  match state with
  | .header h needUuid =>
    rawRead = false ∧ h.length < headerLen needUuid ∧
      Stream uuid needUuid (h ++ wrapped) raw plain tail
  | .content command remainingContent remainingPadding =>
    rawRead = false ∧ ∃ content padding wrapped' plain',
      content.length = remainingContent ∧ padding.length = remainingPadding ∧
      wrapped = content ++ (padding ++ wrapped') ∧ plain = content ++ plain' ∧
      After uuid command wrapped' raw plain' tail
  | .padding command remainingPadding =>
    rawRead = false ∧ ∃ padding wrapped', padding.length = remainingPadding ∧
      wrapped = padding ++ wrapped' ∧ After uuid command wrapped' raw plain tail
  | .through =>
    (rawRead = false ∧ raw = [] ∧ plain = wrapped ∧ tail = .through) ∨
      (rawRead = true ∧ wrapped = [] ∧ plain = raw ∧ tail = .direct)

/-- The errors of a read that have nothing to do with the frames: the stream ends inside of one,
the transport fails, or it cannot be switched to raw passthrough. -/
def ReadFault (canRaw : Bool) (e : IoError) : Prop :=
  e.kind = .unexpectedEof ∨ e.kind = .transport ∨ (e = directUnsupported ∧ canRaw = false)

section Reader

variable {uuid wrapped raw plain wrapped' raw' plain' got rest : List UInt8} {needUuid : Bool}
  {state : ReadState} {rawRead : Bool} {tail tail' : Tail} {command : UInt8}

section

variable (h : Ahead uuid state rawRead wrapped raw plain tail)
include h

/-- What is sent next is ahead too. -/
lemma Ahead.append (hout : Output uuid tail wrapped' raw' plain' tail') :
    Ahead uuid state rawRead (wrapped ++ wrapped') (raw ++ raw') (plain ++ plain') tail' := by
  cases state with
  | header h needUuid =>
    obtain ⟨hraw, hlen, hstream⟩ := h
    refine ⟨hraw, hlen, ?_⟩
    rw [← append_assoc]
    exact hstream.append hout
  | content command remainingContent remainingPadding =>
    obtain ⟨hraw, content, padding, rest, plain, hc, hp, rfl, rfl, hafter⟩ := h
    exact ⟨hraw, content, padding, _, _, hc, hp, by simp only [append_assoc],
      by rw [append_assoc], hafter.append hout⟩
  | padding command remainingPadding =>
    obtain ⟨hraw, padding, rest, hp, rfl, hafter⟩ := h
    exact ⟨hraw, padding, _, hp, by rw [append_assoc], hafter.append hout⟩
  | through =>
    rcases h with ⟨hraw, rfl, rfl, rfl⟩ | ⟨hraw, rfl, rfl, rfl⟩
    · cases hout with
      | nothing | through => exact .inl ⟨hraw, rfl, rfl, rfl⟩
    · cases hout with
      | nothing | raw => exact .inr ⟨hraw, rfl, rfl, rfl⟩

/-- Before the reader reaches the bytes that pass through, it reads what is wrapped. -/
lemma Ahead.rawRead_eq (hstate : state ≠ .through) : rawRead = false := by
  cases state with
  | header | content | padding => exact h.1
  | through => exact absurd rfl hstate

end

/-- The header of a frame. -/
lemma length_encodeFrame_header (huuid : uuid.length = uuidLen) (needUuid : Bool)
    (command : UInt8) (m n : ℕ) :
    ((if needUuid then uuid else []) ++ [command] ++ u16be m ++ u16be n).length =
      headerLen needUuid := by
  cases needUuid <;> simp [headerLen, paddingHeaderLen, uuidLen, huuid]

/-- **A whole header is read as it was written.** -/
lemma Ahead.parseHeader (huuid : uuid.length = uuidLen) {h}
    (hahead : Ahead uuid (.header h needUuid) false (got ++ rest) raw plain tail)
    (hlen : (h ++ got).length = headerLen needUuid) :
    (needUuid → (h ++ got).take uuidLen = uuid) ∧
      Ahead uuid (parseHeader (h ++ got) (if needUuid then uuidLen else 0)) false rest
        raw plain tail := by
  obtain ⟨-, -, hstream⟩ := hahead
  rw [← append_assoc] at hstream
  obtain ⟨hnil, -⟩ | ⟨command, content, padding, rest', plain', hcontent, hpadding, hw, rfl,
    hafter⟩ := hstream.cases_frame
  · -- a header is not empty
    have := congrArg length hnil
    rw [length_append, hlen] at this
    cases needUuid <;> simp [headerLen, paddingHeaderLen, uuidLen] at this
  · obtain ⟨hh, rfl⟩ : h ++ got = (if needUuid then uuid else []) ++ [command] ++
        u16be content.length ++ u16be padding.length ∧ rest = content ++ (padding ++ rest') := by
      refine append_inj ?_ (by rw [hlen, length_encodeFrame_header huuid])
      rw [hw, encodeFrame]
      simp only [append_assoc]
    have hcontent' := ofU16be_u16be (show content.length < 65536 by omega)
    have hpadding' := ofU16be_u16be (show padding.length < 65536 by omega)
    rw [hh]
    -- the command and the lengths stand behind the user id, if there is one
    have hget : ∀ k l, ((if needUuid then uuid else []) ++ l).getD
        ((if needUuid then uuidLen else 0) + k) (0 : UInt8) = l.getD k 0 := by
      intro k l
      cases needUuid <;> simp [← huuid, getElem?_append_right]
    have hget0 := fun l => hget 0 l
    simp only [Nat.add_zero] at hget0
    refine ⟨fun hneed => by simp [hneed, ← huuid], ?_⟩
    simp only [parseHeader, append_assoc, hget, hget0]
    exact ⟨rfl, content, padding, rest', plain', by simpa [u16be] using hcontent'.symm,
      by simpa [u16be] using hpadding'.symm, rfl, rfl, by simpa [u16be] using hafter⟩

/-- Content that has been read is what the caller was to get. -/
lemma Ahead.content {m n}
    (h : Ahead uuid (.content command m n) rawRead (got ++ rest) raw plain tail)
    (hlen : got.length ≤ m) :
    ∃ plain', plain = got ++ plain' ∧
      Ahead uuid (.content command (m - got.length) n) rawRead rest raw plain' tail := by
  obtain ⟨hraw, content, padding, wrapped', plain', rfl, hp, hw, rfl, hafter⟩ := h
  obtain ⟨more, rfl⟩ : got <+: content :=
    prefix_of_prefix_length_le (hw ▸ prefix_append got rest) (prefix_append _ _) hlen
  rw [append_assoc, append_cancel_left_eq] at hw
  exact ⟨more ++ plain', by rw [append_assoc], hraw, more, padding, wrapped', plain', by simp, hp,
    hw, rfl, hafter⟩

/-- When the content has been read, the padding is ahead. -/
lemma Ahead.content_zero {n}
    (h : Ahead uuid (.content command 0 n) rawRead wrapped raw plain tail) :
    Ahead uuid (.padding command n) rawRead wrapped raw plain tail := by
  obtain ⟨hraw, content, padding, wrapped', plain', hc, hp, rfl, rfl, hafter⟩ := h
  obtain rfl := length_eq_zero_iff.mp hc
  exact ⟨hraw, padding, wrapped', hp, rfl, hafter⟩

/-- Padding that has been read is gone. -/
lemma Ahead.padding {n} (h : Ahead uuid (.padding command n) rawRead (got ++ rest) raw plain tail)
    (hlen : got.length ≤ n) :
    Ahead uuid (.padding command (n - got.length)) rawRead rest raw plain tail := by
  obtain ⟨hraw, padding, wrapped', rfl, hw, hafter⟩ := h
  obtain ⟨more, rfl⟩ : got <+: padding :=
    prefix_of_prefix_length_le (hw ▸ prefix_append got rest) (prefix_append _ _) hlen
  rw [append_assoc, append_cancel_left_eq] at hw
  exact ⟨hraw, more, wrapped', by simp, hw, hafter⟩

/-- When the padding has been read, what the command says is ahead. -/
lemma Ahead.padding_zero (h : Ahead uuid (.padding command 0) rawRead wrapped raw plain tail) :
    rawRead = false ∧ After uuid command wrapped raw plain tail := by
  obtain ⟨hraw, padding, wrapped', hp, rfl, hafter⟩ := h
  obtain rfl := length_eq_zero_iff.mp hp
  exact ⟨hraw, hafter⟩

/-- The state after the padding. The one command that it cannot follow is `DIRECT` on a transport
without raw passthrough. -/
lemma After.afterPadding (h : After uuid command wrapped raw plain tail) (self : VisionConn)
    (hraw : self.rawRead = false) :
    ((self.afterPadding command).1 = none →
      Ahead uuid (self.afterPadding command).2.readState (self.afterPadding command).2.rawRead
        wrapped raw plain tail) ∧
      ∀ e, (self.afterPadding command).1 = some e →
        e = directUnsupported ∧ self.canRaw = false := by
  cases h with
  | «continue» h =>
    refine ⟨fun _ => ⟨hraw, by decide, h⟩, fun e he => ?_⟩
    simp [afterPadding] at he
  | «end» =>
    refine ⟨fun _ => .inl ⟨hraw, rfl, rfl, rfl⟩, fun e he => ?_⟩
    simp [afterPadding, commandPaddingEnd, commandPaddingContinue] at he
  | direct =>
    have heq : self.afterPadding commandPaddingDirect =
        if self.canRaw then (none, { self with readState := .through, rawRead := true })
        else (some directUnsupported, { self with readState := .through }) := rfl
    rw [heq]
    split_ifs with hcan
    · exact ⟨fun _ => .inr ⟨rfl, rfl, rfl, rfl⟩, nofun⟩
    · refine ⟨nofun, fun e he => ?_⟩
      cases he
      exact ⟨rfl, Bool.eq_false_of_not_eq_true hcan⟩

/-- A stream that is shorter than a header is empty. -/
lemma Stream.eq_nil_of_short (huuid : uuid.length = uuidLen)
    (h : Stream uuid needUuid wrapped raw plain tail) (hlen : wrapped.length < headerLen needUuid) :
    raw = [] ∧ plain = [] := by
  obtain ⟨-, hraw, hplain, -⟩ | ⟨command, content, padding, rest, plain', -, -, rfl, -⟩ :=
    h.cases_frame
  · exact ⟨hraw, hplain⟩
  · have := length_encodeFrame_header huuid needUuid command content.length padding.length
    simp only [encodeFrame, length_append] at this hlen
    omega

/-- With nothing on the way, nothing is ahead. -/
lemma Ahead.plain_eq_nil (huuid : uuid.length = uuidLen)
    (h : Ahead uuid state rawRead [] [] plain tail) : plain = [] := by
  have hafter : ∀ {command : UInt8} {plain : List UInt8},
      After uuid command [] [] plain tail → plain = [] := by
    intro command plain h
    cases h with
    | «continue» h => exact (h.eq_nil_of_short huuid (by decide)).2
    | «end» => rfl
    | direct => rfl
  cases state with
  | header h needUuid => exact (h.2.2.eq_nil_of_short huuid (by simpa using h.2.1)).2
  | content command m n =>
    obtain ⟨-, content, padding, wrapped', plain', -, -, hw, rfl, h⟩ := h
    obtain ⟨rfl, hw'⟩ := append_eq_nil_iff.mp hw.symm
    obtain ⟨rfl, rfl⟩ := append_eq_nil_iff.mp hw'
    exact hafter h
  | padding command n =>
    obtain ⟨-, padding, wrapped', -, hw, h⟩ := h
    obtain ⟨rfl, rfl⟩ := append_eq_nil_iff.mp hw.symm
    exact hafter h
  | through =>
    rcases h with ⟨-, -, h, -⟩ | ⟨-, -, h, -⟩ <;> exact h

end Reader

/-- What a read leaves as it is: the writing side of the connection. -/
structure SameWriter (conn next : VisionConn) : Prop where
  userUuid : next.userUuid = conn.userUuid
  readPlain : next.readPlain = conn.readPlain
  writePending : next.writePending = conn.writePending
  writePadding : next.writePadding = conn.writePadding
  writeSentUuid : next.writeSentUuid = conn.writeSentUuid
  rawWrite : next.rawWrite = conn.rawWrite
  canRaw : next.canRaw = conn.canRaw

/-- **What a read does**, with `x` the bytes that the writer has framed and not sent: it hands out
the first of the bytes ahead, and finds nothing wrong with the frames. -/
structure ReadOk (uuid x plain : List UInt8) (tail : Tail) (conn : VisionConn) (r : Read) :
    Prop where
  same : SameWriter conn r.conn
  valid : ∀ e, r.poll = .err e → ReadFault conn.canRaw e
  split : ∃ plain', r.out ++ plain' = plain ∧ ((∀ e, r.poll ≠ .err e) →
    Ahead uuid r.conn.readState r.conn.rawRead (r.incoming.wrapped ++ x) r.incoming.raw plain' tail)

section Loop

variable {uuid x plain : List UInt8} {tail : Tail} {self : VisionConn} {i : Incoming}

lemma SameWriter.refl (self : VisionConn) (state : ReadState) :
    SameWriter self { self with readState := state } := ⟨rfl, rfl, rfl, rfl, rfl, rfl, rfl⟩

lemma SameWriter.filterServerTls (self : VisionConn) (chunk : List UInt8) (state : ReadState) :
    SameWriter self { self.filterServerTls chunk with readState := state } := by
  unfold VisionConn.filterServerTls
  split_ifs <;> exact ⟨rfl, rfl, rfl, rfl, rfl, rfl, rfl⟩

lemma rawRead_filterServerTls (self : VisionConn) (chunk : List UInt8) :
    (self.filterServerTls chunk).rawRead = self.rawRead := by
  unfold filterServerTls
  split_ifs <;> rfl

lemma SameWriter.afterPadding (self : VisionConn) (command : UInt8) :
    SameWriter self (self.afterPadding command).2 := by
  unfold VisionConn.afterPadding
  split_ifs <;> exact ⟨rfl, rfl, rfl, rfl, rfl, rfl, rfl⟩

lemma SameWriter.trans {a b c} (hab : SameWriter a b) (hbc : SameWriter b c) : SameWriter a c :=
  ⟨hbc.userUuid.trans hab.userUuid, hbc.readPlain.trans hab.readPlain,
    hbc.writePending.trans hab.writePending, hbc.writePadding.trans hab.writePadding,
    hbc.writeSentUuid.trans hab.writeSentUuid, hbc.rawWrite.trans hab.rawWrite,
    hbc.canRaw.trans hab.canRaw⟩

lemma source_eq (hraw : self.rawRead = false) : self.source i = i.wrapped := by
  rw [source, hraw]
  rfl

lemma advance_eq (hraw : self.rawRead = false) (rest : List UInt8) :
    self.advance i rest = { i with wrapped := rest } := by
  rw [advance, hraw]
  rfl

variable {r : Collected UInt8} {state : ReadState}

/-- While there are frames, what is read is taken from the bytes that are wrapped. -/
lemma Ahead.taken (h : Ahead uuid state self.rawRead (i.wrapped ++ x) i.raw plain tail)
    (hstate : state ≠ .through) (hsplit : r.got ++ r.wire = self.source i) : self.rawRead = false ∧
      Ahead uuid state false (r.got ++ ((self.advance i r.wire).wrapped ++ x))
        (self.advance i r.wire).raw plain tail := by
  have hraw := h.rawRead_eq hstate
  rw [source_eq hraw] at hsplit
  rw [advance_eq hraw, ← append_assoc, hsplit]
  exact ⟨hraw, hraw ▸ h⟩

/-- When the rest of a header has arrived. -/
lemma Ahead.header_done (huuid : uuid.length = uuidLen) {h' : List UInt8} {needUuid}
    (h : Ahead uuid (.header h' needUuid) self.rawRead (i.wrapped ++ x) i.raw plain tail)
    (hsplit : r.got ++ r.wire = self.source i)
    (hlen : r.got.length = headerLen needUuid - h'.length) :
    (needUuid → (h' ++ r.got).take uuidLen = uuid) ∧
      Ahead uuid (VisionConn.parseHeader (h' ++ r.got) (if needUuid then uuidLen else 0))
        self.rawRead ((self.advance i r.wire).wrapped ++ x) (self.advance i r.wire).raw plain
        tail := by
  obtain ⟨hraw, h⟩ := h.taken nofun hsplit
  have hlt := h.2.1
  obtain ⟨h1, h2⟩ := h.parseHeader huuid (by rw [length_append, hlen]; omega)
  exact ⟨h1, hraw ▸ h2⟩

/-- When the rest of the padding has arrived. -/
lemma Ahead.padding_done {command n}
    (h : Ahead uuid (.padding command n) self.rawRead (i.wrapped ++ x) i.raw plain tail)
    (hsplit : r.got ++ r.wire = self.source i) (hlen : r.got.length = n) : self.rawRead = false ∧
      After uuid command ((self.advance i r.wire).wrapped ++ x) (self.advance i r.wire).raw plain
        tail := by
  obtain ⟨hraw, h⟩ := h.taken nofun hsplit
  have h := h.padding hlen.le
  rw [hlen, Nat.sub_self] at h
  exact ⟨hraw, h.padding_zero.2⟩

/-- A loop over the transport does not find fault with the bytes. -/
lemma readPoll_valid {what status e} (h : readPoll what status = .err e) (canRaw : Bool) :
    ReadFault canRaw e := by
  cases status <;> cases h
  · exact .inl rfl
  · exact .inr (.inl rfl)

variable {poll : Poll IoError Unit}

/-- A read that hands out nothing and stays where it is. -/
lemma ReadOk.stay {incoming : Incoming} (hvalid : ∀ e, poll = .err e → ReadFault self.canRaw e)
    (h : Ahead uuid state self.rawRead (incoming.wrapped ++ x) incoming.raw plain tail) :
    ReadOk uuid x plain tail self ⟨poll, [], { self with readState := state }, incoming⟩ :=
  ⟨.refl self state, hvalid, plain, rfl, fun _ => h⟩

/-- Reading when the frames are over. -/
lemma ReadOk.through (poll : Poll IoError Unit)
    (hvalid : ∀ e, poll = .err e → ReadFault self.canRaw e)
    (h : Ahead uuid .through self.rawRead (i.wrapped ++ x) i.raw plain tail)
    (hsplit : r.got ++ r.wire = self.source i) : ReadOk uuid x plain tail self
      ⟨poll, r.got, { self with readState := .through }, self.advance i r.wire⟩ := by
  refine ⟨.refl self _, hvalid, ?_⟩
  rcases h with ⟨hraw, hi, rfl, rfl⟩ | ⟨hraw, hi, rfl, rfl⟩
  · rw [source_eq hraw] at hsplit
    rw [advance_eq hraw]
    exact ⟨r.wire ++ x, by rw [← append_assoc, hsplit],
      fun _ => .inl ⟨hraw, hi, rfl, rfl⟩⟩
  · have hadvance : self.advance i r.wire = { i with raw := r.wire } := by
      rw [advance, hraw]
      rfl
    rw [source, hraw] at hsplit
    rw [hadvance]
    exact ⟨r.wire, hsplit, fun _ => .inr ⟨hraw, hi, rfl, rfl⟩⟩

/-! ### Reading gets ahead -/

/-- How many bytes are on their way. -/
def VisionConn.Incoming.length (i : Incoming) : ℕ := i.wrapped.length + i.raw.length

/-- A state that has something to read: what is left of a frame, or what is on its way. -/
def ReadState.More (i : Incoming) : ReadState → Prop
  | .header _ _ => i.length ≠ 0
  | .content _ remainingContent _ => remainingContent ≠ 0
  | .padding _ remainingPadding => remainingPadding ≠ 0
  | .through => i.length ≠ 0

/-- What is read is no longer on its way. -/
lemma length_advance (hsplit : r.got ++ r.wire = self.source i) :
    (self.advance i r.wire).length + r.got.length = i.length := by
  unfold source at hsplit
  unfold advance Incoming.length
  split_ifs at hsplit ⊢ <;> (rw [← hsplit, length_append]; dsimp only; omega)

/-- Where there is something to read, the transport has it. -/
lemma Ahead.source_ne_nil (huuid : uuid.length = uuidLen)
    (h : Ahead uuid state self.rawRead (i.wrapped ++ x) i.raw plain tail) (hx : x = [])
    (hmore : state.More i) : self.source i ≠ [] := by
  rw [hx, append_nil] at h
  intro hnil
  cases state with
  | header h' needUuid =>
    obtain ⟨hraw, hlen, hstream⟩ := h
    rw [source_eq hraw] at hnil
    rw [hnil, append_nil] at hstream
    exact hmore (by rw [Incoming.length, hnil, (hstream.eq_nil_of_short huuid hlen).1]; rfl)
  | content command m n =>
    obtain ⟨hraw, content, padding, wrapped', plain', hc, -, hw, -⟩ := h
    rw [source_eq hraw] at hnil
    rw [hnil] at hw
    exact hmore (by rw [← hc, (append_eq_nil_iff.mp hw.symm).1]; rfl)
  | padding command n =>
    obtain ⟨hraw, padding, wrapped', hp, hw, -⟩ := h
    rw [source_eq hraw] at hnil
    rw [hnil] at hw
    exact hmore (by rw [← hp, (append_eq_nil_iff.mp hw.symm).1]; rfl)
  | through =>
    rcases h with ⟨hraw, hr, -⟩ | ⟨hraw, hw, -⟩
    · rw [source_eq hraw] at hnil
      exact hmore (by rw [Incoming.length, hnil, hr]; rfl)
    · rw [source, hraw, if_pos rfl] at hnil
      exact hmore (by rw [Incoming.length, hnil, hw]; rfl)

/-- **A read gets ahead**: it leaves no more on its way than there was, and less if there was
something and the transport answers. -/
structure Progress (evs : List ReadEv) (i : Incoming) (r : Read) : Prop where
  ok : ∀ e, r.poll ≠ .err e
  le : r.incoming.length ≤ i.length
  lt : evs ≠ [] → i.length ≠ 0 → r.incoming.length < i.length

/-- A read that returns with what it got. -/
lemma Progress.of_got {evs out conn} (hok : ∀ e, poll ≠ .err e)
    (hsplit : r.got ++ r.wire = self.source i) (hgot : evs ≠ [] → i.length ≠ 0 → r.got ≠ []) :
    Progress evs i ⟨poll, out, conn, self.advance i r.wire⟩ := by
  have hlen := length_advance hsplit
  refine ⟨hok, by dsimp only; omega, fun hevs hi => ?_⟩
  have := length_pos_iff.mpr (hgot hevs hi)
  dsimp only
  omega

/-- A read that goes on with what it got. -/
lemma Progress.of_rest {evs evs' read} (hsplit : r.got ++ r.wire = self.source i)
    (hgot : evs ≠ [] → i.length ≠ 0 → r.got ≠ [] ∨ evs' ≠ [])
    (h : Progress evs' (self.advance i r.wire) read) : Progress evs i read := by
  have hlen := length_advance hsplit
  have hle := h.le
  refine ⟨h.ok, by omega, fun hevs hi => ?_⟩
  by_cases hnil : r.got = []
  · have hevs' := (hgot hevs hi).resolve_left (fun h => h hnil)
    rw [hnil, length_nil] at hlen
    have := h.lt hevs' (by omega)
    omega
  · have := length_pos_iff.mpr hnil
    omega

/-- **What a read does with the bytes to come.** It gets ahead, into a buffer with room and from a
transport that neither ends nor fails.

**Proof sketch.** Induction along the loop. A whole header, the end of the content and the end of
the padding lead to states of which the same holds; everywhere else the loop returns, with a part
of the header, the content or the padding read. Each attempt gets a byte as long as there is one,
and there is one by `Ahead.source_ne_nil`; where the loop goes on without an attempt, it goes on
with the same answers. -/
lemma Ahead.pollReadLoop (huuid : uuid.length = uuidLen) (cap : ℕ) (evs : List ReadEv)
    (state : ReadState) (self : VisionConn) (i : Incoming) (hself : self.userUuid = uuid)
    (h : Ahead uuid state self.rawRead (i.wrapped ++ x) i.raw plain tail) :
    ReadOk uuid x plain tail self (pollReadLoop cap evs state self i) ∧
      (cap ≠ 0 → AllData evs → self.canRaw → x = [] →
        Progress evs i (pollReadLoop cap evs state self i)) := by
  fun_induction VisionConn.pollReadLoop cap evs state self i with
  | case1 evs self i self' r hdone =>
    have hsplit := (readOnce_spec cap evs (self'.source i)).1
    refine ⟨ReadOk.through _ nofun h hsplit, fun hcap hevs _ hx => ?_⟩
    refine .of_got nofun hsplit fun hne hi => ?_
    exact ((readOnce_of_data hevs cap _).2 hne hcap (h.source_ne_nil huuid hx hi)).2
  | case2 evs self i self' r hstatus | case4 evs self i self' r hstatus =>
    refine ⟨.stay (fun e he => ?_) h, fun _ hevs _ _ => ?_⟩
    · cases he <;> exact .inr (.inl rfl)
    · rcases (readOnce_of_data hevs cap (self'.source i)).1 with hs | hs <;>
        exact nomatch hstatus.symm.trans hs
  | case3 evs self i self' r hblocked =>
    refine ⟨.stay nofun h, fun hcap hevs _ hx => ⟨nofun, le_rfl, fun hne hi => ?_⟩⟩
    have := ((readOnce_of_data hevs cap _).2 hne hcap (h.source_ne_nil huuid hx hi)).1
    exact nomatch hblocked.symm.trans this
  | case5 evs self i h' needUuid r i' kept hdone huser =>
    -- the user id is the one that the writer has sent
    obtain ⟨hsplit, hgot, -⟩ := collect_done rfl hdone
    simp only [Bool.and_eq_true, decide_eq_true_eq] at huser
    exact absurd ((h.header_done huuid hsplit hgot).1 huser.1) (hself ▸ huser.2)
  | case6 evs self i h' needUuid r i' hdone huser offset ih =>
    obtain ⟨hsplit, hgot, -⟩ := collect_done rfl hdone
    obtain ⟨hok, hprogress⟩ := ih hself (h.header_done huuid hsplit hgot).2
    refine ⟨hok, fun hcap hevs hcan hx => ?_⟩
    have hdata := collect_of_data hevs (show paddingHeaderLen ≠ 0 by decide) (self.source i)
      (headerLen needUuid - h'.length)
    have hlt := h.2.1
    refine .of_rest hsplit (fun hne hi => .inl ?_) (hprogress hcap hdata.2.1 hcan hx)
    exact hdata.2.2 hne (by omega) (h.source_ne_nil huuid hx hi)
  | case7 evs self i h' needUuid r i' kept hdone =>
    obtain ⟨hsplit, hle, hiff⟩ := collect_spec paddingHeaderLen evs (self.source i)
      (headerLen needUuid - h'.length)
    have hlt := h.2.1
    refine ⟨?_, fun hcap hevs _ hx => ?_⟩
    · obtain ⟨hraw, h⟩ := h.taken nofun hsplit
      refine .stay (fun e he => readPoll_valid he _) ⟨hraw, ?_, ?_⟩
      · have hne : r.got.length ≠ headerLen needUuid - h'.length := fun heq => hdone (hiff.mpr heq)
        have hle : r.got.length ≤ headerLen needUuid - h'.length := hle
        rw [length_append]
        omega
      · rw [append_assoc]
        exact h.2.2
    · have hdata := collect_of_data hevs (show paddingHeaderLen ≠ 0 by decide) (self.source i)
        (headerLen needUuid - h'.length)
      have hblocked : r.status = .blocked := hdata.1.resolve_left hdone
      exact .of_got (hblocked ▸ nofun) hsplit fun hne hi =>
        hdata.2.2 hne (by omega) (h.source_ne_nil huuid hx hi)
  | case8 evs self i command remainingPadding ih => exact ih hself h.content_zero
  | case9 evs self i command m n hm kept hzero =>
    exact ⟨.stay nofun h, fun hcap => absurd hzero hcap⟩
  | case10 evs self i command m n hm hcap r hdone m' i' self' state =>
    obtain ⟨hsplit, hle, -⟩ := readOnce_spec (min (min m cap) 8192) evs (self.source i)
    refine ⟨?_, fun _ hevs _ hx => .of_got nofun hsplit fun hne hi => ?_⟩
    · obtain ⟨hraw, h⟩ := h.taken nofun hsplit
      obtain ⟨plain', rfl, hrest⟩ := h.content (by omega)
      refine ⟨.filterServerTls self r.got state, nofun, plain', rfl, fun _ => ?_⟩
      show Ahead uuid state (self.filterServerTls r.got).rawRead (i'.wrapped ++ x) i'.raw plain'
        tail
      rw [rawRead_filterServerTls, hraw]
      by_cases hm' : m' = 0
      · rw [show state = .padding command n from if_pos hm']
        exact (hm' ▸ hrest : Ahead uuid (.content command 0 n) _ _ _ _ _).content_zero
      · rw [show state = .content command m' n from if_neg hm']
        exact hrest
    · exact ((readOnce_of_data hevs _ _).2 hne (by omega) (h.source_ne_nil huuid hx hm)).2
  | case11 evs self i command m n hm kept hcap r hdone =>
    refine ⟨.stay (fun e he => readPoll_valid he _) h, fun _ hevs _ hx => ?_⟩
    have hdata := readOnce_of_data hevs (min (min m cap) 8192) (self.source i)
    have hblocked : r.status = .blocked := hdata.1.resolve_left hdone
    exact ⟨hblocked ▸ nofun, le_rfl, fun hne hi =>
      (hdone (hdata.2 hne (by omega) (h.source_ne_nil huuid hx hm)).1).elim⟩
  | case12 evs self i command n r i' hdone next hnext ih =>
    obtain ⟨hsplit, hgot, -⟩ := collect_done rfl hdone
    obtain ⟨hraw, hafter⟩ := h.padding_done hsplit hgot
    have hsame := SameWriter.afterPadding self command
    obtain ⟨hok, hprogress⟩ :=
      ih (hsame.userUuid.trans hself) ((hafter.afterPadding self hraw).1 hnext)
    refine ⟨⟨hsame.trans hok.same, hsame.canRaw ▸ hok.valid, hok.split⟩,
      fun hcap hevs hcan hx => ?_⟩
    have hdata := collect_of_data hevs (show 1024 ≠ 0 by decide) (self.source i) n
    refine .of_rest hsplit (fun hne hi => ?_)
      (hprogress hcap hdata.2.1 (hsame.canRaw.trans hcan) hx)
    by_cases hn : n = 0
    · refine .inr ?_
      rw [show r.evs = evs by simp only [r, hn, collect_zero]]
      exact hne
    · exact .inl (hdata.2.2 hne hn (h.source_ne_nil huuid hx hn))
  | case13 evs self i command n r i' hdone next e hnext =>
    obtain ⟨hsplit, hgot, -⟩ := collect_done rfl hdone
    obtain ⟨hraw, hafter⟩ := h.padding_done hsplit hgot
    have hfault := (hafter.afterPadding self hraw).2 e hnext
    refine ⟨⟨.afterPadding self command, fun e' he => ?_, plain, rfl, fun hne => (hne e rfl).elim⟩,
      fun _ _ hcan _ => ?_⟩
    · cases he
      exact .inr (.inr hfault)
    · -- the transport can be switched
      exact nomatch hcan.symm.trans hfault.2
  | case14 evs self i command n r i' hdone =>
    obtain ⟨hsplit, hle, hiff⟩ := collect_spec 1024 evs (self.source i) n
    refine ⟨?_, fun _ hevs _ hx => ?_⟩
    · obtain ⟨hraw, h⟩ := h.taken nofun hsplit
      exact .stay (fun e he => readPoll_valid he _) (hraw ▸ h.padding hle)
    · have hdata := collect_of_data hevs (show 1024 ≠ 0 by decide) (self.source i) n
      have hblocked : r.status = .blocked := hdata.1.resolve_left hdone
      have hn : n ≠ 0 := by
        rintro rfl
        exact hdone (by simp only [r, collect_zero])
      exact .of_got (hblocked ▸ nofun) hsplit fun hne hi =>
        hdata.2.2 hne hn (h.source_ne_nil huuid hx hn)

end Loop

end Meow.Vless
