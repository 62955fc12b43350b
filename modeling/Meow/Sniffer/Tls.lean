import Meow.Lib.Bytes
import Meow.Lib.Panic
import Meow.Lib.Text

/-!
# Sniffing the server name of a TLS connection

The listener looks at the first bytes of a connection and, when they are a TLS ClientHello, takes
the host name from its `server_name` extension. The bytes come from the client and the walk goes by
the lengths they claim. This file models the walk of `sniffer/tls.rs` with its indexed reads, each
of which can panic, and compares it with the messages of the TLS presentation language.

## Main definitions

* `Sniffer.sniffTls`, `Sniffer.parseSniExtension` — the walk.
* `Sniffer.ShortHandshake` — a handshake record that ends inside the handshake header.
* `Sniffer.ClientHello`, `ClientHello.record` — a ClientHello and its bytes in one record.

## Main results

* `Sniffer.sniffTls_returns_iff` — the buffers on which the walk does not panic.
* `Sniffer.sniffTls_record` — on the bytes of a ClientHello it finds the host name.
-/

namespace Meow

open List UInt8 Nat

namespace Sniffer

/-! ### The walk of the source -/

/-- The host name as it is handed on: rebuilt in lower case only when a byte is an upper-case
letter. -/
def lowercaseHost (s : Str) : Str :=
  if (asBytes s).any (fun b => 65 ≤ b ∧ b ≤ 90) then s.map asciiLower else s

/-- The loop of `parse_sni_extension` over the entries of the server name list. -/
def serverNameLoop (list : List UInt8) (pos : ℕ) : Except Panic (Option Str) :=
  if h : pos + 3 ≤ list.length then do
    let nameType ← index list pos
    let hi ← index list (pos + 1)
    let lo ← index list (pos + 2)
    let nameLen := ofU16be hi lo
    if nameType = 0 then
      return (getRange list (pos + 3) (pos + 3 + nameLen)).bind fun nameBytes =>
        (fromUtf8 nameBytes).map lowercaseHost
    else
      serverNameLoop list (pos + 3 + nameLen)
  else
    return none
termination_by list.length - pos

def parseSniExtension (data : List UInt8) : Except Panic (Option Str) :=
  if data.length < 2 then
    return none
  else do
    let hi ← index data 0
    let lo ← index data 1
    match getRange data 2 (2 + ofU16be hi lo) with
    | none => return none
    | some list => serverNameLoop list 0

/-- The loop of `sniff_tls` over the extensions. -/
def extensionLoop (hello : List UInt8) (extEnd pos : ℕ) : Except Panic (Option Str) :=
  if h : pos + 4 ≤ extEnd ∧ pos + 4 ≤ hello.length then do
    let typeHi ← index hello pos
    let typeLo ← index hello (pos + 1)
    let lenHi ← index hello (pos + 2)
    let lenLo ← index hello (pos + 3)
    let extDataLen := ofU16be lenHi lenLo
    if ofU16be typeHi typeLo = 0 then
      match getRange hello (pos + 4) (pos + 4 + extDataLen) with
      | none => return none
      | some data => parseSniExtension data
    else
      extensionLoop hello extEnd (pos + 4 + extDataLen)
  else
    return none
termination_by hello.length - pos

/-- The position behind the session id, the cipher suites and the compression methods; the reads
are `get`s. -/
def skipToExtensions (hello : List UInt8) : Option ℕ := do
  let sessionIdLen ← hello[34]?
  let pos := 34 + (1 + sessionIdLen.toNat)
  let csHi ← hello[pos]?
  let csLo ← hello[pos + 1]?
  let pos := pos + (2 + ofU16be csHi csLo)
  let compLen ← hello[pos]?
  return pos + (1 + compLen.toNat)

/-- The part of `sniff_tls` that walks over the body of the ClientHello. -/
def sniffHello (hello : List UInt8) : Except Panic (Option Str) :=
  if hello.length < 34 then
    return none
  else
    match skipToExtensions hello with
    | none => return none
    | some pos =>
      if pos + 2 > hello.length then
        return none
      else do
        let hi ← index hello pos
        let lo ← index hello (pos + 1)
        extensionLoop hello (pos + 2 + ofU16be hi lo) (pos + 2)

/-- The part of `sniff_tls` behind the handshake header. -/
def sniffHandshake (record : List UInt8) (handshakeLen : ℕ) : Except Panic (Option Str) :=
  match getRange record 4 (4 + handshakeLen) with
  | none => return none
  | some hello => sniffHello hello

/-- The part of `sniff_tls` that reads the handshake header of the record. -/
def sniffRecord (record : List UInt8) : Except Panic (Option Str) :=
  if record.isEmpty then
    return none
  else do
    let handshakeType ← index record 0
    if handshakeType ≠ 1 then
      return none
    else
      -- nothing has checked that the record reaches this far
      let a ← index record 1
      let b ← index record 2
      let c ← index record 3
      sniffHandshake record (a.toNat * 65536 + ofU16be b c)

def sniffTls (buf : List UInt8) : Except Panic (Option Str) :=
  if buf.length < 5 then
    return none
  else do
    let contentType ← index buf 0
    if contentType ≠ 0x16 then
      return none
    else
      let hi ← index buf 3
      let lo ← index buf 4
      match getRange buf 5 (5 + ofU16be hi lo) with
      | none => return none
      | some record => sniffRecord record

/-! ### Reads inside the buffer -/

/-- The entries of a server name list are read inside the list. -/
lemma serverNameLoop_returns (list : List UInt8) (pos : ℕ) : Returns (serverNameLoop list pos) := by
  fun_induction serverNameLoop list pos with
  | case1 pos h ih =>
    refine returns_index_bind (by omega) fun nameType => returns_index_bind (by omega) fun hi =>
      returns_index_bind (by omega) fun lo => ?_
    split_ifs
    · exact returns_ok _
    · exact ih hi lo
  | case2 => exact returns_ok none

/-- The name list of a `server_name` extension is read inside the extension. -/
lemma parseSniExtension_returns (data : List UInt8) : Returns (parseSniExtension data) := by
  unfold parseSniExtension
  split_ifs with hlen
  · exact returns_ok none
  · refine returns_index_bind (by omega) fun hi => returns_index_bind (by omega) fun lo => ?_
    rcases getRange data 2 (2 + ofU16be hi lo) with _ | list
    · exact returns_ok none
    · exact serverNameLoop_returns list 0

/-- The extensions are read inside the ClientHello. -/
lemma extensionLoop_returns (hello : List UInt8) (extEnd pos : ℕ) :
    Returns (extensionLoop hello extEnd pos) := by
  fun_induction extensionLoop hello extEnd pos with
  | case1 pos h ih =>
    refine returns_index_bind (by omega) fun typeHi => returns_index_bind (by omega) fun typeLo =>
      returns_index_bind (by omega) fun lenHi => returns_index_bind (by omega) fun lenLo => ?_
    dsimp only
    split_ifs
    · rcases getRange hello (pos + 4) (pos + 4 + ofU16be lenHi lenLo) with _ | data
      · exact returns_ok none
      · exact parseSniExtension_returns data
    · exact ih lenHi lenLo
  | case2 => exact returns_ok none

/-- The body of a ClientHello is read inside its bounds, whatever its lengths claim. -/
lemma sniffHello_returns (hello : List UInt8) : Returns (sniffHello hello) := by
  unfold sniffHello
  split_ifs with hlen
  · exact returns_ok none
  · rcases skipToExtensions hello with _ | pos
    · exact returns_ok none
    · simp only
      split_ifs
      · exact returns_ok none
      · exact returns_index_bind (by omega) fun hi => returns_index_bind (by omega) fun lo =>
          extensionLoop_returns hello _ _

lemma sniffHandshake_returns (record : List UInt8) (handshakeLen : ℕ) :
    Returns (sniffHandshake record handshakeLen) := by
  unfold sniffHandshake
  rcases getRange record 4 (4 + handshakeLen) with _ | hello
  · exact returns_ok none
  · exact sniffHello_returns hello

/-- A record is read inside its bounds unless it is a ClientHello that ends inside the handshake
header. -/
lemma sniffRecord_returns_iff (record : List UInt8) :
    Returns (sniffRecord record) ↔ ¬(record[0]? = some 1 ∧ record.length < 4) := by
  by_cases ht : record[0]? = some 1
  · match record with
    | [] => cases ht
    | [t] | [t, _] | [t, _, _] =>
      have ht' : t = 1 := Option.some.inj ht
      subst ht'
      refine ⟨fun h => absurd h (not_returns_error _), fun h => absurd ⟨ht, ?_⟩ h⟩
      simp only [length_cons, length_nil]
      omega
    | t :: a :: b :: c :: body =>
      have ht' : t = 1 := Option.some.inj ht
      subst ht'
      refine ⟨fun _ h => absurd h.2 ?_, fun _ => sniffHandshake_returns _ _⟩
      simp only [length_cons]
      omega
  · refine ⟨fun _ h => ht h.1, fun _ => ?_⟩
    match record with
    | [] => exact returns_ok none
    | t :: rest =>
      have ht' : t ≠ 1 := fun h => ht (congrArg some h)
      exact ⟨none, if_pos ht'⟩

/-- The buffer starts with a complete handshake record of one to three bytes, and its first byte
says ClientHello: the three bytes of the handshake length are not all there. -/
def ShortHandshake (buf : List UInt8) : Prop :=
  buf[0]? = some 0x16 ∧ buf[3]? = some 0 ∧
    (∃ n ∈ ([1, 2, 3] : List UInt8), buf[4]? = some n ∧ 5 + n.toNat ≤ buf.length) ∧ buf[5]? = some 1

instance (buf : List UInt8) : Decidable (ShortHandshake buf) := by
  unfold ShortHandshake
  infer_instance

/-- The length fields of the lengths one to three. -/
lemma ofU16be_short_iff (hi lo : UInt8) :
    (0 < ofU16be hi lo ∧ ofU16be hi lo < 4) ↔ hi = 0 ∧ lo ∈ ([1, 2, 3] : List UInt8) := by
  constructor
  · rintro ⟨hpos, hlt⟩
    simp only [ofU16be] at hpos hlt
    have hhi : hi = 0 := UInt8.toNat_inj.mp (show hi.toNat = 0 by omega)
    have hcases : lo.toNat = 1 ∨ lo.toNat = 2 ∨ lo.toNat = 3 := by omega
    refine ⟨hhi, ?_⟩
    simp only [mem_cons, not_mem_nil, or_false, ← UInt8.toNat_inj]
    exact hcases
  · rintro ⟨rfl, hmem⟩
    simp only [mem_cons, not_mem_nil, or_false] at hmem
    rcases hmem with rfl | rfl | rfl <;> decide

/-- The record that `sniff_tls` cuts out of a buffer with a whole record header. -/
lemma sniffTls_cons (t v w hi lo : UInt8) (rest : List UInt8) :
    sniffTls (t :: v :: w :: hi :: lo :: rest) =
      if t = 0x16 ∧ ofU16be hi lo ≤ rest.length then sniffRecord (rest.take (ofU16be hi lo))
      else .ok none := by
  have hread : sniffTls (t :: v :: w :: hi :: lo :: rest) =
      if t ≠ 0x16 then .ok none else
        match getRange (t :: v :: w :: hi :: lo :: rest) 5 (5 + ofU16be hi lo) with
        | none => return none
        | some record => sniffRecord record := by
    rfl
  rw [hread]
  by_cases ht : t = 0x16
  · rw [if_neg (not_not.mpr ht)]
    by_cases hlen : ofU16be hi lo ≤ rest.length
    · rw [if_pos ⟨ht, hlen⟩, getRange, if_pos ⟨by omega, by simp only [length_cons]; omega⟩,
        add_comm 5]
      rfl
    · rw [if_neg (fun h => hlen h.2), getRange,
        if_neg (fun h => hlen (by have := h.2; simp only [length_cons] at this; omega))]
      rfl
  · rw [if_pos ht, if_neg (fun h => ht h.1)]

/-- **Sniffing is safe but for one case.** Whatever a buffer claims about the lengths of its record,
handshake, session id, cipher suites, compression methods and extensions, `sniff_tls` returns
without an out-of-range read exactly when the buffer does not start with a handshake record that is
too short for the handshake header it begins.

**Proof sketch.** Below the handshake header every index is guarded by a length check of the same
slice (`sniffHello_returns`). The header itself is read behind a check for emptiness only. -/
theorem sniffTls_returns_iff (buf : List UInt8) :
    Returns (sniffTls buf) ↔ ¬ShortHandshake buf := by
  match buf with
  | [] | [_] | [_, _] | [_, _, _] | [_, _, _, _] =>
    refine ⟨fun _ h => ?_, fun _ => returns_ok none⟩
    obtain ⟨_, _, ⟨n, _, hn, _⟩, _⟩ := h
    simp only [getElem?_nil, getElem?_cons_succ, reduceCtorEq] at hn
  | t :: v :: w :: hi :: lo :: rest =>
    rw [sniffTls_cons]
    have hshort : ShortHandshake (t :: v :: w :: hi :: lo :: rest) ↔
        (t = 0x16 ∧ ofU16be hi lo ≤ rest.length) ∧
          (0 < ofU16be hi lo ∧ ofU16be hi lo < 4) ∧ rest[0]? = some 1 := by
      rw [ofU16be_short_iff]
      simp only [ShortHandshake, getElem?_cons_zero, getElem?_cons_succ,
        Option.some.injEq, length_cons]
      constructor
      · rintro ⟨ht, rfl, ⟨n, hn, rfl, hle⟩, h1⟩
        refine ⟨⟨ht, ?_⟩, ⟨rfl, hn⟩, h1⟩
        have : ofU16be 0 lo = lo.toNat := Nat.zero_add _
        omega
      · rintro ⟨⟨ht, hle⟩, ⟨rfl, hn⟩, h1⟩
        have : ofU16be 0 lo = lo.toNat := Nat.zero_add _
        exact ⟨ht, rfl, ⟨lo, hn, rfl, by omega⟩, h1⟩
    split_ifs with hrec
    · rw [sniffRecord_returns_iff, hshort, length_take, min_eq_left hrec.2, getElem?_take]
      refine not_congr ?_
      by_cases hpos : 0 < ofU16be hi lo
      · rw [if_pos hpos]
        tauto
      · rw [if_neg hpos]
        exact ⟨fun h => (nomatch h.1), fun h => absurd h.2.1.1 hpos⟩
    · exact ⟨fun _ h => hrec (hshort.mp h).1, fun _ => returns_ok none⟩

/-- The six bytes `16 03 01 00 01 01`: a record of one byte that says ClientHello. -/
theorem sniffTls_panics :
    sniffTls [0x16, 3, 1, 0, 1, 1] = .error (.indexOutOfBounds 1 1) := by
  decide +kernel

/-! ### A ClientHello and its bytes -/

/-- An entry of the server name list: a host name, or a name of a type that is not defined yet. -/
inductive ServerName where
  | hostName (name : Str)
  | other (nameType : UInt8) (name : List UInt8) (h : nameType ≠ 0)

/-- The host name that an entry carries. -/
def ServerName.hostName? : ServerName → Option Str
  | .hostName name => some name
  | .other _ _ _ => none

/-- The type of a name, its length in two bytes, and the name. -/
def encodeName (nameType : UInt8) (name : List UInt8) : List UInt8 :=
  nameType :: (u16be name.length ++ name)

/-- The bytes of an entry. -/
def ServerName.encode : ServerName → List UInt8
  | .hostName name => encodeName 0 (asBytes name)
  | .other nameType name _ => encodeName nameType name

/-- An extension: a `server_name` extension with its list, or one of another type. -/
inductive Extension where
  | serverName (names : List ServerName)
  | other (type : UInt16) (data : List UInt8) (h : type ≠ 0)

/-- The server name list of an extension that has one. -/
def Extension.serverNames? : Extension → Option (List ServerName)
  | .serverName names => some names
  | .other _ _ _ => none

/-- The server name list with its length in two bytes. -/
def encodeNames (names : List ServerName) : List UInt8 :=
  u16be (names.flatMap ServerName.encode).length ++ names.flatMap ServerName.encode

/-- The type of an extension, its length in two bytes, and the data. -/
def encodeExtension (type : ℕ) (data : List UInt8) : List UInt8 :=
  u16be type ++ (u16be data.length ++ data)

/-- The bytes of an extension. -/
def Extension.encode : Extension → List UInt8
  | .serverName names => encodeExtension 0 (encodeNames names)
  | .other type data _ => encodeExtension type.toNat data

/-- A ClientHello. Before TLS 1.3 the extensions may be left out altogether. -/
structure ClientHello where
  version : List UInt8
  random : List UInt8
  sessionId : List UInt8
  cipherSuites : List UInt16
  compressionMethods : List UInt8
  extensions : Option (List Extension)
  length_version : version.length = 2
  length_random : random.length = 32
  length_sessionId : sessionId.length ≤ 32
  length_compressionMethods : compressionMethods.length < 256

namespace ClientHello

/-- The bytes in front of the extensions. -/
def front (hello : ClientHello) : List UInt8 :=
  let suites := hello.cipherSuites.flatMap fun suite => u16be suite.toNat
  hello.version ++ hello.random ++ (UInt8.ofNat hello.sessionId.length :: hello.sessionId) ++
    (u16be suites.length ++ suites) ++
    (UInt8.ofNat hello.compressionMethods.length :: hello.compressionMethods)

/-- The bytes of the extensions, with their length in two bytes. -/
def extensionBytes (hello : ClientHello) : List UInt8 :=
  match hello.extensions with
  | none => []
  | some extensions =>
    u16be (extensions.flatMap Extension.encode).length ++ extensions.flatMap Extension.encode

/-- The handshake message: its type, its length in three bytes, and the body. -/
def handshake (hello : ClientHello) : List UInt8 :=
  let body := hello.front ++ hello.extensionBytes
  1 :: UInt8.ofNat (body.length / 65536) :: (u16be body.length ++ body)

/-- The handshake message in one record of the given protocol version. -/
def record (hello : ClientHello) (major minor : UInt8) : List UInt8 :=
  0x16 :: major :: minor :: (u16be hello.handshake.length ++ hello.handshake)

/-- The host name of the `server_name` extension. -/
def hostName (hello : ClientHello) : Option Str :=
  ((hello.extensions.getD []).findSome? Extension.serverNames?).bind fun names =>
    names.findSome? ServerName.hostName?

end ClientHello

/-! ### The walk over the bytes of a ClientHello -/

/-- Rebuilding the name only when it has an upper-case letter loses nothing. -/
lemma lowercaseHost_eq (s : Str) : lowercaseHost s = toAsciiLowercase s := by
  unfold lowercaseHost
  split_ifs with hany
  · rfl
  · apply asBytes_injective
    rw [asBytes_toAsciiLowercase]
    have hbytes : (asBytes s).map byteLower = (asBytes s).map id := by
      apply map_congr_left
      intro b hb
      have hnot : ¬(65 ≤ b ∧ b ≤ 90) := by
        intro hb'
        exact hany (any_eq_true.mpr ⟨b, hb, decide_eq_true hb'⟩)
      exact if_neg hnot
    rw [hbytes, map_id]

variable (front : List UInt8)

/-- A field with its length in two bytes, behind a known front. -/
lemma reads_field (data tail : List UInt8) (hfit : data.length < 65536) :
    ∃ hi lo, (front ++ (u16be data.length ++ (data ++ tail)))[front.length]? = some hi ∧
      (front ++ (u16be data.length ++ (data ++ tail)))[front.length + 1]? = some lo ∧
      ofU16be hi lo = data.length ∧
      getRange (front ++ (u16be data.length ++ (data ++ tail))) (front.length + 2)
        (front.length + 2 + data.length) = some data := by
  refine ⟨_, _, getElem?_append_length front _ 0, getElem?_append_length front _ 1,
    ofU16be_u16be hfit, ?_⟩
  have h := getRange_append (front ++ u16be data.length) data tail
  rwa [length_append, length_u16be, append_assoc] at h

/-- One turn of the loop over the names, at an entry of the list. -/
lemma serverNameLoop_append (nameType : UInt8) {name : List UInt8} (tail : List UInt8)
    (hfit : name.length < 65536) :
    serverNameLoop (front ++ (encodeName nameType name ++ tail)) front.length =
      if nameType = 0 then .ok ((fromUtf8 name).map lowercaseHost)
      else serverNameLoop (front ++ encodeName nameType name ++ tail)
        (front ++ encodeName nameType name).length := by
  obtain ⟨hi, lo, h1, h2, hlen, hname⟩ := reads_field (front ++ [nameType]) name tail hfit
  have hlist : front ++ [nameType] ++ (u16be name.length ++ (name ++ tail)) =
      front ++ (encodeName nameType name ++ tail) := by
    simp [encodeName]
  have hend : (front ++ encodeName nameType name).length = front.length + 3 + name.length := by
    simp only [encodeName, length_append, length_cons, length_u16be]
    omega
  have hroom : front.length + 3 ≤ (front ++ (encodeName nameType name ++ tail)).length := by
    rw [← append_assoc, length_append]
    omega
  rw [hlist, length_append, length_singleton] at h1 h2 hname
  have h0 : index (front ++ (encodeName nameType name ++ tail)) front.length = .ok nameType :=
    index_append (k := 0) rfl
  rw [serverNameLoop, dif_pos hroom, h0, index_of_getElem? h1, index_of_getElem? h2,
    append_assoc, hend]
  simp only [bind, Except.bind, hlen, hname]
  rfl

variable (names : List ServerName)

/-- The loop over the entries of a list finds the first host name. -/
lemma serverNameLoop_flatMap (front : List UInt8)
    (hfit : (names.flatMap ServerName.encode).length < 65536) :
    serverNameLoop (front ++ names.flatMap ServerName.encode) front.length =
      .ok ((names.findSome? ServerName.hostName?).map toAsciiLowercase) := by
  induction names generalizing front with
  | nil =>
    rw [flatMap_nil, append_nil, serverNameLoop, dif_neg (by omega)]
    rfl
  | cons name names ih =>
    rw [flatMap_cons] at hfit ⊢
    rw [length_append] at hfit
    cases name with
    | hostName name =>
      have hname : (asBytes name).length < 65536 := by
        simp only [ServerName.encode, encodeName, length_cons, length_append] at hfit
        omega
      rw [ServerName.encode, serverNameLoop_append _ _ _ hname, if_pos rfl, fromUtf8_asBytes]
      simp only [findSome?_cons, ServerName.hostName?, Option.map_some, lowercaseHost_eq]
    | other nameType data htype =>
      have hname : data.length < 65536 := by
        simp only [ServerName.encode, encodeName, length_cons, length_append] at hfit
        omega
      rw [ServerName.encode, serverNameLoop_append _ _ _ hname, if_neg htype, ih _ (by omega)]
      rfl

/-- The `server_name` extension is read back. -/
lemma parseSniExtension_encodeNames (hfit : (names.flatMap ServerName.encode).length < 65536) :
    parseSniExtension (encodeNames names) =
      .ok ((names.findSome? ServerName.hostName?).map toAsciiLowercase) := by
  obtain ⟨hi, lo, h0, h1, hlen, hlist⟩ := reads_field [] _ [] hfit
  simp only [append_nil, nil_append, length_nil] at h0 h1 hlist
  rw [parseSniExtension, encodeNames, index_of_getElem? h0, index_of_getElem? h1]
  simp only [bind, Except.bind, hlen, hlist]
  exact serverNameLoop_flatMap names [] hfit

/-- One turn of the loop over the extensions, at an extension. -/
lemma extensionLoop_append {type} {data : List UInt8} (tail : List UInt8) {extEnd}
    (hend : front.length + 4 ≤ extEnd) (htype : type < 65536) (hfit : data.length < 65536) :
    extensionLoop (front ++ (encodeExtension type data ++ tail)) extEnd front.length =
      if type = 0 then parseSniExtension data
      else extensionLoop (front ++ encodeExtension type data ++ tail) extEnd
        (front ++ encodeExtension type data).length := by
  obtain ⟨hi, lo, h2, h3, hlen, hdata⟩ := reads_field (front ++ u16be type) data tail hfit
  have hlist : front ++ u16be type ++ (u16be data.length ++ (data ++ tail)) =
      front ++ (encodeExtension type data ++ tail) := by
    simp [encodeExtension]
  have hnext : (front ++ encodeExtension type data).length = front.length + 4 + data.length := by
    simp only [encodeExtension, length_append, length_u16be]
    omega
  have hroom : front.length + 4 ≤ (front ++ (encodeExtension type data ++ tail)).length := by
    rw [← append_assoc, length_append]
    omega
  rw [hlist, length_append, length_u16be] at h2 h3 hdata
  have h0 : index (front ++ (encodeExtension type data ++ tail)) front.length =
      .ok (ofNat (type / 256)) := index_append (k := 0) rfl
  have h1 : index (front ++ (encodeExtension type data ++ tail)) (front.length + 1) =
      .ok (ofNat type) := index_append (k := 1) rfl
  rw [extensionLoop, dif_pos ⟨hend, hroom⟩, h0, h1, index_of_getElem? h2, index_of_getElem? h3,
    append_assoc, hnext]
  simp only [bind, Except.bind, hlen, ofU16be_u16be htype, hdata]

open Extension

/-- The loop over the extensions takes the first `server_name` extension. -/
lemma extensionLoop_flatMap (extensions : List Extension) (front : List UInt8) {extEnd}
    (hend : extEnd = (front ++ extensions.flatMap encode).length)
    (hfit : (extensions.flatMap encode).length < 65536) :
    extensionLoop (front ++ extensions.flatMap encode) extEnd front.length =
      .ok (((extensions.findSome? serverNames?).bind fun names =>
        names.findSome? ServerName.hostName?).map toAsciiLowercase) := by
  induction extensions generalizing front with
  | nil =>
    rw [flatMap_nil, append_nil, extensionLoop, dif_neg (by omega)]
    rfl
  | cons extension extensions ih =>
    rw [flatMap_cons] at hfit hend ⊢
    rw [length_append] at hfit
    cases extension with
    | serverName names =>
      simp only [encode, encodeExtension, encodeNames, length_append,
        length_u16be] at hfit hend
      rw [encode,
        extensionLoop_append front _ (by omega) (by decide)
          (by simp only [encodeNames, length_append, length_u16be]; omega),
        parseSniExtension_encodeNames names (by omega)]
      rfl
    | other type data htype =>
      have htype' : type.toNat ≠ 0 := fun h => htype (UInt16.toNat_inj.mp h)
      have hnext := ih (front ++ encodeExtension type.toNat data)
        (by simp only [encode, length_append] at hend ⊢; omega) (by omega)
      simp only [encode, encodeExtension, length_append, length_u16be] at hfit hend
      rw [encode, extensionLoop_append front _ (by omega) type.toNat_lt (by omega),
        if_neg htype', hnext]
      rfl

variable (hello : ClientHello)

/-- The walk over the session id, the cipher suites and the compression methods ends at the
extensions. -/
lemma skipToExtensions_front (rest : List UInt8) (hfit : hello.front.length < 65536) :
    skipToExtensions (hello.front ++ rest) = some hello.front.length := by
  have hsid := hello.length_sessionId
  have hcomp := hello.length_compressionMethods
  set sid := hello.sessionId
  set suites := hello.cipherSuites.flatMap fun suite => u16be suite.toNat
  set comp := hello.compressionMethods
  -- the fronts of the three length fields
  set front₁ := hello.version ++ hello.random
  set front₂ := front₁ ++ ofNat sid.length :: sid
  set front₃ := front₂ ++ (u16be suites.length ++ suites)
  have hfront : hello.front = front₃ ++ ofNat comp.length :: comp := rfl
  have hlen₁ : front₁.length = 34 := by
    rw [length_append, hello.length_version, hello.length_random]
  have hlen₂ : front₂.length = 34 + (1 + sid.length) := by
    rw [length_append, hlen₁, length_cons, add_comm 1]
  have hlen₃ : front₃.length = front₂.length + (2 + suites.length) := by
    simp only [front₃, length_append, length_u16be]
  have hlen : hello.front.length = front₃.length + (1 + comp.length) := by
    rw [hfront, length_append, length_cons, add_comm 1]
  have hread₁ : (hello.front ++ rest)[34]? = some (ofNat sid.length) := by
    have hsplit : hello.front ++ rest = front₁ ++ (ofNat sid.length :: (sid ++
        (u16be suites.length ++ suites ++ (ofNat comp.length :: comp ++ rest)))) := by
      simp only [hfront, front₃, front₂, append_assoc, cons_append]
    rw [hsplit, ← hlen₁]
    exact getElem?_append_length front₁ _ 0
  have hsplit₂ : front₂ ++ (u16be suites.length ++ (suites ++
      (ofNat comp.length :: comp ++ rest))) = hello.front ++ rest := by
    simp only [hfront, front₃, append_assoc]
  obtain ⟨hi, lo, hread₂, hread₂', hsuites, -⟩ :=
    reads_field front₂ suites (ofNat comp.length :: comp ++ rest) (by omega)
  rw [hsplit₂] at hread₂ hread₂'
  have hread₃ : (hello.front ++ rest)[front₃.length]? = some (ofNat comp.length) := by
    rw [hfront, append_assoc]
    exact getElem?_append_length front₃ _ 0
  have hsid' : (ofNat sid.length).toNat = sid.length := by
    rw [toNat_ofNat']
    omega
  have hcomp' : (ofNat comp.length).toNat = comp.length := by
    rw [toNat_ofNat']
    omega
  simp only [skipToExtensions, hread₁, Option.bind_eq_bind, Option.bind_some, hsid', ← hlen₂,
    hread₂, hread₂', hsuites, ← hlen₃, hread₃, hcomp', ← hlen]
  rfl

open ClientHello

/-- The body of a ClientHello gives its host name. -/
lemma sniffHello_body (hfit : (hello.front ++ hello.extensionBytes).length < 65536) :
    sniffHello (hello.front ++ hello.extensionBytes) =
      .ok (hello.hostName.map toAsciiLowercase) := by
  have hfront : 34 ≤ hello.front.length := by
    simp only [front, length_append, hello.length_version, hello.length_random]
    omega
  rw [length_append] at hfit
  rw [sniffHello, if_neg (by rw [length_append]; omega), skipToExtensions_front hello _ (by omega)]
  rcases hext : hello.extensions with _ | extensions
  · have hblock : hello.extensionBytes = [] := by rw [extensionBytes, hext]
    have hname : hello.hostName = none := by rw [hostName, hext]; rfl
    rw [hblock, hname, append_nil]
    exact if_pos (by omega)
  · have hname : hello.hostName = (extensions.findSome? serverNames?).bind fun names =>
        names.findSome? ServerName.hostName? := by
      rw [hostName, hext]
      rfl
    have hloop := extensionLoop_flatMap extensions
      (hello.front ++ u16be (extensions.flatMap encode).length) rfl
    have hblock : hello.extensionBytes = u16be (extensions.flatMap encode).length ++
        extensions.flatMap encode := by
      rw [extensionBytes, hext]
    rw [← hname] at hloop
    generalize extensions.flatMap encode = bytes at hblock hloop
    rw [hblock, length_append] at hfit
    rw [hblock]
    obtain ⟨hi, lo, h0, h1, hlen, -⟩ := reads_field hello.front bytes [] (by omega)
    rw [append_nil] at h0 h1
    have hpos : (hello.front ++ u16be bytes.length).length = hello.front.length + 2 := by
      rw [length_append, length_u16be]
    rw [length_append, hpos, append_assoc] at hloop
    simp only [index_of_getElem? h0, index_of_getElem? h1, bind, Except.bind, hlen]
    rw [if_neg (by simp only [length_append, length_u16be]; omega)]
    exact hloop (by omega)

/-- **The sniffer reads every ClientHello.** On the bytes of a ClientHello in one record, whatever
its session id, cipher suites and extensions and whatever follows the record, `sniff_tls` returns
the host name of the `server_name` extension in lower case, and nothing when there is none. The only
assumption is that the message fits into a record, whose length has two bytes.

**Proof sketch.** Each length field in front of the extensions leads to the next one
(`skipToExtensions_front`). A turn of the loop over the extensions at the start of an extension ends
at the start of the next (`extensionLoop_append`), so the loop stops at the first `server_name`
extension; the loop over its names is the same argument one level down. -/
theorem sniffTls_record (hello : ClientHello) (major minor : UInt8) (rest : List UInt8)
    (hfit : hello.handshake.length < 65536) :
    sniffTls (hello.record major minor ++ rest) = .ok (hello.hostName.map toAsciiLowercase) := by
  set body := hello.front ++ hello.extensionBytes with hbody
  have hshake : hello.handshake =
      [1, ofNat (body.length / 65536), ofNat (body.length / 256),
        ofNat body.length] ++ (body ++ []) := by
    rw [append_nil]
    rfl
  have hlen : body.length < 65536 := by
    rw [hshake] at hfit
    simp only [length_append] at hfit
    omega
  have hzero : (ofNat (body.length / 65536)).toNat = 0 := by
    rw [div_eq_of_lt hlen]
    rfl
  have hbodyLen : (ofNat (body.length / 65536)).toNat * 65536 +
      ofU16be (ofNat (body.length / 256)) (ofNat body.length) = body.length := by
    rw [hzero, ofU16be_u16be hlen, Nat.zero_add]
  have hrecord : sniffRecord hello.handshake = .ok (hello.hostName.map toAsciiLowercase) := by
    have hread : sniffRecord hello.handshake = sniffHandshake hello.handshake
        ((ofNat (body.length / 65536)).toNat * 65536 +
          ofU16be (ofNat (body.length / 256)) (ofNat body.length)) := rfl
    have hrange : getRange hello.handshake 4 (4 + body.length) = some body := by
      rw [hshake]
      exact getRange_append _ body []
    rw [hread, hbodyLen, sniffHandshake, hrange]
    exact sniffHello_body hello hlen
  have hcut : hello.record major minor ++ rest = 0x16 :: major :: minor ::
      ofNat (hello.handshake.length / 256) :: ofNat hello.handshake.length ::
      (hello.handshake ++ rest) := rfl
  rw [hcut, sniffTls_cons, ofU16be_u16be hfit,
    if_pos ⟨rfl, by rw [length_append]; omega⟩, take_left]
  exact hrecord

/-- A ClientHello with one other extension in front of the server name, which is in mixed case. -/
def mixedCaseHello : ClientHello where
  version := [3, 3]
  random := List.replicate 32 7
  sessionId := [1, 2, 3]
  cipherSuites := [0x1301, 0x2f]
  compressionMethods := [0]
  extensions := some [.other 0x17 [] (by decide), .serverName [.hostName "Example.COM".toList]]
  length_version := rfl
  length_random := rfl
  length_sessionId := by decide
  length_compressionMethods := by decide

theorem sniffTls_record_mixedCase :
    sniffTls (mixedCaseHello.record 3 1) = .ok (some "example.com".toList) := by
  have h := sniffTls_record mixedCaseHello 3 1 [] (by decide +kernel)
  rw [append_nil] at h
  decide +kernel

end Sniffer

end Meow
