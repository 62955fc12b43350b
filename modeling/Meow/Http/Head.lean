import Meow.Lib.Fallible
import Meow.Lib.Lines
import Meow.Lib.Text

/-!
# Request heads

The plain HTTP proxy of `http_proxy.rs` reads the head of one request strictly: lines end with CR LF
and nothing else does, the request line has three parts, names and values have no other bytes than
they may have. From the fields it takes how the body is framed, and refuses what could be read in
two ways. The head is then written anew for the origin, without the fields that are for the proxy,
and with one canonical `Content-Length` if the body has a length.

## Main definitions

* `parseRequestHead` — the parser.
* `validateMessageFraming` — how the body is framed.
* `rewritePlainRequest` — the head that is sent to the origin.

## Main results

* `parseTransferCodings_fuel` — the loops over a list of codings end.
* `parseTransferCodings_ne_nil` — a field of codings has one at least.
-/

namespace Meow.Http

open List Nat

/-! ### Bytes -/

/-- A byte string literal. -/
abbrev bytes (s : String) : List UInt8 := asBytes (str s)

def eqIgnoreAsciiCase (a b : List UInt8) : Bool := a.map byteLower == b.map byteLower

def isAsciiDigitByte (b : UInt8) : Bool := 48 ≤ b && b ≤ 57

def isTchar (b : UInt8) : Bool :=
  isAsciiDigitByte b || (65 ≤ b && b ≤ 90) || (97 ≤ b && b ≤ 122) ||
    (bytes "!#$%&'*+-.^_`|~").contains b

/-- A space or a tab. -/
def isOws (b : UInt8) : Bool := b == 32 || b == 9

def isFieldValueByte (b : UInt8) : Bool := b == 9 || (32 ≤ b && b != 127)

def trimOws (value : List UInt8) : List UInt8 := (value.dropWhile isOws).rdropWhile isOws

/-- The elements of a list that commas separate. -/
def commaList (value : List UInt8) : List (List UInt8) := (value.splitOn 44).map trimOws

/-- `u64::MAX + 1`. -/
def U64_LIMIT : ℕ := 2 ^ 64

/-! ### Line endings -/

/-- Locate CR LF CR LF. -/
def findCrlfCrlf (buf : List UInt8) : Option ℕ := findWindow (CRLF ++ CRLF) buf

/-- A CR or an LF that can no longer be part of a pair. A CR at the end is undecided. -/
def bareAt (buf : List UInt8) (index : ℕ) : Bool :=
  if buf[index]? = some 10 then index == 0 || buf[index - 1]? != some 13
  else if buf[index]? = some 13 then
    decide (index + 1 < buf.length) && buf[index + 1]? != some 10
  else false

def bareLineEndingFrom (buf : List UInt8) (start : ℕ) : Bool :=
  (List.range' start (buf.length - start)).any (bareAt buf)

def hasBareLineEnding (buf : List UInt8) : Bool := bareLineEndingFrom buf 0

/-! ### The fields -/

structure HeaderField where
  name : List UInt8
  value : List UInt8
  /-- The line. -/
  raw : List UInt8
  deriving DecidableEq

/-- The field has this name. -/
def HeaderField.is (h : HeaderField) (name : String) : Bool := eqIgnoreAsciiCase h.name (bytes name)

inductive RequestBodyKind where
  | none
  | contentLength (length : ℕ)
  | chunked
  deriving DecidableEq

structure RequestHead where
  method : List UInt8
  target : List UInt8
  version : List UInt8
  headers : List HeaderField
  bodyKind : RequestBodyKind
  upgradeRequested : Bool
  deriving DecidableEq

def parseHeader (line : List UInt8) : Except String HeaderField :=
  if 58 ∉ line then .error "HTTP header missing colon"
  else
    let name := line.takeWhile (· != 58)
    let value := (line.dropWhile (· != 58)).drop 1
    if name = [] ∨ name.all isTchar = false then .error "invalid HTTP header name"
    else if value.all isFieldValueByte = false then .error "invalid HTTP header value"
    else .ok { name, value, raw := line }

/-! ### Framing -/

structure TransferCoding where
  name : List UInt8
  hasParameters : Bool
  deriving DecidableEq

def skipOws (value : List UInt8) : List UInt8 := value.dropWhile isOws

/-- A token, and what follows it. -/
def parseToken (value : List UInt8) : Option (List UInt8 × List UInt8) :=
  let token := value.takeWhile isTchar
  if token = [] then none else some (token, value.dropWhile isTchar)

/-- The bytes that may follow a backslash. -/
def isQuotedPairByte (b : UInt8) : Bool := b == 9 || (32 ≤ b && b ≤ 126) || 128 ≤ b

/-- The bytes of a quoted string but the quote and the backslash. -/
def isQuotedTextByte (b : UInt8) : Bool :=
  b == 9 || b == 32 || b == 33 || (35 ≤ b && b ≤ 91) || (93 ≤ b && b ≤ 126) || 128 ≤ b

/-- What follows a quoted string, whose first quote is read. -/
def parseQuotedString : List UInt8 → Except String (List UInt8)
  | [] => .error "unterminated Transfer-Encoding quoted string"
  | [b] =>
    if b = 34 then .ok []
    else if b = 92 ∨ isQuotedTextByte b then
      .error "unterminated Transfer-Encoding quoted string"
    else .error "invalid Transfer-Encoding quoted string"
  | b :: escaped :: rest =>
    if b = 34 then .ok (escaped :: rest)
    else if b = 92 then
      if isQuotedPairByte escaped then parseQuotedString rest
      else .error "invalid Transfer-Encoding quoted pair"
    else if isQuotedTextByte b then parseQuotedString (escaped :: rest)
    else .error "invalid Transfer-Encoding quoted string"

/-- The value of a parameter. -/
def parseParameterValue : List UInt8 → Except String (List UInt8)
  | 34 :: rest => parseQuotedString rest
  | value =>
    match parseToken value with
    | none => .error "invalid Transfer-Encoding parameter value"
    | some (_, rest) => .ok rest

/-- A parameter, whose semicolon is read. -/
def parseParameter (value : List UInt8) : Except String (List UInt8) :=
  match parseToken (skipOws value) with
  | none => .error "invalid Transfer-Encoding parameter"
  | some (_, rest) =>
    match skipOws rest with
    | 61 :: rest => parseParameterValue (skipOws rest)
    | _ => .error "invalid Transfer-Encoding parameter"

/-- What is reported when a loop has not ended after as many rounds as there are bytes. -/
def outOfFuel : String := ""

/-- The parameters of a coding: whether there are any, and what follows them. -/
def parseParameters : ℕ → List UInt8 → Except String (Bool × List UInt8)
  | 0, _ => .error outOfFuel
  | fuel + 1, value =>
    match skipOws value with
    | 59 :: rest => do
      let rest ← parseParameter rest
      let (_, rest) ← parseParameters fuel rest
      .ok (true, rest)
    | rest => .ok (false, rest)

/-- A coding with its parameters. -/
def parseCoding (fuel : ℕ) (value : List UInt8) :
    Except String (TransferCoding × List UInt8) :=
  match parseToken value with
  | none => .error "invalid Transfer-Encoding"
  | some (name, rest) => do
    let (hasParameters, rest) ← parseParameters fuel rest
    .ok ({ name, hasParameters }, skipOws rest)

/-- The codings of a list, the first of which starts here. -/
def parseCodings : ℕ → List UInt8 → Except String (List TransferCoding)
  | 0, _ => .error outOfFuel
  | fuel + 1, value => do
    let (coding, rest) ← parseCoding (fuel + 1) value
    match rest with
    | [] => .ok [coding]
    | 44 :: rest =>
      if skipOws rest = [] then .error "invalid Transfer-Encoding"
      else do
        let codings ← parseCodings fuel (skipOws rest)
        .ok (coding :: codings)
    | _ => .error "invalid Transfer-Encoding"

def parseTransferCodings (value : List UInt8) : Except String (List TransferCoding) :=
  parseCodings (value.length + 1) (skipOws value)

section Fuel

variable {value rest : List UInt8}

lemma length_skipOws_le (value : List UInt8) : (skipOws value).length ≤ value.length :=
  (dropWhile_sublist _).length_le

lemma parseToken_length {token} (h : parseToken value = some (token, rest)) :
    rest.length < value.length := by
  simp only [parseToken] at h
  split_ifs at h with hne
  cases h
  have hsum := congrArg length (@List.takeWhile_append_dropWhile _ isTchar value)
  have hpos := length_pos_of_ne_nil hne
  rw [length_append] at hsum
  omega

/-- A parser that does not run out of fuel and leaves at most so much. -/
structure Bounded {β : Type} (result : Except String β) (size : β → ℕ) (bound : ℕ) : Prop where
  ne : result ≠ .error outOfFuel
  le : ∀ b, result = .ok b → size b ≤ bound

namespace Bounded

variable {β γ : Type} {size : β → ℕ} {size' : γ → ℕ} {bound bound' : ℕ}

lemma ok {b} (h : size b ≤ bound) : Bounded (.ok b) size bound :=
  ⟨by simp, fun _ hb => Except.ok.inj hb ▸ h⟩

lemma error {message} (h : message ≠ outOfFuel) : Bounded (.error message) size bound :=
  ⟨fun heq => h (Except.error.inj heq), nofun⟩

variable {result : Except String β}

lemma bind {f} (h : Bounded result size bound)
    (hf : ∀ b, size b ≤ bound → Bounded (f b) size' bound') :
    Bounded (result >>= f) size' bound' := by
  rcases result with e | b
  · exact error fun heq => h.ne (congrArg _ heq)
  · exact hf b (h.le b rfl)

lemma mono (h : Bounded result size bound) (hle : bound ≤ bound') : Bounded result size bound' :=
  ⟨h.ne, fun b hb => (h.le b hb).trans hle⟩

end Bounded

open Bounded

lemma bounded_parseQuotedString (value : List UInt8) :
    Bounded (parseQuotedString value) length value.length := by
  fun_induction parseQuotedString value with
  | case1 => exact .error (by decide)
  | case2 => exact .ok (zero_le _)
  | case3 | case4 => exact .error (by decide)
  | case5 => exact .ok (le_succ _)
  | case6 escaped tail _ _ ih => exact ih.mono ((le_succ _).trans (le_succ _))
  | case7 => exact .error (by decide)
  | case8 b escaped tail _ _ _ ih => exact ih.mono (le_succ _)
  | case9 => exact .error (by decide)

lemma bounded_parseParameterValue (value : List UInt8) :
    Bounded (parseParameterValue value) length value.length := by
  unfold parseParameterValue
  split
  · exact (bounded_parseQuotedString _).mono (le_succ _)
  · split
    · exact .error (by decide)
    · rename_i htoken
      exact .ok (parseToken_length htoken).le

lemma bounded_parseParameter (value : List UInt8) :
    Bounded (parseParameter value) length value.length := by
  unfold parseParameter
  split
  · exact .error (by decide)
  · rename_i after htoken
    split
    · rename_i tail hequals
      refine (bounded_parseParameterValue _).mono ?_
      have hvalue := length_skipOws_le value
      have hafter := length_skipOws_le after
      have htail := length_skipOws_le tail
      have htoken' := parseToken_length htoken
      rw [hequals, length_cons] at hafter
      omega
    · exact .error (by decide)

variable {fuel : ℕ}

lemma bounded_parseParameters (hfuel : value.length < fuel) :
    Bounded (parseParameters fuel value) (fun result => result.2.length) value.length := by
  induction fuel generalizing value with
  | zero => exact absurd hfuel (not_lt_zero _)
  | succ fuel ih =>
    have hskip := length_skipOws_le value
    rw [parseParameters]
    split
    · rename_i tail hsemicolon
      rw [hsemicolon, length_cons] at hskip
      refine (bounded_parseParameter tail).bind fun after hafter => ?_
      refine bind (ih (by omega)) fun result hresult => .ok ?_
      exact hresult.trans (by omega)
    · exact .ok hskip

/-- A coding takes a byte at least. -/
lemma bounded_parseCoding (hfuel : value.length ≤ fuel) :
    Bounded (parseCoding fuel value) (fun result => result.2.length + 1) value.length := by
  unfold parseCoding
  split
  · exact .error (by decide)
  · rename_i name tail htoken
    have hlen := parseToken_length htoken
    refine bind (bounded_parseParameters (by omega)) fun result hresult => .ok ?_
    have hskip := length_skipOws_le result.2
    simp only
    omega

lemma bounded_parseCodings (hfuel : value.length < fuel) :
    Bounded (parseCodings fuel value) (fun _ => 0) 0 := by
  induction fuel generalizing value with
  | zero => exact absurd hfuel (not_lt_zero _)
  | succ fuel ih =>
    refine bind (bounded_parseCoding hfuel.le) fun result hresult => ?_
    rcases result with ⟨coding, _ | ⟨b, tail⟩⟩
    · exact .ok le_rfl
    · simp only [length_cons] at hresult ⊢
      have hskip := length_skipOws_le tail
      split
      · exact .ok le_rfl
      · split_ifs
        · exact .error (by decide)
        · rename_i heq _
          obtain ⟨rfl, rfl⟩ := cons.inj heq
          exact bind (ih (by omega)) fun codings _ => .ok le_rfl
      · exact .error (by decide)

/-- **The loops over a list of codings end** before they run out of fuel. -/
lemma parseTransferCodings_fuel (value : List UInt8) :
    parseTransferCodings value ≠ .error outOfFuel :=
  (bounded_parseCodings (lt_succ_of_le (length_skipOws_le value))).ne

end Fuel

/-- A list of codings is not empty. -/
lemma parseTransferCodings_ne_nil {value codings} (h : parseTransferCodings value = .ok codings) :
    codings ≠ [] := by
  obtain ⟨⟨coding, rest⟩, -, h⟩ := bind_eq_ok_iff.mp h
  dsimp only at h
  split at h
  · cases h
    exact cons_ne_nil _ _
  · split_ifs at h
    obtain ⟨codings', -, h⟩ := bind_eq_ok_iff.mp h
    cases h
    exact cons_ne_nil _ _
  · cases h

/-- A decimal number below `2 ^ 64`. -/
def parseLength (value : List UInt8) : Option ℕ :=
  value.foldlM (fun length byte =>
    if isAsciiDigitByte byte then
      let next := length * 10 + (byte.toNat - 48)
      if next < U64_LIMIT then some next else none
    else none) 0

/-- The variables of the loop over the fields. -/
structure Framing where
  contentLength : Option ℕ
  hasContentLength : Bool
  transferCodings : List TransferCoding
  deriving DecidableEq

/-- A value of a `Content-Length` field. -/
def addLength (contentLength : Option ℕ) (value : List UInt8) : Except String (Option ℕ) :=
  if value = [] then .error "invalid Content-Length"
  else
    match parseLength value with
    | none => .error "invalid Content-Length"
    | some parsed =>
      match contentLength with
      | none => .ok (some parsed)
      | some length =>
        if length ≠ parsed then .error "conflicting Content-Length values" else .ok (some parsed)

/-- A field. -/
def Framing.add (framing : Framing) (header : HeaderField) : Except String Framing :=
  if header.is "content-length" then do
    let contentLength ← (commaList header.value).foldlM addLength framing.contentLength
    .ok { framing with contentLength, hasContentLength := true }
  else if header.is "transfer-encoding" then do
    let codings ← parseTransferCodings header.value
    .ok { framing with transferCodings := framing.transferCodings ++ codings }
  else .ok framing

def TransferCoding.isChunked (coding : TransferCoding) : Bool :=
  eqIgnoreAsciiCase coding.name (bytes "chunked")

/-- Exactly one coding is `chunked`; it is the last and has no parameters. -/
def endsInChunked (codings : List TransferCoding) : Bool :=
  (codings.filter TransferCoding.isChunked).length == 1 &&
    codings.getLast?.any fun coding => coding.isChunked && !coding.hasParameters

/-- The decision about the framing, after the loop. -/
def Framing.kind (framing : Framing) (version : List UInt8) : Except String RequestBodyKind :=
  if framing.hasContentLength && !framing.transferCodings.isEmpty then
    .error "Transfer-Encoding with Content-Length is ambiguous"
  else if !framing.transferCodings.isEmpty then
    if version = bytes "HTTP/1.0" then .error "Transfer-Encoding on an HTTP/1.0 request"
    else if endsInChunked framing.transferCodings then .ok .chunked
    else .error "invalid request Transfer-Encoding"
  else
    match framing.contentLength with
    | none => .ok .none
    | some length => .ok (.contentLength length)

def Framing.start : Framing := ⟨none, false, []⟩

def validateMessageFraming (headers : List HeaderField) (version : List UInt8) :
    Except String RequestBodyKind := do
  let framing ← headers.foldlM Framing.add .start
  framing.kind version

/-! ### Connection options and upgrades -/

def validateConnectionOption (option : List UInt8) : Except String Unit :=
  if option = [] then .ok ()
  else if option.all isTchar = false then .error "invalid Connection header"
  else if eqIgnoreAsciiCase option (bytes "content-length") ||
      eqIgnoreAsciiCase option (bytes "transfer-encoding") ||
      eqIgnoreAsciiCase option (bytes "host") then
    .error "Connection header names an HTTP framing field"
  else .ok ()

def validateConnectionOptions (headers : List HeaderField) : Except String Unit :=
  headers.forM fun header =>
    if header.is "connection" then (commaList header.value).forM validateConnectionOption
    else .ok ()

def connectionNominates (headers : List HeaderField) (name : List UInt8) : Bool :=
  headers.any fun header =>
    header.is "connection" &&
      (commaList header.value).any fun option => eqIgnoreAsciiCase option name

/-- A protocol of an `Upgrade` field: whether there is one. -/
def validateUpgradeProtocol (protocol : List UInt8) : Except String Bool :=
  if protocol = [] then .ok false
  else
    match protocol.splitOn 47 with
    | [name] =>
      if name = [] ∨ name.all isTchar = false then .error "invalid Upgrade protocol" else .ok true
    | [name, version] =>
      if name = [] ∨ name.all isTchar = false ∨ version = [] ∨ version.all isTchar = false then
        .error "invalid Upgrade protocol"
      else .ok true
    | _ => .error "invalid Upgrade protocol"

def validateUpgradeProtocolList (value : List UInt8) (sawProtocol : Bool) : Except String Bool :=
  (commaList value).foldlM (fun saw protocol => do
    let one ← validateUpgradeProtocol protocol
    .ok (saw || one)) sawProtocol

/-- The protocols of the `Upgrade` fields. -/
def upgradeProtocols (headers : List HeaderField) : Except String Bool :=
  headers.foldlM (fun saw header =>
    if header.is "upgrade" then validateUpgradeProtocolList header.value saw else .ok saw) false

def validateUpgradeRequest (headers : List HeaderField) (bodyKind : RequestBodyKind)
    (version : List UInt8) : Except String Bool :=
  if connectionNominates headers (bytes "upgrade") = false then .ok false
  else if version ≠ bytes "HTTP/1.1" then .error "HTTP Upgrade requires HTTP/1.1"
  else if bodyKind ≠ .none ∧ bodyKind ≠ .contentLength 0 then
    .error "HTTP Upgrade request must not have a body"
  else do
    let sawProtocol ← upgradeProtocols headers
    if sawProtocol then .ok true
    else .error "Connection: upgrade requires an Upgrade protocol"

/-! ### The head -/

/-- The three parts of a request line. -/
def parseRequestLine (line : List UInt8) :
    Except String (List UInt8 × List UInt8 × List UInt8) :=
  if line.all (· < 128) = false then .error "non-ASCII HTTP request line"
  else
    match line.splitOn 32 with
    | [method, target, version] =>
      if method = [] ∨ target = [] ∨ version = [] ∨ method.all isTchar = false ∨
          target.all (fun b => 33 ≤ b && b ≤ 126) = false ∨
          ¬(version = bytes "HTTP/1.0" ∨ version = bytes "HTTP/1.1") then
        .error "invalid HTTP request line"
      else .ok (method, target, version)
    | _ => .error "invalid HTTP request line"

/-- The lines of a head. -/
def parseLines : List (List UInt8) → Except String RequestHead
  | [] => .error "empty HTTP request"
  | requestLine :: lines => do
    let (method, target, version) ← parseRequestLine requestLine
    let headers ← lines.mapM parseHeader
    let bodyKind ← validateMessageFraming headers version
    validateConnectionOptions headers
    let upgradeRequested ← validateUpgradeRequest headers bodyKind version
    .ok { method, target, version, headers, bodyKind, upgradeRequested }

def parseRequestHead (head : List UInt8) : Except String RequestHead :=
  if ¬CRLF ++ CRLF <:+ head ∨ hasBareLineEnding head then .error "invalid HTTP line ending"
  else parseLines (crlfLines (head.take (head.length - 4)))

/-! ### The head for the origin -/

/-- The field is not sent on. -/
def RequestHead.drops (request : RequestHead) (header : HeaderField) : Bool :=
  let isUpgrade := header.is "upgrade"
  header.is "proxy-connection" || header.is "proxy-authorization" ||
    -- it is written anew
    header.is "content-length" ||
    header.is "connection" || header.is "keep-alive" ||
    (isUpgrade && !request.upgradeRequested) ||
    (connectionNominates request.headers header.name && !(request.upgradeRequested && isUpgrade))

def CONNECTION_CLOSE_HEADER : List UInt8 := bytes "Connection: close" ++ CRLF

def CONNECTION_UPGRADE_HEADER : List UInt8 := bytes "Connection: upgrade" ++ CRLF

/-- The canonical length, in a line of its own. -/
def contentLengthHeader : RequestBodyKind → List UInt8
  | .contentLength length => bytes "Content-Length: " ++ asBytes (natToStr length) ++ CRLF
  | _ => []

def rewritePlainRequest (request : RequestHead) (path : List UInt8) : List UInt8 :=
  request.method ++ [32] ++ path ++ [32] ++ request.version ++ CRLF ++
    (request.headers.flatMap fun header =>
      if request.drops header then [] else header.raw ++ CRLF) ++
    contentLengthHeader request.bodyKind ++
    (if request.upgradeRequested then CONNECTION_UPGRADE_HEADER else CONNECTION_CLOSE_HEADER) ++
    CRLF

/-- The target without its scheme. -/
def stripScheme (url : List UInt8) : List UInt8 :=
  if bytes "http://" <+: url then url.drop 7
  else if bytes "ws://" <+: url then url.drop 5
  else if bytes "https://" <+: url then url.drop 8
  else url

def extractPathFromUrl (url : List UInt8) : List UInt8 :=
  match (stripScheme url).dropWhile (· != 47) with
  | [] => [47]
  | path => path

/-- The head that is sent to the origin. -/
def RequestHead.rewritten (request : RequestHead) : List UInt8 :=
  rewritePlainRequest request (extractPathFromUrl request.target)

example : (parseRequestHead (bytes
    "POST http://example.com/a HTTP/1.1\r\nContent-Length: 5, 5\r\nX-Tail: 1\r\n\r\n")).map
      RequestHead.rewritten = .ok (bytes
    "POST /a HTTP/1.1\r\nX-Tail: 1\r\nContent-Length: 5\r\nConnection: close\r\n\r\n") := by
  decide +kernel

end Meow.Http
