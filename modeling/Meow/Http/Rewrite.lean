import Meow.Http.Parsed

/-!
# The head for the origin

What the proxy sends as a head is read again as a head: by the strict parser, with the framing of
the request it was made from, and with nothing but the fields that are sent on. So the origin and
the proxy agree on where the head and the body end.

## Main definitions

* `RequestHead.forwarded` — the fields that are sent to the origin.
* `RequestHead.upstream` — the head that is sent, as a record.

## Main results

* `parseRequestHead_rewritten` — the head that is sent is read as this record.
* `findCrlfCrlf_rewritten` — it ends where it seems to end.
* `framingFields_forwarded` — its framing fields.
-/

namespace Meow.Http

open List ParsedHead

/-! ### The fields that are sent -/

/-- The line of a field is read as this field. -/
lemma parseHeader_append {name value : List UInt8} (hne : name ≠ [])
    (hname : name.all isTchar) (hvalue : value.all isFieldValueByte) :
    parseHeader (name ++ 58 :: value) = .ok ⟨name, value, name ++ 58 :: value⟩ := by
  have hcolon : ∀ b ∈ name, (b != 58) = true := fun b hb =>
    bne_iff_ne.mpr (isTchar_ne (all_eq_true.mp hname b hb) (by decide))
  have htake : (name ++ 58 :: value).takeWhile (· != 58) = name := by
    rw [takeWhile_append_of_pos hcolon]
    simp
  have hdrop : (name ++ 58 :: value).dropWhile (· != 58) = 58 :: value := by
    rw [dropWhile_append_of_pos hcolon]
    simp
  simp only [parseHeader]
  rw [if_neg (by simp), htake, hdrop, drop_one, tail_cons,
    if_neg (by rw [not_or, hname]; exact ⟨hne, by decide⟩), if_neg (by rw [hvalue]; decide)]

/-- The canonical field for a length. -/
def contentLengthField (length : ℕ) : HeaderField :=
  { name := bytes "Content-Length"
    value := 32 :: decimal length
    raw := bytes "Content-Length" ++ 58 :: 32 :: decimal length }

def closeField : HeaderField := ⟨bytes "Connection", bytes " close", bytes "Connection: close"⟩

def upgradeField : HeaderField :=
  ⟨bytes "Connection", bytes " upgrade", bytes "Connection: upgrade"⟩

namespace RequestHead

/-- The fields of the client that are sent on. -/
def kept (request : RequestHead) : List HeaderField :=
  request.headers.filter fun header => !request.drops header

/-- The field that is written for the length of the body. -/
def lengthFields (request : RequestHead) : List HeaderField :=
  match request.bodyKind with
  | .contentLength length => [contentLengthField length]
  | _ => []

def connectionField (request : RequestHead) : HeaderField :=
  if request.upgradeRequested then upgradeField else closeField

/-- The fields that are sent to the origin. -/
def forwarded (request : RequestHead) : List HeaderField :=
  request.kept ++ request.lengthFields ++ [request.connectionField]

/-- The head that is sent, as a record. -/
def upstream (request : RequestHead) : RequestHead :=
  { request with target := extractPathFromUrl request.target, headers := request.forwarded }

def requestLine (request : RequestHead) : List UInt8 :=
  request.method ++ [32] ++ extractPathFromUrl request.target ++ [32] ++ request.version

end RequestHead

open RequestHead HeaderField

/-- The head that is sent, in lines. -/
lemma rewritten_eq (request : RequestHead) :
    request.rewritten
      = unlines (request.requestLine :: request.forwarded.map raw) ++ CRLF := by
  have hkept : (request.headers.flatMap fun header =>
      if request.drops header then [] else header.raw ++ CRLF)
      = unlines (request.kept.map raw) := by
    rw [kept]
    induction request.headers with
    | nil => rfl
    | cons header headers ih =>
      rw [flatMap_cons, ih]
      rcases hdrops : request.drops header with _ | _
      · rw [filter_cons_of_pos (by rw [hdrops]; rfl), map_cons]
        simp
      · rw [filter_cons_of_neg (by rw [hdrops]; decide)]
        rfl
  have hlength : contentLengthHeader request.bodyKind
      = unlines (request.lengthFields.map raw) := by
    rw [lengthFields]
    rcases request.bodyKind with _ | length | _
    · rfl
    · have hbytes : bytes "Content-Length: " = bytes "Content-Length" ++ [58, 32] := by decide
      simp [contentLengthHeader, hbytes, contentLengthField, decimal]
    · rfl
  have hconnection : (if request.upgradeRequested then CONNECTION_UPGRADE_HEADER
      else CONNECTION_CLOSE_HEADER) = unlines [request.connectionField.raw] := by
    rw [connectionField]
    rcases request.upgradeRequested with _ | _ <;> rfl
  rw [rewritten, rewritePlainRequest, hkept, hlength, hconnection, forwarded, requestLine]
  simp only [map_append, unlines_append, unlines_cons, append_assoc, map_cons, map_nil]

/-! ### Framing -/

/-- A field that says how the body is framed. -/
def isFraming (header : HeaderField) : Bool :=
  header.is "content-length" || header.is "transfer-encoding"

open Framing

lemma Framing.add_of_not_framing {header} (h : isFraming header = false) (framing : Framing) :
    framing.add header = .ok framing := by
  rw [isFraming, Bool.or_eq_false_iff] at h
  rw [add, if_neg (by rw [h.1]; decide), if_neg (by rw [h.2]; decide)]

variable {framing framing' : Framing}

/-- What a field adds. -/
lemma Framing.add_spec {header : HeaderField} (h : framing.add header = .ok framing') :
    (header.is "content-length" → framing'.hasContentLength) ∧
      (framing.hasContentLength → framing'.hasContentLength) ∧
      (header.is "transfer-encoding" → framing'.transferCodings ≠ []) ∧
      (framing.transferCodings ≠ [] → framing'.transferCodings ≠ []) := by
  unfold add at h
  split_ifs at h with hlength hcoding
  · obtain ⟨contentLength, -, h⟩ := bind_eq_ok_iff.mp h
    cases h
    exact ⟨fun _ => rfl, fun _ => rfl,
      fun h => absurd ((is_of_is hlength _).symm.trans h) (by decide), id⟩
  · obtain ⟨codings, hcodings, h⟩ := bind_eq_ok_iff.mp h
    cases h
    refine ⟨fun h => absurd h hlength, id, fun _ => ?_, fun hne => ?_⟩
    · exact append_ne_nil_of_right_ne_nil _ (parseTransferCodings_ne_nil hcodings)
    · exact append_ne_nil_of_left_ne_nil hne _
  · cases h
    exact ⟨fun h => absurd h hlength, id, fun h => absurd h hcoding, id⟩

variable {headers : List HeaderField}

/-- **What the framing says of the fields.** -/
inductive FramingSpec (headers : List HeaderField) (version : List UInt8) :
    RequestBodyKind → Prop where
  | none (h : ∀ header ∈ headers, header.is "transfer-encoding" = false) :
      FramingSpec headers version .none
  | contentLength (length : ℕ) (hlength : length < U64_LIMIT)
      (h : ∀ header ∈ headers, header.is "transfer-encoding" = false) :
      FramingSpec headers version (.contentLength length)
  | chunked (framing : Framing) (hframing : headers.foldlM Framing.add .start = .ok framing)
      (h : ∀ header ∈ headers, header.is "content-length" = false)
      (hkind : framing.kind version = .ok .chunked) : FramingSpec headers version .chunked

lemma framing_contentLength_lt {framing : Framing} (h : headers.foldlM add .start = .ok framing) :
    ∀ length ∈ framing.contentLength, length < U64_LIMIT := by
  refine foldlM_induction (motive := fun framing : Framing =>
    ∀ length ∈ framing.contentLength, length < U64_LIMIT) (fun header _ s s' hs hadd => ?_)
    (fun length hlength => absurd hlength (by simp [start])) h
  unfold add at hadd
  split_ifs at hadd
  · obtain ⟨contentLength, hfold, hadd⟩ := bind_eq_ok_iff.mp hadd
    cases hadd
    refine foldlM_induction (motive := fun o : Option ℕ => ∀ length ∈ o, length < U64_LIMIT)
      (fun value _ o o' _ => ?_) hs hfold
    fun_cases addLength o value with
    | case3 _ _ hparsed | case5 _ _ hparsed =>
      rintro ⟨⟩ length ⟨⟩
      rw [parseLength_eq, Option.ite_none_right_eq_some] at hparsed
      obtain ⟨⟨-, hlt⟩, ⟨⟩⟩ := hparsed
      exact hlt
    | _ => exact nofun
  · obtain ⟨codings, -, hadd⟩ := bind_eq_ok_iff.mp hadd
    cases hadd
    exact hs
  · cases hadd
    exact hs

lemma framingSpec {version kind} (h : validateMessageFraming headers version = .ok kind) :
    FramingSpec headers version kind := by
  obtain ⟨framing, hframing, hkind⟩ := bind_eq_ok_iff.mp h
  have hkind' := hkind
  unfold Framing.kind at hkind'
  split_ifs at hkind' with hboth hcodings hversion hchunked
  · cases hkind'
    refine .chunked framing hframing (fun header hm => ?_) hkind
    rw [Bool.eq_false_iff]
    intro his
    have hlength : framing.hasContentLength :=
      foldlM_of_mem (f := add) (motive := fun s : Framing => s.hasContentLength)
        (fun _ _ _ _ hs hadd => (add_spec hadd).2.1 hs) hm
        (fun _ _ hadd => (add_spec hadd).1 his) hframing
    exact hboth (by rw [hlength, hcodings]; rfl)
  · have hnone : ∀ header ∈ headers, header.is "transfer-encoding" = false := by
      intro header hm
      rw [Bool.eq_false_iff]
      intro his
      have hne : framing.transferCodings ≠ [] :=
        foldlM_of_mem (f := add) (motive := fun s : Framing => s.transferCodings ≠ [])
          (fun _ _ _ _ hs hadd => (add_spec hadd).2.2.2 hs) hm
          (fun _ _ hadd => (add_spec hadd).2.2.1 his) hframing
      exact hcodings (by simpa using hne)
    split at hkind'
    · cases hkind'
      exact .none hnone
    · rename_i length heq
      cases hkind'
      exact .contentLength length (framing_contentLength_lt hframing length heq) hnone

/-! ### The head is read again -/

/-- Names that a `Connection` field must not have. -/
lemma not_connectionNominates (h : validateConnectionOptions headers = .ok ()) {name}
    (hname : eqIgnoreAsciiCase name (bytes "transfer-encoding")) :
    connectionNominates headers name = false := by
  rw [Bool.eq_false_iff]
  intro hnominates
  rw [connectionNominates, any_eq_true] at hnominates
  obtain ⟨header, hm, hheader⟩ := hnominates
  rw [Bool.and_eq_true, any_eq_true] at hheader
  obtain ⟨hconnection, option, hoption, heq⟩ := hheader
  have hcheck := forM_eq_ok_iff.mp h header hm
  rw [if_pos hconnection] at hcheck
  have hvalid := forM_eq_ok_iff.mp hcheck option hoption
  have hsame : eqIgnoreAsciiCase option (bytes "transfer-encoding") :=
    eqIgnoreAsciiCase_iff.mpr
      ((eqIgnoreAsciiCase_iff.mp heq).trans (eqIgnoreAsciiCase_iff.mp hname))
  unfold validateConnectionOption at hvalid
  split_ifs at hvalid with hnil htchar hframing
  · rw [hnil] at hsame
    cases hsame
  · exact hframing (by rw [hsame, Bool.or_true, Bool.true_or])

namespace ParsedHead

variable {request : RequestHead} {header : HeaderField}

lemma of_mem_kept (hm : header ∈ request.kept) :
    header ∈ request.headers ∧ header.is "content-length" = false ∧
      header.is "connection" = false := by
  rw [kept, mem_filter] at hm
  obtain ⟨hm, hdrops⟩ := hm
  simp only [drops, Bool.not_eq_true', Bool.or_eq_false_iff] at hdrops
  exact ⟨hm, hdrops.1.1.1.1.2, hdrops.1.1.1.2⟩

lemma isFraming_connectionField (request : RequestHead) :
    isFraming request.connectionField = false := by
  rw [connectionField]
  split_ifs <;> decide

section

variable (hnone : ∀ header ∈ request.headers, header.is "transfer-encoding" = false)
include hnone

/-- Where the client sent no coding, no field that is kept is about framing. -/
lemma isFraming_kept : ∀ header ∈ request.kept, isFraming header = false := by
  intro header hm
  obtain ⟨hm, hlength, -⟩ := of_mem_kept hm
  rw [isFraming, hlength, hnone header hm]
  rfl

/-- They leave the framing as it is. -/
lemma foldlM_kept_of_none (framing : Framing) : request.kept.foldlM add framing = .ok framing :=
  foldlM_eq_self (fun header hm => add_of_not_framing (isFraming_kept hnone header hm)) framing

end

/-- The canonical length is read. -/
lemma add_contentLengthField {length} (h : length < U64_LIMIT) :
    start.add (contentLengthField length) = .ok ⟨some length, true, []⟩ := by
  have hdigit : ∀ b ∈ decimal length, isAsciiDigitByte b :=
    fun b hb => isAsciiDigitByte_of_mem_decimal hb
  have hnot : ∀ {c : UInt8}, isAsciiDigitByte c = false → c ∉ decimal length := fun hc hm =>
    absurd (hdigit _ hm) (by rw [hc]; decide)
  have hows : ∀ b ∈ decimal length, isOws b = false := by
    intro b hb
    rw [isOws, Bool.or_eq_false_iff, beq_eq_false_iff_ne, beq_eq_false_iff_ne]
    exact ⟨fun heq => hnot (by decide) (heq ▸ hb), fun heq => hnot (by decide) (heq ▸ hb)⟩
  have hcomma : (44 : UInt8) ∉ 32 :: decimal length := by
    rw [mem_cons, not_or]
    exact ⟨by decide, hnot (by decide)⟩
  have hlist : commaList (contentLengthField length).value = [decimal length] := by
    rw [commaList, contentLengthField, splitOn_eq_singleton hcomma, map_cons,
      trimOws_cons_space hows, map_nil]
  rw [add, hlist, foldlM_cons, addLength, if_neg (decimal_ne_nil length), parseLength_decimal h]
  rfl

/-- Where the client sent no length, the fields that are kept say of the framing what all say. -/
lemma foldlM_kept (h : ParsedHead request)
    (hnone : ∀ header ∈ request.headers, header.is "content-length" = false) :
    request.kept.foldlM add .start = request.headers.foldlM add .start := by
  refine foldlM_filter (fun header hm hdrop s => add_of_not_framing ?_ s) _
  rw [isFraming, hnone header hm, Bool.eq_false_iff]
  intro his
  -- the transfer codings are sent on
  simp only [drops, is_of_is his, not_connectionNominates h.options his] at hdrop
  cases hdrop

/-- **The framing of the head that is sent** is that of the request. -/
lemma framing_forwarded (h : ParsedHead request) :
    validateMessageFraming request.forwarded request.version = .ok request.bodyKind := by
  have hconnection := isFraming_connectionField request
  have hspec := framingSpec h.framing
  rw [validateMessageFraming, forwarded, foldlM_append, foldlM_append]
  generalize hkind : request.bodyKind = kind at hspec ⊢
  cases hspec with
  | none hnone =>
    simp only [foldlM_kept_of_none hnone, lengthFields, hkind, except_ok_bind, foldlM_nil,
      foldlM_cons, add_of_not_framing hconnection]
    rfl
  | contentLength length hlength hnone =>
    simp only [foldlM_kept_of_none hnone, lengthFields, hkind, except_ok_bind, foldlM_cons,
      add_contentLengthField hlength, foldlM_nil, add_of_not_framing hconnection]
    rfl
  | chunked framing hframing hnone hchunked =>
    simp only [h.foldlM_kept hnone, hframing, lengthFields, hkind, except_ok_bind, foldlM_nil,
      foldlM_cons, add_of_not_framing hconnection]
    exact hchunked

lemma is_connection_lengthFields (hm : header ∈ request.lengthFields) :
    header.is "connection" = false ∧ header.is "upgrade" = false := by
  rw [lengthFields] at hm
  split at hm
  · rw [mem_singleton.mp hm]
    exact ⟨rfl, rfl⟩
  · exact absurd hm not_mem_nil

/-- The only `Connection` field is that of the proxy. -/
lemma connection_forwarded (hm : header ∈ request.forwarded)
    (his : header.is "connection") : header = request.connectionField := by
  rw [forwarded, mem_append, mem_append, mem_singleton] at hm
  rcases hm with (hm | hm) | hm
  · exact absurd his (by rw [(of_mem_kept hm).2.2]; decide)
  · exact absurd his (by rw [(is_connection_lengthFields hm).1]; decide)
  · exact hm

lemma options_forwarded (request : RequestHead) :
    validateConnectionOptions request.forwarded = .ok () := by
  refine forM_eq_ok_iff.mpr fun header hm => ?_
  split_ifs with his
  · rw [connection_forwarded hm his, connectionField]
    split_ifs <;> rfl
  · rfl

lemma connectionNominates_forwarded (request : RequestHead) :
    connectionNominates request.forwarded (bytes "upgrade") = request.upgradeRequested := by
  rcases hupgrade : request.upgradeRequested with _ | _
  · rw [connectionNominates, any_eq_false]
    intro header hm hboth
    rw [Bool.and_eq_true] at hboth
    have hfield := connection_forwarded hm hboth.1
    rw [connectionField, hupgrade] at hfield
    rw [hfield] at hboth
    exact absurd hboth.2 (by decide)
  · rw [connectionNominates, any_eq_true]
    refine ⟨request.connectionField, mem_append_right _ (mem_singleton_self _), ?_⟩
    rw [connectionField, hupgrade]
    decide

/-- The protocols of an upgrade are sent on. -/
lemma upgradeProtocols_forwarded (hupgrade : request.upgradeRequested) :
    upgradeProtocols request.forwarded = upgradeProtocols request.headers := by
  have hskip : ∀ header : HeaderField, header.is "upgrade" = false → ∀ saw,
      (if header.is "upgrade" then validateUpgradeProtocolList header.value saw
        else (.ok saw : Except String Bool)) = .ok saw := by
    intro header his saw
    rw [if_neg (by rw [his]; decide)]
  have hkept : request.kept.foldlM (fun saw header =>
      if header.is "upgrade" then validateUpgradeProtocolList header.value saw else .ok saw) false
      = upgradeProtocols request.headers := by
    refine foldlM_filter (fun header _ hdrop => hskip header ?_) false
    rw [Bool.eq_false_iff]
    intro his
    simp only [drops, is_of_is his, hupgrade] at hdrop
    revert hdrop
    cases connectionNominates request.headers header.name <;> decide
  have hrest : ∀ saw, (request.lengthFields ++ [request.connectionField]).foldlM
      (fun saw header => if header.is "upgrade" then validateUpgradeProtocolList header.value saw
        else (.ok saw : Except String Bool)) saw = .ok saw := by
    intro saw
    have hnone : ∀ header ∈ request.lengthFields ++ [request.connectionField],
        header.is "upgrade" = false := by
      intro header hm
      rcases mem_append.mp hm with hm | hm
      · exact (is_connection_lengthFields hm).2
      · rw [mem_singleton.mp hm, connectionField, if_pos hupgrade]
        decide
    exact foldlM_eq_self (fun header hm => hskip header (hnone header hm)) saw
  rw [upgradeProtocols, forwarded, append_assoc, foldlM_append, hkept]
  rcases upgradeProtocols request.headers with e | saw
  · rfl
  · exact hrest saw

variable (h : ParsedHead request)
include h

lemma upgrade_forwarded :
    validateUpgradeRequest request.forwarded request.bodyKind request.version
      = .ok request.upgradeRequested := by
  have hvalid := h.upgrade
  rw [validateUpgradeRequest, connectionNominates_forwarded]
  rcases hupgrade : request.upgradeRequested with _ | _
  · rw [if_pos rfl]
  · rw [hupgrade, validateUpgradeRequest] at hvalid
    rw [upgradeProtocols_forwarded hupgrade]
    by_cases hnominates : connectionNominates request.headers (bytes "upgrade") = false
    · rw [if_pos hnominates] at hvalid
      exact absurd (Except.ok.inj hvalid) (by decide)
    · rw [if_neg hnominates] at hvalid
      exact hvalid

/-- The path is a target. -/
lemma requestLineOk_path :
    RequestLineOk request.method (extractPathFromUrl request.target) request.version := by
  have hscheme : ∀ b ∈ stripScheme request.target, b ∈ request.target := by
    intro b hb
    rw [stripScheme] at hb
    split_ifs at hb
    · exact mem_of_mem_drop hb
    · exact mem_of_mem_drop hb
    · exact mem_of_mem_drop hb
    · exact hb
  refine ⟨h.line.method, ⟨?_, all_eq_true.mpr fun b hb => ?_⟩, h.line.version⟩
  · rw [extractPathFromUrl]
    split
    · exact cons_ne_nil _ _
    · assumption
  · rw [extractPathFromUrl] at hb
    split at hb
    · rw [mem_singleton.mp hb]
      decide
    · exact all_eq_true.mp h.line.target.2 b
        (hscheme b ((dropWhile_sublist _).mem hb))

/-- The fields that are sent are lines of fields. -/
lemma fieldOk_forwarded : ∀ header ∈ request.forwarded, FieldOk header := by
  intro header hm
  rw [forwarded, mem_append, mem_append, mem_singleton] at hm
  rcases hm with (hm | hm) | rfl
  · exact h.fields header (of_mem_kept hm).1
  · rw [lengthFields] at hm
    split at hm
    · rename_i length hkind
      rw [mem_singleton.mp hm]
      refine fieldOk_of_parseHeader (parseHeader_append (by decide) (by decide) ?_)
      refine all_eq_true.mpr fun b hb => ?_
      rcases mem_cons.mp hb with rfl | hb
      · decide
      · have hdigit := isAsciiDigitByte_of_mem_decimal hb
        rw [isAsciiDigitByte, Bool.and_eq_true, decide_eq_true_eq] at hdigit
        rw [isFieldValueByte, Bool.or_eq_true, Bool.and_eq_true, decide_eq_true_eq, bne_iff_ne]
        refine .inr ⟨UInt8.le_trans (by decide) hdigit.1, ?_⟩
        rintro rfl
        exact absurd hdigit.2 (by decide)
    · exact absurd hm not_mem_nil
  · rw [connectionField]
    split_ifs
    · exact @fieldOk_of_parseHeader (bytes "Connection: upgrade") _ (by decide)
    · exact @fieldOk_of_parseHeader (bytes "Connection: close") _ (by decide)

lemma clean_requestLine : Clean request.requestLine ∧ request.requestLine ≠ [] := by
  have hpath := h.requestLineOk_path
  have hversion : 13 ∉ request.version ∧ 10 ∉ request.version := by
    rcases h.line.version with heq | heq <;> rw [heq] <;> decide
  have hmethod : ∀ {c : UInt8}, isTchar c = false → c ∉ request.method := fun hc hm =>
    isTchar_ne (all_eq_true.mp hpath.method.2 _ hm) hc rfl
  have htarget : ∀ {c : UInt8}, (33 ≤ c && c ≤ 126) = false →
      c ∉ extractPathFromUrl request.target := fun hc hm =>
    absurd (all_eq_true.mp hpath.target.2 _ hm) (by rw [hc]; decide)
  have hnot : ∀ {c : UInt8}, isTchar c = false → (33 ≤ c && c ≤ 126) = false → c ≠ 32 →
      c ∉ request.version → c ∉ request.requestLine := by
    intro c htchar hvisible hspace hversion
    simp only [requestLine, mem_append, mem_singleton, not_or]
    exact ⟨⟨⟨⟨hmethod htchar, hspace⟩, htarget hvisible⟩, hspace⟩, hversion⟩
  refine ⟨⟨hnot (by decide) (by decide) (by decide) hversion.1,
    hnot (by decide) (by decide) (by decide) hversion.2⟩, ?_⟩
  rw [requestLine]
  simp

/-- The lines of the head that is sent. -/
lemma lines_ok :
    ∀ line ∈ request.requestLine :: request.forwarded.map raw,
      Clean line ∧ line ≠ [] := by
  refine forall_mem_cons.mpr ⟨h.clean_requestLine, fun line hline => ?_⟩
  obtain ⟨header, hm, rfl⟩ := mem_map.mp hline
  exact ⟨(h.fieldOk_forwarded header hm).clean, (h.fieldOk_forwarded header hm).ne⟩

end ParsedHead

variable {request : RequestHead}

/-- **The head that is sent is read as a head**, with the framing of the request. -/
lemma parseRequestHead_rewritten (h : ParsedHead request) :
    parseRequestHead request.rewritten = .ok request.upstream := by
  have hlines := h.lines_ok
  -- the last line is that of the proxy
  obtain ⟨init, last, hinit⟩ : ∃ init last,
      request.requestLine :: request.forwarded.map raw = init ++ [last] :=
    ⟨_, _, (dropLast_append_getLast (cons_ne_nil _ _)).symm⟩
  have hhead : request.rewritten = (unlines init ++ last) ++ (CRLF ++ CRLF) := by
    rw [rewritten_eq, hinit, unlines_append, unlines_cons, unlines_nil]
    simp only [append_assoc, append_nil]
  have hbare : hasBareLineEnding request.rewritten = false := by
    have hempty : request.rewritten = unlines
        ((request.requestLine :: request.forwarded.map raw) ++ [[]]) := by
      rw [rewritten_eq, unlines_append]
      rfl
    rw [hempty]
    refine hasBareLineEnding_unlines fun line hm => ?_
    rcases mem_append.mp hm with hm | hm
    · exact (hlines line hm).1
    · rw [mem_singleton.mp hm]
      exact ⟨not_mem_nil, not_mem_nil⟩
  have hsuffix : CRLF ++ CRLF <:+ request.rewritten := hhead ▸ suffix_append _ _
  have htake : request.rewritten.take (request.rewritten.length - 4) = unlines init ++ last := by
    have hlen : request.rewritten.length - 4 = (unlines init ++ last).length := by
      rw [hhead, length_append]
      exact Nat.add_sub_cancel _ _
    rw [hlen, hhead, take_left]
  have hclean : ∀ line ∈ init ++ [last], 13 ∉ line := fun line hm =>
    (hlines line (hinit ▸ hm)).1.1
  have hsplit : crlfLines (unlines init ++ last)
      = request.requestLine :: request.forwarded.map raw := by
    rw [crlfLines_unlines (fun line hm => hclean line (mem_append_left _ hm))
      (hclean last (mem_append_right _ (mem_singleton_self _))), hinit]
  have hmap : (request.forwarded.map raw).mapM parseHeader = .ok request.forwarded := by
    rw [mapM_eq_ok_iff, forall₂_map_left_iff, forall₂_same]
    exact fun header hm => (h.fieldOk_forwarded header hm).parse
  rw [parseRequestHead, if_neg (by rw [not_or, not_not, hbare]; exact ⟨hsuffix, by decide⟩), htake,
    hsplit, parseLines, requestLine, h.requestLineOk_path.parse]
  simp only [hmap, except_ok_bind, h.framing_forwarded, options_forwarded,
    h.upgrade_forwarded]
  rfl

/-- **It ends where it seems to end.** -/
lemma findCrlfCrlf_rewritten (h : ParsedHead request) (rest : List UInt8) :
    findCrlfCrlf (request.rewritten ++ rest) = some (request.rewritten.length - 4) := by
  have hlines := h.lines_ok
  have hlen : request.rewritten.length - 4
      = (unlines (request.requestLine :: request.forwarded.map raw)).length - 2 := by
    rw [rewritten_eq, length_append]
    exact Nat.add_sub_add_right _ 2 2
  rw [hlen, rewritten_eq, append_assoc]
  exact findWindow_unlines (fun line hm => ⟨(hlines line hm).1.1, (hlines line hm).2⟩)
    (cons_ne_nil _ _) rest

/-- The codings of a list of fields without a length. -/
lemma transferCodings_foldlM (hnone : ∀ header ∈ headers, header.is "content-length" = false)
    (h : headers.foldlM add framing = .ok framing') :
    ∃ codings, (headers.filter isFraming).mapM (fun header => parseTransferCodings header.value)
        = .ok codings ∧
      framing'.transferCodings = framing.transferCodings ++ codings.flatten := by
  induction headers generalizing framing with
  | nil =>
    cases h
    exact ⟨[], rfl, (append_nil _).symm⟩
  | cons header headers ih =>
    obtain ⟨hlength, hnone⟩ := forall_mem_cons.mp hnone
    obtain ⟨mid, hmid, h⟩ := bind_eq_ok_iff.mp h
    obtain ⟨rest, hrest, heq⟩ := ih hnone h
    rcases hcoding : header.is "transfer-encoding" with _ | _
    · have hnot : isFraming header = false := by rw [isFraming, hlength, hcoding]; rfl
      rw [add_of_not_framing hnot] at hmid
      cases hmid
      rw [filter_cons_of_neg (by rw [hnot]; decide)]
      exact ⟨rest, hrest, heq⟩
    · have hyes : isFraming header := by rw [isFraming, hlength, hcoding]; rfl
      rw [add, if_neg (by rw [hlength]; decide), if_pos hcoding] at hmid
      obtain ⟨codings, hcodings, hmid⟩ := bind_eq_ok_iff.mp hmid
      cases hmid
      rw [filter_cons_of_pos hyes, mapM_cons, hcodings, hrest]
      refine ⟨codings :: rest, rfl, ?_⟩
      rw [heq, flatten_cons, append_assoc]

/-- The framing fields of a head that is sent: none for a request without a body, the canonical
length, or transfer codings that end in the only `chunked`. -/
def FramingFields (kind : RequestBodyKind) (fields : List HeaderField) : Prop :=
  match kind with
  | .none => fields.filter isFraming = []
  | .contentLength length => fields.filter isFraming = [contentLengthField length]
  | .chunked =>
    (∀ header ∈ fields.filter isFraming, header.is "transfer-encoding" = true) ∧
      ∃ codings, (fields.filter isFraming).mapM (fun header => parseTransferCodings header.value)
        = .ok codings ∧ endsInChunked codings.flatten = true

/-- **The framing fields that are sent** are those of the body's kind. -/
lemma framingFields_forwarded (h : ParsedHead request) :
    FramingFields request.bodyKind request.forwarded := by
  have hconnection : [request.connectionField].filter isFraming = [] := by
    rw [filter_cons_of_neg (by rw [isFraming_connectionField]; decide)]
    rfl
  have hkept : (∀ header ∈ request.headers, header.is "transfer-encoding" = false) →
      request.kept.filter isFraming = [] := by
    intro hnone
    rw [filter_eq_nil_iff]
    intro header hm
    rw [isFraming_kept hnone header hm]
    decide
  have hspec := framingSpec h.framing
  unfold FramingFields
  rw [forwarded, filter_append, filter_append, hconnection]
  generalize hkind : request.bodyKind = kind at hspec ⊢
  cases hspec with
  | none hnone =>
    simp only [lengthFields, hkind, filter_nil, append_nil, hkept hnone]
  | contentLength length hlength hnone =>
    simp only [lengthFields, hkind, hkept hnone]
    rfl
  | chunked framing hframing hnone hchunked =>
    have hkeptNone : ∀ header ∈ request.kept, header.is "content-length" = false :=
      fun header hm => (of_mem_kept hm).2.1
    simp only [lengthFields, hkind, filter_nil, append_nil]
    refine ⟨fun header hm => ?_, ?_⟩
    · rw [mem_filter] at hm
      have hframes := hm.2
      rw [isFraming, hkeptNone header hm.1] at hframes
      exact hframes
    · obtain ⟨codings, hcodings, heq⟩ :=
        transferCodings_foldlM hkeptNone ((h.foldlM_kept hnone).trans hframing)
      refine ⟨codings, hcodings, ?_⟩
      rw [start, nil_append] at heq
      rw [← heq]
      unfold kind at hchunked
      split_ifs at hchunked with _ _ _ hends
      · exact hends
      · split at hchunked <;> exact absurd (Except.ok.inj hchunked) (by simp)

end Meow.Http
