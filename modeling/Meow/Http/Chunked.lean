import Meow.Http.Body

/-!
# The bodies that a framing delimits

A chunked body is a sequence of chunks, each a line with its size, the data and CR LF, then a chunk
of size zero and the trailers, which are lines up to an empty one. This file states which bytes are
such a body, without reference to the decoder, and shows that the decoder ends exactly there.

## Main definitions

* `ChunkedBody` — the grammar.
* `Framed` — the bodies that a framing delimits.

## Main results

* `ChunkState.rest_cons_iff` — what is left of a body, byte by byte.
* `runs_new_iff` — the decoder ends where the grammar has the end.
-/

namespace Meow.Http

open List Option Nat ChunkState False

/-! ### The grammar -/

/-- The bytes of a text that may stand in a line. -/
def FieldText (text : List UInt8) : Prop := ∀ b ∈ text, isFieldValueByte b = true

/-- Hexadecimal digits. -/
def HexDigits (digits : List UInt8) : Prop := ∀ b ∈ digits, (hexValue b).isSome = true

/-- The number that digits write, after a number that is read. -/
def hexNumber (size : ℕ) (digits : List UInt8) : ℕ :=
  digits.foldl (fun n b => n * 16 + (hexValue b).getD 0) size

/-- A number only grows with its digits. -/
lemma le_hexNumber (size : ℕ) (digits : List UInt8) : size ≤ hexNumber size digits := by
  induction digits generalizing size with
  | nil => exact le_rfl
  | cons b digits ih =>
    exact (show size ≤ size * 16 + (hexValue b).getD 0 by omega).trans (ih _)

lemma hexNumber_cons {size value b} (hb : hexValue b = some value) (digits : List UInt8) :
    hexNumber size (b :: digits) = hexNumber (size * 16 + value) digits := by
  rw [hexNumber, foldl_cons, hb]
  rfl

lemma ne_of_hexValue {b} (h : (hexValue b).isSome) : b ≠ 13 ∧ b ≠ 10 := by
  constructor <;> rintro rfl <;> exact absurd h (by decide)

/-- The extensions of a chunk, or none. -/
def Extensions (ext : List UInt8) : Prop := ext = [] ∨ ∃ text, ext = 59 :: text ∧ FieldText text

/-- A line with the size of a chunk. -/
structure ChunkLine (digits ext : List UInt8) (size : ℕ) : Prop where
  ne : digits ≠ []
  hex : HexDigits digits
  number : hexNumber 0 digits = size
  limit : size < U64_LIMIT
  extensions : Extensions ext
  length : digits.length + ext.length + 2 ≤ MAX_CHUNK_LINE

/-- Lines up to an empty one. -/
def TrailerLines (bytes : List UInt8) : Prop :=
  ∃ lines : List (List UInt8), (∀ line ∈ lines, line ≠ [] ∧ FieldText line) ∧
    bytes = unlines lines ++ CRLF

/-- **The chunked bodies.** -/
inductive ChunkedBody : List UInt8 → Prop where
  | last (digits ext trailers : List UInt8) (hline : ChunkLine digits ext 0)
      (htrailers : TrailerLines trailers) (hlength : trailers.length ≤ MAX_TRAILERS) :
      ChunkedBody (digits ++ (ext ++ (CRLF ++ trailers)))
  | chunk (digits ext data rest : List UInt8) (hline : ChunkLine digits ext data.length)
      (hdata : data ≠ []) (hrest : ChunkedBody rest) :
      ChunkedBody (digits ++ (ext ++ (CRLF ++ (data ++ (CRLF ++ rest)))))

/-- **The bodies that a framing delimits.** -/
def Framed : RequestBodyKind → List UInt8 → Prop
  | .none, body => body = []
  | .contentLength length, body => body.length = length
  | .chunked, body => ChunkedBody body

/-! ### What is left of a body -/

/-- What follows a size line. -/
def AfterSize (size : ℕ) (bytes : List UInt8) : Prop :=
  if size = 0 then TrailerLines bytes ∧ bytes.length ≤ MAX_TRAILERS
  else ∃ data rest, bytes = data ++ (CRLF ++ rest) ∧ data.length = size ∧ ChunkedBody rest

open RequestBodyDecoder

namespace ChunkState

/-- What is left of a body in a state of the decoder. -/
def Rest : ChunkState → List UInt8 → Prop
  | .sizeLine size digits _ true lineBytes, bytes =>
    ∃ rest, bytes = 10 :: rest ∧ digits ≠ 0 ∧ lineBytes + 1 ≤ MAX_CHUNK_LINE ∧
      AfterSize size rest
  | .sizeLine size digits true false lineBytes, bytes =>
    ∃ text rest, bytes = text ++ (CRLF ++ rest) ∧ FieldText text ∧ digits ≠ 0 ∧
      lineBytes + text.length + 2 ≤ MAX_CHUNK_LINE ∧ AfterSize size rest
  | .sizeLine size digits false false lineBytes, bytes =>
    ∃ more ext rest, bytes = more ++ (ext ++ (CRLF ++ rest)) ∧ HexDigits more ∧
      Extensions ext ∧ digits + more.length ≠ 0 ∧ (more ≠ [] → hexNumber size more < U64_LIMIT) ∧
      lineBytes + more.length + ext.length + 2 ≤ MAX_CHUNK_LINE ∧
      AfterSize (hexNumber size more) rest
  | .data remaining, bytes =>
    ∃ data rest, bytes = data ++ (CRLF ++ rest) ∧ data.length = remaining ∧ ChunkedBody rest
  | .dataCr, bytes => ∃ rest, bytes = CRLF ++ rest ∧ ChunkedBody rest
  | .dataLf, bytes => ∃ rest, bytes = 10 :: rest ∧ ChunkedBody rest
  | .trailers lineBytes totalBytes true, bytes =>
    totalBytes + bytes.length ≤ MAX_TRAILERS ∧
      if lineBytes = 0 then bytes = [10] else ∃ rest, bytes = 10 :: rest ∧ TrailerLines rest
  | .trailers lineBytes totalBytes false, bytes =>
    totalBytes + bytes.length ≤ MAX_TRAILERS ∧
      if lineBytes = 0 then TrailerLines bytes
      else ∃ text rest, bytes = text ++ (CRLF ++ rest) ∧ FieldText text ∧ TrailerLines rest

variable {bytes : List UInt8} {size : ℕ}

lemma rest_start_of_line {digits ext rest} (hline : ChunkLine digits ext size)
    (hafter : AfterSize size rest) : start.Rest (digits ++ (ext ++ (CRLF ++ rest))) := by
  have hpos := length_pos_of_ne_nil hline.ne
  have hlength := hline.length
  refine ⟨digits, ext, rest, rfl, hline.hex, hline.extensions, by omega, fun _ => ?_, by omega, ?_⟩
  · rw [hline.number]
    exact hline.limit
  · rw [hline.number]
    exact hafter

/-- At the start of a chunk a whole body is left. -/
lemma rest_start_iff : start.Rest bytes ↔ ChunkedBody bytes := by
  constructor
  · rintro ⟨digits, ext, rest, rfl, hhex, hext, hdigits, hlimit, hlength, hafter⟩
    have hne : digits ≠ [] := fun hnil => hdigits (by rw [hnil]; rfl)
    unfold AfterSize at hafter
    split_ifs at hafter with hzero
    · refine .last digits ext rest ⟨hne, hhex, hzero, by decide, hext, ?_⟩ hafter.1 hafter.2
      omega
    · obtain ⟨data, rest, rfl, hsize, hrest⟩ := hafter
      refine .chunk digits ext data rest
        ⟨hne, hhex, hsize.symm, hsize ▸ hlimit hne, hext, by omega⟩ (fun hnil => hzero ?_) hrest
      rw [← hsize, hnil]
      rfl
  · intro h
    cases h with
    | last digits ext trailers hline htrailers hlength =>
      refine rest_start_of_line hline ?_
      exact ⟨htrailers, hlength⟩
    | chunk digits ext data rest hline hdata hrest =>
      refine rest_start_of_line hline ?_
      rw [AfterSize, if_neg fun h => hdata (List.length_eq_zero_iff.mp h)]
      exact ⟨data, rest, rfl, rfl, hrest⟩

lemma rest_afterSize_iff : (afterSize size).Rest bytes ↔ AfterSize size bytes := by
  rw [afterSize, AfterSize]
  split_ifs with hzero
  · simp only [Rest, if_pos]
    rw [zero_add, and_comm]
  · rfl

/-- What is left after a byte. -/
def RestAfter (bytes : List UInt8) : Except IoError (Bool × ChunkState) → Prop
  | .ok (true, _) => bytes = []
  | .ok (false, next) => next.Rest bytes
  | .error _ => False

/-- The first byte of a line, or the CR that ends it. -/
lemma line_cons_iff {q : UInt8 → Prop} {P : List UInt8 → List UInt8 → Prop} {byte : UInt8} :
    (∃ text rest, byte :: bytes = text ++ (CRLF ++ rest) ∧ (∀ b ∈ text, q b) ∧ P text rest) ↔
      (byte = 13 ∧ ∃ rest, bytes = 10 :: rest ∧ P [] rest) ∨
      (q byte ∧ ∃ text rest, bytes = text ++ (CRLF ++ rest) ∧ (∀ b ∈ text, q b) ∧
        P (byte :: text) rest) := by
  constructor
  · rintro ⟨_ | ⟨b, text⟩, rest, heq, htext, hp⟩
    · obtain ⟨rfl, rfl⟩ := cons_eq_cons.mp heq
      exact .inl ⟨rfl, rest, rfl, hp⟩
    · obtain ⟨rfl, rfl⟩ := cons_eq_cons.mp heq
      obtain ⟨hbyte, htext⟩ := forall_mem_cons.mp htext
      exact .inr ⟨hbyte, text, rest, rfl, htext, hp⟩
  · rintro (⟨rfl, rest, rfl, hp⟩ | ⟨hbyte, text, rest, rfl, htext, hp⟩)
    · exact ⟨[], rest, rfl, nofun, hp⟩
    · exact ⟨byte :: text, rest, rfl, forall_mem_cons.mpr ⟨hbyte, htext⟩, hp⟩

/-- **The digits of a size line**: another digit, the extensions, or the CR. -/
lemma rest_digits_cons_iff {digits lineBytes byte} :
    (sizeLine size digits false false lineBytes).Rest (byte :: bytes) ↔
      RestAfter bytes (consumeSize size digits false false lineBytes byte) := by
  unfold consumeSize
  simp only [Bool.false_eq_true, if_false, if_true]
  constructor
  · rintro ⟨_ | ⟨b, more⟩, ext, rest, heq, hhex, hext, hdigits, hlimit, hle, hafter⟩
    · rcases hext with rfl | ⟨text, rfl, htext⟩ <;> obtain ⟨rfl, rfl⟩ := cons_eq_cons.mp heq
      · rw [if_neg (by omega)]
        exact ⟨rest, rfl, hdigits, hle, hafter⟩
      · rw [length_cons] at hle
        rw [if_neg (by omega), if_neg (by decide), if_neg (by decide)]
        show RestAfter _ (if _ then _ else _)
        rw [if_pos ⟨rfl, hdigits⟩]
        exact ⟨text, rest, rfl, htext, hdigits, by omega, hafter⟩
    · obtain ⟨rfl, rfl⟩ := cons_eq_cons.mp heq
      obtain ⟨hbyte, hhex⟩ := forall_mem_cons.mp hhex
      obtain ⟨value, hvalue⟩ := isSome_iff_exists.mp hbyte
      have hne := ne_of_hexValue hbyte
      rw [length_cons] at hle
      rw [hexNumber_cons hvalue] at hlimit hafter
      have hlimit' := hlimit (cons_ne_nil _ _)
      rw [if_neg (by omega), if_neg hne.1, if_neg hne.2, hvalue]
      simp only [if_pos ((le_hexNumber _ more).trans_lt hlimit')]
      exact ⟨more, ext, rest, rfl, hhex, hext, by omega, fun _ => hlimit', by omega, hafter⟩
  · cases hvalue : hexValue byte with
    | some value =>
      dsimp only
      split_ifs with hlong hcr hlf hlimit
      · exact elim
      · rintro ⟨rest, rfl, hdigits, hle, hafter⟩
        exact ⟨[], [], rest, by rw [hcr]; rfl, nofun, .inl rfl, hdigits, nofun, hle, hafter⟩
      · exact elim
      · rintro ⟨more, ext, rest, rfl, hhex, hext, hdigits, hlimit', hle, hafter⟩
        rw [← hexNumber_cons hvalue] at hlimit' hafter
        refine ⟨byte :: more, ext, rest, rfl, forall_mem_cons.mpr ⟨by simp [hvalue], hhex⟩,
          hext, by simp, fun _ => ?_, by rw [length_cons]; omega, hafter⟩
        cases more with
        | nil => simpa [hexNumber, hvalue] using hlimit
        | cons b more => exact hlimit' (cons_ne_nil _ _)
      · exact elim
    | none =>
      split_ifs with hlong hcr hlf hsemicolon
      · exact elim
      · rintro ⟨rest, rfl, hdigits, hle, hafter⟩
        exact ⟨[], [], rest, by rw [hcr]; rfl, nofun, .inl rfl, hdigits, nofun, hle, hafter⟩
      · exact elim
      · rintro ⟨text, rest, rfl, htext, -, hle, hafter⟩
        exact ⟨[], 59 :: text, rest, by rw [hsemicolon.1]; rfl, nofun,
          .inr ⟨text, rfl, htext⟩, hsemicolon.2, nofun, by
            rw [length_nil, length_cons]; omega, hafter⟩
      · exact elim

/-- **A size line**, by its next byte. -/
lemma rest_sizeLine_cons_iff {digits lineBytes : ℕ} {inExtensions sawCr : Bool} {byte : UInt8} :
    (sizeLine size digits inExtensions sawCr lineBytes).Rest (byte :: bytes) ↔
      RestAfter bytes (consumeSize size digits inExtensions sawCr lineBytes byte) := by
  cases sawCr with
  | true =>
    unfold consumeSize
    have hrest : (sizeLine size digits inExtensions true lineBytes).Rest (byte :: bytes) ↔
        byte = 10 ∧ digits ≠ 0 ∧ lineBytes + 1 ≤ MAX_CHUNK_LINE ∧ AfterSize size bytes := by
      simp [Rest, and_assoc]
    split_ifs <;> simp_all [RestAfter, rest_afterSize_iff]
  | false =>
    cases inExtensions with
    | true =>
      unfold consumeSize
      refine (line_cons_iff (q := fun b => isFieldValueByte b)
        (P := fun text rest => digits ≠ 0 ∧ lineBytes + text.length + 2 ≤ MAX_CHUNK_LINE ∧
          AfterSize size rest)).trans ?_
      simp only [Bool.false_eq_true, Bool.true_eq_false, if_false, length_cons]
      split_ifs with hlong hcr hlf hbyte
      · simp only [RestAfter, iff_false]
        rintro (⟨-, rest, -, -, hle, -⟩ | ⟨-, text, rest, -, -, -, hle, -⟩) <;> omega
      · simp [RestAfter, Rest, hcr, show isFieldValueByte 13 = false by decide]
        rfl
      · simp [RestAfter, hlf, show isFieldValueByte 10 = false by decide]
      · simp [RestAfter, Rest, hcr, hbyte, FieldText, add_assoc, add_comm 1]
      · simp [RestAfter, hcr, hbyte]
    | false => exact rest_digits_cons_iff

/-- Trailers are empty, or start with a line. -/
lemma trailerLines_cons_iff {byte} : TrailerLines (byte :: bytes) ↔
    (byte = 13 ∧ bytes = [10]) ∨ (isFieldValueByte byte ∧ ∃ text rest,
      bytes = text ++ (CRLF ++ rest) ∧ FieldText text ∧ TrailerLines rest) := by
  constructor
  · rintro ⟨_ | ⟨line, lines⟩, hlines, heq⟩
    · exact .inl (cons_eq_cons.mp heq)
    · obtain ⟨⟨hne, htext⟩, hrest⟩ := forall_mem_cons.mp hlines
      obtain ⟨b, text, rfl⟩ := exists_cons_of_ne_nil hne
      rw [unlines_cons, append_assoc, append_assoc] at heq
      obtain ⟨rfl, rfl⟩ := cons_eq_cons.mp heq
      obtain ⟨hb, htext⟩ := forall_mem_cons.mp htext
      exact .inr ⟨hb, text, _, rfl, htext, lines, hrest, rfl⟩
  · rintro (⟨rfl, rfl⟩ | ⟨hb, text, rest, rfl, htext, lines, hlines, rfl⟩)
    · exact ⟨[], nofun, rfl⟩
    · refine ⟨(byte :: text) :: lines, forall_mem_cons.mpr
        ⟨⟨cons_ne_nil _ _, forall_mem_cons.mpr ⟨hb, htext⟩⟩, hlines⟩, ?_⟩
      rw [unlines_cons, append_assoc, append_assoc]
      rfl

/-- **The trailers**, by their next byte. -/
lemma rest_trailers_cons_iff {lineBytes totalBytes : ℕ} {sawCr : Bool} {byte : UInt8} :
    (trailers lineBytes totalBytes sawCr).Rest (byte :: bytes) ↔
      RestAfter bytes (consumeTrailer lineBytes totalBytes sawCr byte) := by
  unfold consumeTrailer
  have hlen : totalBytes + (bytes.length + 1) = totalBytes + 1 + bytes.length := by omega
  have hlong : totalBytes + 1 > MAX_TRAILERS → ¬totalBytes + 1 + bytes.length ≤ MAX_TRAILERS := by
    omega
  cases sawCr with
  | true =>
    split_ifs <;> simp_all [RestAfter, Rest]
  | false =>
    have hline := @line_cons_iff bytes (fun b => isFieldValueByte b)
      (fun _ rest => TrailerLines rest) byte
    simp only [Rest, length_cons, Bool.false_eq_true, trailerLines_cons_iff, FieldText, hline, hlen]
    have hcr : isFieldValueByte 13 = false := by decide
    have hlf : isFieldValueByte 10 = false := by decide
    split_ifs <;> simp_all [RestAfter, Rest, FieldText]

/-- A chunk of no bytes has no data. -/
def Proper (state : ChunkState) : Prop := state ≠ .data 0

variable {state : ChunkState}

/-- **What is left of a body, byte by byte.** -/
lemma rest_cons_iff (hproper : state.Proper) (byte : UInt8) :
    state.Rest (byte :: bytes) ↔ RestAfter bytes (state.consume byte) := by
  cases state with
  | sizeLine => exact rest_sizeLine_cons_iff
  | trailers => exact rest_trailers_cons_iff
  | data remaining =>
    obtain ⟨n, rfl⟩ : ∃ n, remaining = n + 1 :=
      exists_eq_succ_of_ne_zero fun h => hproper (congrArg data h)
    have hsplit : (data (n + 1)).Rest (byte :: bytes) ↔
        ∃ data rest, bytes = data ++ (CRLF ++ rest) ∧ data.length = n ∧ ChunkedBody rest := by
      constructor
      · rintro ⟨_ | ⟨b, data⟩, rest, heq, hlen, hrest⟩
        · simp at hlen
        · exact ⟨data, rest, (cons_eq_cons.mp heq).2, by simpa using hlen, hrest⟩
      · rintro ⟨data, rest, rfl, rfl, hrest⟩
        exact ⟨byte :: data, rest, rfl, rfl, hrest⟩
    rw [hsplit, consume, Nat.add_sub_cancel]
    split_ifs with hzero <;> simp [RestAfter, Rest, hzero]
  | dataCr =>
    simp only [consume]
    split_ifs <;> simp_all [RestAfter, Rest, CRLF]
  | dataLf =>
    simp only [Rest, consume]
    split_ifs <;> simp_all [RestAfter, rest_start_iff]

lemma not_rest_nil (hproper : state.Proper) : ¬state.Rest [] := by
  cases state with
  | sizeLine size digits inExtensions sawCr lineBytes =>
    cases sawCr <;> cases inExtensions <;> simp [Rest, CRLF]
  | trailers lineBytes totalBytes sawCr =>
    have hnil : ¬TrailerLines [] := by simp [TrailerLines, CRLF]
    cases sawCr <;> simp [Rest, CRLF, hnil]
  | data remaining => simp [Rest, CRLF]
  | dataCr | dataLf => simp [Rest, CRLF]

lemma Proper.consume {next : ChunkState} {byte finished}
    (h : state.consume byte = .ok (finished, next)) : next.Proper := by
  have hafter : ∀ size, (afterSize size).Proper := fun size => by
    unfold afterSize
    split_ifs <;> simp_all [Proper]
  cases state with
  | sizeLine =>
    simp only [consume, consumeSize] at h
    cases hvalue : hexValue byte <;> rw [hvalue] at h <;> dsimp only at h <;> split_ifs at h <;>
      cases h <;> simp [Proper]
    all_goals exact hafter _
  | data | dataCr | dataLf | trailers =>
    simp only [consume, consumeTrailer] at h
    split_ifs at h <;> cases h <;> simp_all [Proper, start]

/-- **The decoder ends where the grammar has the end.** -/
lemma runs_chunked_iff (hproper : state.Proper) (bytes : List UInt8) :
    (chunked state).runs bytes = some .done ↔ state.Rest bytes := by
  induction bytes generalizing state with
  | nil =>
    exact ⟨fun h => absurd (some.inj h) (by simp), fun h => absurd h (not_rest_nil hproper)⟩
  | cons byte bytes ih =>
    rw [rest_cons_iff hproper, RequestBodyDecoder.runs, RequestBodyDecoder.consume]
    rcases hconsume : state.consume byte with e | ⟨_ | _, next⟩
    · simp [bind, Except.bind, RestAfter]
    · exact ih (Proper.consume hconsume)
    · exact runs_done_iff

end ChunkState

/-- **The decoder ends where the framing has the end of the body.** -/
lemma runs_new_iff (kind : RequestBodyKind) (body : List UInt8) :
    (new kind).runs body = some .done ↔ Framed kind body := by
  cases kind with
  | none => exact runs_done_iff
  | contentLength length =>
    rw [new, Framed]
    split_ifs with hzero
    · rw [hzero, length_eq_zero_iff]
      exact runs_done_iff
    · constructor
      · intro h
        rcases lt_or_ge length body.length with hlt | hle
        · -- the bytes after the boundary are refused
          have hfull : (contentLength length).runs (body.take length)
              = some .done := by
            rw [runs_contentLength (length_take_le _ _) hzero,
              length_take_of_le hlt.le, Nat.sub_self, if_pos rfl]
          rw [← take_append_drop length body, runs_append, hfull, bind_some, runs_done] at h
          · simp at h
          · rw [Ne, drop_eq_nil_iff]
            omega
        · rw [runs_contentLength hle hzero] at h
          split_ifs at h with hrest
          · omega
          · exact absurd (some.inj h) (by simp)
      · intro h
        rw [runs_contentLength h.le hzero, h, Nat.sub_self, if_pos rfl]
  | chunked =>
    rw [new, Framed, runs_chunked_iff (by simp [ChunkState.Proper, start]),
      rest_start_iff]

end Meow.Http
