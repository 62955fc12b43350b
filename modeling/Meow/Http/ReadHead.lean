import Meow.Http.Parsed

/-!
# Reading a request head

The head arrives in reads of any size. After each read the proxy looks for the end of the head, from
shortly before the new bytes, and for bare line endings, from the last byte it could not decide on.
This is what looking at all the bytes would give, so where the reads were cut does not matter.

## Main definitions

* `HeadReader.read` — what is done with a read.
* `headResult` — the decision about the bytes that have arrived, as a whole.

## Main results

* `ReaderOk.read` — a read decides as the whole does.
* `headResult_append_complete`, `headResult_append_invalid` — what was decided
  does not change when more arrives.
-/

namespace Meow.Http

open List Option

def MAX_HEADERS : ℕ := 8192

structure HeadReader where
  requestBuf : List UInt8
  validated : ℕ
  deriving DecidableEq

def HeadReader.start : HeadReader := ⟨[], 0⟩

/-- What a read leads to. -/
inductive HeadStep where
  | more (r : HeadReader)
  | complete (requestBuf : List UInt8) (headerEnd : ℕ)
  | invalid (message : String)
  deriving DecidableEq

/-- The bytes of a read. -/
def HeadReader.read (r : HeadReader) (chunk : List UInt8) : HeadStep :=
  let searchStart := r.requestBuf.length - 3
  let requestBuf := r.requestBuf ++ chunk
  let headerEnd := (findCrlfCrlf (requestBuf.drop searchStart)).map (searchStart + · + 4)
  let bytesToValidate := headerEnd.getD requestBuf.length
  if bareLineEndingFrom (requestBuf.take bytesToValidate) (r.validated - 1) then
    .invalid "bare CR or LF in request headers"
  else
    match headerEnd with
    | some headerEnd =>
      if headerEnd > MAX_HEADERS then .invalid "request headers too large"
      else .complete requestBuf headerEnd
    | none =>
      if requestBuf.length > MAX_HEADERS then .invalid "request headers too large"
      else .more { requestBuf, validated := bytesToValidate }

/-! ### The decision about the whole -/

inductive HeadResult where
  | more
  | complete (headerEnd : ℕ)
  | invalid
  deriving DecidableEq

/-- **The decision about the bytes that have arrived**: the first empty line ends the head; up to it
there is no bare line ending, and it does not come late. -/
def headResult (stream : List UInt8) : HeadResult :=
  match findCrlfCrlf stream with
  | some marker =>
    if hasBareLineEnding (stream.take (marker + 4)) = true ∨ marker + 4 > MAX_HEADERS then .invalid
    else .complete (marker + 4)
  | none =>
    if hasBareLineEnding stream = true ∨ stream.length > MAX_HEADERS then .invalid else .more

lemma crlfCrlf_ne_nil : CRLF ++ CRLF ≠ [] := by decide

variable {l : List UInt8}

/-- What is bare stays bare. -/
lemma bareAt_append_left {i} (h : bareAt l i) (m : List UInt8) : bareAt (l ++ m) i = true := by
  have hi : i < l.length := by
    by_contra hge
    rw [bareAt_eq_false_of_length_le (not_lt.mp hge)] at h
    cases h
  have hget : ∀ j < l.length, (l ++ m)[j]? = l[j]? := fun j hj => getElem?_append_left hj
  rw [bareAt] at h ⊢
  rw [hget i hi, hget (i - 1) (by omega)]
  split_ifs at h ⊢ with hlf hcr
  · exact h
  · rw [Bool.and_eq_true, decide_eq_true_eq] at h ⊢
    rw [hget (i + 1) h.1, length_append]
    exact ⟨by omega, h.2⟩

lemma hasBareLineEnding_append (h : hasBareLineEnding l) (m : List UInt8) :
    hasBareLineEnding (l ++ m) = true := by
  by_contra hnot
  rw [Bool.not_eq_true, hasBareLineEnding_eq_false_iff] at hnot
  have hl : hasBareLineEnding l = false := hasBareLineEnding_eq_false_iff.mpr fun i => by
    rw [Bool.eq_false_iff]
    intro hi
    exact absurd (bareAt_append_left hi m) (by rw [hnot i]; decide)
  rw [h] at hl
  cases hl

/-- **Only the last byte was undecided**: a scan that starts there finds what a whole scan does. -/
lemma bareLineEndingFrom_resume (h : hasBareLineEnding l = false)
    (m : List UInt8) : bareLineEndingFrom (l ++ m) (l.length - 1) = hasBareLineEnding (l ++ m) := by
  rw [Bool.eq_iff_iff, ← not_iff_not, Bool.not_eq_true, Bool.not_eq_true,
    bareLineEndingFrom_eq_false_iff, hasBareLineEnding_eq_false_iff]
  refine ⟨fun hfrom i => ?_, fun hall i _ => hall i⟩
  rcases Nat.lt_or_ge i (l.length - 1) with hlt | hge
  · have hl := hasBareLineEnding_eq_false_iff.mp h i
    have hget : ∀ j < l.length, (l ++ m)[j]? = l[j]? := fun j hj => getElem?_append_left hj
    have hlen : (i + 1 < (l ++ m).length) ↔ (i + 1 < l.length) := by
      rw [length_append]
      omega
    rw [bareAt] at hl ⊢
    rw [hget i (by omega), hget (i - 1) (by omega), hget (i + 1) (by omega)]
    simp only [hlen]
    exact hl
  · exact hfrom i hge

/-- An end of the head that was not there before comes after the bytes that were. -/
lemma lt_of_findCrlfCrlf_append {l m : List UInt8} {marker} (h : findCrlfCrlf l = none)
    (h' : findCrlfCrlf (l ++ m) = some marker) : l.length < marker + 4 := by
  by_contra hle
  have hpre := ((findWindow_eq_some_iff crlfCrlf_ne_nil).mp h').1
  exact (findWindow_eq_none_iff crlfCrlf_ne_nil).mp h marker
    (prefix_drop_of_append hpre (not_lt.mp hle))

/-- Once the end of the head is there, what follows does not matter. -/
lemma headResult_append_of_find {marker} (hfind : findCrlfCrlf l = some marker) (m : List UInt8) :
    headResult (l ++ m) = headResult l := by
  have hle : marker + 4 ≤ l.length := findWindow_length_le crlfCrlf_ne_nil hfind
  have hfind' : findCrlfCrlf (l ++ m) = some marker :=
    findWindow_append crlfCrlf_ne_nil hfind m
  simp only [headResult, hfind, hfind', take_append_of_le_length hle]

/-- **A head that is complete** stays so. -/
lemma headResult_append_complete {headerEnd} (h : headResult l = .complete headerEnd)
    (m : List UInt8) : headResult (l ++ m) = .complete headerEnd := by
  rcases hfind : findCrlfCrlf l with _ | marker
  · simp only [headResult, hfind] at h
    split_ifs at h
  · rw [headResult_append_of_find hfind, h]

/-- **What was refused** stays refused. -/
lemma headResult_append_invalid (h : headResult l = .invalid) (m : List UInt8) :
    headResult (l ++ m) = .invalid := by
  rcases hfind : findCrlfCrlf l with _ | marker
  · rw [headResult] at h ⊢
    simp only [hfind] at h
    split_ifs at h with hbad
    rcases hfind' : findCrlfCrlf (l ++ m) with _ | marker
    · refine if_pos (hbad.imp (fun hbare => hasBareLineEnding_append hbare m) fun hlong => ?_)
      rw [length_append]
      omega
    · have hlt := lt_of_findCrlfCrlf_append hfind hfind'
      refine if_pos (hbad.imp (fun hbare => ?_) fun hlong => ?_)
      · rw [take_append, take_of_length_le hlt.le]
        exact hasBareLineEnding_append hbare _
      · omega
  · rw [headResult_append_of_find hfind, h]

/-! ### The reader -/

/-- **The invariant of the reader**: nothing is decided, and all that has arrived was looked at. -/
structure ReaderOk (r : HeadReader) : Prop where
  more : headResult r.requestBuf = .more
  validated : r.validated = r.requestBuf.length

lemma readerOk_start : ReaderOk .start := ⟨by decide, rfl⟩

lemma headResult_eq_more {stream} (h : headResult stream = .more) :
    findCrlfCrlf stream = none ∧ hasBareLineEnding stream = false := by
  rw [headResult] at h
  split at h
  · split_ifs at h
  · rename_i hfind
    split_ifs at h with hbad
    rw [not_or, Bool.not_eq_true] at hbad
    exact ⟨hfind, hbad.1⟩

/-- **What a read can do.** -/
inductive ReadSpec (r : HeadReader) (chunk : List UInt8) : HeadStep → Prop where
  | more (r' : HeadReader) (hbuf : r'.requestBuf = r.requestBuf ++ chunk) (hok : ReaderOk r') :
      ReadSpec r chunk (.more r')
  | complete (headerEnd : ℕ)
      (h : headResult (r.requestBuf ++ chunk) = .complete headerEnd) :
      ReadSpec r chunk (.complete (r.requestBuf ++ chunk) headerEnd)
  | invalid (message : String) (h : headResult (r.requestBuf ++ chunk) = .invalid) :
      ReadSpec r chunk (.invalid message)

/-- **A read decides as the whole does.**

**Proof sketch.** No end of the head was there before the read, so it starts at one of the last
three bytes or later; and only the last byte could be the first half of a pair. -/
lemma ReaderOk.read {r : HeadReader} (h : ReaderOk r) (chunk : List UInt8) :
    ReadSpec r chunk (r.read chunk) := by
  obtain ⟨hfind, hbare⟩ := headResult_eq_more h.more
  have hend : (findCrlfCrlf ((r.requestBuf ++ chunk).drop (r.requestBuf.length - 3))).map
      (r.requestBuf.length - 3 + · + 4) = (findCrlfCrlf (r.requestBuf ++ chunk)).map (· + 4) := by
    have hresume := findWindow_resume crlfCrlf_ne_nil hfind chunk
    rw [findCrlfCrlf, findCrlfCrlf, hresume, Option.map_map]
    rfl
  have hscan : ∀ n, r.requestBuf.length ≤ n →
      bareLineEndingFrom ((r.requestBuf ++ chunk).take n) (r.validated - 1)
        = hasBareLineEnding ((r.requestBuf ++ chunk).take n) := by
    intro n hn
    rw [h.validated, take_append, take_of_length_le hn]
    exact bareLineEndingFrom_resume hbare _
  simp only [HeadReader.read, hend]
  rcases hfound : findCrlfCrlf (r.requestBuf ++ chunk) with _ | marker
  · simp only [map_none]
    split_ifs with hbad hlong
    · exact .invalid _ (by grind [headResult])
    · exact .invalid _ (by grind [headResult])
    · exact .more _ rfl ⟨by grind [headResult], rfl⟩
  · simp only [map_some, getD_some]
    rw [hscan _ (lt_of_findCrlfCrlf_append hfind hfound).le]
    split_ifs with hbad hlong
    · exact .invalid _ (by grind [headResult])
    · exact .invalid _ (by grind [headResult])
    · exact .complete _ (by grind [headResult])

end Meow.Http
