import Mathlib.Tactic

/-!
# Streams of self-delimiting frames

A frame format is self-delimiting when the end of a frame can be told from its own bytes. A
stream of such frames can then be cut in one way only, wherever it ends. This is the fact every
proof about a framed connection rests on: what a reader has taken from the stream so far fixes
the frames it has seen.

## Main definitions

* `SelfDelimiting` — no frame of the format is the start of a different one.
* `Incremental` — a decoder that can be run on what has arrived so far.
* `decodeAll`, `feed` — decode all frames of a buffer, and do so again after each
  chunk that arrives.

## Main results

* `SelfDelimiting.split` — frames taken from the front of a stream of frames are the first
  frames of the stream, and what is left is the stream of the others.
* `Incremental.feed_eq_decodeAll` — the frames decoded do not depend on how the stream was
  cut into chunks.
-/

namespace Meow

open List

variable {α β : Type} {enc : α → List β} {ok : α → Prop}

/-- The frames `enc a` of the values that are `ok` are non-empty, and a stream that starts with
one of them starts with no other. -/
structure SelfDelimiting (enc : α → List β) (ok : α → Prop) : Prop where
  ne_nil : ∀ a, ok a → enc a ≠ []
  inj : ∀ a b u v, ok a → ok b → enc a ++ u = enc b ++ v → a = b

/-- **Unique cutting.** If the frames of `xs` followed by `t` are the frames of `ds`, then `xs`
is the start of `ds` and `t` holds the frames of the rest. -/
lemma SelfDelimiting.split (h : SelfDelimiting enc ok) {xs ds : List α} {t} (hxs : ∀ a ∈ xs, ok a)
    (hds : ∀ a ∈ ds, ok a) (heq : xs.flatMap enc ++ t = ds.flatMap enc) :
    ∃ ys, ds = xs ++ ys ∧ t = ys.flatMap enc := by
  induction xs generalizing ds with
  | nil => exact ⟨ds, rfl, heq⟩
  | cons x xs ih =>
    have hx := hxs x mem_cons_self
    cases ds with
    | nil =>
      -- the empty stream starts with no frame
      simp only [flatMap_cons, flatMap_nil, append_eq_nil_iff] at heq
      exact absurd heq.1.1 (h.ne_nil x hx)
    | cons d ds =>
      simp only [flatMap_cons, append_assoc] at heq
      have hxd : x = d := h.inj x d _ _ hx (hds d mem_cons_self) heq
      subst hxd
      obtain ⟨ys, rfl, ht⟩ := ih (fun a ha => hxs a (mem_cons_of_mem _ ha))
        (fun a ha => hds a (mem_cons_of_mem _ ha)) (append_cancel_left heq)
      exact ⟨ys, rfl, ht⟩

/-! ### Incremental decoding -/

section Incremental

variable {decode : List β → Option (α × List β)}

/-- A decoder that takes one frame from the front of a buffer if a whole one is there: more
bytes behind the frame change nothing, and each frame takes at least one byte. -/
structure Incremental (decode : List β → Option (α × List β)) : Prop where
  stable : ∀ {x a r} (y : List β), decode x = some (a, r) → decode (x ++ y) = some (a, r ++ y)
  shrinks : ∀ {x a r}, decode x = some (a, r) → r.length < x.length

/-- `while let Some(frame) = decode(buffer)`, for at most `fuel` rounds: the frames, and the
bytes left. -/
def decodeLoop (decode : List β → Option (α × List β)) : ℕ → List β → List α × List β
  | 0, src => ([], src)
  | fuel + 1, src =>
    match decode src with
    | none => ([], src)
    | some (a, rest) => ((a :: (decodeLoop decode fuel rest).1), (decodeLoop decode fuel rest).2)

/-- All frames of a buffer. Each takes a byte, so the buffer's length bounds the rounds. -/
def decodeAll (decode : List β → Option (α × List β)) (src : List β) : List α × List β :=
  decodeLoop decode src.length src

/-- Decode all frames after each chunk that arrives, from what the last round left. -/
def feed (decode : List β → Option (α × List β)) : List β → List (List β) → List α × List β
  | buffer, [] => ([], buffer)
  | buffer, chunk :: chunks =>
    let r := decodeAll decode (buffer ++ chunk)
    (r.1 ++ (feed decode r.2 chunks).1, (feed decode r.2 chunks).2)

namespace Incremental

variable {src : List β}

/-- Rounds beyond the length of the buffer change nothing. -/
lemma decodeLoop_eq (h : Incremental decode) {fuel} (hfuel : src.length ≤ fuel) :
    decodeLoop decode fuel src = decodeAll decode src := by
  unfold decodeAll
  induction fuel using Nat.strong_induction_on generalizing src with
  | _ fuel ih =>
    cases hd : decode src with
    | none =>
      cases fuel <;> cases hlen : src.length <;> simp [decodeLoop, hd]
    | some ar =>
      obtain ⟨a, r⟩ := ar
      have hlt := h.shrinks hd
      obtain ⟨n, hn⟩ : ∃ n, src.length = n + 1 := ⟨src.length - 1, by omega⟩
      obtain ⟨m, rfl⟩ : ∃ m, fuel = m + 1 := ⟨fuel - 1, by omega⟩
      have h1 : decodeLoop decode m r = decodeLoop decode r.length r :=
        ih m (by omega) (by omega)
      have h2 : decodeLoop decode n r = decodeLoop decode r.length r :=
        ih n (by omega) (by omega)
      simp only [hn, decodeLoop, hd, h1, h2]

lemma decodeAll_of_none (hd : decode src = none) : decodeAll decode src = ([], src) := by
  unfold decodeAll
  cases src.length <;> simp [decodeLoop, hd]

variable (h : Incremental decode)
include h

lemma decodeAll_of_some {r a} (hd : decode src = some (a, r)) :
    decodeAll decode src = (a :: (decodeAll decode r).1, (decodeAll decode r).2) := by
  have hlt := h.shrinks hd
  obtain ⟨n, hn⟩ : ∃ n, src.length = n + 1 := ⟨src.length - 1, by omega⟩
  have hr : decodeLoop decode n r = decodeAll decode r := h.decodeLoop_eq (by omega)
  rw [decodeAll, hn]
  simp only [decodeLoop, hd, hr]

/-- Nothing can be decoded from what a round leaves. -/
lemma decode_rest (src : List β) : decode (decodeAll decode src).2 = none := by
  induction hlen : src.length using Nat.strong_induction_on generalizing src with
  | _ n ih =>
    cases hd : decode src with
    | none => rw [decodeAll_of_none hd, hd]
    | some ar =>
      obtain ⟨a, r⟩ := ar
      have hlt := h.shrinks hd
      rw [h.decodeAll_of_some hd]
      exact ih r.length (by omega) r rfl

/-- Decoding what arrives later continues from what was left. -/
lemma decodeAll_append (x y : List β) :
    decodeAll decode (x ++ y) =
      ((decodeAll decode x).1 ++ (decodeAll decode ((decodeAll decode x).2 ++ y)).1,
        (decodeAll decode ((decodeAll decode x).2 ++ y)).2) := by
  induction hlen : x.length using Nat.strong_induction_on generalizing x with
  | _ n ih =>
    cases hd : decode x with
    | none => rw [decodeAll_of_none hd, nil_append]
    | some ar =>
      obtain ⟨a, r⟩ := ar
      have hlt := h.shrinks hd
      rw [h.decodeAll_of_some (h.stable y hd), h.decodeAll_of_some hd, ih r.length (by omega) r rfl]
      rfl

/-- **Chunking does not matter.** Fed chunk by chunk, the decoder puts out the frames of the
whole stream. -/
lemma feed_eq_decodeAll (buffer : List β) (chunks : List (List β)) (hbuf : decode buffer = none) :
    feed decode buffer chunks = decodeAll decode (buffer ++ chunks.flatten) := by
  induction chunks generalizing buffer with
  | nil => rw [flatten_nil, append_nil, decodeAll_of_none hbuf, feed]
  | cons chunk chunks ih =>
    rw [feed, ih _ (h.decode_rest _), flatten_cons, ← append_assoc,
      h.decodeAll_append (buffer ++ chunk)]

variable (hdec : ∀ a r, ok a → decode (enc a ++ r) = some (a, r))
include hdec

/-- The frames at the front of a stream are decoded one by one. -/
lemma decodeAll_frames {xs : List α} (hxs : ∀ a ∈ xs, ok a) (t : List β) :
    decodeAll decode (xs.flatMap enc ++ t) =
      (xs ++ (decodeAll decode t).1, (decodeAll decode t).2) := by
  induction xs with
  | nil => rfl
  | cons x xs ih =>
    rw [flatMap_cons, append_assoc, h.decodeAll_of_some (hdec x _ (hxs x mem_cons_self)),
      ih fun a ha => hxs a (mem_cons_of_mem _ ha)]
    rfl

/-- **Decoding the start of a stream of frames.** The frames put out are the first frames of
the stream, and together with what is left they are the bytes that have arrived.

**Proof sketch.** Induction on the frames. If what has arrived reaches to the end of the first
frame, that frame is decoded and the rest is the start of the other frames; if not, the decoder
must wait: a frame decoded from less would also be decoded, by stability, from the whole
stream, and would leave too much. -/
lemma decodeAll_start {fs : List α} (hfs : ∀ a ∈ fs, ok a) {rest}
    (hsrc : src ++ rest = fs.flatMap enc) :
    (decodeAll decode src).1 <+: fs ∧
      (decodeAll decode src).1.flatMap enc ++ (decodeAll decode src).2 = src := by
  induction fs generalizing src with
  | nil =>
    obtain ⟨rfl, -⟩ := List.append_eq_nil_iff.mp hsrc
    simp [decodeAll, decodeLoop]
  | cons f fs ih =>
    have hf := hfs f mem_cons_self
    rw [flatMap_cons] at hsrc
    rcases le_or_gt (enc f).length src.length with hle | hgt
    · -- the first frame has arrived
      obtain ⟨src', rfl⟩ : enc f <+: src :=
        prefix_of_prefix_length_le ⟨_, rfl⟩ ⟨_, hsrc⟩ hle
      rw [append_assoc] at hsrc
      obtain ⟨hpre, hjoin⟩ := ih (fun a ha => hfs a (mem_cons_of_mem _ ha))
        (append_cancel_left hsrc)
      rw [h.decodeAll_of_some (hdec f src' hf)]
      refine ⟨(prefix_cons_inj f).mpr hpre, ?_⟩
      rw [flatMap_cons, append_assoc, hjoin]
    · cases hd : decode src with
      | none => simp [decodeAll_of_none hd]
      | some ar =>
        have hstable := h.stable rest hd
        rw [hsrc, hdec f _ hf] at hstable
        simp only [Option.some.injEq, Prod.mk.injEq] at hstable
        have h1 := congrArg length hstable.2
        have h2 := congrArg length hsrc
        simp only [length_append] at h1 h2
        omega

end Incremental

end Incremental

end Meow
