import Mathlib.Tactic

/-!
# Fallible loops

Loops over a list whose body can fail: when they succeed, and with what.

## Main results

* `bind_eq_ok_iff` — a sequence succeeds when both parts do.
* `mapM_eq_ok_iff`, `forM_eq_ok_iff` — a loop without a state.
* `foldlM_filter` — elements that change nothing can be left out.
* `foldlM_induction`, `foldlM_simulation` — an invariant of a loop, and of two of them.
* `AllOk` — what every result has.
-/

namespace Meow

open List Except

variable {ε α β σ : Type}

@[simp] lemma except_ok_bind (a : α) (f : α → Except ε β) : (ok a >>= f) = f a := rfl

@[simp] lemma except_error_bind (e : ε) (f : α → Except ε β) :
    ((error e : Except ε α) >>= f) = .error e := rfl

variable {f : α → Except ε β}

/-- A sequence succeeds when both parts do. -/
lemma bind_eq_ok_iff {x b} : (x >>= f) = .ok b ↔ ∃ a, x = .ok a ∧ f a = .ok b := by
  rcases x with e | a
  · exact ⟨nofun, fun ⟨a, h, _⟩ => absurd h (by simp)⟩
  · refine ⟨fun h => ⟨a, rfl, h⟩, ?_⟩
    rintro ⟨a', h, hf⟩
    rw [ok.inj h]
    exact hf

/-- If there is a result, it has the property. -/
def AllOk (P : α → Prop) (x : Except ε α) : Prop := ∀ a, x = .ok a → P a

namespace AllOk

variable {P : α → Prop}

lemma ok {a} (h : P a) : AllOk P (.ok a : Except ε α) :=
  fun _ ha => ok.inj ha ▸ h

lemma error {e} : AllOk P (.error e : Except ε α) := nofun

lemma ite {c : Prop} [Decidable c] {x y : Except ε α} (hx : AllOk P x) (hy : AllOk P y) :
    AllOk P (if c then x else y) := by
  split_ifs
  · exact hx
  · exact hy

lemma bind {x : Except ε β} {f : β → Except ε α} (h : ∀ b, x = .ok b → AllOk P (f b)) :
    AllOk P (x >>= f) := by
  intro a ha
  obtain ⟨b, hb, hfb⟩ := bind_eq_ok_iff.mp ha
  exact h b hb a hfb

end AllOk

variable {l : List α} {bs : List β}

/-- A loop that makes a list succeeds when it does for every element. -/
lemma mapM_eq_ok_iff : l.mapM f = .ok bs ↔ List.Forall₂ (fun a b => f a = .ok b) l bs := by
  induction l generalizing bs with
  | nil =>
    rw [forall₂_nil_left_iff]
    exact ⟨fun h => (ok.inj h).symm, fun h => h ▸ rfl⟩
  | cons a l ih =>
    rw [mapM_cons, forall₂_cons_left_iff, bind_eq_ok_iff]
    constructor
    · rintro ⟨b, hb, h⟩
      obtain ⟨tail, htail, h⟩ := bind_eq_ok_iff.mp h
      exact ⟨b, tail, hb, ih.mp htail, (ok.inj h).symm⟩
    · rintro ⟨b, tail, hb, htail, rfl⟩
      exact ⟨b, hb, bind_eq_ok_iff.mpr ⟨tail, ih.mpr htail, rfl⟩⟩

/-- What a loop makes comes from an element. -/
lemma exists_of_mem_mapM (h : l.mapM f = .ok bs) {b} (hb : b ∈ bs) : ∃ a ∈ l, f a = .ok b := by
  have hall := mapM_eq_ok_iff.mp h
  clear h
  induction hall with
  | nil => exact absurd hb not_mem_nil
  | cons hab _ ih =>
    rcases mem_cons.mp hb with rfl | hb
    · exact ⟨_, mem_cons_self, hab⟩
    · obtain ⟨a, ha, hfa⟩ := ih hb
      exact ⟨a, mem_cons_of_mem _ ha, hfa⟩

/-- A loop depends on what its body does for the elements. -/
lemma mapM_congr {f g : α → Except ε β} (h : ∀ a ∈ l, f a = g a) : l.mapM f = l.mapM g := by
  induction l with
  | nil => rw [mapM_nil, mapM_nil]
  | cons a l ih =>
    obtain ⟨ha, hl⟩ := forall_mem_cons.mp h
    rw [mapM_cons, mapM_cons, ha, ih hl]

/-- A loop that only checks succeeds when every check does. -/
lemma forM_eq_ok_iff {f : α → Except ε Unit} : l.forM f = .ok () ↔ ∀ a ∈ l, f a = .ok () := by
  induction l with
  | nil => exact ⟨fun _ a ha => absurd ha not_mem_nil, fun _ => rfl⟩
  | cons a l ih =>
    have hcons : (a :: l).forM f = (f a >>= fun _ => l.forM f) := rfl
    rw [hcons, bind_eq_ok_iff, forall_mem_cons]
    exact ⟨fun ⟨_, ha, h⟩ => ⟨ha, ih.mp h⟩, fun ⟨ha, h⟩ => ⟨(), ha, ih.mpr h⟩⟩

variable {f : σ → α → Except ε σ}

/-- **Elements that change nothing** can be left out of a loop. -/
lemma foldlM_filter {keep} {l : List α} (h : ∀ a ∈ l, keep a = false → ∀ s, f s a = .ok s) (s : σ) :
    (l.filter keep).foldlM f s = l.foldlM f s := by
  induction l generalizing s with
  | nil => rfl
  | cons a l ih =>
    obtain ⟨ha, hl⟩ := forall_mem_cons.mp h
    rcases hkeep : keep a with _ | _
    · rw [filter_cons_of_neg (by rw [hkeep]; decide), foldlM_cons, ha hkeep s,
        except_ok_bind, ih hl]
    · rw [filter_cons_of_pos hkeep, foldlM_cons]
      exact congrArg _ (funext fun s' => ih hl s')

lemma foldlM_eq_self (h : ∀ a ∈ l, ∀ s, f s a = .ok s) (s : σ) : l.foldlM f s = .ok s := by
  rw [← @foldlM_filter ε α σ f (fun _ => false) l fun a ha _ => h a ha, filter_false]
  rfl

variable {motive : σ → Prop}

/-- What every round of a loop keeps. -/
lemma foldlM_induction (hstep : ∀ a ∈ l, ∀ s s', motive s → f s a = .ok s' → motive s') {s s'}
    (hs : motive s) (h : l.foldlM f s = .ok s') : motive s' := by
  induction l generalizing s with
  | nil => exact ok.inj h ▸ hs
  | cons a l ih =>
    obtain ⟨ha, hl⟩ := forall_mem_cons.mp hstep
    obtain ⟨mid, hmid, hrest⟩ := bind_eq_ok_iff.mp h
    exact ih hl (ha s mid hs hmid) hrest

/-- What one round of a loop brings about and the others keep. -/
lemma foldlM_of_mem (hstep : ∀ a ∈ l, ∀ s s', motive s → f s a = .ok s' → motive s') {a}
    (ha : a ∈ l) (hset : ∀ s s', f s a = .ok s' → motive s') {s s'} (h : l.foldlM f s = .ok s') :
    motive s' := by
  obtain ⟨front, back, rfl⟩ := append_of_mem ha
  rw [foldlM_append] at h
  obtain ⟨mid, -, h⟩ := bind_eq_ok_iff.mp h
  obtain ⟨mid', hmid', h⟩ := bind_eq_ok_iff.mp h
  exact foldlM_induction (fun b hb => hstep b (by simp [hb])) (hset _ _ hmid') h

/-- **Two loops over one list**, the second of which can follow the first one step by step. -/
lemma foldlM_simulation {τ : Type} {g : τ → α → Except ε τ} {R : σ → τ → Prop}
    (hstep : ∀ a ∈ l, ∀ s t s', R s t → f s a = .ok s' → ∃ t', g t a = .ok t' ∧ R s' t') {s s' : σ}
    {t : τ} (hs : R s t) (h : l.foldlM f s = .ok s') : ∃ t', l.foldlM g t = .ok t' ∧ R s' t' := by
  induction l generalizing s t with
  | nil => exact ⟨t, rfl, ok.inj h ▸ hs⟩
  | cons a l ih =>
    obtain ⟨ha, hl⟩ := forall_mem_cons.mp hstep
    obtain ⟨mid, hmid, hrest⟩ := bind_eq_ok_iff.mp h
    obtain ⟨mid', hmid', hR⟩ := ha s t mid hs hmid
    obtain ⟨t', ht', hR'⟩ := ih hl hR hrest
    exact ⟨t', by rw [foldlM_cons, hmid']; exact ht', hR'⟩

end Meow
