import Meow.Lib.Text

/-!
# The pin of a fallback group

A member of a fallback group can be pinned. Every dial and every report asks `first_alive`, which
copies the pin, looks whether that member is there and alive, and if not clears the pin. No lock is
held from one of these steps to the next, so any number of calls and selections can fall between
them.

## Main definitions

* `FallbackGroup`, `FallbackGroup.step` — the shared state and its steps.
* `FallbackGroup.Justified` — a call clears no pin but one that it has seen dead.

## Main results

* `FallbackGroup.justified_iff` — when all the clears of a run are justified.
-/

namespace Meow.Group

open Function

/-- A member's name, and the number of the selection that pinned it. -/
structure Pin where
  selection : ℕ
  name : Str

/-- Where a call of `first_alive` is. -/
inductive PinCheck where
  | idle
  | copied (pin : Pin)
  /-- The member was dead or missing; `set` tells whether the pin was still set then. -/
  | stale (pin : Pin) (set : Bool)

structure FallbackGroup where
  /-- The members that are there and alive for the test URL. -/
  alive : Str → Bool
  fixed : Option Pin
  /-- The number of calls of `force_set`. -/
  selections : ℕ
  calls : ℕ → PinCheck

inductive FallbackEvent where
  | health (name : Str) (alive : Bool)
  | forceSet (name : Option Str)
  | copy (call : ℕ)
  | check (call : ℕ)
  | clear (call : ℕ)

namespace FallbackGroup

def start : FallbackGroup := ⟨fun _ => false, none, 0, fun _ => .idle⟩

def step (s : FallbackGroup) : FallbackEvent → FallbackGroup
  | .health name alive => { s with alive := update s.alive name alive }
  | .forceSet name =>
    { s with fixed := name.map (Pin.mk s.selections), selections := s.selections + 1 }
  | .copy c =>
    match s.calls c, s.fixed with
    | .idle, some pin => { s with calls := update s.calls c (.copied pin) }
    | _, _ => s
  | .check c =>
    match s.calls c with
    | .copied pin =>
      let set := decide (s.fixed.map Pin.selection = some pin.selection)
      { s with
        calls := update s.calls c (if s.alive pin.name then .idle else .stale pin set) }
    | _ => s
  | .clear c =>
    match s.calls c with
    | .stale _ _ => { s with fixed := none, calls := update s.calls c .idle }
    | _ => s

def run (events : List FallbackEvent) : FallbackGroup := events.foldl step start

/-- If a call clears a pin, it has seen that pin's member dead or missing while it was set. -/
def Justified (s : FallbackGroup) (c : ℕ) : Prop :=
  ∀ pin, s.fixed = some pin → (s.step (.clear c)).fixed = none →
    ∃ copy, s.calls c = .stale copy true ∧ copy.selection = pin.selection

/-- A call that is about to clear finds nothing pinned, or there was no selection since the one
whose pin it has copied. -/
def Latest (s : FallbackGroup) (c : ℕ) : Prop :=
  ∀ pin set, s.calls c = .stale pin set → s.fixed = none ∨ s.selections = pin.selection + 1

/-- The pin is that of the latest selection, and a pin that was gone when its member was found dead
does not come back. -/
structure Inv (s : FallbackGroup) : Prop where
  fixed : ∀ pin, s.fixed = some pin → s.selections = pin.selection + 1
  copied : ∀ c pin, s.calls c = .copied pin → pin.selection < s.selections
  stale : ∀ c pin set, s.calls c = .stale pin set → pin.selection < s.selections ∧
    (s.fixed.map Pin.selection = some pin.selection → set = true)

lemma Inv.step {s : FallbackGroup} (h : Inv s) (event : FallbackEvent) : Inv (s.step event) := by
  have hfixed := h.fixed
  have hcopied := h.copied
  have hstale := h.stale
  cases event with
  | health => exact ⟨hfixed, hcopied, hstale⟩
  | forceSet name =>
    refine ⟨fun pin hpin => ?_, fun c pin hc => (hcopied c pin hc).trans (Nat.lt_succ_self _),
      fun c pin set hc => ⟨(hstale c pin set hc).1.trans (Nat.lt_succ_self _), fun hpin => ?_⟩⟩
    · obtain ⟨name, -, rfl⟩ := Option.map_eq_some_iff.mp hpin
      rfl
    · -- the new pin has a number of its own
      have hlt := (hstale c pin set hc).1
      cases name with
      | none => cases hpin
      | some name => exact absurd (Option.some.inj hpin) hlt.ne'
  | copy c | check c | clear c =>
    rw [FallbackGroup.step]
    split <;> constructor <;> grind

lemma inv_run (events : List FallbackEvent) : Inv (run events) :=
  List.foldlRecOn events _ (motive := Inv) ⟨nofun, nofun, nofun⟩ fun _ h event _ => h.step event

lemma Inv.justified_iff_latest {s} (h : Inv s) (c : ℕ) : Justified s c ↔ Latest s c := by
  have hfixed := h.fixed
  have hstale := h.stale c
  unfold Justified Latest
  rw [FallbackGroup.step]
  cases hc : s.calls c with
  | idle | copied => grind
  | stale copy set =>
    cases hpin : s.fixed with
    | none => simp
    | some pin =>
      simp
      grind

/-- **A call clears no newer pin** exactly if no member was pinned since the selection whose pin the
call has copied. -/
theorem justified_iff (events : List FallbackEvent) :
    (∀ before c, before ++ [.clear c] <+: events → Justified (run before) c) ↔
      ∀ before c, before ++ [.clear c] <+: events → Latest (run before) c := by
  simp only [(inv_run _).justified_iff_latest]

/-- The pinned `a` is found missing, `b` is pinned and alive, and the pin of `b` is cleared. -/
theorem newer_pin_erased :
    let s := run [.forceSet (some (str "a")), .copy 0, .check 0, .health (str "b") true,
      .forceSet (some (str "b"))]
    s.fixed = some ⟨1, str "b"⟩ ∧ s.alive (str "b") ∧ (s.step (.clear 0)).fixed = none ∧
      ¬Justified s 0 := by
  refine ⟨rfl, rfl, rfl, fun h => ?_⟩
  obtain ⟨copy, hcopy, hselection⟩ := h _ rfl rfl
  cases hcopy
  cases hselection

end FallbackGroup

end Meow.Group
