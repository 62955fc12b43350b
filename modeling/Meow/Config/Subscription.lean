import Meow.Lib.Text

/-!
# Refreshing subscriptions

A subscription that is due is downloaded, what it brought is written to the configuration in memory,
the routing is built from it, and if that succeeds installed and the configuration saved.

## Main definitions

* `RawConfig.due` — the subscriptions that a round refreshes.
* `Running.refresh` — one refresh, with any outcome of its fallible parts.
* `Running.Atomic` — refreshes that fail change nothing.

## Main results

* `Running.atomic_iff` — when they do not.
-/

namespace Meow.Config

open List

structure Subscription where
  name : Str
  url : Str
  interval : Option UInt64
  lastUpdated : Option Int64

/-- `content` is what a download replaces: `proxies`, `proxy_groups` and `rules`. -/
structure RawConfig (Content : Type) where
  subscriptions : Option (List Subscription)
  content : Content

variable {Content : Type}

namespace RawConfig

def due (raw : RawConfig Content) (now : Int64) : List (Str × Str) :=
  ((raw.subscriptions.getD []).filter fun s =>
    match s.interval, s.lastUpdated with
    | _, none => true
    | some interval, some last => now - last ≥ interval.toInt64
    | none, some _ => false).map fun s => (s.name, s.url)

/-- The first subscription with the name is stamped. -/
def stamp (name : Str) (now : Int64) : List Subscription → List Subscription
  | [] => []
  | s :: subs =>
    if s.name = name then { s with lastUpdated := some now } :: subs else s :: stamp name now subs

def write (raw : RawConfig Content) (name : Str) (now : Int64) (content : Content) :
    RawConfig Content := ⟨raw.subscriptions.map (stamp name now), content⟩

/-- The configuration has this content, and the subscription, if it is there, this stamp. -/
def Has (raw : RawConfig Content) (name : Str) (now : Int64) (content : Content) : Prop :=
  content = raw.content ∧
    ∀ subs ∈ raw.subscriptions, ∀ s ∈ subs.find? (·.name = name), s.lastUpdated = some now

lemma stamp_eq_self_iff {name now} {subs : List Subscription} :
    stamp name now subs = subs ↔ ∀ s ∈ subs.find? (·.name = name), s.lastUpdated = some now := by
  induction subs with
  | nil => simp [stamp]
  | cons s subs ih =>
    rw [stamp]
    split_ifs with hname
    · rw [find?_cons_of_pos (by simpa using hname)]
      cases s
      simp [eq_comm]
    · rw [find?_cons_of_neg (by simpa using hname), cons_inj_right, ih]

lemma write_eq_self_iff {raw : RawConfig Content} {name now content} :
    raw.write name now content = raw ↔ raw.Has name now content := by
  obtain ⟨_ | subs, old⟩ := raw
  · simp [write, Has]
  · simp [write, Has, stamp_eq_self_iff, and_comm]

end RawConfig

/-- One turn of the loop: what the download brought and when, whether the rebuild succeeded, and
whether the file was saved. -/
structure Refresh (Content : Type) where
  name : Str
  fetched : Option (Int64 × Content)
  rebuilt : Bool
  saved : Bool

structure Running (Content : Type) where
  raw : RawConfig Content
  /-- What the installed routing was built from. -/
  installed : RawConfig Content
  file : RawConfig Content

namespace Running

def refresh (s : Running Content) (r : Refresh Content) : Running Content :=
  match r.fetched with
  | some (now, content) =>
    let raw := s.raw.write r.name now content
    if r.rebuilt then ⟨raw, raw, if r.saved then raw else s.file⟩ else { s with raw }
  | none => s

/-- **Refreshes whose rebuild fails change nothing**, nor which subscriptions are due, and the
configuration in memory is always the one that is installed. -/
def Atomic (s : Running Content) : List (Refresh Content) → Prop
  | [] => s.raw = s.installed
  | r :: rs => s.raw = s.installed ∧
    (r.rebuilt = false → s.refresh r = s ∧ (s.refresh r).raw.due = s.raw.due) ∧
    Atomic (s.refresh r) rs

/-- Downloads whose rebuild fails bring what the configuration has already. -/
def Harmless (s : Running Content) : List (Refresh Content) → Prop
  | [] => True
  | r :: rs =>
    (r.rebuilt = false → ∀ now content, r.fetched = some (now, content) →
      s.raw.Has r.name now content) ∧ Harmless (s.refresh r) rs

lemma refresh_eq_self_iff {s : Running Content} {r : Refresh Content} (h : r.rebuilt = false) :
    s.refresh r = s ↔
      ∀ now content, r.fetched = some (now, content) → s.raw.Has r.name now content := by
  obtain ⟨name, _ | ⟨now, content⟩, rebuilt, saved⟩ := r
  · simp [refresh]
  · cases h
    cases s
    simp [refresh, ← RawConfig.write_eq_self_iff]

/-- **Failing refreshes are atomic** exactly if they bring nothing new. -/
theorem atomic_iff (raw : RawConfig Content) (rs : List (Refresh Content)) :
    Atomic ⟨raw, raw, raw⟩ rs ↔ Harmless ⟨raw, raw, raw⟩ rs := by
  suffices h : ∀ s : Running Content, s.raw = s.installed → (s.Atomic rs ↔ s.Harmless rs) from
    h _ rfl
  induction rs with
  | nil => exact fun s hs => iff_true_intro hs
  | cons r rs ih =>
    intro s hs
    have hnext : (r.rebuilt = false → s.refresh r = s) →
        (s.refresh r).raw = (s.refresh r).installed := by
      intro hkeeps
      cases hrebuilt : r.rebuilt with
      | false => rw [hkeeps hrebuilt, hs]
      | true =>
        rw [refresh, hrebuilt]
        split
        · rfl
        · exact hs
    constructor
    · rintro ⟨-, hkeeps, hrest⟩
      exact ⟨fun h => (refresh_eq_self_iff h).mp (hkeeps h).1,
        (ih _ (hnext fun h => (hkeeps h).1)).mp hrest⟩
    · rintro ⟨hharmless, hrest⟩
      have hkeeps := fun h => refresh_eq_self_iff h |>.mpr (hharmless h)
      exact ⟨hs, fun h => ⟨hkeeps h, by rw [hkeeps h]⟩, (ih _ (hnext hkeeps)).mpr hrest⟩

/-- A first download cannot be built: it is in memory, the routing is the old one, and the
subscription is no longer due. -/
theorem failed_refresh_written :
    let raw : RawConfig ℕ := ⟨some [⟨str "a", [], some 3600, none⟩], 0⟩
    let s := Running.refresh ⟨raw, raw, raw⟩ ⟨str "a", some (100, 1), false, false⟩
    raw.due 160 = [(str "a", [])] ∧ s.raw.due 160 = [] ∧ s.raw.content = 1 ∧
      s.installed.content = 0 := by
  decide

end Running

end Meow.Config
