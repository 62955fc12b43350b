import Meow.Lib.Lru
import Meow.Lib.Maps
import Meow.Lib.Text
import Meow.Net.IpAddr

/-!
# The stores of the fake-IP pool

A fake-IP pool keeps both directions of its table of hosts and addresses in a store (`fakeip.rs`):
in memory, bounded by two LRU caches, or in a file, from which it is restored at the next start.

The file store writes its file from a background task, some time after a change, so that what a
restart finds is the state at some earlier point.

## Main definitions

* `MemoryStore`, `FileStore`, `Store` — the two stores.
* `StoreInv` — the two directions are inverse, the addresses are of the pool's range,
  and so are those in the file.

## Main results

* `Store.put_spec`, `Store.delByIp_spec` — what the stores do to the table.
* `Store.persist_spec`, `Store.reopen_spec` — what is written to the file is in
  order, and so is the table read from it.
-/

namespace Meow.Dns

open LruCache Option

/-! ### The memory store -/

/-- `MemoryInner`: two LRU caches and the number of entries they may hold. -/
structure MemoryStore (C : Type → Type → Type) where
  byHost : C Str IpAddr
  byIp : C IpAddr Str
  cap : ℕ
  cap_pos : 0 < cap

namespace MemoryStore

variable {C : Type → Type → Type} [LruCache C]

/-- `MemoryStore::new`: a size of zero counts as one. -/
def new (size : ℕ) : MemoryStore C := ⟨unbounded, unbounded, max size 1, by omega⟩

/-- `get_by_host`: a hit also uses the entry of the other direction. -/
def getByHost (s : MemoryStore C) (host : Str) : Option IpAddr × MemoryStore C :=
  match (get s.byHost host).1 with
  | none => (none, { s with byHost := (get s.byHost host).2 })
  | some ip =>
    (some ip, { s with byHost := (get s.byHost host).2, byIp := (get s.byIp ip).2 })

def getByIp (s : MemoryStore C) (ip : IpAddr) : Option Str × MemoryStore C :=
  match (get s.byIp ip).1 with
  | none => (none, { s with byIp := (get s.byIp ip).2 })
  | some host =>
    (some host, { s with byIp := (get s.byIp ip).2, byHost := (get s.byHost host).2 })

/-- The first eviction of `put`, by address. The entry of the host goes only while it still
points at the address. -/
def evictByIp (s : MemoryStore C) : MemoryStore C :=
  if len s.byIp > s.cap then
    match (popLru s.byIp).1 with
    | none => { s with byIp := (popLru s.byIp).2 }
    | some (evictedIp, evictedHost) =>
      if peek s.byHost evictedHost = some evictedIp then
        { s with byIp := (popLru s.byIp).2, byHost := (pop s.byHost evictedHost).2 }
      else { s with byIp := (popLru s.byIp).2 }
  else s

/-- The second eviction of `put`, by host. -/
def evictByHost (s : MemoryStore C) : MemoryStore C :=
  if len s.byHost > s.cap then
    match (popLru s.byHost).1 with
    | none => { s with byHost := (popLru s.byHost).2 }
    | some (evictedHost, evictedIp) =>
      if peek s.byIp evictedIp = some evictedHost then
        { s with byHost := (popLru s.byHost).2, byIp := (pop s.byIp evictedIp).2 }
      else { s with byHost := (popLru s.byHost).2 }
  else s

def put (s : MemoryStore C) (host : Str) (ip : IpAddr) : MemoryStore C :=
  evictByHost (evictByIp
    { s with byHost := LruCache.put s.byHost host ip, byIp := LruCache.put s.byIp ip host })

/-- `del_by_ip`: the entry of the host goes only while it still points at the address. -/
def delByIp (s : MemoryStore C) (ip : IpAddr) : MemoryStore C :=
  match (pop s.byIp ip).1 with
  | none => { s with byIp := (pop s.byIp ip).2 }
  | some host =>
    if peek s.byHost host = some ip then
      { s with byIp := (pop s.byIp ip).2, byHost := (pop s.byHost host).2 }
    else { s with byIp := (pop s.byIp ip).2 }

def «exists» (s : MemoryStore C) (ip : IpAddr) : Bool := (peek s.byIp ip).isSome

def flush (s : MemoryStore C) : MemoryStore C :=
  { s with byHost := clear s.byHost, byIp := clear s.byIp }

end MemoryStore

/-! ### The file store -/

/-- `PersistedSnapshot`: what the file holds. -/
structure PersistedSnapshot where
  entries : AList fun _ : Str => IpAddr
  offset : Option IpAddr
  cycle : Bool

def PersistedSnapshot.default : PersistedSnapshot := ⟨∅, none, false⟩

/-- The JSON form of a snapshot: a snapshot that was written is read back. -/
structure Json where
  File : Type
  toVec : PersistedSnapshot → File
  fromSlice : File → Option PersistedSnapshot
  fromSlice_toVec : ∀ s, fromSlice (toVec s) = some s

/-- `FileStore`, with the content of its file, if there is one. -/
structure FileStore (json : Json) where
  state : PersistedSnapshot
  reverse : AList fun _ : IpAddr => Str
  dirty : Bool
  file : Option json.File

namespace FileStore

variable {json : Json}

/-- `load_snapshot`: no file, or one that cannot be read, is an empty snapshot. -/
def loadSnapshot (file : Option json.File) : PersistedSnapshot :=
  match file with
  | none => .default
  | some bytes => (json.fromSlice bytes).getD .default

/-- `FileStore::open` and `from_snapshot`: the other direction is rebuilt. -/
def «open» (file : Option json.File) : FileStore json :=
  ⟨loadSnapshot file, reverseMap (loadSnapshot file).entries, false, file⟩

def markDirty (s : FileStore json) : FileStore json := { s with dirty := true }

/-- A round of the background task, or the final flush of `drop`: a changed state is written.
`ok` says whether `persist_to_file` succeeds; its rename replaces the file as a whole. -/
def persist (s : FileStore json) (ok : Bool) : FileStore json :=
  if s.dirty then
    { s with dirty := false, file := if ok then some (json.toVec s.state) else s.file }
  else s

/-- Writing the file does not touch the table. -/
lemma persist_tables (s : FileStore json) (ok : Bool) :
    (s.persist ok).state = s.state ∧ (s.persist ok).reverse = s.reverse := by
  unfold persist
  split_ifs <;> exact ⟨rfl, rfl⟩

def put (s : FileStore json) (host : Str) (ip : IpAddr) : FileStore json :=
  markDirty { s with
    reverse := s.reverse.insert ip host
    state := { s.state with entries := s.state.entries.insert host ip } }

def delByIp (s : FileStore json) (ip : IpAddr) : FileStore json :=
  match s.reverse.lookup ip with
  | none => { s with reverse := s.reverse.erase ip }
  | some host =>
    if s.state.entries.lookup host = some ip then
      markDirty { s with
        reverse := s.reverse.erase ip
        state := { s.state with entries := s.state.entries.erase host } }
    else { s with reverse := s.reverse.erase ip }

/-- What a deletion does to the tables: the entry of the host goes with the address only while it
points at it. -/
lemma delByIp_tables (s : FileStore json) (ip : IpAddr) :
    (s.delByIp ip).reverse = s.reverse.erase ip ∧
      ∀ x y, (s.delByIp ip).state.entries.lookup x = some y →
        s.state.entries.lookup x = some y ∧ ¬(s.reverse.lookup ip = some x ∧ y = ip) := by
  rw [delByIp]
  cases hrev : s.reverse.lookup ip with
  | none => exact ⟨rfl, fun x y hxy => ⟨hxy, by simp⟩⟩
  | some host =>
    by_cases hhost : s.state.entries.lookup host = some ip
    · simp only [if_pos hhost]
      refine ⟨rfl, fun x y hxy => ?_⟩
      have hxy' := (lookup_erase_ite s.state.entries host x).symm.trans hxy
      split_ifs at hxy' with hx
      exact ⟨hxy', fun h => hx (some.inj h.1).symm⟩
    · simp only [if_neg hhost]
      refine ⟨trivial, fun x y hxy => ⟨hxy, ?_⟩⟩
      rintro ⟨heq, rfl⟩
      cases heq
      exact hhost hxy

def flush (s : FileStore json) : FileStore json :=
  markDirty { s with reverse := ∅, state := ⟨∅, none, false⟩ }

def putState (s : FileStore json) (offset : IpAddr) (cycle : Bool) : FileStore json :=
  markDirty { s with state := { s.state with offset := some offset, cycle := cycle } }

def getState (s : FileStore json) : Option (IpAddr × Bool) :=
  s.state.offset.map fun o => (o, s.state.cycle)

end FileStore

/-! ### Either store -/

/-- `dyn Store`. -/
inductive Store (C : Type → Type → Type) (json : Json) where
  | memory (s : MemoryStore C)
  | file (s : FileStore json)

namespace Store

variable {C : Type → Type → Type} [LruCache C] {json : Json}

def getByHost : Store C json → Str → Option IpAddr × Store C json
  | memory s, host => ((s.getByHost host).1, memory (s.getByHost host).2)
  | file s, host => (s.state.entries.lookup host, file s)

def getByIp : Store C json → IpAddr → Option Str × Store C json
  | memory s, ip => ((s.getByIp ip).1, memory (s.getByIp ip).2)
  | file s, ip => (s.reverse.lookup ip, file s)

def put : Store C json → Str → IpAddr → Store C json
  | memory s, host, ip => memory (s.put host ip)
  | file s, host, ip => file (s.put host ip)

def delByIp : Store C json → IpAddr → Store C json
  | memory s, ip => memory (s.delByIp ip)
  | file s, ip => file (s.delByIp ip)

def «exists» : Store C json → IpAddr → Bool
  | memory s, ip => s.exists ip
  | file s, ip => (s.reverse.lookup ip).isSome

def flush : Store C json → Store C json
  | memory s => memory s.flush
  | file s => file s.flush

/-- `put_state`, which does nothing in memory. -/
def putState : Store C json → IpAddr → Bool → Store C json
  | memory s, _, _ => memory s
  | file s, offset, cycle => file (s.putState offset cycle)

/-- `get_state`, which finds nothing in memory. -/
def getState : Store C json → Option (IpAddr × Bool)
  | memory _ => none
  | file s => s.getState

def isPersistent : Store C json → Bool
  | memory _ => false
  | file _ => true

/-- A round of the background task of a file store. -/
def persist : Store C json → Bool → Store C json
  | memory s, _ => memory s
  | file s, ok => file (s.persist ok)

/-- The store after a restart: empty in memory, and what the file holds otherwise. -/
def reopen : Store C json → Store C json
  | memory s => memory (.new s.cap)
  | file s => file (.open s.file)

end Store

/-! ### What the stores do to the table -/

open MemoryStore

section Stores

variable {C : Type → Type → Type} [LruCache C] {json : Json}

/-- The two directions of the table in memory are inverse. -/
def MemoryStore.Paired (s : MemoryStore C) : Prop := Inverse (find s.byHost) (find s.byIp)

variable {s : MemoryStore C}

/-- A cache that is too long has a pair to go. -/
lemma exists_popLru {κ ν : Type} [DecidableEq κ] {c : C κ ν} (h : 1 < len c) :
    ∃ e, (popLru c).1 = some e := by
  cases hlru : (popLru c).1 with
  | some e => exact ⟨e, rfl⟩
  | none =>
    rw [popLru_fst, List.getLast?_eq_none_iff] at hlru
    rw [len_eq, hlru] at h
    simp at h

variable {ip : IpAddr} {host : Str}

/-- An eviction keeps the two directions inverse, and keeps the pair used last: the pair to go is
taken out of both directions. -/
lemma MemoryStore.evictByIp_spec (h : s.Paired) (hhost : newest s.byHost = some (host, ip))
    (hip : newest s.byIp = some (ip, host)) :
    s.evictByIp.Paired ∧ newest s.evictByIp.byHost = some (host, ip) ∧
      newest s.evictByIp.byIp = some (ip, host) ∧
      ∀ x a, find s.evictByIp.byHost x = some a → find s.byHost x = some a := by
  unfold evictByIp
  by_cases hlen : len s.byIp > s.cap
  · have hone : 1 < len s.byIp := lt_of_le_of_lt s.cap_pos hlen
    obtain ⟨⟨ip', host'⟩, hlru⟩ := exists_popLru hone
    have hpair : find s.byHost host' = some ip' := (h host' ip').mpr (find_of_popLru hlru)
    have hne : ip' ≠ ip := popLru_ne_newest hone hip hlru
    have hne' : host ≠ host' := by
      rintro rfl
      rw [find_of_newest hhost] at hpair
      exact hne (some.inj hpair).symm
    simp only [if_pos hlen, hlru, peek_eq_find, hpair, if_true]
    refine ⟨h.delete hpair (find_pop _ _) (find_popLru hlru), newest_pop hhost hne',
      (newest_popLru hone).trans hip, ?_⟩
    intro x a hx
    rw [find_pop] at hx
    split_ifs at hx
    exact hx
  · rw [if_neg hlen]
    exact ⟨h, hhost, hip, fun _ _ hx => hx⟩

/-- The same for the eviction by host. -/
lemma MemoryStore.evictByHost_spec (h : s.Paired) (hhost : newest s.byHost = some (host, ip)) :
    s.evictByHost.Paired ∧ newest s.evictByHost.byHost = some (host, ip) ∧
      ∀ x a, find s.evictByHost.byHost x = some a → find s.byHost x = some a := by
  unfold evictByHost
  by_cases hlen : len s.byHost > s.cap
  · have hone : 1 < len s.byHost := lt_of_le_of_lt s.cap_pos hlen
    obtain ⟨⟨host', ip'⟩, hlru⟩ := exists_popLru hone
    have hpair : find s.byHost host' = some ip' := find_of_popLru hlru
    have hback : find s.byIp ip' = some host' := (h host' ip').mp hpair
    simp only [if_pos hlen, hlru, peek_eq_find, hback, if_true]
    refine ⟨h.delete hpair (find_popLru hlru) (find_pop _ _),
      (newest_popLru hone).trans hhost, ?_⟩
    intro x a hx
    rw [find_popLru hlru] at hx
    split_ifs at hx
    exact hx
  · rw [if_neg hlen]
    exact ⟨h, hhost, fun _ _ hx => hx⟩

/-- Writing a new pair in memory: it is found, both directions stay inverse, and every other
pair found was there before. -/
lemma MemoryStore.put_spec (h : s.Paired) (hhost : find s.byHost host = none)
    (hip : find s.byIp ip = none) :
    (s.put host ip).Paired ∧ find (s.put host ip).byHost host = some ip ∧
      ∀ x a, find (s.put host ip).byHost x = some a →
        x = host ∧ a = ip ∨ find s.byHost x = some a := by
  set s₁ : MemoryStore C := { s with
    byHost := LruCache.put s.byHost host ip, byIp := LruCache.put s.byIp ip host } with hs₁
  have h₁ : s₁.Paired := h.insert hhost hip (find_put _ _ _) (find_put _ _ _)
  obtain ⟨h₂, hhost₂, hip₂, hsub₂⟩ := evictByIp_spec h₁ (newest_put _ _ _) (newest_put _ _ _)
  obtain ⟨h₃, hhost₃, hsub₃⟩ := evictByHost_spec h₂ hhost₂
  refine ⟨h₃, find_of_newest hhost₃, ?_⟩
  intro x a hx
  have hx₁ : find s₁.byHost x = some a := hsub₂ x a (hsub₃ x a hx)
  rw [find_put] at hx₁
  split_ifs at hx₁ with hxh
  · exact .inl ⟨hxh, (some.inj hx₁).symm⟩
  · exact .inr hx₁

/-- Deleting an address in memory: it is gone, both directions stay inverse, and no pair is
new. -/
lemma MemoryStore.delByIp_spec (h : s.Paired) (ip : IpAddr) :
    (s.delByIp ip).Paired ∧ find (s.delByIp ip).byIp ip = none ∧
      ∀ x a, find (s.delByIp ip).byHost x = some a → find s.byHost x = some a := by
  unfold delByIp
  cases hpop : (pop s.byIp ip).1 with
  | none =>
    rw [pop_eq_find] at hpop
    have hsame : ∀ a, find (pop s.byIp ip).2 a = find s.byIp a := by
      intro a
      rw [find_pop]
      split_ifs with ha
      · rw [ha]
        exact hpop.symm
      · rfl
    exact ⟨h.congr (fun _ => rfl) hsame, (hsame ip).trans hpop, fun _ _ hx => hx⟩
  | some host =>
    rw [pop_eq_find] at hpop
    have hpair : find s.byHost host = some ip := (h host ip).mpr hpop
    simp only [peek_eq_find, hpair, if_true]
    refine ⟨h.delete hpair (find_pop _ _) (find_pop _ _), ?_, ?_⟩
    · rw [find_pop, if_pos rfl]
    · intro x a hx
      rw [find_pop] at hx
      split_ifs at hx
      exact hx

namespace Store

/-- The address a host has. -/
def forward : Store C json → Str → Option IpAddr
  | memory s => find s.byHost
  | file s => fun host => s.state.entries.lookup host

/-- The host an address has. -/
def backward : Store C json → IpAddr → Option Str
  | memory s => find s.byIp
  | file s => fun ip => s.reverse.lookup ip

end Store

/-- A snapshot with different addresses for different hosts, all of them in the range. -/
def SnapshotOk (P : IpAddr → Prop) (snap : PersistedSnapshot) : Prop :=
  (∀ h h' a, snap.entries.lookup h = some a → snap.entries.lookup h' = some a → h = h') ∧
    ∀ h a, snap.entries.lookup h = some a → P a

open FileStore

/-- What a restart of the store would find is in order. -/
def Store.SavedOk (P : IpAddr → Prop) : Store C json → Prop
  | memory _ => True
  | file s => SnapshotOk P (FileStore.loadSnapshot s.file)

/-- The invariant of a store whose addresses are to satisfy `P`. -/
structure StoreInv (P : IpAddr → Prop) (s : Store C json) : Prop where
  inverse : Inverse s.forward s.backward
  inRange : ∀ h a, s.forward h = some a → P a
  saved : s.SavedOk P

namespace StoreInv

variable {P : IpAddr → Prop} {s : Store C json}

/-- A store that finds the same pairs, and whose file is in order, has the invariant too. -/
lemma of_eq (h : StoreInv P s) {s' : Store C json} (hf : ∀ x, s'.forward x = s.forward x)
    (hb : ∀ a, s'.backward a = s.backward a) (hs : s'.SavedOk P) : StoreInv P s' := by
  refine ⟨h.inverse.congr hf hb, ?_, hs⟩
  intro x a hx
  rw [hf] at hx
  exact h.inRange x a hx

end StoreInv

namespace Store

variable {P : IpAddr → Prop} {s : Store C json}

/-- Reading by host finds what the table has, and changes only the order of use. -/
lemma getByHost_spec (s : Store C json) (host : Str) :
    (s.getByHost host).1 = s.forward host ∧
      (∀ x, (s.getByHost host).2.forward x = s.forward x) ∧
      (∀ a, (s.getByHost host).2.backward a = s.backward a) ∧
      ((s.getByHost host).2.SavedOk P ↔ s.SavedOk P) := by
  cases s with
  | file s => exact ⟨rfl, fun _ => rfl, fun _ => rfl, Iff.rfl⟩
  | memory s =>
    simp only [getByHost, MemoryStore.getByHost, forward, SavedOk]
    cases hget : (get s.byHost host).1 with
    | none => exact ⟨by rw [← get_eq_find, hget], find_get _ _, fun _ => rfl, trivial⟩
    | some ip => exact ⟨by rw [← get_eq_find, hget], find_get _ _, find_get _ _, trivial⟩

/-- Reading by address finds what the table has, and changes only the order of use. -/
lemma getByIp_spec (s : Store C json) (ip : IpAddr) :
    (s.getByIp ip).1 = s.backward ip ∧
      (∀ x, (s.getByIp ip).2.forward x = s.forward x) ∧
      (∀ a, (s.getByIp ip).2.backward a = s.backward a) ∧
      ((s.getByIp ip).2.SavedOk P ↔ s.SavedOk P) := by
  cases s with
  | file s => exact ⟨rfl, fun _ => rfl, fun _ => rfl, Iff.rfl⟩
  | memory s =>
    simp only [getByIp, MemoryStore.getByIp, backward, SavedOk]
    cases hget : (get s.byIp ip).1 with
    | none => exact ⟨by rw [← get_eq_find, hget], fun _ => rfl, find_get _ _, trivial⟩
    | some host => exact ⟨by rw [← get_eq_find, hget], find_get _ _, find_get _ _, trivial⟩

lemma exists_eq (s : Store C json) (ip : IpAddr) : s.exists ip = (s.backward ip).isSome := by
  cases s with
  | memory s => simp only [«exists», MemoryStore.exists, backward, peek_eq_find]
  | file s => rfl

/-- **Writing a new pair** keeps the invariant, and the pair is found. -/
lemma put_spec (h : StoreInv P s) {host : Str} {ip : IpAddr} (hhost : s.forward host = none)
    (hip : s.backward ip = none) (hP : P ip) :
    StoreInv P (s.put host ip) ∧ (s.put host ip).forward host = some ip := by
  cases s with
  | memory s =>
    obtain ⟨hpaired, hfind, hsub⟩ := put_spec h.inverse hhost hip
    refine ⟨⟨hpaired, ?_, trivial⟩, hfind⟩
    intro x a hx
    rcases hsub x a hx with ⟨-, rfl⟩ | hold
    · exact hP
    · exact h.inRange x a hold
  | file s =>
    have hf := lookup_insert_ite s.state.entries host
    have hb := lookup_insert_ite s.reverse ip
    refine ⟨⟨h.inverse.insert hhost hip (hf · ip) (hb · host), ?_, h.saved⟩,
      AList.lookup_insert _⟩
    intro x a hx
    have hx' := (hf x ip).symm.trans hx
    split_ifs at hx'
    · rwa [← some.inj hx']
    · exact h.inRange x a hx'

/-- **Deleting an address** keeps the invariant: the address is free, and no host has a new
address. -/
lemma delByIp_spec (h : StoreInv P s) (ip : IpAddr) :
    StoreInv P (s.delByIp ip) ∧ (s.delByIp ip).backward ip = none ∧
      ∀ x, s.forward x = none → (s.delByIp ip).forward x = none := by
  cases s with
  | memory s =>
    obtain ⟨hpaired, hgone, hsub⟩ := delByIp_spec h.inverse ip
    refine ⟨⟨hpaired, fun x a hx => h.inRange x a (hsub x a hx), trivial⟩, hgone, ?_⟩
    intro x hx
    cases hx' : find (s.delByIp ip).byHost x with
    | none => exact hx'
    | some a =>
      have := hsub x a hx'
      rw [show find s.byHost x = none from hx] at this
      simp at this
  | file s =>
    have hb := lookup_erase_ite s.reverse ip
    cases hrev : s.reverse.lookup ip with
    | none =>
      have hsame : ∀ a, (s.reverse.erase ip).lookup a = s.reverse.lookup a := by
        intro a
        rw [hb]
        split_ifs with ha
        · rw [ha, hrev]
        · rfl
      have hdel : s.delByIp ip = { s with reverse := s.reverse.erase ip } := by
        rw [FileStore.delByIp, hrev]
      simp only [Store.delByIp, hdel]
      exact ⟨h.of_eq (fun _ => rfl) hsame h.saved, (hsame ip).trans hrev, fun _ hx => hx⟩
    | some host =>
      have hpair : s.state.entries.lookup host = some ip := (h.inverse host ip).mpr hrev
      have hf := lookup_erase_ite s.state.entries host
      have hdel : s.delByIp ip = FileStore.markDirty { s with
          reverse := s.reverse.erase ip
          state := { s.state with entries := s.state.entries.erase host } } := by
        simp only [FileStore.delByIp, hrev, hpair, if_true]
      simp only [Store.delByIp, hdel]
      refine ⟨⟨h.inverse.delete hpair hf hb, ?_, h.saved⟩, ?_, ?_⟩
      · intro x a hx
        have hx' := (hf x).symm.trans hx
        split_ifs at hx'
        exact h.inRange x a hx'
      · exact (hb ip).trans (if_pos rfl)
      · intro x hx
        refine (hf x).trans ?_
        split_ifs
        · rfl
        · exact hx

/-- Flushing empties the table. -/
lemma flush_spec (h : s.SavedOk P) : StoreInv P s.flush := by
  cases s with
  | memory s =>
    refine ⟨?_, ?_, trivial⟩
    · intro x a
      simp [flush, MemoryStore.flush, forward, backward]
    · intro x a hx
      simp [flush, MemoryStore.flush, forward] at hx
  | file s =>
    refine ⟨?_, ?_, h⟩
    · intro x a
      simp [flush, FileStore.flush, FileStore.markDirty, forward, backward]
    · intro x a hx
      simp [flush, FileStore.flush, FileStore.markDirty, forward] at hx

/-- Storing the cursor, where the store persists, does not touch the table. -/
lemma putState_tables (s : Store C json) (offset : IpAddr) (cycle : Bool) :
    (if s.isPersistent then s.putState offset cycle else s).forward = s.forward ∧
      (if s.isPersistent then s.putState offset cycle else s).backward = s.backward := by
  cases s <;> exact ⟨rfl, rfl⟩

lemma putState_spec (h : StoreInv P s) (offset : IpAddr) (cycle : Bool) :
    StoreInv P (if s.isPersistent then s.putState offset cycle else s) := by
  obtain ⟨hf, hb⟩ := s.putState_tables offset cycle
  refine h.of_eq (congrFun hf) (congrFun hb) ?_
  cases s <;> exact h.saved

/-- Writing the file does not touch the table. -/
lemma persist_tables (s : Store C json) (ok : Bool) :
    (s.persist ok).forward = s.forward ∧ (s.persist ok).backward = s.backward := by
  cases s with
  | memory s => exact ⟨rfl, rfl⟩
  | file s =>
    obtain ⟨hstate, hreverse⟩ := s.persist_tables ok
    simp only [persist, forward, backward, hstate, hreverse, and_self]

/-- What is written is in order. -/
lemma persist_spec (h : StoreInv P s) (ok : Bool) : StoreInv P (s.persist ok) := by
  obtain ⟨hf, hb⟩ := s.persist_tables ok
  refine h.of_eq (congrFun hf) (congrFun hb) ?_
  cases s with
  | memory s => trivial
  | file s =>
    show SnapshotOk P (loadSnapshot (s.persist ok).file)
    unfold FileStore.persist
    split_ifs
    · simp only [loadSnapshot, json.fromSlice_toVec]
      exact ⟨fun _ _ _ h1 h2 => h.inverse.eq_of_eq h1 h2, h.inRange⟩
    · exact h.saved
    · exact h.saved

/-- A store opened again has the invariant, if what was saved is in order. -/
lemma reopen_spec (h : s.SavedOk P) : StoreInv P s.reopen := by
  cases s with
  | memory s =>
    refine ⟨?_, ?_, trivial⟩
    · intro x a
      simp [reopen, new, forward, backward]
    · intro x a hx
      simp [reopen, new, forward] at hx
  | file s => exact ⟨inverse_reverseMap h.1, h.2, h⟩

end Store

end Stores

end Meow.Dns
