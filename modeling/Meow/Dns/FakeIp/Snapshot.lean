import Meow.Dns.FakeIp.Pool

/-!
# Starting a fake-IP pool from a file

A file store starts with what its file holds (`FileStore::from_snapshot`, `Pool::new`). The cursor
in it is checked against the range of the pool. The entries are not: an entry of another range is
handed out as it is, and of two hosts with one address only one is found back.

The hosts of a snapshot come in the order in which its hash map lists them, which is any order.
The pool asks for hosts in lower case only, so that an entry of another host is never handed out.

## Main definitions

* `FileStore.fromSnapshot` — the store that is made from a snapshot.
* `Allocatable` — the addresses of a network that are to be handed out.
* `Pool.LookupsOk` — what is expected of the lookups after the start.

## Main results

* `StartedInv.allocate` — an allocation does not depend on the entries being in order.
* `lookups_ok_iff` — for which snapshots and networks the lookups are as expected.
-/

namespace Meow.Dns

open LruCache List AList Pool Store

/-- `FileStore::from_snapshot`, with the content of the file. -/
def FileStore.fromSnapshot {json : Json} (snap : PersistedSnapshot) (file : Option json.File) :
    FileStore json := ⟨snap, reverseMap snap.entries, false, file⟩

/-- A pool is made from every snapshot if its network is accepted. -/
lemma exists_new {C : Type → Type → Type} {json net gateway first last}
    (hnet : anchorAddrs net = .ok (gateway, first, last)) (store : Store C json) :
    ∃ offset cycle, new net store =
      .ok ⟨net, gateway, first, last, offset, cycle, store⟩ := by
  simp only [new, hnet]
  exact ⟨_, _, rfl⟩

/-- The addresses of a network that are to be handed out: the first four and the last are not. -/
def Allocatable (net : IpNet) (ip : IpAddr) : Prop :=
  ip.isIpv4 = net.network.isIpv4 ∧ net.network.toNat + 4 ≤ ip.toNat ∧
    ip.toNat < net.broadcast.toNat

instance (net : IpNet) (ip : IpAddr) : Decidable (Allocatable net ip) :=
  inferInstanceAs (Decidable (_ ∧ _ ∧ _))

/-- The program is started again. -/
def PoolOp.isRestart : PoolOp → Bool
  | .restart _ => true
  | _ => false

section

variable {C : Type → Type → Type} [LruCache C] {json : Json}

/-- **What is expected of the lookups** after whatever a pool has done since its start: the address
is one to be handed out, it is known as a fake address, and it is found back under the host. -/
def Pool.LookupsOk (net : IpNet) (p : Pool C json) : Prop :=
  ∀ ops : List PoolOp, (∀ op ∈ ops, op.isRestart = false) → ∀ host saves,
    Allocatable net ((p.run ops).lookup host saves).1 ∧
      ((p.run ops).lookup host saves).2.isFakeIp ((p.run ops).lookup host saves).1 = true ∧
      (((p.run ops).lookup host saves).2.lookBack ((p.run ops).lookup host saves).1).1 =
        some (toAsciiLowercase host)

/-! ### The range -/

variable {net : IpNet}

section

variable {gateway first last : IpAddr} (h : anchorAddrs net = .ok (gateway, first, last))
include h

/-- The range of a pool is what is to be handed out, if counting up from the network's address to
the first of them does not pass the top of the address space. -/
lemma containedInRange_iff_allocatable (htop : net.network.toNat + 4 < 2 ^ net.network.width)
    (ip : IpAddr) : containedInRange ip first last ↔ Allocatable net ip := by
  obtain ⟨rfl, rfl, rfl, -⟩ := anchorAddrs_spec h
  have hfam := net.family
  rw [containedInRange_iff (by simp [hfam]), Allocatable, hfam, toNat_nextAddr_four,
    Nat.mod_eq_of_lt htop]

/-- The gateway is not to be handed out. -/
lemma not_allocatable_gateway : ¬Allocatable net gateway := by
  obtain ⟨rfl, -⟩ := anchorAddrs_spec h
  rintro ⟨-, hle, -⟩
  rw [toNat_nextAddr] at hle
  have := Nat.mod_le (net.network.toNat + 1) (2 ^ net.network.width)
  omega

end

/-- An address that is to be handed out is in the network. -/
lemma Allocatable.contains {ip} (h : Allocatable net ip) : net.contains ip = true :=
  (net.contains_iff ip).mpr ⟨h.1, (Nat.le_add_right _ 4).trans h.2.1, h.2.2.le⟩

/-! ### The tables of a file store -/

/-- A host as the pool asks for it. -/
def IsLower (host : Str) : Prop := toAsciiLowercase host = host

/-- The tables of a file store, as far as they are asked: what a host has in lower case is in the
range, and is found back. -/
structure TablesOk (P : IpAddr → Prop) (s : Store C json) : Prop where
  persistent : s.isPersistent = true
  inRange : ∀ host a, IsLower host → s.forward host = some a → P a
  traces : TracesBack IsLower s.forward s.backward

variable {P : IpAddr → Prop} {s : Store C json}

section

variable (h : TablesOk P s)
include h

/-- Tables that find the same. -/
lemma TablesOk.of_eq {s' : Store C json} (hp : s'.isPersistent)
    (hf : ∀ x, s'.forward x = s.forward x) (hb : ∀ a, s'.backward a = s.backward a) :
    TablesOk P s' := by
  refine ⟨hp, fun host a hhost ha => h.inRange host a hhost ((hf host).symm.trans ha), ?_⟩
  intro host a hhost ha
  rw [hb]
  exact h.traces host a hhost ((hf host).symm.trans ha)

lemma TablesOk.exists_file : ∃ f, s = .file f := by
  have hpersistent := h.persistent
  cases s with
  | memory s => cases hpersistent
  | file s => exact ⟨s, rfl⟩

lemma TablesOk.persist (ok : Bool) : TablesOk P (s.persist ok) := by
  obtain ⟨hf, hb⟩ := s.persist_tables ok
  have hpersistent := h.persistent
  exact h.of_eq (by cases s <;> exact hpersistent) (congrFun hf) (congrFun hb)

/-- Deleting an address: it is not found back any more, and no host has a new address. -/
lemma TablesOk.delByIp (ip : IpAddr) :
    TablesOk P (s.delByIp ip) ∧ (s.delByIp ip).backward ip = none ∧
      ∀ x, s.forward x = none → (s.delByIp ip).forward x = none := by
  obtain ⟨f, rfl⟩ := h.exists_file
  obtain ⟨hreverse, hstate⟩ := f.delByIp_tables ip
  have hb : ∀ a, (delByIp (.file f : Store C json) ip).backward a =
      if a = ip then none else (.file f : Store C json).backward a := by
    intro a
    simp only [delByIp, backward, hreverse]
    exact lookup_erase_ite f.reverse ip a
  refine ⟨⟨rfl, fun host a hhost ha => h.inRange host a hhost (hstate host a ha).1,
    h.traces.delete hstate hb⟩, (hb ip).trans (if_pos rfl), ?_⟩
  intro x hx
  cases hx' : (delByIp (.file f : Store C json) ip).forward x with
  | none => rfl
  | some a => cases hx.symm.trans (hstate x a hx').1

/-- Writing an address that is not found back, to any host. -/
lemma TablesOk.put (host : Str) {ip} (hip : s.backward ip = none) (hP : P ip) :
    TablesOk P (s.put host ip) ∧ (s.put host ip).forward host = some ip := by
  obtain ⟨f, rfl⟩ := h.exists_file
  have hf : ∀ x, (put (.file f : Store C json) host ip).forward x =
      if x = host then some ip else (.file f : Store C json).forward x :=
    fun x => lookup_insert_ite f.state.entries host x ip
  have hb : ∀ a, (put (.file f : Store C json) host ip).backward a =
      if a = ip then some host else (.file f : Store C json).backward a :=
    fun a => lookup_insert_ite f.reverse ip a host
  refine ⟨⟨rfl, ?_, h.traces.insert hip hf hb⟩, (hf host).trans (if_pos rfl)⟩
  intro x a hx ha
  rw [hf] at ha
  split_ifs at ha
  · rwa [← Option.some.inj ha]
  · exact h.inRange x a hx ha

lemma TablesOk.putState (offset : IpAddr) (cycle : Bool) :
    TablesOk P (if s.isPersistent then s.putState offset cycle else s) := by
  obtain ⟨hf, hb⟩ := s.putState_tables offset cycle
  have hpersistent := h.persistent
  exact h.of_eq (by cases s <;> exact hpersistent) (congrFun hf) (congrFun hb)

end

/-- The tables need not be inverse for an allocation. -/
lemma allocRules_tablesOk (P : IpAddr → Prop) : AllocRules P (TablesOk P : Store C json → Prop) :=
  ⟨TablesOk.delByIp, TablesOk.persist, fun h _ _ _ => h.put _, TablesOk.putState⟩

/-! ### The pool -/

/-- The invariant of a pool since its start. -/
structure StartedInv (net : IpNet) (p : Pool C json) : Prop where
  ipnet : p.ipnet = net
  anchors : anchorAddrs net = .ok (p.gateway, p.first, p.last)
  cursor : nextAddr p.offset = p.first ∨ containedInRange p.offset p.first p.last = true
  tables : TablesOk (fun a => containedInRange a p.first p.last = true) p.store

variable {p : Pool C json}

/-- **Allocation.** It keeps the invariant, and the host has the address that is returned. -/
lemma StartedInv.allocate (h : StartedInv net p) {host} (hhost : p.store.forward host = none)
    (saves : Saves) :
    StartedInv net (p.allocate host saves).2 ∧
      (p.allocate host saves).2.store.forward host = some (p.allocate host saves).1 := by
  have hcand := containedInRange_allocate h.anchors h.cursor host saves
  obtain ⟨hok, hfound⟩ := (allocRules_tablesOk _).allocate h.tables hhost saves hcand
  exact ⟨⟨h.ipnet, h.anchors, .inr hcand, hok⟩, hfound⟩

section

variable (h : TablesOk P s)
include h

/-- A file store finds what its table has, and does not change by it. -/
lemma TablesOk.getByHost (host : Str) : s.getByHost host = (s.forward host, s) := by
  obtain ⟨f, rfl⟩ := h.exists_file
  rfl

lemma TablesOk.getByIp (ip : IpAddr) : s.getByIp ip = (s.backward ip, s) := by
  obtain ⟨f, rfl⟩ := h.exists_file
  rfl

end

section

variable (h : StartedInv net p)
include h

/-- **A lookup** keeps the invariant, and the host has the address that is returned. -/
lemma StartedInv.lookup (host : Str) (saves : Saves) :
    StartedInv net (p.lookup host saves).2 ∧
      (p.lookup host saves).2.store.forward (toAsciiLowercase host) =
        some (p.lookup host saves).1 := by
  simp only [Pool.lookup, h.tables.getByHost]
  cases hget : p.store.forward (toAsciiLowercase host) with
  | some existing => exact ⟨h, hget⟩
  | none => exact h.allocate hget saves

/-- Each operation but a restart keeps the invariant. -/
lemma StartedInv.step (op : PoolOp) (hop : op.isRestart = false) : StartedInv net (p.step op) := by
  cases op with
  | lookup host saves => exact (h.lookup host saves).1
  | lookBack ip =>
    simp only [Pool.step, Pool.lookBack, h.tables.getByIp]
    split_ifs
    · exact h
    · exact h
  | flush saves =>
    have hflush : TablesOk (fun a => containedInRange a p.first p.last) p.store.flush := by
      obtain ⟨f, hf⟩ := h.tables.exists_file
      have hnone : ∀ host, p.store.flush.forward host = none := by
        intro host
        rw [hf]
        rfl
      refine ⟨by rw [hf]; rfl, ?_, ?_⟩
      · intro host a _ ha
        cases (hnone host).symm.trans ha
      · intro host a _ ha
        cases (hnone host).symm.trans ha
    have hok := (allocRules_tablesOk _).save hflush saves.afterDel
    exact ⟨h.ipnet, h.anchors, .inl (nextAddr_prevAddr p.first),
      hok.putState (prevAddr p.first) false⟩
  | persist ok => exact ⟨h.ipnet, h.anchors, h.cursor, h.tables.persist ok⟩
  | restart clean => exact absurd hop (by simp [PoolOp.isRestart])

lemma StartedInv.run (ops : List PoolOp) (hops : ∀ op ∈ ops, op.isRestart = false) :
    StartedInv net (p.run ops) := by
  induction ops generalizing p with
  | nil => exact h
  | cons op ops ih =>
    exact ih (h.step op (hops op mem_cons_self)) fun op' hop' =>
      hops op' (mem_cons_of_mem _ hop')

end

/-- With the invariant the lookups are as expected. -/
lemma StartedInv.lookupsOk (h : StartedInv net p)
    (htop : net.network.toNat + 4 < 2 ^ net.network.width) : p.LookupsOk net := by
  intro ops hops host saves
  obtain ⟨hinv, hfound⟩ := (h.run ops hops).lookup host saves
  generalize (p.run ops).lookup host saves = r at hinv hfound ⊢
  have hlower : IsLower (toAsciiLowercase host) := by
    simp [IsLower, toAsciiLowercase, asciiLower_asciiLower]
  have hin := hinv.tables.inRange _ _ hlower hfound
  have hback := hinv.tables.traces _ _ hlower hfound
  have halloc := (containedInRange_iff_allocatable hinv.anchors htop r.1).mp hin
  have hnot : ¬(r.1 = r.2.gateway ∨ r.1 = r.2.last) := by
    rintro (heq | heq)
    · exact not_allocatable_gateway hinv.anchors (heq ▸ halloc)
    · rw [heq, containedInRange_last] at hin
      simp at hin
  refine ⟨halloc, ?_, ?_⟩
  · rw [isFakeIp, hinv.ipnet, halloc.contains, if_neg hnot, Store.exists_eq, hback]
    rfl
  · rw [lookBack, if_neg hnot, hinv.tables.getByIp]
    exact hback

/-! ### Which snapshots are in order -/

/-- The store of a snapshot whose entries are listed in another order. -/
def listed (snap : PersistedSnapshot) (entries : AList fun _ : Str => IpAddr)
    (file : Option json.File) : Store C json :=
  .file (.fromSnapshot { snap with entries := entries } file)

/-- The first lookup of a host that has an entry. -/
lemma lookup_entry {offset gateway first last cycle snap} {entries : AList fun _ : Str => IpAddr}
    {file host a} (hhost : IsLower host) (ha : entries.lookup host = some a) (saves : Saves) :
    (⟨net, gateway, first, last, offset, cycle, listed snap entries file⟩ : Pool C json).lookup
      host saves = (a, ⟨net, gateway, first, last, offset, cycle, listed snap entries file⟩) := by
  have hget : (listed snap entries file : Store C json).getByHost (toAsciiLowercase host) =
      (some a, listed snap entries file) := by
    rw [show toAsciiLowercase host = host from hhost]
    exact congrArg (·, _) ha
  rw [Pool.lookup, hget]

/-- **From which files a pool starts well.** Whatever the order in which the hash map lists the
entries, the lookups after the start are as expected exactly if

* counting up from the network's address to the first address to hand out does not pass the top of
  the address space, and
* every entry of a host in lower case has an address that is to be handed out, and no other host
  has an entry with the same address.

**Proof sketch.** With both, the tables are in order at the start, whatever else they hold, and
stay so. In the other direction, the first lookup of a host gives what its entry has; and where two
hosts share an address, the one that is listed last is found back. -/
theorem lookups_ok_iff (net : IpNet) (anchors : IpAddr × IpAddr × IpAddr)
    (hnet : anchorAddrs net = .ok anchors) (snap : PersistedSnapshot) (file : Option json.File) :
    (∀ entries : AList fun _ : Str => IpAddr, entries.entries.Perm snap.entries.entries →
      ∀ p : Pool C json, Pool.new net (listed snap entries file) = .ok p → p.LookupsOk net) ↔
    net.network.toNat + 4 < 2 ^ net.network.width ∧
      ∀ host a, IsLower host → snap.entries.lookup host = some a →
        Allocatable net a ∧ ∀ host', snap.entries.lookup host' = some a → host' = host := by
  constructor
  · intro hok
    have hfirst : ∀ (entries : AList fun _ : Str => IpAddr),
        entries.entries.Perm snap.entries.entries → ∀ host a, IsLower host →
        entries.lookup host = some a →
        Allocatable net a ∧ (reverseMap entries).lookup a = some host := by
      intro entries hperm host a hhost ha
      obtain ⟨offset, cycle, hp⟩ := exists_new (C := C) hnet (listed snap entries file)
      obtain ⟨halloc, -, hback⟩ := hok entries hperm _ hp [] (by simp) host ⟨none, none⟩
      rw [show ∀ q : Pool C json, q.run [] = q from fun _ => rfl, lookup_entry hhost ha]
        at halloc hback
      refine ⟨halloc, ?_⟩
      rw [lookBack, show toAsciiLowercase host = host from hhost] at hback
      split_ifs at hback
      exact hback
    refine ⟨?_, fun host a hhost ha => ⟨(hfirst _ (.refl _) host a hhost ha).1, ?_⟩⟩
    · -- any address to be handed out is above the fourth
      obtain ⟨offset, cycle, hp⟩ := exists_new (C := C) hnet (listed snap snap.entries file)
      obtain ⟨halloc, -⟩ := hok snap.entries (.refl _) _ hp [] (by simp) [] ⟨none, none⟩
      have hlt := net.broadcast.toNat_lt
      rw [IpAddr.width_eq_of_isIpv4 net.family] at hlt
      exact lt_of_le_of_lt halloc.2.1 (halloc.2.2.trans hlt)
    · -- list the other host last
      intro host' ha'
      obtain ⟨l₁, l₂, hsplit⟩ := append_of_mem (mem_lookup_iff.mp ha')
      have hperm : (l₁ ++ l₂ ++ [(⟨host', a⟩ : Σ _ : Str, IpAddr)]).Perm snap.entries.entries := by
        rw [hsplit]
        exact (perm_append_singleton _ _).trans perm_middle.symm
      let entries : AList fun _ : Str => IpAddr :=
        ⟨l₁ ++ l₂ ++ [⟨host', a⟩], (perm_nodupKeys hperm).mpr snap.entries.nodupKeys⟩
      have hlookup : entries.lookup host = some a := (perm_lookup hperm).trans ha
      have hback := (hfirst entries hperm host a hhost hlookup).2
      rw [lookup_reverseMap] at hback
      simpa [entries] using hback
  · rintro ⟨htop, hentries⟩ entries hperm p hp
    obtain ⟨hipnet, hanchors, hcursor, hstore⟩ := new_spec hp
    have hrange := containedInRange_iff_allocatable hanchors htop
    have hsame : ∀ host, entries.lookup host = snap.entries.lookup host :=
      fun host => perm_lookup hperm
    refine StartedInv.lookupsOk ⟨hipnet, hanchors, hcursor, ?_⟩ htop
    rw [hstore]
    refine ⟨rfl, ?_, ?_⟩
    · intro host a hhost ha
      exact (hrange a).mpr (hentries host a hhost ((hsame host).symm.trans ha)).1
    · intro host a hhost ha
      refine lookup_reverseMap_of_unique ha fun host' ha' => ?_
      exact (hentries host a hhost ((hsame host).symm.trans ha)).2 host'
        ((hsame host').symm.trans ha')

end

/-- A snapshot that was written under the range `10.0.0.0/16`. -/
def oldSnapshot : PersistedSnapshot where
  entries := AList.singleton (str "a.example") (.v4 0x0A000004)
  offset := some (.v4 0x0A000004)
  cycle := false

/-- A snapshot that was written under the range `198.18.0.0/24`. -/
def sameSnapshot : PersistedSnapshot where
  entries := AList.singleton (str "a.example") (.v4 0xC6120004)
  offset := some (.v4 0xC6120004)
  cycle := false

/-- The pool over `198.18.0.0/24` that starts from a snapshot whose cursor is not used. -/
def startedPool (snap : PersistedSnapshot) : Pool ListLru plainJson :=
  { testPool with store := listed snap snap.entries none }

/-- It starts well from the second of them. -/
theorem sameSnapshot_lookups_ok :
    ({ startedPool sameSnapshot with offset := .v4 0xC6120004 } : Pool ListLru plainJson).LookupsOk
      testNet := by
  refine (lookups_ok_iff testNet (.v4 0xC6120001, .v4 0xC6120004, .v4 0xC61200FF) rfl sameSnapshot
    none).mpr ⟨by decide, ?_⟩ sameSnapshot.entries (.refl _) _ rfl
  have hentry : ∀ host a, sameSnapshot.entries.lookup host = some a →
      host = str "a.example" ∧ a = .v4 0xC6120004 := by
    intro host a ha
    have heq := mem_singleton.mp (mem_lookup_iff.mp ha)
    exact ⟨congrArg Sigma.fst heq, eq_of_heq (Sigma.mk.inj heq).2⟩
  intro host a _ ha
  obtain ⟨rfl, rfl⟩ := hentry host a ha
  exact ⟨by decide, fun host' ha' => (hentry host' _ ha').1⟩

/-- **An entry of another range is handed out**: it is outside the network, and is not known as a
fake address. -/
theorem oldSnapshot_address :
    Pool.new testNet (listed oldSnapshot oldSnapshot.entries none) =
        .ok (startedPool oldSnapshot) ∧
      ((startedPool oldSnapshot).lookup (str "a.example") ⟨none, none⟩).1 = .v4 0x0A000004 ∧
      ¬Allocatable testNet (.v4 0x0A000004) ∧
      (startedPool oldSnapshot).isFakeIp (.v4 0x0A000004) = false := by
  refine ⟨rfl, ?_, by decide, by decide⟩
  decide

end Meow.Dns
