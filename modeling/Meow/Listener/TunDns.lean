import Meow.Lib.Text

/-!
# The resolver configuration under the TUN listener

While the listener runs, `/etc/resolv.conf` names its own server. What was there is kept in memory
and in a sidecar, from which a start after a crash takes it if the file has the marker.

## Main definitions

* `ResolvConf.step`, `ResolvConf.run` — starts, stops and crashes, also inside a write of a file.
* `DnsOp.Whole` — a crash that does not leave a part of the file.

## Main results

* `ResolvConf.Kept.step`, `ResolvConf.Kept.run` — the original is kept.
* `ResolvConf.restored_of_whole` — so that a stop brings it back.
-/

namespace Meow.Listener

open List

def MARKER : List UInt8 := asBytes (str "# Generated by meow-rs TUN dns-guard")

/-- What is restored if there is no sidecar. -/
def originalLost : List UInt8 := asBytes (str ("# meow-rs tun dns-guard: the original " ++
  "/etc/resolv.conf was lost in an\n# unclean shutdown; falling back to public resolvers.\n" ++
  "nameserver 1.1.1.1\nnameserver 8.8.8.8\n"))

def newContent (dnsAddr : Str) : List UInt8 :=
  MARKER ++ asBytes (str "\nnameserver " ++ dnsAddr ++ str "\n")

/-- The file, the sidecar, and what the `DnsGuard` of a running listener keeps. -/
structure ResolvConf where
  current : List UInt8
  sidecar : Option (List UInt8)
  backup : Option (List UInt8)

/-- A crash inside the write of a file leaves its first bytes: of the sidecar or of the file in
`backup_and_set`, of the file in `restore`. -/
inductive DnsOp where
  | start (dnsAddr : Str)
  | stop
  | crash
  | startCrash (dnsAddr : Str) (inSidecar : Bool) (written : ℕ)
  | stopCrash (written : ℕ)

/-- A crash in the write of the file comes when the marker, or all of the original, is written. -/
def DnsOp.Whole (original : List UInt8) : DnsOp → Prop
  | startCrash _ false written => MARKER.length ≤ written ∨ MARKER.take written = original
  | stopCrash written => original.length ≤ written
  | _ => True

namespace ResolvConf

/-- The content that `backup_and_set` keeps, and the sidecar. -/
def backupAndSidecar (s : ResolvConf) : List UInt8 × Option (List UInt8) :=
  if MARKER <+: s.current then (s.sidecar.getD originalLost, s.sidecar)
  else (s.current, some s.current)

/-- A listener that runs is not started again. -/
def step (s : ResolvConf) (op : DnsOp) : ResolvConf :=
  match op, s.backup with
  | .start dnsAddr, none =>
    ⟨newContent dnsAddr, s.backupAndSidecar.2, some s.backupAndSidecar.1⟩
  | .startCrash _ true written, none =>
    if MARKER <+: s.current then s else { s with sidecar := some (s.current.take written) }
  | .startCrash dnsAddr false written, none =>
    ⟨(newContent dnsAddr).take written, s.backupAndSidecar.2, none⟩
  | .stop, some content => ⟨content, none, none⟩
  | .stopCrash written, some content => ⟨content.take written, s.sidecar, none⟩
  | .crash, _ => { s with backup := none }
  | _, _ => s

def run (s : ResolvConf) (ops : List DnsOp) : ResolvConf := ops.foldl step s

variable {original : List UInt8} {s : ResolvConf}

/-- The original is in the file, or the file has the marker and the sidecar the original. -/
structure Kept (original : List UInt8) (s : ResolvConf) : Prop where
  saved : s.current = original ∨ MARKER <+: s.current ∧ s.sidecar = some original
  backup : ∀ content ∈ s.backup, content = original

lemma Kept.backupAndSidecar (hmark : ¬MARKER <+: original) (h : Kept original s) :
    s.backupAndSidecar = (original, some original) := by
  unfold ResolvConf.backupAndSidecar
  rcases h.saved with rfl | ⟨hcurrent, hsidecar⟩
  · rw [if_neg hmark]
  · rw [if_pos hcurrent, hsidecar, Option.getD_some]

/-- A crash in the write of the file at a start leaves the original or the marker. -/
lemma take_newContent {dnsAddr written}
    (h : (DnsOp.startCrash dnsAddr false written).Whole original) :
    (newContent dnsAddr).take written = original ∨
      MARKER <+: (newContent dnsAddr).take written := by
  rw [newContent, take_append]
  rcases le_total MARKER.length written with hle | hle
  · rw [take_of_length_le hle]
    exact .inr (prefix_append _ _)
  · rw [Nat.sub_eq_zero_of_le hle, take_zero, append_nil]
    rcases h with h | h
    · exact .inr (by rw [take_of_length_le h])
    · exact .inl h

/-- **A step keeps the original** unless it is a crash that leaves a part of a file. -/
lemma Kept.step (hmark : ¬MARKER <+: original) (h : Kept original s) {op : DnsOp}
    (hwhole : op.Whole original) : Kept original (s.step op) := by
  have hboth := h.backupAndSidecar hmark
  unfold ResolvConf.step
  split <;> try exact h
  · exact ⟨.inr ⟨prefix_append _ _, by rw [hboth]⟩, by simp [hboth]⟩
  · split_ifs with hcurrent
    · exact h
    · exact ⟨.inl (h.saved.resolve_right fun hm => hcurrent hm.1), h.backup⟩
  · exact ⟨(take_newContent hwhole).imp_right fun hm => ⟨hm, by rw [hboth]⟩, nofun⟩
  · exact ⟨.inl (h.backup _ ‹_›), nofun⟩
  · obtain rfl := h.backup _ ‹_›
    exact ⟨.inl (take_of_length_le hwhole), nofun⟩
  · exact ⟨h.saved, nofun⟩

lemma Kept.run (hmark : ¬MARKER <+: original) {ops} (h : Kept original s)
    (hwhole : ∀ op ∈ ops, op.Whole original) : Kept original (s.run ops) := by
  induction ops generalizing s with
  | nil => exact h
  | cons op ops ih =>
    obtain ⟨hop, hops⟩ := forall_mem_cons.mp hwhole
    exact ih (h.step hmark hop) hops

/-- **A clean stop of a listener that runs restores the file**, after any number of starts, stops
and crashes, if the original has not the marker itself and no crash left a part of the file: the
sidecar then has the original whenever the file has the marker. -/
theorem restored_of_whole (sidecar : Option (List UInt8)) (ops : List DnsOp)
    (hmark : ¬MARKER <+: original) (hwhole : ∀ op ∈ ops, op.Whole original)
    (hruns : (run ⟨original, sidecar, none⟩ ops).backup.isSome) :
    (run ⟨original, sidecar, none⟩ (ops ++ [.stop])).current = original := by
  have hkept : Kept original (run ⟨original, sidecar, none⟩ ops) :=
    Kept.run hmark ⟨.inl rfl, nofun⟩ hwhole
  obtain ⟨content, hcontent⟩ := Option.isSome_iff_exists.mp hruns
  rw [run, foldl_concat, ← run]
  simp only [step, hcontent]
  exact hkept.backup content hcontent

/-- Twice the marker is left behind. -/
theorem restored_after_crashes : (run ⟨[110], none, none⟩ [.start [], .crash,
    .startCrash [] false 40, .start [], .stop]).current = [110] :=
  restored_of_whole none [.start [], .crash, .startCrash [] false 40, .start []]
    (by decide) (by simp [DnsOp.Whole, MARKER]; decide) (by decide)

/-- The crash comes when the file was cut to nothing: the empty file is taken for the original. -/
theorem original_lost : (run ⟨[110], none, none⟩ [.startCrash [] false 0, .start [], .stop]).current
    = [] := by
  decide

end ResolvConf

end Meow.Listener
