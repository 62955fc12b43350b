import Mathlib.Tactic

/-!
# The table of UDP sessions

`udp.rs` sends the datagrams of a flow, a pair of a source and a destination, over one session. A
handler runs for each datagram: once the destination is known it looks the flow up. If there is a
session the datagram is written to it. If there is none the handler dials, which takes long, and
then claims the flow: the first to do so installs its session, and one that comes later closes its
own and writes to the session it finds. A write that fails takes the session out of the table if it
is still the one there, and a sweeper takes out the sessions that were idle for too long.

Handlers run side by side, and what one does between two `await`s is a step here. The clock, the
resolver, the rules, and the results of dials and writes are up to the run.

## Main definitions

* `NatState` — the table, the sessions, the handlers and what was written.
* `UdpOp`, `NatState.step`, `NatState.run` — what happens.
* `NatInv` — the invariant.

## Main results

* `NatInv.step` — every step keeps the invariant.
* `NatState.Served.step`, `NatState.Closed.step` — a datagram stays written
  once, a session that lost its claim stays closed and unused.
* `run_natTable` — the guarantees, over all runs.
-/

namespace Meow.Tunnel

open List Option Prod Nat

/-! ### The state -/

/-- `UdpSession`: the time of the last activity as it is stored, the same time of the clock, and
whether the connection was closed. -/
structure UdpSession where
  lastActivityMs : UInt64
  activeAt : ℕ
  closed : Bool
  deriving DecidableEq

/-- Where a handler stands. -/
inductive Stage (Addr : Type) where
  /-- The destination is being resolved. -/
  | resolving
  /-- The datagram is being written to a session that was in the table. -/
  | fast (dst : Addr) (session : ℕ)
  | dialing (dst : Addr)
  /-- The datagram is being written to the session that has the claim. -/
  | slow (dst : Addr) (winner : ℕ)
  | ended
  deriving DecidableEq

/-- A handler of a datagram. -/
structure Handler (Addr : Type) where
  src : Addr
  data : List UInt8
  stage : Stage Addr
  deriving DecidableEq

/-- A call of `write_packet`. -/
structure Write (Addr : Type) where
  handler : ℕ
  session : ℕ
  data : List UInt8
  dst : Addr
  deriving DecidableEq

/-- What the handlers share, and the handlers. A session is known by its place in `sessions`, which
has every session ever dialed, a handler by its place in `handlers`; `writes` has the latest write
first. The time limit `idle` is in nanoseconds, the clock in milliseconds. -/
structure NatState (Addr : Type) where
  idle : ℕ
  clock : ℕ
  sessions : List UdpSession
  natTable : List ((Addr × Addr) × ℕ)
  handlers : List (Handler Addr)
  writes : List (Write Addr)
  deriving DecidableEq

variable {Addr : Type} [DecidableEq Addr]

namespace NatState

def new (idle : ℕ) : NatState Addr :=
  { idle, clock := 0, sessions := [], natTable := [], handlers := [], writes := [] }

def monotonicMs (t : NatState Addr) : UInt64 := UInt64.ofNat t.clock

/-- `UdpSession::idle_for`, in milliseconds. -/
def idleFor (t : NatState Addr) (x : UdpSession) : ℕ := (t.monotonicMs - x.lastActivityMs).toNat

/-- `nat_table.get`. -/
def get (t : NatState Addr) (key : Addr × Addr) : Option ℕ :=
  (t.natTable.find? fun entry => entry.1 = key).map Prod.snd

/-- `nat_table.remove_if` with a comparison of the session. -/
def removeIf (t : NatState Addr) (key : Addr × Addr) (s : ℕ) : NatState Addr :=
  { t with natTable := t.natTable.filter fun entry => ¬ entry = (key, s) }

def touch (t : NatState Addr) (s : ℕ) : NatState Addr :=
  { t with
    sessions := t.sessions.modify s fun x =>
      { x with lastActivityMs := t.monotonicMs, activeAt := t.clock } }

def setStage (t : NatState Addr) (h : ℕ) (stage : Stage Addr) : NatState Addr :=
  { t with handlers := t.handlers.modify h fun x => { x with stage } }

/-- A handler calls `write_packet`. -/
def write (t : NatState Addr) (h s : ℕ) (data : List UInt8) (dst : Addr) : NatState Addr :=
  { t with writes := ⟨h, s, data, dst⟩ :: t.writes }

/-- The destination of a datagram is known, or could not be found; and whether a rule has a proxy
for it. The handler goes on to its next `await`. -/
def resolved (t : NatState Addr) (h : ℕ) (x : Handler Addr) (dst : Option Addr)
    (route : Bool) : NatState Addr :=
  match dst with
  | none => t.setStage h .ended
  | some dst =>
    match t.get (x.src, dst) with
    | some s => (t.setStage h (.fast dst s)).write h s x.data dst
    | none => t.setStage h (if route then .dialing dst else .ended)

/-- A write ends. Only the fast path marks the session as active. -/
def written (t : NatState Addr) (h : ℕ) (x : Handler Addr) (ok : Bool) : NatState Addr :=
  match x.stage with
  | .fast dst s => (if ok then t.touch s else t.removeIf (x.src, dst) s).setStage h .ended
  | .slow dst s => (if ok then t else t.removeIf (x.src, dst) s).setStage h .ended
  | _ => t

/-- `UdpSession::new` for a dial that succeeded. -/
def addSession (t : NatState Addr) (closed : Bool) : NatState Addr :=
  { t with
    sessions := t.sessions ++
      [{ lastActivityMs := t.monotonicMs, activeAt := t.clock, closed }] }

/-- A dial succeeds: `entry().or_insert_with()`, the close of a session that lost the claim, and the
call of `write_packet`. -/
def claim (t : NatState Addr) (h : ℕ) (x : Handler Addr) (dst : Addr) : NatState Addr :=
  match t.get (x.src, dst) with
  | some winner =>
    ((t.addSession true).setStage h (.slow dst winner)).write h winner x.data dst
  | none =>
    (({ t.addSession false with
        natTable := t.natTable ++ [((x.src, dst), t.sessions.length)] }).setStage h
          (.slow dst t.sessions.length)).write h t.sessions.length x.data dst

/-- A dial ends. -/
def dialed (t : NatState Addr) (h : ℕ) (x : Handler Addr) (ok : Bool) : NatState Addr :=
  match x.stage with
  | .dialing dst => if ok then t.claim h x dst else t.setStage h .ended
  | _ => t

/-- A turn of the sweeper. -/
def sweep (t : NatState Addr) : NatState Addr :=
  { t with
    natTable := t.natTable.filter fun entry =>
      t.sessions[entry.2]?.all fun x => t.idleFor x * 1000000 < t.idle }

end NatState

/-- What happens: time passes, a datagram arrives, the steps of its handler, a turn of the
sweeper. -/
inductive UdpOp (Addr : Type) where
  | tick (ms : ℕ)
  | packet (src : Addr) (data : List UInt8)
  | resolved (h : ℕ) (dst : Option Addr) (route : Bool)
  | written (h : ℕ) (ok : Bool)
  | dialed (h : ℕ) (ok : Bool)
  | sweep
  deriving DecidableEq

namespace NatState

/-- A step; it changes nothing where it cannot happen. -/
def step (t : NatState Addr) : UdpOp Addr → NatState Addr
  | .tick ms => { t with clock := t.clock + ms }
  | .packet src data => { t with handlers := t.handlers ++ [⟨src, data, .resolving⟩] }
  | .resolved h dst route =>
    match t.handlers[h]? with
    | some x => if x.stage = .resolving then t.resolved h x dst route else t
    | none => t
  | .written h ok =>
    match t.handlers[h]? with
    | some x => t.written h x ok
    | none => t
  | .dialed h ok =>
    match t.handlers[h]? with
    | some x => t.dialed h x ok
    | none => t
  | .sweep => t.sweep

/-- A run. -/
def run (t : NatState Addr) (ops : List (UdpOp Addr)) : NatState Addr := ops.foldl step t

end NatState

open NatState

/-! ### What one step can do -/

section StepCases

variable {t : NatState Addr} {key : Addr × Addr}

lemma NatState.mem_of_get {s} (h : t.get key = some s) : (key, s) ∈ t.natTable := by
  obtain ⟨entry, hfind, rfl⟩ := map_eq_some_iff.mp h
  have hkey := find?_some hfind
  rw [decide_eq_true_eq] at hkey
  rw [← hkey]
  exact mem_of_find?_eq_some hfind

lemma NatState.not_mem_of_get_eq_none (h : t.get key = none) : key ∉ t.natTable.map fst := by
  rw [get, map_eq_none_iff, find?_eq_none] at h
  intro hmem
  obtain ⟨entry, hentry, hkey⟩ := mem_map.mp hmem
  exact h entry hentry (decide_eq_true hkey)

/-- The step of a handler, in terms of the table. -/
inductive TableStep (t t' : NatState Addr) (op : UdpOp Addr) : Prop where
  | same (htable : t'.natTable = t.natTable)
  /-- A write failed. -/
  | failed (h : ℕ) (x : Handler Addr) (dst : Addr) (s : ℕ) (hop : op = .written h false)
      (hx : t.handlers[h]? = some x) (hstage : x.stage = .fast dst s ∨ x.stage = .slow dst s)
      (htable : t'.natTable = (t.removeIf (x.src, dst) s).natTable)
  /-- A flow is claimed by the first. -/
  | installed (key : Addr × Addr) (hnone : t.get key = none)
      (htable : t'.natTable = t.natTable ++ [(key, t.sessions.length)])
      (hlen : t.sessions.length < t'.sessions.length)
  | swept (hop : op = .sweep) (htable : t'.natTable = t.sweep.natTable)

/-- The step of a handler, in terms of the handlers and the writes. -/
inductive HandlerStep (t t' : NatState Addr) : Prop where
  | same (hhandlers : t'.handlers = t.handlers) (hwrites : t'.writes = t.writes)
  | packet (src : Addr) (data : List UInt8)
      (hhandlers : t'.handlers = t.handlers ++ [⟨src, data, .resolving⟩])
      (hwrites : t'.writes = t.writes)
  /-- A handler ends, or begins to dial. -/
  | moves (h : ℕ) (x : Handler Addr) (stage : Stage Addr) (hx : t.handlers[h]? = some x)
      (hstage : stage = .ended ∨ x.stage = .resolving ∧ ∃ dst, stage = .dialing dst)
      (hhandlers : t'.handlers = t.handlers.modify h fun x => { x with stage })
      (hwrites : t'.writes = t.writes)
  /-- A handler writes, to the session that is in the table for its flow. -/
  | writes (h : ℕ) (x : Handler Addr) (dst : Addr) (s : ℕ) (stage : Stage Addr)
      (hx : t.handlers[h]? = some x)
      (hold : x.stage = .resolving ∨ ∃ dst, x.stage = .dialing dst)
      (hstage : stage = .fast dst s ∨ stage = .slow dst s)
      (hhandlers : t'.handlers = t.handlers.modify h fun x => { x with stage })
      (hwrites : t'.writes = ⟨h, s, x.data, dst⟩ :: t.writes)
      (htable : ((x.src, dst), s) ∈ t'.natTable)

/-- The step of a handler, in terms of the sessions and the clock. -/
inductive SessionStep (t t' : NatState Addr) : Prop where
  | same (hsessions : t'.sessions = t.sessions) (hclock : t.clock ≤ t'.clock)
  | touched (s : ℕ) (hsessions : t'.sessions = (t.touch s).sessions) (hclock : t'.clock = t.clock)
  | added (closed : Bool) (hsessions : t'.sessions = (t.addSession closed).sessions)
      (hclock : t'.clock = t.clock)

/-- What a step can do. -/
structure StepSpec (t t' : NatState Addr) (op : UdpOp Addr) : Prop where
  table : TableStep t t' op
  handlers : HandlerStep t t'
  sessions : SessionStep t t'
  idle : t'.idle = t.idle

lemma StepSpec.nothing (t : NatState Addr) (op : UdpOp Addr) : StepSpec t t op :=
  ⟨.same rfl, .same rfl rfl, .same rfl le_rfl, rfl⟩

variable {h : ℕ} {x : Handler Addr}

section

variable (hx : t.handlers[h]? = some x)
include hx

/-- A step that only moves a handler. -/
lemma StepSpec.moves {op stage}
    (hstage : stage = .ended ∨ x.stage = .resolving ∧ ∃ dst, stage = .dialing dst) :
    StepSpec t (t.setStage h stage) op :=
  ⟨.same rfl, .moves h x stage hx hstage rfl rfl, .same rfl le_rfl, rfl⟩

lemma stepSpec_resolved (hstage : x.stage = .resolving) (dst : Option Addr) (route : Bool)
    (op : UdpOp Addr) : StepSpec t (t.resolved h x dst route) op := by
  cases dst with
  | none => exact .moves hx (.inl rfl)
  | some dst =>
    rcases hget : t.get (x.src, dst) with _ | s <;> simp only [resolved, hget]
    · cases route with
      | true => exact .moves hx (.inr ⟨hstage, dst, rfl⟩)
      | false => exact .moves hx (.inl rfl)
    · exact ⟨.same rfl, .writes h x dst s (.fast dst s) hx (.inl hstage) (.inl rfl) rfl rfl
        (mem_of_get hget), .same rfl le_rfl, rfl⟩

lemma stepSpec_written (ok : Bool) : StepSpec t (t.written h x ok) (.written h ok) := by
  have hfailed : ∀ dst s, x.stage = .fast dst s ∨ x.stage = .slow dst s →
      StepSpec t ((t.removeIf (x.src, dst) s).setStage h .ended) (.written h false) :=
    fun dst s hstage => ⟨.failed h x dst s rfl hx hstage rfl,
      .moves h x .ended hx (.inl rfl) rfl rfl, .same rfl le_rfl, rfl⟩
  cases hstage : x.stage <;> simp only [written, hstage]
  case fast dst s =>
    cases ok with
    | true => exact ⟨.same rfl, .moves h x .ended hx (.inl rfl) rfl rfl, .touched s rfl rfl, rfl⟩
    | false => exact hfailed dst s (.inl hstage)
  case slow dst s =>
    cases ok with
    | true => exact .moves hx (.inl rfl)
    | false => exact hfailed dst s (.inr hstage)
  all_goals exact .nothing t _

lemma stepSpec_claim {dst} (hstage : x.stage = .dialing dst) (op : UdpOp Addr) :
    StepSpec t (t.claim h x dst) op := by
  rcases hget : t.get (x.src, dst) with _ | winner <;> simp only [claim, hget]
  · exact ⟨.installed (x.src, dst) hget rfl (by simp [write, setStage, addSession]),
      .writes h x dst t.sessions.length (.slow dst t.sessions.length) hx (.inr ⟨dst, hstage⟩)
        (.inr rfl) rfl rfl (mem_append_right _ mem_cons_self),
      .added false rfl rfl, rfl⟩
  · exact ⟨.same rfl, .writes h x dst winner (.slow dst winner) hx (.inr ⟨dst, hstage⟩) (.inr rfl)
      rfl rfl (mem_of_get hget), .added true rfl rfl, rfl⟩

lemma stepSpec_dialed (ok : Bool) (op : UdpOp Addr) : StepSpec t (t.dialed h x ok) op := by
  cases hstage : x.stage <;> simp only [dialed, hstage]
  case dialing dst =>
    cases ok with
    | true => exact stepSpec_claim hx hstage op
    | false => exact .moves hx (.inl rfl)
  all_goals exact .nothing t _

end

/-- **What one step can do.** -/
theorem stepSpec (t : NatState Addr) (op : UdpOp Addr) : StepSpec t (t.step op) op := by
  cases op with
  | tick ms => exact ⟨.same rfl, .same rfl rfl, .same rfl (le_add_right _ _), rfl⟩
  | packet src data => exact ⟨.same rfl, .packet src data rfl rfl, .same rfl le_rfl, rfl⟩
  | resolved h dst route =>
    rcases hx : t.handlers[h]? with _ | x <;> simp only [step, hx]
    · exact .nothing t _
    · split_ifs with hstage
      · exact stepSpec_resolved hx hstage dst route _
      · exact .nothing t _
  | written h ok =>
    rcases hx : t.handlers[h]? with _ | x <;> simp only [step, hx]
    · exact .nothing t _
    · exact stepSpec_written hx ok
  | dialed h ok =>
    rcases hx : t.handlers[h]? with _ | x <;> simp only [step, hx]
    · exact .nothing t _
    · exact stepSpec_dialed hx ok _
  | sweep => exact ⟨.swept rfl rfl, .same rfl rfl, .same rfl le_rfl, rfl⟩

end StepCases

/-! ### The invariant -/

/-- A handler that has not written yet. -/
def Stage.Unwritten : Stage Addr → Prop
  | .resolving => True
  | .dialing _ => True
  | _ => False

/-- The writes of a handler. -/
def NatState.writesOf (t : NatState Addr) (h : ℕ) : List (Write Addr) :=
  t.writes.filter fun w => w.handler = h

/-- **The invariant of the table.** -/
structure NatInv (t : NatState Addr) : Prop where
  nodup : (t.natTable.map Prod.fst).Nodup
  lt : ∀ w ∈ t.writes, w.handler < t.handlers.length
  table_lt : ∀ entry ∈ t.natTable, entry.2 < t.sessions.length
  writes_lt : ∀ w ∈ t.writes, w.session < t.sessions.length
  unwritten : ∀ (h : ℕ) (x : Handler Addr), t.handlers[h]? = some x → x.stage.Unwritten →
    t.writesOf h = []
  active : ∀ x ∈ t.sessions, x.lastActivityMs = UInt64.ofNat x.activeAt ∧ x.activeAt ≤ t.clock

omit [DecidableEq Addr] in
lemma natInv_new (idle : ℕ) : NatInv (NatState.new idle : NatState Addr) where
  nodup := nodup_nil
  lt _ hw := absurd hw not_mem_nil
  table_lt _ hentry := absurd hentry not_mem_nil
  writes_lt _ hw := absurd hw not_mem_nil
  unwritten _ _ _ _ := rfl
  active _ hx := absurd hx not_mem_nil

section Inv

variable {t t' : NatState Addr} {op : UdpOp Addr}

lemma TableStep.nodup (h : TableStep t t' op) (hnodup : (t.natTable.map fst).Nodup) :
    (t'.natTable.map fst).Nodup := by
  cases h with
  | same htable => rwa [htable]
  | installed key hnone htable hlen =>
    rw [htable]
    simpa using hnodup.concat (not_mem_of_get_eq_none hnone)
  | failed _ _ _ _ _ _ _ htable | swept _ htable =>
    rw [htable]
    exact hnodup.sublist (filter_sublist.map _)

omit [DecidableEq Addr] in
lemma getElem?_modify_stage {handlers : List (Handler Addr)} {h i stage} {x : Handler Addr}
    (hx : (handlers.modify h fun x => { x with stage })[i]? = some x) :
    (i = h ∧ x.stage = stage) ∨ (i ≠ h ∧ handlers[i]? = some x) := by
  grind

omit [DecidableEq Addr] in
lemma getElem?_modify_stage_self {handlers : List (Handler Addr)} {h x} (stage : Stage Addr)
    (hx : handlers[h]? = some x) :
    (handlers.modify h fun x => { x with stage })[h]? = some { x with stage } := by
  rw [getElem?_modify, hx]
  simp

omit [DecidableEq Addr] in
lemma getElem?_modify_stage_ne {handlers : List (Handler Addr)} {h i} (stage : Stage Addr)
    (hi : h ≠ i) : (handlers.modify h fun x => { x with stage })[i]? = handlers[i]? := by
  simp [hi]

omit [DecidableEq Addr] in
/-- The writes of the handlers that did not write. -/
lemma writesOf_of_ne {h i} {w : Write Addr} (hw : w.handler = h)
    (hwrites : t'.writes = w :: t.writes) (hi : i ≠ h) : t'.writesOf i = t.writesOf i := by
  rw [writesOf, hwrites, filter_cons_of_neg]
  · rfl
  · rw [hw, decide_eq_true_eq]
    exact Ne.symm hi

omit [DecidableEq Addr] in
lemma HandlerStep.unwritten (h : HandlerStep t t')
    (hlt : ∀ w ∈ t.writes, w.handler < t.handlers.length)
    (hold : ∀ (h : ℕ) (x : Handler Addr), t.handlers[h]? = some x → x.stage.Unwritten →
      t.writesOf h = []) (i : ℕ) (y : Handler Addr) (hy : t'.handlers[i]? = some y)
    (hstage : y.stage.Unwritten) : t'.writesOf i = [] := by
  cases h with
  | same hhandlers hwrites =>
    rw [hhandlers] at hy
    rw [writesOf, hwrites]
    exact hold i y hy hstage
  | packet src data hhandlers hwrites =>
    rw [writesOf, hwrites]
    rw [hhandlers, getElem?_append] at hy
    split_ifs at hy with hi
    · exact hold i y hy hstage
    · -- the handler is new, and a write is by a handler that was there
      refine filter_eq_nil_iff.mpr fun w hw => ?_
      have hwlt := hlt w hw
      rw [decide_eq_true_eq]
      omega
  | moves h x stage hx hmove hhandlers hwrites =>
    rw [writesOf, hwrites]
    rw [hhandlers] at hy
    rcases getElem?_modify_stage hy with ⟨rfl, hyst⟩ | ⟨_, hy⟩
    · rcases hmove with rfl | ⟨hres, dst, rfl⟩
      · rw [hyst] at hstage
        exact absurd hstage (by simp [Stage.Unwritten])
      · exact hold i x hx (by rw [hres]; trivial)
    · exact hold i y hy hstage
  | writes h x dst s stage hx holdst hnew hhandlers hwrites htable =>
    rw [hhandlers] at hy
    rcases getElem?_modify_stage hy with ⟨rfl, hyst⟩ | ⟨hne, hy⟩
    · rw [hyst] at hstage
      rcases hnew with rfl | rfl <;> exact absurd hstage (by simp [Stage.Unwritten])
    · rw [writesOf_of_ne rfl hwrites hne]
      exact hold i y hy hstage

omit [DecidableEq Addr] in
lemma HandlerStep.lt (h : HandlerStep t t') (hlt : ∀ w ∈ t.writes, w.handler < t.handlers.length) :
    ∀ w ∈ t'.writes, w.handler < t'.handlers.length := by
  cases h with
  | same hhandlers hwrites => rwa [hhandlers, hwrites]
  | packet src data hhandlers hwrites =>
    rw [hhandlers, hwrites, length_append]
    exact fun w hw => Nat.lt_add_right _ (hlt w hw)
  | moves h x stage hx hmove hhandlers hwrites => rwa [hhandlers, hwrites, length_modify]
  | writes h x dst s stage hx holdst hnew hhandlers hwrites htable =>
    rw [hhandlers, hwrites, length_modify]
    exact List.forall_mem_cons.mpr ⟨(List.getElem?_eq_some_iff.mp hx).1, hlt⟩

omit [DecidableEq Addr] in
lemma SessionStep.active (h : SessionStep t t')
    (hactive : ∀ x ∈ t.sessions,
      x.lastActivityMs = UInt64.ofNat x.activeAt ∧ x.activeAt ≤ t.clock) :
    ∀ x ∈ t'.sessions, x.lastActivityMs = UInt64.ofNat x.activeAt ∧ x.activeAt ≤ t'.clock := by
  cases h with
  | same hsessions hclock =>
    rw [hsessions]
    exact fun x hx => ⟨(hactive x hx).1, (hactive x hx).2.trans hclock⟩
  | touched s hsessions hclock =>
    intro x hx
    rw [hsessions, touch] at hx
    obtain ⟨i, hi⟩ := getElem?_of_mem hx
    rw [getElem?_modify] at hi
    obtain ⟨y, hy, rfl⟩ := map_eq_some_iff.mp hi
    rw [hclock]
    split_ifs
    · exact ⟨rfl, le_rfl⟩
    · exact hactive y (mem_of_getElem? hy)
  | added closed hsessions hclock =>
    rw [hsessions, hclock]
    exact forall_mem_append.mpr ⟨hactive, by simp [monotonicMs]⟩

omit [DecidableEq Addr] in
lemma SessionStep.length_le (h : SessionStep t t') : t.sessions.length ≤ t'.sessions.length := by
  cases h with
  | same hsessions hclock => rw [hsessions]
  | touched s hsessions hclock => rw [hsessions, touch, length_modify]
  | added closed hsessions hclock =>
    rw [hsessions, addSession, length_append]
    exact le_add_right _ _

variable {entry : (Addr × Addr) × ℕ}

/-- An entry is one that was there, or one with a session that is new. -/
lemma TableStep.of_mem (h : TableStep t t' op) (hentry : entry ∈ t'.natTable) : entry ∈ t.natTable ∨
      entry.2 = t.sessions.length ∧ t.sessions.length < t'.sessions.length := by
  cases h with
  | same htable => exact .inl (htable ▸ hentry)
  | failed _ _ _ _ _ _ _ htable | swept _ htable =>
    rw [htable] at hentry
    exact .inl (mem_of_mem_filter hentry)
  | installed key hnone htable hlen =>
    rw [htable] at hentry
    rcases mem_append.mp hentry with hentry | hentry
    · exact .inl hentry
    · exact .inr ⟨by rw [mem_singleton.mp hentry], hlen⟩

omit [DecidableEq Addr] in
/-- A write is one that was there, or to a session in the table. -/
lemma HandlerStep.of_mem_writes (h : HandlerStep t t') {w : Write Addr} (hw : w ∈ t'.writes) :
    w ∈ t.writes ∨ ∃ entry ∈ t'.natTable, w.session = entry.2 := by
  cases h with
  | same _ hwrites | packet _ _ _ hwrites | moves _ _ _ _ _ _ hwrites => exact .inl (hwrites ▸ hw)
  | writes i y dst s stage hy hold hnew hhandlers hwrites hmem =>
    rw [hwrites] at hw
    rcases mem_cons.mp hw with rfl | hw
    · exact .inr ⟨_, hmem, rfl⟩
    · exact .inl hw

/-- **Every step keeps the invariant.** -/
theorem NatInv.step (h : NatInv t) (op : UdpOp Addr) : NatInv (t.step op) := by
  have spec := stepSpec t op
  have hlen := spec.sessions.length_le
  have htable : ∀ entry ∈ (t.step op).natTable, entry.2 < (t.step op).sessions.length := by
    intro entry hentry
    rcases spec.table.of_mem hentry with hold | ⟨heq, hlt⟩
    · exact (h.table_lt entry hold).trans_le hlen
    · rwa [heq]
  refine ⟨spec.table.nodup h.nodup, spec.handlers.lt h.lt, htable, fun w hw => ?_,
    spec.handlers.unwritten h.lt h.unwritten, spec.sessions.active h.active⟩
  rcases spec.handlers.of_mem_writes hw with hw | ⟨entry, hentry, heq⟩
  · exact (h.writes_lt w hw).trans_le hlen
  · rw [heq]
    exact htable entry hentry

/-! ### What lasts -/

/-- A handler has written once, and will not again. -/
def NatState.Served (t : NatState Addr) (h : ℕ) (w : Write Addr) : Prop :=
  (∃ x, t.handlers[h]? = some x ∧ ¬ x.stage.Unwritten) ∧ t.writesOf h = [w]

omit [DecidableEq Addr] in
/-- A step takes no handler back to where it has not written, nor lets it write again. -/
lemma HandlerStep.not_unwritten (hstep : HandlerStep t t') {h} {x : Handler Addr}
    (hx : t.handlers[h]? = some x) (hstage : ¬ x.stage.Unwritten) :
    (∃ x', t'.handlers[h]? = some x' ∧ ¬ x'.stage.Unwritten) ∧ t'.writesOf h = t.writesOf h := by
  cases hstep with
  | same hhandlers hwrites =>
    rw [hhandlers, writesOf, hwrites]
    exact ⟨⟨x, hx, hstage⟩, rfl⟩
  | packet src data hhandlers hwrites =>
    rw [hhandlers, writesOf, hwrites, List.getElem?_append_left (List.getElem?_eq_some_iff.mp hx).1]
    exact ⟨⟨x, hx, hstage⟩, rfl⟩
  | moves i y stage hy hmove hhandlers hwrites =>
    rw [hhandlers, writesOf, hwrites]
    refine ⟨?_, rfl⟩
    by_cases hi : i = h
    · subst hi
      obtain rfl := some.inj (hx.symm.trans hy)
      rcases hmove with rfl | ⟨hres, -⟩
      · exact ⟨_, getElem?_modify_stage_self _ hx, by simp [Stage.Unwritten]⟩
      · exact absurd (by rw [hres]; trivial) hstage
    · exact ⟨x, (getElem?_modify_stage_ne _ hi).trans hx, hstage⟩
  | writes i y dst s stage hy hold hnew hhandlers hwrites htable =>
    have hi : i ≠ h := by
      rintro rfl
      obtain rfl := some.inj (hx.symm.trans hy)
      rcases hold with hold | ⟨dst, hold⟩ <;> exact hstage (by rw [hold]; trivial)
    refine ⟨⟨x, ?_, hstage⟩, writesOf_of_ne rfl hwrites (Ne.symm hi)⟩
    rw [hhandlers, getElem?_modify_stage_ne _ hi, hx]

theorem NatState.Served.step {h : ℕ} {w : Write Addr} (hserved : t.Served h w)
    (op : UdpOp Addr) : (t.step op).Served h w := by
  obtain ⟨⟨x, hx, hstage⟩, hwrites⟩ := hserved
  obtain ⟨hx', hwrites'⟩ := (stepSpec t op).handlers.not_unwritten hx hstage
  exact ⟨hx', hwrites'.trans hwrites⟩

/-- A session is closed, not in the table, and nothing was written to it. -/
structure NatState.Closed (t : NatState Addr) (s : ℕ) : Prop where
  closed : ∃ x, t.sessions[s]? = some x ∧ x.closed = true
  table : ∀ entry ∈ t.natTable, entry.2 ≠ s
  writes : ∀ w ∈ t.writes, w.session ≠ s

omit [DecidableEq Addr] in
lemma SessionStep.closed (h : SessionStep t t') {s : ℕ}
    (hclosed : ∃ x, t.sessions[s]? = some x ∧ x.closed) :
    ∃ x, t'.sessions[s]? = some x ∧ x.closed = true := by
  obtain ⟨x, hx, hclosed⟩ := hclosed
  cases h with
  | same hsessions hclock =>
    rw [hsessions]
    exact ⟨x, hx, hclosed⟩
  | touched i hsessions hclock =>
    rw [hsessions, touch, getElem?_modify, hx]
    refine ⟨_, rfl, ?_⟩
    split_ifs <;> exact hclosed
  | added closed hsessions hclock =>
    rw [hsessions, addSession, List.getElem?_append_left (List.getElem?_eq_some_iff.mp hx).1]
    exact ⟨x, hx, hclosed⟩

theorem NatState.Closed.step {s : ℕ} (h : t.Closed s) (op : UdpOp Addr) : (t.step op).Closed s := by
  have spec := stepSpec t op
  obtain ⟨x, hx, hclosed⟩ := h.closed
  have hs := (List.getElem?_eq_some_iff.mp hx).1
  have htable : ∀ entry ∈ (t.step op).natTable, entry.2 ≠ s := by
    intro entry hentry
    rcases spec.table.of_mem hentry with hold | ⟨heq, -⟩
    · exact h.table entry hold
    · exact heq ▸ ne_of_gt hs
  refine ⟨spec.sessions.closed h.closed, htable, fun w hw => ?_⟩
  rcases spec.handlers.of_mem_writes hw with hw | ⟨entry, hentry, heq⟩
  · exact h.writes w hw
  · rw [heq]
    exact htable entry hentry

/-! ### What ends a session -/

/-- A write to the session fails in this step. -/
def NatState.WriteFails (t : NatState Addr) (op : UdpOp Addr) (s : ℕ) : Prop :=
  ∃ (h : ℕ) (x : Handler Addr) (dst : Addr), op = .written h false ∧
    t.handlers[h]? = some x ∧ (x.stage = .fast dst s ∨ x.stage = .slow dst s)

/-- The sweeper finds that the session was idle for the time limit. -/
def NatState.IdleSwept (t : NatState Addr) (op : UdpOp Addr) (s : ℕ) : Prop :=
  op = .sweep ∧ ∃ x, t.sessions[s]? = some x ∧ t.idle ≤ (t.clock - x.activeAt) * 1000000

omit [DecidableEq Addr] in
/-- The time a session is found to be idle is not longer than it was. -/
lemma NatInv.idleFor_le (h : NatInv t) {x : UdpSession} (hx : x ∈ t.sessions) :
    t.idleFor x ≤ t.clock - x.activeAt := by
  obtain ⟨hlast, hle⟩ := h.active x hx
  rw [idleFor, monotonicMs, hlast, UInt64.toNat_sub, UInt64.toNat_ofNat', UInt64.toNat_ofNat']
  omega

/-- **What takes a session out of the table.** -/
lemma NatInv.leaves (h : NatInv t) (hentry : entry ∈ t.natTable)
    (hgone : entry ∉ (t.step op).natTable) : t.WriteFails op entry.2 ∨ t.IdleSwept op entry.2 := by
  cases (stepSpec t op).table with
  | same htable =>
    rw [htable] at hgone
    exact absurd hentry hgone
  | failed i x dst s hop hx hstage htable =>
    rw [htable, removeIf, mem_filter, not_and] at hgone
    have heq := hgone hentry
    rw [decide_eq_true_eq, not_not] at heq
    rw [heq]
    exact .inl ⟨i, x, dst, hop, hx, hstage⟩
  | installed key hnone htable hlen =>
    rw [htable] at hgone
    exact absurd (mem_append_left _ hentry) hgone
  | swept hop htable =>
    rw [htable, sweep, mem_filter, not_and] at hgone
    have hidle := hgone hentry
    rcases hx : t.sessions[entry.2]? with _ | x
    · rw [hx] at hidle
      exact absurd rfl hidle
    · rw [hx, all_some, decide_eq_true_eq, not_lt] at hidle
      have hle := h.idleFor_le (mem_of_getElem? hx)
      refine .inr ⟨hop, x, hx, hidle.trans ?_⟩
      exact mul_le_mul_right _ hle

/-- **A dial that succeeds**: the datagram is written once, to the session that is installed for the
flow, and if that is not the new session, the new one is closed. -/
lemma NatInv.dialed (h : NatInv t) {i : ℕ} {x : Handler Addr} {dst : Addr}
    (hx : t.handlers[i]? = some x) (hstage : x.stage = .dialing dst) :
    ∃ s, ((x.src, dst), s) ∈ (t.step (.dialed i true)).natTable ∧
      (t.step (.dialed i true)).Served i ⟨i, s, x.data, dst⟩ ∧
      (s ≠ t.sessions.length → (t.step (.dialed i true)).Closed t.sessions.length) := by
  have hunwritten := h.unwritten i x hx (by rw [hstage]; trivial)
  have hstep : t.step (.dialed i true) = t.claim i x dst := by
    simp only [NatState.step, hx, NatState.dialed, hstage]
    rfl
  -- the write of the handler, after those of the others
  have hserved : ∀ {t' : NatState Addr} {s : ℕ},
      t'.handlers = t.handlers.modify i (fun x => { x with stage := .slow dst s }) →
      t'.writes = ⟨i, s, x.data, dst⟩ :: t.writes → t'.Served i ⟨i, s, x.data, dst⟩ := by
    intro t' s hhandlers hwrites
    refine ⟨⟨{ x with stage := .slow dst s }, ?_, by simp [Stage.Unwritten]⟩, ?_⟩
    · rw [hhandlers]
      exact getElem?_modify_stage_self _ hx
    · rw [writesOf, hwrites, filter_cons_of_pos (by simp)]
      exact congrArg _ hunwritten
  rw [hstep]
  rcases hget : t.get (x.src, dst) with _ | winner
  · simp only [claim, hget]
    exact ⟨t.sessions.length, mem_append_right _ mem_cons_self, hserved rfl rfl,
      fun hne => absurd rfl hne⟩
  · simp only [claim, hget]
    refine ⟨winner, mem_of_get hget, hserved rfl rfl, fun hne =>
      ⟨⟨⟨t.monotonicMs, t.clock, true⟩, ?_, rfl⟩, ?_, ?_⟩⟩
    · simp [write, setStage, addSession]
    · exact fun entry hentry => Nat.ne_of_lt (h.table_lt entry hentry)
    · exact forall_mem_cons.mpr ⟨hne, fun w hw => Nat.ne_of_lt (h.writes_lt w hw)⟩

end Inv

/-- What holds in a state and is kept by every step holds after every run from it. -/
lemma NatState.run_induction {P : NatState Addr → Prop} (hstep : ∀ t op, P t → P (t.step op))
    {t : NatState Addr} (ht : P t) (ops : List (UdpOp Addr)) : P (t.run ops) :=
  foldlRecOn ops _ ht fun t ht op _ => hstep t op ht

/-- **The table of sessions**, after every run of datagrams, dials, writes and sweeps. It has at
most one session for a flow. A session leaves it only in a step in which a write to that session
fails, or the sweeper finds it idle for the time limit. And when the dial of a handler succeeds
there is a session installed for the flow of its datagram, such that, however the run goes on, the
datagram is written once, to that session; and the dialed session, if it is another one, is closed
and never written to.

**Proof sketch.** One lemma says what a step can do to the table, to the handlers and writes, and to
the sessions. That the flows in the table are different, and that a handler which resolves or dials
has not written, is kept by every step. From the step in which the dial succeeds on, that the
handler has written once and that the session which lost is closed and in no table are kept too. -/
theorem run_natTable (idle : ℕ) (ops : List (UdpOp Addr)) :
    ((((NatState.new idle).run ops).natTable.map Prod.fst).Nodup) ∧
    (∀ (op : UdpOp Addr) (entry : (Addr × Addr) × ℕ),
      entry ∈ ((NatState.new idle).run ops).natTable →
      entry ∉ (((NatState.new idle).run ops).step op).natTable →
      ((NatState.new idle).run ops).WriteFails op entry.2 ∨
        ((NatState.new idle).run ops).IdleSwept op entry.2) ∧
    (∀ (h : ℕ) (x : Handler Addr) (dst : Addr),
      ((NatState.new idle).run ops).handlers[h]? = some x → x.stage = .dialing dst →
      ∃ s, ((x.src, dst), s) ∈ (((NatState.new idle).run ops).step (.dialed h true)).natTable ∧
        ∀ ops' : List (UdpOp Addr),
          ((((NatState.new idle).run ops).step (.dialed h true)).run ops').writes.filter
            (fun w => w.handler = h) = [⟨h, s, x.data, dst⟩] ∧
          (s ≠ ((NatState.new idle).run ops).sessions.length →
            ((((NatState.new idle).run ops).step (.dialed h true)).run ops').Closed
              ((NatState.new idle).run ops).sessions.length)) := by
  have hinv : NatInv ((new idle).run ops) :=
    run_induction (fun _ op h => h.step op) (natInv_new idle) ops
  refine ⟨hinv.nodup, fun op entry hentry hgone => hinv.leaves hentry hgone,
    fun h x dst hx hstage => ?_⟩
  obtain ⟨s, htable, hserved, hclosed⟩ := hinv.dialed hx hstage
  refine ⟨s, htable, fun ops' => ⟨?_, fun hne => ?_⟩⟩
  · have hrun := run_induction (P := fun t => t.Served h ⟨h, s, x.data, dst⟩)
      (fun _ op hold => hold.step op) hserved ops'
    exact hrun.2
  · exact run_induction
      (P := fun t => t.Closed ((new idle).run ops).sessions.length)
      (fun _ op hold => hold.step op) (hclosed hne) ops'

end Meow.Tunnel
