import LwipAmiga.Socket.Ready
import LwipAmiga.Tcp.Typestate

/-!
# What `WaitSelect` reports as readable

`sb_sock_readable` is meant to hold when `recv`, or `accept` on a listener, would not sleep.
-/

open TransitionSystem List

namespace Call

variable {β κ : Type} {s : SbSocket β κ} {pos : ℕ} {r : RecvReq} {p : Progress}

/-! ### Calls that return without sleeping -/

inductive Returns : SbSocket β κ → ℕ → Call → Prop where
  | done (s : SbSocket β κ) (pos : ℕ) (r : RecvReq) (p : Progress) (res : Except Errno ℕ) :
      Returns s pos (.done r p res)
  | enter {s : SbSocket β κ} {pos : ℕ} {c : Call} {sec : Section β κ}
      (h : Call.enter s c = some sec)
      (hrest : Returns sec.sock (pos + sec.out.length) sec.call) : Returns s pos c
  | locked {s : SbSocket β κ} {pos : ℕ} {c : Call} {sec : Section β κ}
      (h : Call.locked s pos c = some sec)
      (hrest : Returns sec.sock (pos + sec.out.length) sec.call) : Returns s pos c
  | relock {s : SbSocket β κ} {pos : ℕ} {c c' : Call} (h : Call.relock c = some c')
      (hrest : Returns s pos c') : Returns s pos c
  | clear {s : SbSocket β κ} {pos : ℕ} {c : Call} {sec : Section β κ}
      (h : Call.clear s c = some sec)
      (hrest : Returns sec.sock (pos + sec.out.length) sec.call) : Returns s pos c

theorem not_returns_asleep :
  ¬ Returns s pos (.asleep r p)
  := by
  intro h
  cases h with
  | enter h | locked h | relock h | clear h => cases h

theorem returns_top_iff :
  Returns s pos (.top r p) ↔
    Returns (atTop s r p).sock (pos + (atTop s r p).out.length) (atTop s r p).call
  := by
  constructor
  · intro h
    cases h with
    | enter h | relock h | clear h => cases h
    | locked h hrest =>
      cases h
      apply hrest
  · exact .locked rfl

theorem returns_entry_iff :
  Returns s pos (.entry r) ↔ Returns (s.passMark r) pos (.top r ⟨[], []⟩)
  := by
  constructor
  · intro h
    cases h with
    | enter h hrest =>
      cases h
      apply hrest
    | locked h | relock h | clear h => cases h
  · intro h
    exact .enter rfl h

theorem returns_after (hall : r.waitall = false) (d : Drain) :
  Returns s pos (.after r p d)
  := by
  apply Returns.locked rfl
  have hstep := step_atAfter s pos r p d
  generalize atAfter s r p d = sec at hstep
  cases hstep with
  | finish => apply Returns.done
  | again _ _ _ _ _ hwait =>
    rw [hall] at hwait
    contradiction
  | oob h => cases h

theorem returns_drain_of_le
    (hall : r.waitall = false) {d : Drain} (h : d.lim ≤ p.copied) :
  Returns s pos (.drain r p d)
  := by
  apply Returns.locked rfl
  rw [atDrain, if_neg (Nat.not_lt.mpr h)]
  exact returns_after hall d

theorem returns_drain (hall : r.waitall = false) :
  ∀ (n : ℕ) {s : SbSocket β κ} {pos : ℕ} {p : Progress} {d : Drain}, s.rxq.length ≤ n →
    Returns s pos (.drain r p d)
  := by
  intro n
  induction n with
  | zero =>
    intro s pos p d hlen
    have hq : s.rxq = [] := length_eq_zero_iff.mp (Nat.le_zero.mp hlen)
    by_cases hlim : p.copied < d.lim
    · apply Returns.locked rfl
      rw [atDrain, if_pos hlim, hq]
      exact returns_after hall d
    · exact returns_drain_of_le hall (Nat.not_lt.mp hlim)
  | succ n ih =>
    intro s pos p d hlen
    apply Returns.locked rfl
    have hstep := step_atDrain s pos r p d
    generalize atDrain s pos r p d = sec at hstep
    cases hstep with
    | leave => exact returns_after hall d
    | consume _ _ _ h t hq hlt hn =>
      apply returns_drain_of_le hall
      rw [copied_append, length_consumed hn]
      change d.lim ≤ p.copied + (d.lim - p.copied)
      omega
    | detach _ _ _ run rest hlt hrun hne =>
      apply Returns.relock rfl
      apply ih
      have happend := Pbuf.takeRun_append (d.lim - p.copied) 0 s.rxq
      rw [hrun] at happend
      change rest.length ≤ n
      change run ++ rest = s.rxq at happend
      rw [← happend, length_append] at hlen
      have hpos : 0 < run.length := length_pos_iff.mpr hne
      omega
    | oob h => cases h

theorem ready_passMark (s : SbSocket β κ) (r : RecvReq) (txRoom : Bool) :
  (s.passMark r).ready txRoom .recv = s.ready txRoom .recv
  := by
  unfold SbSocket.passMark
  split <;> rfl

theorem recvEmpty_eq_sleep
    (hq : s.rxq = []) (hwait : r.dontwait = false) :
  s.recvEmpty r 0 = .sleep ↔ s.ready false .recv = false
  := by
  simp only [SbSocket.recvEmpty, SbSocket.ready, hq, hwait]
  cases s.rxeof <;> cases s.shutRd <;> cases s.err <;> cases s.pcb <;> cases s.connected <;>
    cases s.connecting <;> simp

theorem returns_iff_ready
    (hpeek : r.peek = false) (hall : r.waitall = false) (hwait : r.dontwait = false) :
  Returns s pos (.entry r) ↔ s.ready false .recv = true
  := by
  rw [returns_entry_iff, returns_top_iff, ← ready_passMark s r]
  generalize s.passMark r = s
  by_cases hq : s.rxq = []
  · have hready : s.ready false .recv = true ↔ s.recvEmpty r 0 ≠ .sleep := by
      rw [Ne, recvEmpty_eq_sleep hq hwait, Bool.not_eq_false]
    have hzero : Progress.copied ⟨[], []⟩ = 0 := rfl
    rw [hready, atTop, if_pos hq, hzero]
    cases s.recvEmpty r 0 with
    | ret n | fail e => exact ⟨nofun, fun _ => .done _ _ _ _ _⟩
    | clearErr e => exact ⟨nofun, fun _ => .clear rfl (.done _ _ _ _ _)⟩
    | sleep => exact ⟨fun h => absurd h not_returns_asleep, fun h => absurd rfl h⟩
  · have hready : s.ready false .recv = true := by
      simp [SbSocket.ready, hq]
    rw [atTop, if_neg hq]
    simp only [hready, iff_true, hpeek]
    exact returns_drain hall _ (Nat.le_refl _)

end Call

namespace SbSocket

variable {β κ : Type} {L : Lwip} {s s' : SbSocket β κ}

/-- `accept` returns without going to sleep. -/
def acceptReturns (s : SbSocket β κ) : Bool :=
  match s.acceptTest.1 with
  | .sleep => false
  | _ => true

/-! ### Listeners and connections -/

structure SelectOk (s : SbSocket β κ) : Prop where
  type_eq : s.type = .tcp
  naccept_eq : s.naccept = s.acceptq.length
  unlistening : s.listening = false → s.naccept = 0
  listening : s.listening = true → s.rxq = [] ∧ s.rxeof = false ∧ s.connected = false
  unsynced : ∀ pcb ∈ s.pcb, pcb.state.synchronized = false → s.rxeof = false

structure SameAccept (s s' : SbSocket β κ) : Prop where
  type_eq : s'.type = s.type
  naccept_eq : s'.naccept = s.naccept
  acceptq_eq : s'.acceptq = s.acceptq
  rxeof_eq : s'.rxeof = s.rxeof

theorem SelectOk.step
    (hs : s.SelectOk) (hkind : s.KindOk) (h : KindStep s s') (hsame : SameAccept s s') :
  s'.SelectOk
  := by
  have hno (pcb : TcpPcb) (hpcb : s.pcb = some pcb) (hstate : pcb.state ≠ .listen) :
      s.listening ≠ true := by
    intro hlistening
    apply hstate ((hkind.listening pcb hpcb).mpr hlistening)
  constructor
  · rw [hsame.type_eq, hs.type_eq]
  · rw [hsame.naccept_eq, hsame.acceptq_eq, hs.naccept_eq]
  · intro hlistening
    rw [hsame.naccept_eq]
    apply hs.unlistening
    cases h with
    | same hpcb heq | synced pcb hpcb hstate heq | connects pcb pcb' hpcb hclosed hpcb' hstate heq => rw [← heq, hlistening]
    | listens pcb pcb' hpcb hclosed hpcb' hstate heq =>
      rw [heq] at hlistening
      contradiction
  · intro hlistening
    rw [hsame.rxeof_eq]
    cases h with
    | same hpcb heq hconnected hrxq =>
      obtain ⟨hempty, heof, hoff⟩ := hs.listening (heq ▸ hlistening)
      use hrxq hempty, heof
      by_contra hon
      rw [hconnected (Bool.eq_true_of_not_eq_false hon)] at hoff
      contradiction
    | synced pcb hpcb hstate heq => exact absurd (heq ▸ hlistening) (hno pcb hpcb hstate)
    | connects pcb pcb' hpcb hclosed hpcb' hstate heq =>
      refine absurd (heq ▸ hlistening) (hno pcb hpcb ?_)
      rw [hclosed]
      nofun
    | listens pcb pcb' hpcb hclosed hpcb' hstate heq hconnected hrxq =>
      have hunsynced : pcb.state.synchronized = false := by
        rw [hclosed]
        rfl
      obtain ⟨hoff, hempty⟩ := hkind.unsynced pcb hpcb hunsynced
      use hrxq.trans hempty, hs.unsynced pcb hpcb hunsynced, hconnected.trans hoff
  · intro pcb' hmem hunsynced
    rw [hsame.rxeof_eq]
    cases h with
    | same hpcb =>
      obtain ⟨pcb, hold, hstate⟩ := hpcb pcb' hmem
      apply hs.unsynced pcb hold
      rw [← hstate, hunsynced]
    | synced pcb hpcb hstate heq hsynced =>
      rw [hsynced pcb' hmem] at hunsynced
      contradiction
    | connects pcb _ hpcb hclosed | listens pcb _ hpcb hclosed =>
      apply hs.unsynced pcb hpcb
      rw [hclosed]
      rfl

def EofSynced (s : SbSocket β κ) : TcpEvent β κ → Bool
  | .eof => s.pcb.all fun pcb => pcb.state.synchronized
  | _ => true

theorem SelectOk.eof
    (hs : s.SelectOk) (hkind : s.KindOk) {pcb : TcpPcb} (hpcb : s.pcb = some pcb)
    (hsync : pcb.state.synchronized = true) :
  (s.sbTcpRecvCb none).1.SelectOk
  := by
  constructor
  · apply hs.type_eq
  · apply hs.naccept_eq
  · apply hs.unlistening
  · intro hlistening
    rw [(hkind.listening pcb hpcb).mpr hlistening] at hsync
    contradiction
  · intro pcb' hmem hunsynced
    cases hpcb.symm.trans hmem
    rw [hsync] at hunsynced
    contradiction

theorem SelectOk.acceptLink
    (hs : s.SelectOk) (hlistening : s.listening = true) (new : κ) :
  (s.acceptLink new).1.SelectOk
  := by
  constructor
  · apply hs.type_eq
  · change s.naccept + 1 = (s.acceptq ++ [new]).length
    rw [length_append, hs.naccept_eq]
    rfl
  · intro hoff
    change s.listening = false at hoff
    rw [hlistening] at hoff
    contradiction
  · apply hs.listening
  · apply hs.unsynced

theorem SelectOk.accept
    (hs : s.SelectOk) {new : κ} {q : List κ} (hq : s.acceptq = new :: q) :
  SelectOk { s with acceptq := q, naccept := s.naccept - 1 }
  := by
  constructor
  · apply hs.type_eq
  · rw [hs.naccept_eq, hq]
    rfl
  · intro hoff
    rw [hs.unlistening hoff]
  · apply hs.listening
  · apply hs.unsynced

/-! ### Events -/

theorem sameAccept_deliver (s : SbSocket β κ) (p : PbufChain) :
  SameAccept s ((s.handOver p.totLen).sbTcpRecvCb (some p)).1
  := by
  have hspec := sbTcpRecvCb_spec (s.handOver p.totLen) p
  generalize ((s.handOver p.totLen).sbTcpRecvCb (some p)).1 = s' at hspec ⊢
  rw [hspec.frame]
  exact ⟨rfl, rfl, rfl, rfl⟩

theorem SelectOk.event
    (hL : L.Documented) (hD : L.DeliversSynchronized) (hs : s.SelectOk) (hkind : s.KindOk)
    {e : TcpEvent β κ} (heof : s.EofSynced e = true) (h : s.event L e = some s') :
  s'.SelectOk
  := by
  have hstep := kindStep_event hL hD h
  cases eventStep_of_event h with
  | eof pcb hpcb =>
    rw [EofSynced, hpcb] at heof
    exact hs.eof hkind hpcb heof
  | incoming new hlistening => exact hs.acceptLink hlistening new
  | accept new q hq => exact hs.accept hq
  | deliver p => exact hs.step hkind hstep (sameAccept_deliver s p)
  | _ => exact hs.step hkind hstep ⟨rfl, rfl, rfl, rfl⟩

/-! ### Readiness -/

theorem SelectOk.acceptReturns_iff
    (hs : s.SelectOk) (hblock : s.nonblock = false) :
  s.acceptReturns = true ↔ s.err.isSome = true ∨ s.naccept ≠ 0
  := by
  simp only [acceptReturns, SbSocket.acceptTest, hs.naccept_eq, hblock]
  cases s.acceptq with
  | nil => cases s.err <;> simp
  | cons new q => simp

theorem SelectOk.readable_iff
    (hs : s.SelectOk) :
  s.sbSockReadable = true ↔
    s.err.isSome = true ∨ s.rxeof = true ∨ s.rxq ≠ [] ∨ s.naccept ≠ 0
  := by
  simp [sbSockReadable, hs.type_eq, or_assoc]

end SbSocket

theorem Call.Step.sameAccept
    {β κ : Type} {s : SbSocket β κ} {pos : ℕ} {c : Call} {sec : Section β κ}
    (h : Call.Step s pos c sec) :
  SbSocket.SameAccept s sec.sock
  := by
  cases h with
  | enter r =>
    simp only [SbSocket.passMark]
    split <;> exact ⟨rfl, rfl, rfl, rfl⟩
  | oob hc h =>
    obtain hs | ⟨-, hs⟩ | hs := h.sock_eq
    all_goals
      rw [hs]
      exact ⟨rfl, rfl, rfl, rfl⟩
  | _ => exact ⟨rfl, rfl, rfl, rfl⟩

namespace TcpWorld

variable {β κ : Type} [DecidableEq β] {L : Lwip} {w w' : TcpWorld β κ}

def eofSynced (w : TcpWorld β κ) : TcpLabel β κ → Bool
  | .event e => w.sock.EofSynced e
  | _ => true

omit [DecidableEq β] in
theorem selectOk_created
    {b : β} {s : SbSocket β κ} (h : Created b s) :
  s.KindOk ∧ s.SelectOk
  := by
  cases h with
  | socket sndBuf =>
    constructor
    · constructor
      · rintro _ ⟨⟩
        exact ⟨nofun, nofun⟩
      · intro _ _ _
        exact ⟨rfl, rfl⟩
    · exact ⟨rfl, rfl, fun _ => rfl, nofun, fun _ _ _ => rfl⟩
  | accepted pcb hstate hdel hrecv =>
    constructor
    · constructor
      · rintro _ ⟨⟩
        constructor
        · intro hlisten
          rw [hlisten] at hstate
          contradiction
        · nofun
      · rintro _ ⟨⟩ hunsynced
        rw [hstate] at hunsynced
        contradiction
    · exact ⟨rfl, rfl, fun _ => rfl, nofun, fun _ _ _ => rfl⟩

theorem selectOk_step
    (hL : L.Documented) (hD : L.DeliversSynchronized) (hw : w.sock.KindOk ∧ w.sock.SelectOk)
    {l : TcpLabel β κ} (heof : w.eofSynced l = true) (h : Step L w l w') :
  w'.sock.KindOk ∧ w'.sock.SelectOk
  := by
  obtain ⟨hkind, hs⟩ := hw
  cases h with
  | event e s' hlock h =>
    exact ⟨hkind.step (SbSocket.kindStep_event hL hD h), hs.event hL hD hkind heof h⟩
  | close hrest | begin i r oob hrest => exact ⟨hkind, hs⟩
  | call i sec hl hlock h => exact ⟨hkind.step h.kindStep, hs.step hkind h.kindStep h.sameAccept⟩
  | clear i r p e hc =>
    have hstep : SbSocket.KindStep w.sock { w.sock with err := none } := .of_pcb rfl rfl rfl rfl
    exact ⟨hkind.step hstep, hs.step hkind hstep ⟨rfl, rfl, rfl, rfl⟩⟩

variable [Fintype β]

theorem selectOk_of_reach
    (hL : L.Documented) (hD : L.DeliversSynchronized)
    (h : (system L).Reach (fun w l => w.eofSynced l = true) w) :
  w.sock.KindOk ∧ w.sock.SelectOk
  := by
  apply h.invariant (I := fun w => w.sock.KindOk ∧ w.sock.SelectOk)
  · rintro _ ⟨b, s, hs, rfl⟩
    apply selectOk_created hs
  · intro w l w' hw hgood hnext
    exact selectOk_step hL hD hw hgood (step_of_next hnext)

/-- `WaitSelect` agrees with the calls on a listener, and on a connection while the receive direction
is open and the control block there, or the end is visible. -/
theorem readable_iff_returns
    (hL : L.Documented) (hD : L.DeliversSynchronized)
    (h : (system L).Reach (fun w l => w.eofSynced l = true) w) (hblock : w.sock.nonblock = false) :
  (w.sock.listening = true → (w.sock.sbSockReadable = true ↔ w.sock.acceptReturns = true)) ∧
  (w.sock.connected = true ∨ w.sock.listening = false ∧ w.sock.pcb = none →
    ∀ (len : ℕ) (hlen : len < 2 ^ 31), 0 < len →
      ((w.sock.sbSockReadable = true ↔
          Call.Returns w.sock w.detached.length (Call.begin w.sock (.plain len hlen) false)) ↔
        (w.sock.shutRd = true ∨ w.sock.pcb = none →
          w.sock.err.isSome = true ∨ w.sock.rxeof = true ∨ w.sock.rxq ≠ [])))
  := by
  obtain ⟨hkind, hs⟩ := selectOk_of_reach hL hD h
  constructor
  · intro hlistening
    obtain ⟨hempty, heof, -⟩ := hs.listening hlistening
    rw [hs.readable_iff, hs.acceptReturns_iff hblock]
    simp [hempty, heof]
  · intro hconn len hlen _
    have hoff : w.sock.listening = false := by
      rcases hconn with hconnected | ⟨hoff, -⟩
      · by_contra hon
        have hno := (hs.listening (Bool.eq_true_of_not_eq_false hon)).2.2
        rw [hconnected] at hno
        contradiction
      · apply hoff
    have hready : Call.Returns w.sock w.detached.length
        (Call.begin w.sock (.plain len hlen) false) ↔ w.sock.ready false .recv = true := by
      apply Call.returns_iff_ready rfl rfl
      exact hblock
    have hrecv : w.sock.ready false .recv = true ↔
        (w.sock.err.isSome = true ∨ w.sock.rxeof = true ∨ w.sock.rxq ≠ []) ∨
          (w.sock.shutRd = true ∨ w.sock.pcb = none) := by
      rcases hconn with hconnected | ⟨-, hpcb⟩
      · simp only [SbSocket.ready, hconnected, Bool.not_true, Bool.false_and, Bool.or_false,
          Bool.or_eq_true, Bool.not_eq_true', isEmpty_eq_false_iff, Option.isNone_iff_eq_none]
        tauto
      · simp [SbSocket.ready, hpcb]
    have hread : w.sock.sbSockReadable = true ↔
        w.sock.err.isSome = true ∨ w.sock.rxeof = true ∨ w.sock.rxq ≠ [] := by
      rw [hs.readable_iff, hs.unlistening hoff, ne_self_iff_false, or_false]
    rw [hready, hrecv, hread]
    exact iff_comm.trans or_iff_left_iff_imp

/-! ### A read that would return at once -/

def shutDownRun : List (TcpLabel Bool Unit) :=
  [.event (.shutdown 0 .ok)]

theorem shutDownRun_enabled :
  ((system TypedWorld.connectionsDeliver).exec connection shutDownRun).isSome = true
  := by
  decide

def shutDown : TcpWorld Bool Unit :=
  (system TypedWorld.connectionsDeliver).last connection shutDownRun shutDownRun_enabled

def resetRun : List (TcpLabel Bool Unit) :=
  [.event (.err .rst), .event .soError]

theorem resetRun_enabled :
  ((system TypedWorld.connectionsDeliver).exec connection resetRun).isSome = true
  := by
  decide

def reset : TcpWorld Bool Unit :=
  (system TypedWorld.connectionsDeliver).last connection resetRun resetRun_enabled

theorem ten_lt_range :
  10 < 2 ^ 31
  := by
  decide

theorem two_fit :
  [(1 : UInt8), 2].length < 65536
  := by
  decide

def tenBytes : RecvReq :=
  .plain 10 ten_lt_range

/-- A connection shut down for receiving, and one whose reset was read by `SO_ERROR`, are not readable,
while a blocking read returns at once. -/
theorem unreadable_but_returns :
  ((system TypedWorld.connectionsDeliver).Reachable shutDown ∧ shutDown.sock.connected = true ∧
    shutDown.sock.nonblock = false ∧ shutDown.sock.sbSockReadable = false ∧
    Call.Returns shutDown.sock shutDown.detached.length
      (Call.begin shutDown.sock tenBytes false)) ∧
  ((system TypedWorld.connectionsDeliver).Reachable reset ∧ reset.sock.nonblock = false ∧
    reset.sock.sbSockReadable = false ∧
    Call.Returns reset.sock reset.detached.length (Call.begin reset.sock tenBytes false))
  := by
  have hreturns (w : TcpWorld Bool Unit) (hblock : w.sock.nonblock = false)
      (hready : w.sock.ready false .recv = true) :
      Call.Returns w.sock w.detached.length (Call.begin w.sock tenBytes false) := by
    rw [← Call.returns_iff_ready] at hready
    · apply hready
    · rfl
    · rfl
    · exact hblock
  refine ⟨⟨reachable_last (init_connection _), by decide,
    by decide, by decide, ?_⟩,
    ⟨reachable_last (init_connection _), by decide, by decide, ?_⟩⟩
  · apply hreturns
    · decide
    · decide
  · apply hreturns
    · decide
    · decide

def queuedRun : List (TcpLabel Bool Unit) :=
  [.event (.deliver (.single 1 [1, 2] two_fit))]

theorem queuedRun_enabled :
  ((system TypedWorld.connectionsDeliver).exec connection queuedRun).isSome = true
  := by
  decide

def queued : TcpWorld Bool Unit :=
  (system TypedWorld.connectionsDeliver).last connection queuedRun queuedRun_enabled

theorem readable_iff_returns_queued :
  queued.sock.sbSockReadable = true ∧
    Call.Returns queued.sock queued.detached.length (Call.begin queued.sock tenBytes false)
  := by
  have hreach : (system TypedWorld.connectionsDeliver).Reach (fun w l => w.eofSynced l = true)
      queued := by
    apply reach_last (init_connection _)
    decide
  have hreadable : queued.sock.sbSockReadable = true := by
    decide
  obtain ⟨hL, hD⟩ := TypedWorld.connectionsDeliver_documented
  have hiff := (readable_iff_returns hL hD hreach (by decide)).2
    (Or.inl (by decide)) 10 (by decide) (by decide)
  use hreadable
  apply (hiff.mpr _).mp hreadable
  intro _
  right; right
  decide

end TcpWorld
