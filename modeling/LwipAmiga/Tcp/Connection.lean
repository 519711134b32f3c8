import LwipAmiga.Tcp.System

/-!
# The states of a connection

Some callbacks drop the control block without touching `connecting`, `connected` and `listening`.
-/

open Option TransitionSystem

namespace SbSocket

variable {β κ : Type} {L : Lwip} {s s' : SbSocket β κ}

structure ConnOk (s : SbSocket β κ) : Prop where
  not_both : s.connecting = true → s.connected = false
  attempt : s.connecting = true → ∃ pcb, s.pcb = some pcb ∧ pcb.state = .synSent
  synchronized : s.connected = true → ∀ pcb ∈ s.pcb, pcb.state.synchronized = true
  not_listening : s.listening = true → s.connecting = false ∧ s.connected = false
  listening : s.listening = true → ∀ pcb ∈ s.pcb, pcb.state = .listen
  err_ne : s.err ≠ some .ealready

structure SameConn (s s' : SbSocket β κ) : Prop where
  connecting_eq : s'.connecting = s.connecting
  connected_eq : s'.connected = s.connected
  listening_eq : s'.listening = s.listening
  state_eq : s'.pcb.map TcpPcb.state = s.pcb.map TcpPcb.state
  err_eq : s'.err = s.err ∨ s'.err = none

theorem ConnOk.congr
    (hs : s.ConnOk) (h : SameConn s s') :
  s'.ConnOk
  := by
  obtain ⟨hconnecting, hconnected, hlistening, hstate, herr⟩ := h
  have hpcb : ∀ pcb' ∈ s'.pcb, ∃ pcb ∈ s.pcb, pcb.state = pcb'.state := by
    intro pcb' hmem
    have hmap : s.pcb.map TcpPcb.state = some pcb'.state := by
      rw [← hstate, mem_def.mp hmem]
      rfl
    obtain ⟨pcb, hmem, heq⟩ := map_eq_some_iff.mp hmap
    exact ⟨pcb, hmem, heq⟩
  refine ⟨?_, ?_, ?_, ?_, ?_, ?_⟩
  · rw [hconnecting, hconnected]
    exact hs.not_both
  · rw [hconnecting]
    intro h
    obtain ⟨pcb, hsome, hsyn⟩ := hs.attempt h
    have hmap : s'.pcb.map TcpPcb.state = some .synSent := by
      rw [hstate, hsome, ← hsyn]
      rfl
    exact map_eq_some_iff.mp hmap
  · rw [hconnected]
    intro h pcb' hmem
    obtain ⟨pcb, hpcb, heq⟩ := hpcb pcb' hmem
    rw [← heq]
    exact hs.synchronized h pcb hpcb
  · rw [hconnecting, hconnected, hlistening]
    exact hs.not_listening
  · rw [hlistening]
    intro h pcb' hmem
    obtain ⟨pcb, hpcb, heq⟩ := hpcb pcb' hmem
    rw [← heq]
    exact hs.listening h pcb hpcb
  · obtain herr | herr := herr
    · rw [herr]
      exact hs.err_ne
    · rw [herr]
      nofun

theorem sameConn_deliver (s : SbSocket β κ) (p : PbufChain) :
  SameConn s ((s.handOver p.totLen).sbTcpRecvCb (some p)).1
  := by
  have hspec := sbTcpRecvCb_spec (s.handOver p.totLen) p
  generalize ((s.handOver p.totLen).sbTcpRecvCb (some p)).1 = s' at hspec ⊢
  obtain ⟨urg, hpcb⟩ := hspec.pcb_eq
  have hstate : s'.pcb.map TcpPcb.state = s.pcb.map TcpPcb.state := by
    rw [hpcb, handOver]
    cases s.pcb <;> rfl
  rw [hspec.frame]
  exact ⟨rfl, rfl, rfl, hstate, Or.inl rfl⟩

theorem ConnOk.listening_eq_false
    (hs : s.ConnOk) {pcb : TcpPcb} (hpcb : s.pcb = some pcb) (hstate : pcb.state ≠ .listen) :
  s.listening = false
  := by
  by_contra h
  apply hstate
  apply hs.listening (Bool.eq_true_of_not_eq_false h) pcb hpcb

theorem ConnOk.connects
    (hs : s.ConnOk) {pcb pcb' : TcpPcb} (hpcb : s.pcb = some pcb) (hclosed : pcb.state = .closed)
    (hconnected : s.connected = false) (hstate : pcb'.state = .synSent) :
  ConnOk { s with err := none, connecting := true, pcb := some pcb' }
  := by
  have hlisten : s.listening = false := hs.listening_eq_false hpcb (by rw [hclosed]; nofun)
  refine ⟨fun _ => hconnected, fun _ => ⟨pcb', rfl, hstate⟩, ?_, ?_, ?_, nofun⟩
  · intro h
    exact absurd h (Bool.eq_false_iff.mp hconnected)
  · intro h
    exact absurd h (Bool.eq_false_iff.mp hlisten)
  · intro h
    exact absurd h (Bool.eq_false_iff.mp hlisten)

theorem ConnOk.listens
    (hs : s.ConnOk) {pcb pcb' : TcpPcb} (hpcb : s.pcb = some pcb) (hclosed : pcb.state = .closed)
    (hstate : pcb'.state = .listen) :
  ConnOk { s with pcb := some pcb', listening := true }
  := by
  have hconnecting : s.connecting ≠ true := by
    intro h
    obtain ⟨pcb', hpcb', hsyn⟩ := hs.attempt h
    cases hpcb.symm.trans hpcb'
    rw [hclosed] at hsyn
    contradiction
  have hconnected : s.connected ≠ true := by
    intro h
    have := hs.synchronized h pcb hpcb
    rw [hclosed] at this
    contradiction
  refine ⟨hs.not_both, fun h => absurd h hconnecting, fun h => absurd h hconnected, ?_, ?_,
    hs.err_ne⟩
  · intro _
    exact ⟨Bool.eq_false_iff.mpr hconnecting, Bool.eq_false_iff.mpr hconnected⟩
  · rintro _ _ ⟨⟩
    apply hstate

theorem ConnOk.established
    (hs : s.ConnOk) {pcb : TcpPcb} {rcvNxt : UInt32} (hpcb : s.pcb = some pcb)
    (hsyn : pcb.state = .synSent) :
  ConnOk (sbTcpConnectedCb
    { s with pcb := some { pcb with state := .established, rcvNxt := rcvNxt } }
    { pcb with state := .established, rcvNxt := rcvNxt } .ok).1
  := by
  have hlisten : s.listening = false := hs.listening_eq_false hpcb (by rw [hsyn]; nofun)
  refine ⟨nofun, nofun, ?_, ?_, ?_, hs.err_ne⟩
  · rintro _ _ ⟨⟩
    rfl
  · intro h
    exact absurd h (Bool.eq_false_iff.mp hlisten)
  · intro h
    exact absurd h (Bool.eq_false_iff.mp hlisten)

theorem ConnOk.progress
    (hs : s.ConnOk) {pcb : TcpPcb} {state : TcpState} (hpcb : s.pcb = some pcb)
    (hold : pcb.state.synchronized = true) (hnew : state.synchronized = true) :
  ConnOk { s with pcb := some { pcb with state := state } }
  := by
  refine ⟨hs.not_both, ?_, ?_, hs.not_listening, ?_, hs.err_ne⟩
  · intro h
    obtain ⟨pcb', hpcb', hsyn⟩ := hs.attempt h
    cases hpcb.symm.trans hpcb'
    rw [hsyn] at hold
    contradiction
  · rintro _ _ ⟨⟩
    exact hnew
  · intro h
    rw [hs.listening h pcb hpcb] at hold
    contradiction

theorem connOk_sbTcpErrCb
    (s : SbSocket β κ) {e : Err} (he : e ≠ .already) :
  (s.sbTcpErrCb e).1.ConnOk
  := by
  refine ⟨nofun, nofun, nofun, fun _ => ⟨rfl, rfl⟩, nofun, ?_⟩
  change (if s.connecting && e == .rst then some .econnrefused else sbMapErr e) ≠ some .ealready
  split
  · nofun
  · intro h
    cases e <;> simp [sbMapErr] at h he

theorem ConnOk.event
    (hL : L.Documented) (hs : s.ConnOk) {e : TcpEvent β κ} (h : s.event L e = some s')
    (hgood : ∀ r, e = .shutdown 2 r → s.connecting = false) :
  s'.ConnOk
  := by
  have hreports : ∀ {e : Err}, L.reports e = true → e ≠ .already := by
    rintro _ he rfl
    rw [hL.reports_already] at he
    contradiction
  cases eventStep_of_event h with
  | deliver p => exact hs.congr (sameConn_deliver s p)
  | urgent up pcb hpcb | sent n memFull pcb hpcb | memory full pcb hpcb
  | write left chunk pcb hpcb =>
    exact hs.congr ⟨rfl, rfl, rfl, by simp [hpcb, sbTcpSentCb, sbEvent], Or.inl rfl⟩
  | err e he => exact connOk_sbTcpErrCb s (hreports he)
  | established rcvNxt pcb hpcb hsyn => exact hs.established hpcb hsyn
  | refused rcvNxt e pcb hpcb he =>
    have hne := hreports he
    refine ⟨hs.not_both, hs.attempt, hs.synchronized, hs.not_listening, hs.listening, ?_⟩
    change sbMapErr e ≠ some .ealready
    cases e <;> simp [sbMapErr] at hne ⊢
  | progress state pcb hpcb hold hnew => exact hs.progress hpcb hold hnew
  | connects pcb hpcb hconnected _ hr =>
    exact hs.connects hpcb (hL.connect_closed pcb hr) hconnected rfl
  | listens backlog pcb hpcb hl => exact hs.listens hpcb (hL.listen_closed pcb hl) rfl
  | shutBoth r =>
    refine ⟨hs.not_both, ?_, (by intros; contradiction), hs.not_listening, (by intros; contradiction), hs.err_ne⟩
    intro h
    exact absurd h (Bool.eq_false_iff.mp (hgood r rfl))
  | connectRefused | connectFinishFails | soError =>
    exact hs.congr ⟨rfl, rfl, rfl, rfl, Or.inr rfl⟩
  | _ => exact hs.congr ⟨rfl, rfl, rfl, rfl, Or.inl rfl⟩

theorem ConnOk.connecting_of_ealready
    (hs : s.ConnOk) {r : Err} (hr : ∀ pcb ∈ s.pcb, r ≠ .already)
    (h : (s.connectStart r).2 = .ret (.error .ealready)) :
  s.connecting = true
  := by
  unfold SbSocket.connectStart at h
  split at h
  next => simp at h
  next =>
    split at h
    next hconnecting => exact hconnecting
    next =>
      split at h
      next =>
        simp only [pendingOr, ConnectOutcome.ret.injEq, Except.error.injEq] at h
        cases herr : s.err with
        | none => simp [herr] at h
        | some e =>
          have hne := hs.err_ne
          rw [herr] at h hne
          exact absurd (congrArg some h) hne
      next pcb hpcb =>
        split at h
        next e he =>
          simp only [ConnectOutcome.ret.injEq, Except.error.injEq] at h
          subst h
          have hne := hr pcb hpcb
          cases r <;> simp [sbMapErr] at he hne
        next => split at h <;> simp at h

end SbSocket

theorem Call.Step.sameConn
    {β κ : Type} {s : SbSocket β κ} {pos : ℕ} {c : Call} {sec : Section β κ}
    (h : Call.Step s pos c sec) :
  SbSocket.SameConn s sec.sock
  := by
  have hflush : ∀ acked, SbSocket.SameConn s (s.flushCredit acked) := by
    intro acked
    refine ⟨rfl, rfl, rfl, ?_, Or.inl rfl⟩
    simp only [SbSocket.flushCredit, map_map]
    congr 1
    funext pcb
    simp only [Function.comp, ackFlush_eq pcb (Nat.le_refl acked)]
  cases h with
  | enter r =>
    simp only [SbSocket.passMark]
    split
    · exact ⟨rfl, rfl, rfl, rfl, Or.inl rfl⟩
    · exact ⟨rfl, rfl, rfl, rfl, Or.inl rfl⟩
  | finish r p d h | again r p d hmark hlen hall => exact hflush d.acked
  | oob hc h =>
    obtain hs | ⟨-, hs⟩ | hs := h.sock_eq
    · rw [hs]
      exact ⟨rfl, rfl, rfl, rfl, Or.inl rfl⟩
    · rw [hs]
      exact ⟨rfl, rfl, rfl, rfl, Or.inl rfl⟩
    · rw [hs]
      exact ⟨rfl, rfl, rfl, rfl, Or.inr rfl⟩
  | _ => exact ⟨rfl, rfl, rfl, rfl, Or.inl rfl⟩

def TcpLabel.shutsBoth {β κ : Type} : TcpLabel β κ → Bool
  | .event (.shutdown how _) => how == 2
  | _ => false

namespace TcpWorld

variable {β κ : Type} [DecidableEq β] [Fintype β] {L : Lwip} {w : TcpWorld β κ}

def Patient (w : TcpWorld β κ) (l : TcpLabel β κ) : Prop :=
  l.shutsBoth = true → w.sock.connecting = false

instance (w : TcpWorld β κ) (l : TcpLabel β κ) : Decidable (w.Patient l) :=
  inferInstanceAs (Decidable (_ → _))

theorem connOk_of_reach
    (hL : L.Documented) (r : (system L).Reach Patient w) :
  w.sock.ConnOk
  := by
  apply r.invariant (I := fun w => w.sock.ConnOk)
  · rintro _ ⟨b, s, hs, rfl⟩
    cases hs with
    | socket sndBuf => exact ⟨nofun, nofun, nofun, nofun, nofun, nofun⟩
    | accepted pcb hstate hdel hrecv =>
      refine ⟨nofun, nofun, ?_, nofun, nofun, nofun⟩
      rintro _ _ ⟨⟩
      exact hstate
  · intro w l w' hw hgood h
    cases step_of_next h with
    | event e s' hlock hevent =>
      apply hw.event hL hevent
      rintro r rfl
      exact hgood rfl
    | close hrest | begin i r oob hrest => exact hw
    | call i sec hl hlock hcall => exact hw.congr hcall.sameConn
    | clear i r p e hc => exact hw.congr ⟨rfl, rfl, rfl, rfl, Or.inr rfl⟩

/-- A socket never both connects and is connected or listens, and one whose `connect` reports
`SB_EALREADY` has a live attempt, which either callback ends. -/
theorem connection_states
    (hL : L.Documented) (r : (system L).Reach Patient w) :
  ¬ (w.sock.connecting = true ∧ w.sock.connected = true) ∧
  (w.sock.connecting = true → w.sock.pcb.isSome = true) ∧
  (w.sock.listening = true → w.sock.connecting = false ∧ w.sock.connected = false) ∧
  (∀ r, w.sock.pcb.all (L.connect · r) = true →
    (w.sock.connectStart r).2 = .ret (.error .ealready) →
    w.sock.connecting = true ∧ ∃ pcb, w.sock.pcb = some pcb ∧ pcb.state = .synSent) ∧
  (∀ e s', (∃ c, e = .err c) ∨ (∃ n, e = .connected n .ok) → w.sock.event L e = some s' →
    s'.connecting = false)
  := by
  have hw := connOk_of_reach hL r
  refine ⟨?_, ?_, hw.not_listening, ?_, ?_⟩
  · rintro ⟨hconnecting, hconnected⟩
    rw [hw.not_both hconnecting] at hconnected
    contradiction
  · intro hconnecting
    obtain ⟨pcb, hpcb, -⟩ := hw.attempt hconnecting
    simp [hpcb]
  · intro r hr h
    have hconnecting : w.sock.connecting = true := by
      apply hw.connecting_of_ealready _ h
      rintro pcb hpcb rfl
      rw [hpcb, all_some, hL.connect_already] at hr
      contradiction
    exact ⟨hconnecting, hw.attempt hconnecting⟩
  · intro e s' he h
    obtain ⟨c, rfl⟩ | ⟨n, rfl⟩ := he
    all_goals
      simp only [SbSocket.event, bind_eq_some_iff, ite_none_right_eq_some,
        some.injEq] at h
      obtain ⟨pcb, -, -, rfl⟩ := h
      rfl

/-! ### A stranded connection attempt -/

def newSocket : TcpWorld Bool Unit :=
  start { SbSocket.sbSockAlloc true .tcp with pcb := some (tcpNew 1000) }

theorem init_newSocket (L : Lwip) :
  (system L).init newSocket
  := ⟨true, _, .socket 1000, rfl⟩

def strandedRun : List (TcpLabel Bool Unit) :=
  [.event (.connect .ok), .event (.shutdown 2 .ok)]

theorem strandedRun_enabled :
  ((system Lwip.reference).exec newSocket strandedRun).isSome = true
  := by
  decide

def stranded : TcpWorld Bool Unit :=
  (system Lwip.reference).last newSocket strandedRun strandedRun_enabled

/-- Shutting down both directions of a socket that connects leaves it connecting without a control
block, and `connect` reports that an attempt is under way. -/
theorem shutdown_strands_connecting :
  (system Lwip.reference).Reachable stranded ∧ stranded.sock.connecting = true ∧
  stranded.sock.pcb = none ∧
  (stranded.sock.connectStart .ok).2 = .ret (.error .ealready)
  := by
  refine ⟨reachable_last (init_newSocket _), ?_⟩
  decide

def handshakeRun : List (TcpLabel Bool Unit) :=
  [.event (.connect .ok), .event (.shutdown 0 .ok)]

theorem handshakeRun_enabled :
  ((system Lwip.reference).exec newSocket handshakeRun).isSome = true
  := by
  decide

def handshake : TcpWorld Bool Unit :=
  (system Lwip.reference).last newSocket handshakeRun handshakeRun_enabled

theorem connection_states_handshake :
  (system Lwip.reference).Reach Patient handshake ∧
  (handshake.sock.connectStart .ok).2 = .ret (.error .ealready) ∧
  ¬ (handshake.sock.connecting = true ∧ handshake.sock.connected = true) ∧
  handshake.sock.pcb.isSome = true
  := by
  have hreach : (system Lwip.reference).Reach Patient handshake := by
    apply reach_last (init_newSocket _)
    decide
  obtain ⟨hboth, hpcb, -⟩ := connection_states Lwip.reference_documented hreach
  exact ⟨hreach, by decide, hboth, hpcb (by decide)⟩

end TcpWorld
