import LwipAmiga.Tcp.Connection
import LwipAmiga.Tcp.Send

/-!
# Sleeping senders

A sender that sleeps in `sb_send_block` is woken by the callbacks of its connection.
-/

open Option Function TransitionSystem

namespace SbSocket

variable {β κ : Type} {L : Lwip} {s s' : SbSocket β κ}

def established (s : SbSocket β κ) : Bool :=
  s.pcb.isSome && s.connected && !s.connecting

structure SendStill (s s' : SbSocket β κ) : Prop where
  room : s'.pcb = none ∨ s'.pcb.map TcpPcb.sndBuf = s.pcb.map TcpPcb.sndBuf
  attempt : s.connecting = true → s'.pcb = none ∨ s'.connecting = true

theorem SendStill.of_pcb
    (hpcb : s'.pcb.map TcpPcb.sndBuf = s.pcb.map TcpPcb.sndBuf)
    (hconnecting : s'.connecting = s.connecting) :
  SendStill s s'
  := ⟨.inr hpcb, fun h => .inr (hconnecting.trans h)⟩

theorem SendStill.of_none (hpcb : s'.pcb = none) :
  SendStill s s'
  := ⟨.inl hpcb, fun _ => .inl hpcb⟩

theorem sendStill_deliver (s : SbSocket β κ) (p : PbufChain) :
  SendStill s ((s.handOver p.totLen).sbTcpRecvCb (some p)).1
  := by
  obtain ⟨urg, hpcb⟩ := (sbTcpRecvCb_spec (s.handOver p.totLen) p).pcb_eq
  refine .of_pcb ?_ (sameConn_deliver s p).connecting_eq
  rw [hpcb, handOver]
  cases s.pcb <;> rfl

theorem wake_sbTcpConnectedCb (s : SbSocket β κ) (pcb : TcpPcb) (e : Err) :
  (s.sbTcpConnectedCb pcb e).2.wake = true ∧
  (s.sbTcpConnectedCb pcb e).1.sbWake = s.sbWake ∧
  (s.sbTcpConnectedCb pcb e).1.pcb = s.pcb
  := by
  unfold sbTcpConnectedCb
  split <;> exact ⟨rfl, rfl, rfl⟩

theorem event_connected
    {rcvNxt : UInt32} {e : Err} (h : s.event L (.connected rcvNxt e) = some s') :
  s'.pcb.map TcpPcb.sndBuf = s.pcb.map TcpPcb.sndBuf ∧
  (s.notices (.connected rcvNxt e)).wake = true ∧ s'.sbWake = s.sbWake
  := by
  simp only [event, bind_eq_some_iff, ite_none_right_eq_some, some.injEq] at h
  obtain ⟨pcb, hpcb, -, rfl⟩ := h
  refine ⟨?_, ?_, ?_⟩
  · rw [(wake_sbTcpConnectedCb _ _ _).2.2, hpcb]
    split <;> rfl
  · simp only [notices, hpcb, elim_some]
    apply (wake_sbTcpConnectedCb _ _ _).1
  · apply (wake_sbTcpConnectedCb _ _ _).2.1

theorem event_sendStill
    {e : TcpEvent β κ} (h : s.event L e = some s') (hwrite : ∀ left, e ≠ .write left)
    (hsent : ∀ n full, e ≠ .sent n full) (hconn : ∀ rcvNxt r, e ≠ .connected rcvNxt r) :
  SendStill s s'
  := by
  cases eventStep_of_event h with
  | write left | writeFails left => exact absurd rfl (hwrite left)
  | sent n full => exact absurd rfl (hsent n full)
  | established rcvNxt | refused rcvNxt e => exact absurd rfl (hconn rcvNxt _)
  | deliver p => apply sendStill_deliver
  | urgent up pcb hpcb | memory full pcb hpcb | progress state pcb hpcb | listens backlog pcb hpcb =>
    exact .of_pcb (by simp [hpcb]) rfl
  | err e | shutBoth r => exact .of_none rfl
  | connects pcb hpcb _ hidle =>
    exact ⟨.inr (by simp [hpcb]), fun h => absurd h (Bool.eq_false_iff.mp hidle)⟩
  | _ => exact .of_pcb rfl rfl

end SbSocket

namespace StreamWorld

variable {β κ : Type} {L : Lwip} {w w' : StreamWorld β κ}

def wakeAhead (w : StreamWorld β κ) : Prop :=
  w.sock.pcb = none ∨ w.sock.connecting = true ∨ 0 < w.queued

def covered (w : StreamWorld β κ) : Prop :=
  ∀ i, (w.call i).isAsleep = true → i ∈ w.sock.sbWake

instance [Fintype β] [DecidableEq β] (w : StreamWorld β κ) : Decidable w.covered :=
  inferInstanceAs (Decidable (∀ i, (w.call i).isAsleep = true → i ∈ w.sock.sbWake))

/-- `tcp_write` reports no memory only while the connection has data of its own. -/
def memBacked (w : StreamWorld β κ) : StreamLabel β κ → Bool
  | .run _ .mem _ => decide (0 < w.queued)
  | _ => true

structure Inv (w : StreamWorld β κ) : Prop where
  room : ∀ pcb ∈ w.sock.pcb, pcb.sndBuf + w.queued = TCP_SND_BUF
  noLost : Wakeup.NoLost (fun i => (w.call i).isAsleep = true) (fun _ => w.wakeAhead) w.sig

theorem Inv.room_of_map
    (h : w.Inv) {s' : SbSocket β κ}
    (hpcb : s'.pcb = none ∨ s'.pcb.map TcpPcb.sndBuf = w.sock.pcb.map TcpPcb.sndBuf) :
  ∀ pcb ∈ s'.pcb, pcb.sndBuf + w.queued = TCP_SND_BUF
  := by
  intro pcb hmem
  obtain hnone | hmap := hpcb
  · rw [hnone] at hmem
    contradiction
  · rw [mem_def.mp hmem] at hmap
    obtain ⟨pcb', hpcb', heq⟩ := map_eq_some_iff.mp hmap.symm
    rw [← heq]
    apply h.room pcb' hpcb'

theorem Inv.still
    (h : w.Inv) {s' : SbSocket β κ} (hstill : w.sock.SendStill s') {sig : β → Bool}
    (hsig : ∀ i, w.sig i = true → sig i = true) :
  Inv { w with sock := s', sig := sig }
  := by
  refine ⟨h.room_of_map hstill.room, ?_⟩
  refine h.noLost.change (fun i hi => hi) (fun i _ => hsig i) ?_
  rintro i - (hnone | hconnecting | hqueued)
  · right; left
    obtain hgone | hmap := hstill.room
    · apply hgone
    · rw [hnone] at hmap
      apply map_eq_none_iff.mp hmap
  · right
    obtain hgone | hstays := hstill.attempt hconnecting
    · left
      apply hgone
    · right; left
      apply hstays
  · right; right; right
    apply hqueued

theorem Inv.queued
    (h : w.Inv) {chunk : ℕ} (hroom : ∃ pcb ∈ w.sock.pcb, chunk ≤ pcb.sndBuf) :
  Inv { w with sock := w.sock.tcpQueued chunk, queued := w.queued + chunk }
  := by
  obtain ⟨pcb, hpcb, hle⟩ := hroom
  constructor
  · intro pcb' hpcb'
    rw [mem_def] at hpcb
    simp only [SbSocket.tcpQueued, hpcb, map_some, mem_def,
      some.injEq] at hpcb'
    have hbuf := h.room pcb hpcb
    subst hpcb'
    simp only
    omega
  · refine h.noLost.change (fun i hi => hi) (fun i _ hsig => hsig) ?_
    rintro i - (hnone | hconnecting | hqueued)
    · rw [hnone] at hpcb
      contradiction
    · right; right; left
      apply hconnecting
    · right; right; right
      apply Nat.add_pos_left hqueued

theorem Inv.wakeAhead_of_sleeps
    (h : w.Inv) {i : β} {p : SendPass} {r : Err} {waiters : Bool}
    (hmem : w.memBacked (.run i r waiters) = true) (hsleeps : w.sock.sbTcpSend p r = .sleeps) :
  w.wakeAhead
  := by
  obtain rfl | hconnecting | ⟨pcb, hpcb, hfull⟩ := SbSocket.sbTcpSend_sleeps hsleeps
  · right; right
    simpa [memBacked] using hmem
  · right; left
    apply hconnecting
  · right; right
    have hroom := h.room pcb hpcb
    have hsize : 0 < TCP_SND_BUF := by decide
    omega

variable [DecidableEq β]

theorem Inv.woken
    (h : w.Inv) (hcovered : w.covered) {s' : SbSocket β κ} (howners : s'.sbWake = w.sock.sbWake)
    {queued : ℕ} (hroom : ∀ pcb ∈ s'.pcb, pcb.sndBuf + queued = TCP_SND_BUF) :
  Inv { w with sock := s', sig := Wakeup.signal w.sig s'.sbWake, queued := queued }
  := by
  refine ⟨hroom, ?_⟩
  refine h.noLost.change (fun i hi => hi) (fun i _ => Wakeup.signal_of_pending) ?_
  intro i hasleep _
  left
  apply Wakeup.signal_of_mem
  rw [howners]
  apply hcovered i hasleep

theorem sig_of_pending
    {bs : List β} {wake : Bool} {i : β} (h : w.sig i = true) :
  (if wake then Wakeup.signal w.sig bs else w.sig) i = true
  := by
  split
  · apply Wakeup.signal_of_pending h
  · apply h

theorem Inv.event
    (h : w.Inv) (hcovered : w.covered) {e : TcpEvent β κ} (hw' : w.afterEvent L e = some w') :
  w'.Inv
  := by
  obtain ⟨s', hs', hw'⟩ := bind_eq_some_iff.mp hw'
  dsimp only at hw'
  split at hw'
  next => contradiction
  next n full =>
    obtain ⟨hle, ⟨⟩⟩ := ite_none_right_eq_some.mp hw'
    obtain ⟨pcb, hpcb, rfl⟩ := map_eq_some_iff.mp hs'
    apply h.woken hcovered
    · rfl
    · rintro _ ⟨⟩
      have hroom := h.room pcb hpcb
      simp only
      omega
  next hwrite hsent =>
    cases hw'
    by_cases hconn : ∃ rcvNxt r, e = .connected rcvNxt r
    · obtain ⟨rcvNxt, r, rfl⟩ := hconn
      obtain ⟨hroom, hwake, howners⟩ := SbSocket.event_connected hs'
      rw [if_pos hwake]
      apply h.woken hcovered howners (h.room_of_map (.inr hroom))
    · push Not at hconn
      apply h.still (SbSocket.event_sendStill hs' hwrite hsent hconn)
      intro i
      apply sig_of_pending

theorem Inv.setCall
    (h : w.Inv) (i : β) {c : SendCall} (hc : c.isAsleep = false) (holds : Bool) :
  (w.setCall i c holds).Inv
  := by
  refine ⟨h.room, h.noLost.act i ?_ (fun _ _ hsig => hsig) (fun _ _ _ hahead => .inr hahead) ?_⟩
  · intro k hk hasleep
    simpa only [StreamWorld.setCall, update_of_ne hk] using hasleep
  · intro hasleep
    simp only [StreamWorld.setCall, update_self, hc] at hasleep
    contradiction

theorem Inv.takeSignal
    (h : w.Inv) (i : β) {c : SendCall} {holds : Bool} (hc : c.isAsleep = true → w.wakeAhead) :
  ((w.setCall i c holds).takeSignal i).Inv
  := by
  refine ⟨h.room, h.noLost.act i ?_ ?_ (fun _ _ _ hahead => .inr hahead) ?_⟩
  · intro k hk hasleep
    simpa only [StreamWorld.takeSignal, StreamWorld.setCall, update_of_ne hk] using hasleep
  · intro k hk hsig
    simpa only [StreamWorld.takeSignal, StreamWorld.setCall, update_of_ne hk] using hsig
  · intro hasleep
    simp only [StreamWorld.takeSignal, StreamWorld.setCall, update_self] at hasleep
    apply hc hasleep

theorem isAsleep_pass (j : SendJob) (nonblock : Bool) :
  (j.pass nonblock).isAsleep = false
  := by
  unfold SendJob.pass
  split <;> rfl

theorem isAsleep_returned (j : SendJob) (p : SendPass) (nonblock : Bool) (n : Except Errno ℕ) :
  (j.returned p nonblock n).isAsleep = false
  := by
  cases n with
  | error e => rfl
  | ok n =>
    rw [SendJob.returned]
    split
    · rfl
    · apply isAsleep_pass

theorem Inv.step
    (h : w.Inv) {l : StreamLabel β κ} (hcovered : w.covered) (hmem : w.memBacked l = true)
    (hnext : next L w l = some w') :
  w'.Inv
  := by
  cases l with
  | event e =>
    obtain ⟨-, hnext⟩ := ite_none_right_eq_some.mp hnext
    apply h.event hcovered hnext
  | begin i req =>
    obtain ⟨-, ⟨⟩⟩ := ite_none_right_eq_some.mp hnext
    obtain ⟨hroom, hnoLost⟩ := h.setCall i (isAsleep_pass _ w.sock.nonblock) false
    exact ⟨hroom, hnoLost⟩
  | enter i =>
    simp only [next] at hnext
    split at hnext
    next =>
      obtain ⟨-, ⟨⟩⟩ := ite_none_right_eq_some.mp hnext
      apply h.setCall i rfl
    next => contradiction
  | run i r waiters =>
    simp only [next] at hnext
    split at hnext
    next j p hcall =>
      obtain ⟨-, ⟨⟩⟩ := ite_none_right_eq_some.mp hnext
      cases hround : w.sock.sbTcpSend p r with
      | returns n => apply h.setCall i (isAsleep_returned j p _ n)
      | sleeps =>
        apply h.takeSignal i
        intro _
        apply h.wakeAhead_of_sleeps hmem hround
      | queues chunk =>
        have hqueued := h.queued (SbSocket.sbTcpSend_queues hround).2
        rw [afterRound]
        split
        · apply hqueued.setCall i rfl
        · apply hqueued.setCall i rfl
    next => contradiction
  | wake i we =>
    simp only [next] at hnext
    split at hnext
    next j p hcall =>
      obtain ⟨-, hnext⟩ := ite_none_right_eq_some.mp hnext
      cases we with
      | none =>
        cases hnext
        apply h.takeSignal i
        intros
        contradiction
      | some e =>
        cases hnext
        apply h.setCall i (isAsleep_returned j p _ _)
    next => contradiction

/-- A sender that sleeps on an established connection has data of that connection unsent or
unacknowledged. -/
theorem sleeping_sender_has_data
    (hw : (system L).Reach (fun w l => w.covered ∧ w.memBacked l = true) w) {i : β}
    (hasleep : (w.call i).isAsleep = true) (hsig : w.sig i = false)
    (hconn : w.sock.established = true) :
  0 < w.queued
  := by
  have hinv : w.Inv := by
    apply hw.invariant
    · rintro _ ⟨b, s, -, hroom, rfl⟩
      refine ⟨hroom, ?_⟩
      intro i hi
      contradiction
    · intro w l w' ih hl hnext
      apply ih.step hl.1 hl.2 hnext
  simp only [SbSocket.established, Bool.and_eq_true, Bool.not_eq_true'] at hconn
  obtain hpending | hnone | hconnecting | hqueued := hinv.noLost i hasleep
  · rw [hsig] at hpending
    contradiction
  · rw [hnone] at hconn
    simp at hconn
  · rw [hconnecting] at hconn
    simp at hconn
  · apply hqueued

def backedRun : List (StreamLabel Bool Unit) :=
  [.begin true (.sendmsg [[1], [2]] false false), .enter true, .run true .ok false,
    .run true .ok false, .enter true, .run true .mem false]

theorem backedRun_enabled :
  ((system Lwip.reference).exec connection backedRun).isSome = true
  := by
  decide

def backed : StreamWorld Bool Unit :=
  (system Lwip.reference).last connection backedRun backedRun_enabled

theorem sleeping_sender_has_data_backed :
  (backed.call true).isAsleep = true ∧ backed.sig true = false ∧
    backed.sock.established = true ∧ 0 < backed.queued
  := by
  have hreach : (system Lwip.reference).Reach (fun w l => w.covered ∧ w.memBacked l = true)
      backed := by
    apply reach_last (init_connection _)
    decide
  have hasleep : (backed.call true).isAsleep = true := by decide
  have hsig : backed.sig true = false := by decide
  have hconn : backed.sock.established = true := by decide
  exact ⟨hasleep, hsig, hconn, sleeping_sender_has_data hreach hasleep hsig hconn⟩

def idleRun : List (StreamLabel Bool Unit) :=
  [.begin true (.send [1] false false), .enter true, .run true .mem false]

theorem idleRun_enabled :
  ((system Lwip.reference).exec connection idleRun).isSome = true
  := by
  decide

def idle : StreamWorld Bool Unit :=
  (system Lwip.reference).last connection idleRun idleRun_enabled

/-- The sender sleeps with no signal pending and no timeout, and its connection has nothing that the
peer could acknowledge. -/
theorem idle_sender_sleeps :
  (system Lwip.reference).Reach (fun w _ => w.covered) idle ∧
    (idle.call true).isAsleep = true ∧ idle.sig true = false ∧
    idle.sock.established = true ∧ idle.sock.sndTimeoMs = 0 ∧ idle.queued = 0
  := by
  refine ⟨?_, by decide, by decide, by decide, by decide,
    by decide⟩
  apply reach_last (init_connection _)
  decide

end StreamWorld
