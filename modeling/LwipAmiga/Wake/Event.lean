import LwipAmiga.Socket.Ready
import LwipAmiga.Tcp.System

/-!
# Events and sleeping calls

Which events of a TCP socket wake its owners, and what the others do to those who sleep on it.
-/

namespace SbSocket

variable {β κ : Type}

def quiet : Notices where
  wake := false
  urg := false

def notices (s : SbSocket β κ) : TcpEvent β κ → Notices
  | .deliver p => ((s.handOver p.totLen).sbTcpRecvCb (some p)).2
  | .eof => (s.sbTcpRecvCb none).2
  | .sent .. => s.sbTcpSentCb.2
  | .err e => (s.sbTcpErrCb e).2
  | .connected _ e => s.pcb.elim quiet fun pcb => (s.sbTcpConnectedCb pcb e).2
  | .incoming new => (s.acceptLink new).2
  | _ => quiet

end SbSocket

/-- `shutdown` in the direction `how` may end what a call that waits with `x` sleeps on. -/
def Want.shutBy (how : ℤ) : Want → Bool
  | .recv | .recvOob => how == 0 || how == 2
  | .send | .write => how == 1 || how == 2
  | _ => false

def TcpEvent.stirs {β κ : Type} : TcpEvent β κ → Want → Bool
  | .shutdown how _, x => x.shutBy how
  | .memory false, .send => true
  | _, _ => false

namespace SbSocket

variable {β κ : Type} {L : Lwip} {s s' : SbSocket β κ}

structure SameKind (s s' : SbSocket β κ) : Prop where
  type : s'.type = s.type
  txWaiting : s'.txWaiting = true → s.txWaiting = true
  naccept : s.naccept = s.acceptq.length → s'.naccept = s'.acceptq.length

theorem SameKind.refl (s : SbSocket β κ) :
  SameKind s s
  := ⟨rfl, id, id⟩

theorem SameKind.trans
    {t : SbSocket β κ} (h : SameKind s s') (h' : SameKind s' t) :
  SameKind s t
  := ⟨h'.type.trans h.type, fun ht => h.txWaiting (h'.txWaiting ht),
    fun hn => h'.naccept (h.naccept hn)⟩

/-! ### The events that wake nobody -/

theorem calmFor_connects
    {pcb : TcpPcb} (hpcb : s.pcb = some pcb) (hconnected : s.connected = false)
    (hconnecting : s.connecting = false) (x : Want) :
  CalmFor s { s with err := none, connecting := true, pcb := some { pcb with state := .synSent } } x
  := by
  intro txRoom hready
  cases x with
  | recv => simp [ready, hconnected, hconnecting]
  | connect => simp [ready, hconnecting]
  | send => simp [ready, sendReady, hpcb, hconnected, hconnecting]
  | recvOob =>
    apply (calm_clearErr s).calmFor .recvOob txRoom
    simpa [ready, hpcb] using hready
  | write =>
    by_cases htype : s.type = .tcp
    · simp [ready, sbSockWritable, htype] at hready
    · simp only [ready, sbSockWritable, Option.isSome_none, Bool.false_eq_true, if_false,
        ne_eq, htype, not_false_eq_true, if_true] at hready ⊢
      simp [hready]
  | recvDgram => apply (calm_clearErr s).calmFor .recvDgram txRoom hready
  | accept => apply (calm_clearErr s).calmFor .accept txRoom hready
  | read => apply (calm_clearErr s).calmFor .read txRoom hready
  | except => apply (calm_clearErr s).calmFor .except txRoom hready

theorem calmFor_shut
    {how : ℤ} {pcb : Option TcpPcb} {shutRd shutWr : Bool} (hpcb : how ≠ 2 → pcb = s.pcb)
    (hrd : how ≠ 0 → how ≠ 2 → shutRd = s.shutRd) (hwr : how ≠ 1 → how ≠ 2 → shutWr = s.shutWr)
    {x : Want} (hx : x.shutBy how = false) :
  CalmFor s { s with pcb := pcb, shutRd := shutRd, shutWr := shutWr } x
  := by
  intro txRoom hready
  cases x with
  | recv | recvOob =>
    simp only [Want.shutBy, Bool.or_eq_false_iff, beq_eq_false_iff_ne] at hx
    simpa [ready, hpcb hx.2, hrd hx.1 hx.2] using hready
  | send | write =>
    simp only [Want.shutBy, Bool.or_eq_false_iff, beq_eq_false_iff_ne] at hx
    simpa [ready, sendReady, sbSockWritable, hpcb hx.2, hwr hx.1 hx.2] using hready
  | recvDgram | accept | connect | read | except =>
    simpa [ready, sbSockReadable, sbSockExceptable] using hready

theorem calm_accept
    {new : κ} {q : List κ} (hq : s.acceptq = new :: q) :
  SameKind s { s with acceptq := q, naccept := s.naccept - 1 } ∧
    Calm s { s with acceptq := q, naccept := s.naccept - 1 }
  := by
  constructor
  · refine ⟨rfl, id, ?_⟩
    rw [hq]
    simp only [List.length_cons]
    omega
  · refine ⟨rfl, rfl, rfl, rfl, rfl, rfl, id, id, Or.inl rfl, id, ?_, .refl _⟩
    dsimp only
    omega

theorem calm_some
    {pcb pcb' : TcpPcb} (hpcb : s.pcb = some pcb) (hbuf : pcb'.sndBuf = pcb.sndBuf)
    (hmem : pcb.memFull = true → pcb'.memFull = true) :
  SameKind s { s with pcb := some pcb' } ∧ Calm s { s with pcb := some pcb' }
  := by
  refine ⟨⟨rfl, id, id⟩, calm_pcb ?_⟩
  rw [hpcb]
  exact ⟨hbuf.le, hmem⟩

theorem calm_write
    {pcb : TcpPcb} (hpcb : s.pcb = some pcb) (chunk : ℕ) :
  SameKind s { s with pcb := some { pcb with sndBuf := pcb.sndBuf - chunk } } ∧
    Calm s { s with pcb := some { pcb with sndBuf := pcb.sndBuf - chunk } }
  := by
  refine ⟨⟨rfl, id, id⟩, calm_pcb ?_⟩
  rw [hpcb]
  exact ⟨Nat.sub_le _ _, id⟩

/-! ### The calls of blocking callers -/

theorem calmFor_connectStart (s : SbSocket β κ) (r : Err) :
  SameKind s (s.connectStart r).1 ∧ ∀ x, CalmFor s (s.connectStart r).1 x
  := by
  unfold connectStart
  split
  next => exact ⟨.refl s, (Calm.refl s).calmFor⟩
  next hconnected =>
    split
    next => exact ⟨.refl s, (Calm.refl s).calmFor⟩
    next hconnecting =>
      rw [Bool.not_eq_true] at hconnected hconnecting
      split
      next => exact ⟨.refl s, (Calm.refl s).calmFor⟩
      next pcb hpcb =>
        split
        next =>
          rw [← hconnecting]
          exact ⟨⟨rfl, id, id⟩, (calm_clearErr s).calmFor⟩
        next => exact ⟨⟨rfl, id, id⟩, calmFor_connects hpcb hconnected hconnecting⟩

theorem calm_tcpWrite (s : SbSocket β κ) (chunk : ℕ) :
  SameKind s (s.tcpWrite chunk).1 ∧ Calm s (s.tcpWrite chunk).1
  := by
  unfold tcpWrite
  split
  next => exact ⟨.refl s, .refl s⟩
  next pcb hpcb =>
    split
    next => exact ⟨.refl s, .refl s⟩
    next => apply calm_write hpcb

theorem calm_acceptTest (s : SbSocket β κ) :
  SameKind s s.acceptTest.2 ∧ Calm s s.acceptTest.2
  := by
  unfold acceptTest
  split
  next =>
    split
    next => exact ⟨.refl s, .refl s⟩
    next => split <;> exact ⟨.refl s, .refl s⟩
  next hn =>
    split
    next => exact ⟨.refl s, .refl s⟩
    next new q hq => apply calm_accept hq

theorem calm_connectFinish (s : SbSocket β κ) :
  SameKind s s.connectFinish.1 ∧ Calm s s.connectFinish.1
  := by
  unfold connectFinish
  split
  · exact ⟨⟨rfl, id, id⟩, calm_clearErr s⟩
  · exact ⟨.refl s, .refl s⟩

theorem sameKind_of_step
    {pos : ℕ} {c : Call} {sec : Section β κ} (h : Call.Step s pos c sec) :
  SameKind s sec.sock
  := by
  cases h with
  | enter r =>
    unfold passMark
    dsimp only
    split
    · exact ⟨rfl, id, id⟩
    · exact .refl s
  | oob hc h =>
    obtain heq | ⟨-, heq⟩ | heq := h.sock_eq
    · rw [heq]
      exact .refl s
    · rw [heq]
      exact ⟨rfl, id, id⟩
    · rw [heq]
      exact ⟨rfl, id, id⟩
  | _ => exact ⟨rfl, id, id⟩

theorem calm_clear
    {c : Call} {sec : Section β κ} (h : Call.clear s c = some sec) :
  SameKind s sec.sock ∧ Calm s sec.sock
  := by
  cases c with
  | clearErr r p e =>
    cases h
    exact ⟨⟨rfl, id, id⟩, calm_clearErr s⟩
  | _ => contradiction

theorem calm_sbDgramWait (s : SbSocket β κ) (dontwait : Bool) :
  SameKind s (s.sbDgramWait dontwait).2 ∧ Calm s (s.sbDgramWait dontwait).2
  := by
  unfold sbDgramWait
  split
  next =>
    split
    next => exact ⟨⟨rfl, id, id⟩, calm_clearErr s⟩
    next => split <;> exact ⟨.refl s, .refl s⟩
  next => exact ⟨.refl s, .refl s⟩

theorem calm_sbDgramDrop (s : SbSocket β κ) :
  SameKind s s.sbDgramDrop ∧ Calm s s.sbDgramDrop
  := by
  refine ⟨⟨rfl, id, id⟩, rfl, rfl, rfl, rfl, rfl, rfl, id, id, Or.inl rfl, ?_, id, .refl _⟩
  intro hn
  simp [sbDgramDrop, hn]

/-! ### The callbacks -/

theorem sameKind_mapUrgent (s : SbSocket β κ) (p : PbufChain) :
  SameKind s (s.mapUrgent p).sock ∧ (s.mapUrgent p).sock.owners = s.owners
  := by
  unfold mapUrgent
  split
  · exact ⟨.refl s, rfl⟩
  · split
    · dsimp only
      split
      · exact ⟨⟨rfl, id, id⟩, rfl⟩
      · split
        · split
          · exact ⟨⟨rfl, id, id⟩, rfl⟩
          · split
            · exact ⟨⟨rfl, id, id⟩, rfl⟩
            · exact ⟨.refl s, rfl⟩
        · split
          · exact ⟨⟨rfl, id, id⟩, rfl⟩
          · exact ⟨.refl s, rfl⟩
    · exact ⟨.refl s, rfl⟩

theorem sameKind_sbTcpRecvCb (s : SbSocket β κ) (p : PbufChain) :
  SameKind s (s.sbTcpRecvCb (some p)).1 ∧ (s.sbTcpRecvCb (some p)).1.owners = s.owners
  := by
  obtain ⟨⟨htype, htx, hacc⟩, howners⟩ := sameKind_mapUrgent s p
  unfold sbTcpRecvCb
  dsimp only
  split
  · exact ⟨⟨htype, htx, hacc⟩, howners⟩
  · exact ⟨⟨htype, htx, hacc⟩, howners⟩

/-! ### What an event can do -/

theorem event_effect
    {e : TcpEvent β κ} (h : s.event L e = some s') :
  SameKind s s' ∧
    ((s.notices e).wake = true ∧ s'.owners = s.owners ∨
      (s.notices e).wake = false ∧ ∀ x, e.stirs x = false → CalmFor s s' x)
  := by
  have hcalm : ∀ {t : SbSocket β κ} {e : TcpEvent β κ}, (s.notices e).wake = false →
      SameKind s t ∧ Calm s t →
      SameKind s t ∧ ((s.notices e).wake = true ∧ t.owners = s.owners ∨
        (s.notices e).wake = false ∧ ∀ x, e.stirs x = false → CalmFor s t x) := by
    intro t e hq ht
    exact ⟨ht.1, Or.inr ⟨hq, fun x _ => ht.2.calmFor x⟩⟩
  cases eventStep_of_event h with
  | urgent up pcb hpcb | progress state pcb hpcb => exact hcalm rfl (calm_some hpcb rfl id)
  | deliver p =>
    obtain ⟨⟨htype, htx, hacc⟩, howners⟩ := sameKind_sbTcpRecvCb (s.handOver p.totLen) p
    exact ⟨⟨htype, htx, hacc⟩, Or.inl ⟨rfl, howners⟩⟩
  | eof | sent | err => exact ⟨⟨rfl, id, id⟩, Or.inl ⟨rfl, rfl⟩⟩
  | established rcvNxt pcb hpcb | refused rcvNxt e pcb hpcb =>
    refine ⟨⟨rfl, id, id⟩, Or.inl ⟨?_, rfl⟩⟩
    simp only [notices, hpcb, Option.elim_some, sbTcpConnectedCb]
    split <;> rfl
  | memory full pcb hpcb =>
    cases full with
    | true => exact hcalm rfl (calm_some hpcb rfl fun _ => rfl)
    | false =>
      refine ⟨⟨rfl, id, id⟩, Or.inr ⟨rfl, ?_⟩⟩
      intro x hx txRoom hready
      cases x <;>
        simp_all [TcpEvent.stirs, ready, sbSockReadable, sbSockWritable, sbSockExceptable]
  | incoming new =>
    refine ⟨⟨rfl, id, ?_⟩, Or.inl ⟨rfl, rfl⟩⟩
    intro hn
    simp [acceptLink, sbEvent, hn]
  | connects pcb hpcb hconnected hconnecting =>
    exact ⟨⟨rfl, id, id⟩, Or.inr ⟨rfl, fun x _ => calmFor_connects hpcb hconnected hconnecting x⟩⟩
  | shutBoth r =>
    refine ⟨⟨rfl, id, id⟩, Or.inr ⟨rfl, fun x hx => calmFor_shut ?_ ?_ ?_ hx⟩⟩
    all_goals simp
  | shutOne how r shutRd shutWr hne hrd hwr =>
    exact ⟨⟨rfl, id, id⟩, Or.inr ⟨rfl, fun x hx =>
      calmFor_shut (fun _ => rfl) (fun h _ => hrd h) (fun h _ => hwr h) hx⟩⟩
  | listens backlog pcb hpcb =>
    refine hcalm rfl ⟨⟨rfl, id, id⟩, rfl, rfl, rfl, rfl, rfl, rfl, id, id, Or.inl rfl, id, id, ?_⟩
    rw [hpcb]
    exact ⟨le_refl _, id⟩
  | accept new q hq => exact hcalm rfl (calm_accept hq)
  | write left chunk pcb hpcb => exact hcalm rfl (calm_write hpcb chunk)
  | connectRefused | connectFinishFails | soError =>
    exact hcalm rfl ⟨⟨rfl, id, id⟩, calm_clearErr s⟩
  | connectFails | connectFinish | shutFails | listenFails | writeFails =>
    exact hcalm rfl ⟨.refl s, .refl s⟩
  | nonblock | oobInline | descriptors => exact hcalm rfl ⟨⟨rfl, id, id⟩, .of_waitState rfl⟩

end SbSocket
