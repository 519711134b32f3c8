import LwipAmiga.Socket.Api
import LwipAmiga.Socket.Delivery
import LwipAmiga.Socket.Lwip
import LwipAmiga.Socket.Recv
import LwipAmiga.Lib.Transition

/-!
# One TCP socket and its readers

The transition system of one TCP socket shared by openers `β`, each of which may be inside a receive
call.
-/

open Option Function

inductive TcpEvent (β κ : Type) where
  | urgent (up : UInt32)
  | deliver (p : PbufChain)
  | eof
  | sent (n : ℕ) (memFull : Bool)
  | memory (full : Bool)
  | err (e : Err)
  | connected (rcvNxt : UInt32) (e : Err)
  | progress (state : TcpState)
  | incoming (new : κ)
  | connect (r : Err)
  | connectFinish
  | shutdown (how : ℤ) (r : Err)
  | listen (backlog : ℤ) (listens : Bool)
  | accept
  | write (left : ℕ)
  | nonblock (v : Bool)
  | oobInline (v : Bool)
  | soError
  | descriptors (owners : OwnerTable β) (refs : UInt8)

def TcpState.synchronized : TcpState → Bool
  | .closed | .listen | .synSent => false
  | _ => true

namespace SbSocket

variable {β κ : Type}

def handOver (s : SbSocket β κ) (n : ℕ) : SbSocket β κ :=
  { s with pcb := s.pcb.map fun pcb => { pcb with delivered := pcb.delivered + n } }

def event (L : Lwip) (s : SbSocket β κ) : TcpEvent β κ → Option (SbSocket β κ)
  | .urgent up =>
      s.pcb.map fun pcb => { s with pcb := some { pcb with rcvUp := up, urgRcv := true } }
  | .deliver p =>
      s.pcb.bind fun pcb =>
        if L.deliver pcb p.totLen = true ∧ ((s.rxq ++ p.bufs).map Pbuf.addr).Nodup then
          some ((s.handOver p.totLen).sbTcpRecvCb (some p)).1
        else none
  | .eof => s.pcb.map fun _ => (s.sbTcpRecvCb none).1
  | .sent n memFull =>
      s.pcb.map fun pcb =>
        (sbTcpSentCb
          { s with pcb := some { pcb with sndBuf := pcb.sndBuf + n, memFull := memFull } }).1
  | .memory full => s.pcb.map fun pcb => { s with pcb := some { pcb with memFull := full } }
  | .err e =>
      s.pcb.bind fun _ => if L.reports e then some (s.sbTcpErrCb e).1 else none
  | .connected rcvNxt e =>
      s.pcb.bind fun pcb =>
        if pcb.state = .synSent ∧ L.reports e = true then
          let pcb' := if e = .ok then { pcb with state := .established, rcvNxt := rcvNxt } else pcb
          some (sbTcpConnectedCb { s with pcb := some pcb' } pcb' e).1
        else none
  | .progress state =>
      s.pcb.bind fun pcb =>
        if pcb.state.synchronized && state.synchronized then
          some { s with pcb := some { pcb with state := state } }
        else none
  | .incoming new =>
      if s.listening && s.pcb.isSome && s.acceptOwner.isSome then some (s.acceptLink new).1
      else none
  | .connect r => if s.pcb.all (L.connect · r) then some (s.connectStart r).1 else none
  | .connectFinish => if s.connectPending then none else some s.connectFinish.1
  | .shutdown how r => some (s.bsdShutdown how r).1
  | .listen backlog listens =>
      if s.pcb.all (L.listen · listens) then some (s.bsdListen backlog listens).1 else none
  | .accept =>
      match s.acceptTest with
      | (.take _, s') => some s'
      | _ => none
  | .write left =>
      match s.sendTest left with
      | .write chunk => some (s.tcpWrite chunk).1
      | _ => none
  | .nonblock v => some (s.setNonblock v)
  | .oobInline v => some (s.setOobInline v)
  | .soError => some s.getSoError.1
  | .descriptors owners refs => some { s with owners := owners, refs := refs }

end SbSocket

structure TcpWorld (β κ : Type) where
  sock : SbSocket β κ
  lock : Option β
  call : β → Call
  closed : Bool
  log : List Delivery
  detached : List UInt8
  marks : List ℕ

inductive TcpLabel (β κ : Type) where
  | event (e : TcpEvent β κ)
  | close
  | begin (i : β) (r : RecvReq) (oob : Bool)
  | enter (i : β)
  | run (i : β)
  | wake (i : β) (we : Option Errno)
  | relock (i : β)
  | clear (i : β)

namespace TcpWorld

variable {β κ : Type} [DecidableEq β]

def logged (s : SbSocket β κ) : TcpEvent β κ → List Delivery
  | .deliver p => [s.delivery p]
  | _ => []

def passedMarks (w : TcpWorld β κ) : List ℕ :=
  if w.sock.markUp then w.marks.tail else w.marks

def marksAfter (w : TcpWorld β κ) (s' : SbSocket β κ) : TcpEvent β κ → List ℕ
  | .deliver p =>
      match w.sock.latchOffset p.totLen with
      | some d => (w.detached.length + Pbuf.size w.sock.rxq + d) :: w.passedMarks
      | none => if s'.oobState = .oobMarked then w.passedMarks else w.marks
  | _ => w.marks

def afterEvent (w : TcpWorld β κ) (e : TcpEvent β κ) (s' : SbSocket β κ) : TcpWorld β κ :=
  { w with sock := s', log := w.log ++ logged w.sock e, marks := w.marksAfter s' e }

def afterCall (w : TcpWorld β κ) (i : β) (sec : Section β κ) : TcpWorld β κ :=
  { w with
    sock := sec.sock
    lock := if sec.call.holds then some i else none
    call := Function.update w.call i sec.call
    detached := w.detached ++ sec.out }

variable [Fintype β]

def next (L : Lwip) (w : TcpWorld β κ) (l : TcpLabel β κ) : Option (TcpWorld β κ) :=
  if w.closed then none
  else
    match l with
    | .event e =>
        if w.lock.isNone then (w.sock.event L e).map (w.afterEvent e) else none
    | .close =>
        if w.lock.isNone ∧ ∀ i, (w.call i).resting = true then some { w with closed := true }
        else none
    | .begin i r oob =>
        if (w.call i).resting then
          some { w with call := Function.update w.call i (Call.begin w.sock r oob) }
        else none
    | .enter i =>
        if w.lock.isNone then (Call.enter w.sock (w.call i)).map (w.afterCall i) else none
    | .run i =>
        if w.lock = some i then
          (Call.locked w.sock w.detached.length (w.call i)).map (w.afterCall i)
        else none
    | .wake i we =>
        if w.lock.isNone then
          (Call.wake we (w.call i)).map fun c => w.afterCall i ⟨w.sock, c, []⟩
        else none
    | .relock i =>
        if w.lock.isNone then
          (Call.relock (w.call i)).map fun c => w.afterCall i ⟨w.sock, c, []⟩
        else none
    | .clear i =>
        (Call.clear w.sock (w.call i)).map fun sec =>
          { w with sock := sec.sock, call := Function.update w.call i sec.call }

inductive Created (b : β) : SbSocket β κ → Prop where
  | socket (sndBuf : ℕ) :
      Created b { SbSocket.sbSockAlloc b .tcp with pcb := some (tcpNew sndBuf) }
  | accepted (pcb : TcpPcb) (hstate : pcb.state.synchronized = true) (hdel : pcb.delivered = 0)
      (hrecv : pcb.recved = 0) : Created b (SbSocket.accepted b pcb)

def start (s : SbSocket β κ) : TcpWorld β κ where
  sock := s
  lock := none
  call _ := .idle
  closed := false
  log := []
  detached := []
  marks := []

def system (L : Lwip) : TransitionSystem (TcpWorld β κ) (TcpLabel β κ) where
  init w := ∃ b s, Created b s ∧ w = start s
  next := next L

def connection : TcpWorld Bool Unit :=
  start (SbSocket.accepted true { tcpNew 1000 with state := .established })

theorem init_connection (L : Lwip) :
  (system L).init connection
  := ⟨true, _, .accepted _ rfl rfl rfl, rfl⟩

end TcpWorld

/-! ### What an event can do -/

namespace SbSocket

variable {β κ : Type} {L : Lwip} {s s' : SbSocket β κ}

inductive EventStep (L : Lwip) (s : SbSocket β κ) : TcpEvent β κ → SbSocket β κ → Prop where
  | urgent (up : UInt32) (pcb : TcpPcb) (hpcb : s.pcb = some pcb) :
      EventStep L s (.urgent up) { s with pcb := some { pcb with rcvUp := up, urgRcv := true } }
  | deliver (p : PbufChain) (pcb : TcpPcb) (hpcb : s.pcb = some pcb)
      (hdel : L.deliver pcb p.totLen = true)
      (hfresh : ((s.rxq ++ p.bufs).map Pbuf.addr).Nodup) :
      EventStep L s (.deliver p) ((s.handOver p.totLen).sbTcpRecvCb (some p)).1
  | eof (pcb : TcpPcb) (hpcb : s.pcb = some pcb) : EventStep L s .eof (s.sbTcpRecvCb none).1
  | sent (n : ℕ) (memFull : Bool) (pcb : TcpPcb) (hpcb : s.pcb = some pcb) :
      EventStep L s (.sent n memFull) (sbTcpSentCb
        { s with pcb := some { pcb with sndBuf := pcb.sndBuf + n, memFull := memFull } }).1
  | memory (full : Bool) (pcb : TcpPcb) (hpcb : s.pcb = some pcb) :
      EventStep L s (.memory full) { s with pcb := some { pcb with memFull := full } }
  | err (e : Err) (he : L.reports e = true) : EventStep L s (.err e) (s.sbTcpErrCb e).1
  | established (rcvNxt : UInt32) (pcb : TcpPcb) (hpcb : s.pcb = some pcb)
      (hsyn : pcb.state = .synSent) :
      EventStep L s (.connected rcvNxt .ok) (sbTcpConnectedCb
        { s with pcb := some { pcb with state := .established, rcvNxt := rcvNxt } }
        { pcb with state := .established, rcvNxt := rcvNxt } .ok).1
  | refused (rcvNxt : UInt32) (e : Err) (pcb : TcpPcb) (hpcb : s.pcb = some pcb)
      (he : L.reports e = true) :
      EventStep L s (.connected rcvNxt e) (sbEvent { s with err := sbMapErr e } SB_FD_ERROR)
  | progress (state : TcpState) (pcb : TcpPcb) (hpcb : s.pcb = some pcb)
      (hold : pcb.state.synchronized = true) (hnew : state.synchronized = true) :
      EventStep L s (.progress state) { s with pcb := some { pcb with state := state } }
  | incoming (new : κ) (hlistening : s.listening = true) :
      EventStep L s (.incoming new) (s.acceptLink new).1
  | connectFails (r : Err) : EventStep L s (.connect r) s
  | connectRefused (r : Err) : EventStep L s (.connect r) { s with err := none }
  | connects (pcb : TcpPcb) (hpcb : s.pcb = some pcb) (hconnected : s.connected = false)
      (hconnecting : s.connecting = false) (hr : L.connect pcb .ok = true) :
      EventStep L s (.connect .ok)
        { s with err := none, connecting := true, pcb := some { pcb with state := .synSent } }
  | connectFinish : EventStep L s .connectFinish s
  | connectFinishFails : EventStep L s .connectFinish { s with err := none }
  | shutFails (how : ℤ) (r : Err) : EventStep L s (.shutdown how r) s
  | shutBoth (r : Err) (shutRd shutWr : Bool) :
      EventStep L s (.shutdown 2 r) { s with pcb := none, shutRd := shutRd, shutWr := shutWr }
  | shutOne (how : ℤ) (r : Err) (shutRd shutWr : Bool) (hne : how ≠ 2)
      (hrd : how ≠ 0 → shutRd = s.shutRd) (hwr : how ≠ 1 → shutWr = s.shutWr) :
      EventStep L s (.shutdown how r) { s with shutRd := shutRd, shutWr := shutWr }
  | listenFails (backlog : ℤ) (b : Bool) : EventStep L s (.listen backlog b) s
  | listens (backlog : ℤ) (pcb : TcpPcb) (hpcb : s.pcb = some pcb) (hl : L.listen pcb true = true) :
      EventStep L s (.listen backlog true)
        { s with
          pcb := some { pcb with state := .listen, backlog := clampBacklog backlog }
          listening := true }
  | accept (new : κ) (q : List κ) (hq : s.acceptq = new :: q) :
      EventStep L s .accept { s with acceptq := q, naccept := s.naccept - 1 }
  | writeFails (left : ℕ) : EventStep L s (.write left) s
  | write (left chunk : ℕ) (pcb : TcpPcb) (hpcb : s.pcb = some pcb) :
      EventStep L s (.write left)
        { s with pcb := some { pcb with sndBuf := pcb.sndBuf - chunk } }
  | nonblock (v : Bool) : EventStep L s (.nonblock v) (s.setNonblock v)
  | oobInline (v : Bool) : EventStep L s (.oobInline v) (s.setOobInline v)
  | soError : EventStep L s .soError s.getSoError.1
  | descriptors (owners : OwnerTable β) (refs : UInt8) :
      EventStep L s (.descriptors owners refs) { s with owners := owners, refs := refs }

theorem eventStep_connectStart
    {r : Err} (hr : s.pcb.all (L.connect · r) = true) :
  EventStep L s (.connect r) (s.connectStart r).1
  := by
  unfold connectStart
  split
  next => apply EventStep.connectFails
  next hconnected =>
    split
    next => apply EventStep.connectFails
    next hconnecting =>
      rw [Bool.not_eq_true] at hconnected hconnecting
      split
      next => apply EventStep.connectFails
      next pcb hpcb =>
        split
        next =>
          rw [← hconnecting]
          apply EventStep.connectRefused
        next hok =>
          obtain rfl := sbMapErr_eq_none.mp hok
          rw [hpcb] at hr
          exact .connects pcb hpcb hconnected hconnecting hr

theorem eventStep_bsdShutdown (s : SbSocket β κ) (how : ℤ) (r : Err) :
  EventStep L s (.shutdown how r) (s.bsdShutdown how r).1
  := by
  unfold bsdShutdown
  split
  next => apply EventStep.shutFails
  next =>
    split
    next => apply EventStep.shutFails
    next =>
      dsimp only
      split
      next => apply EventStep.shutFails
      next =>
        obtain rfl | hne := eq_or_ne how 2
        · split <;> apply EventStep.shutBoth
        · have hone : ((how == 0 || how == 2) && (how == 1 || how == 2)) = false := by
            simp only [Bool.and_eq_false_iff, Bool.or_eq_false_iff, beq_eq_false_iff_ne]
            omega
          rw [if_neg (Bool.eq_false_iff.mp hone)]
          split
          · apply EventStep.shutOne how r _ _ hne
            · intro h
              simp [h, hne]
            · intro h
              simp [h, hne]
          · apply EventStep.shutFails

theorem eventStep_bsdListen
    (backlog : ℤ) {listens : Bool} (hl : s.pcb.all (L.listen · listens) = true) :
  EventStep L s (.listen backlog listens) (s.bsdListen backlog listens).1
  := by
  unfold bsdListen
  split
  next => apply EventStep.listenFails
  next =>
    split
    next => apply EventStep.listenFails
    next pcb hpcb =>
      split
      next => apply EventStep.listenFails
      next =>
        split
        next hlistens =>
          subst hlistens
          rw [hpcb] at hl
          exact .listens backlog pcb hpcb hl
        next => apply EventStep.listenFails

theorem eventStep_accept
    {new : κ} (h : s.acceptTest = (.take new, s')) :
  EventStep L s .accept s'
  := by
  unfold acceptTest at h
  split at h
  · split at h
    · cases h
    · split at h <;> cases h
  · split at h
    · cases h
    · rename_i hq
      cases h
      apply EventStep.accept new _ hq

theorem eventStep_tcpWrite (s : SbSocket β κ) (left chunk : ℕ) :
  EventStep L s (.write left) (s.tcpWrite chunk).1
  := by
  unfold tcpWrite
  split
  next => apply EventStep.writeFails
  next pcb hpcb =>
    split
    · apply EventStep.writeFails
    · exact .write left chunk pcb hpcb

theorem eventStep_of_event
    {e : TcpEvent β κ} (h : s.event L e = some s') :
  EventStep L s e s'
  := by
  cases e with
  | urgent up =>
    obtain ⟨pcb, hpcb, rfl⟩ := map_eq_some_iff.mp h
    exact .urgent up pcb hpcb
  | deliver p =>
    obtain ⟨pcb, hpcb, h⟩ := bind_eq_some_iff.mp h
    obtain ⟨⟨hdel, hfresh⟩, ⟨⟩⟩ := ite_none_right_eq_some.mp h
    exact .deliver p pcb hpcb hdel hfresh
  | eof =>
    obtain ⟨pcb, hpcb, rfl⟩ := map_eq_some_iff.mp h
    exact .eof pcb hpcb
  | sent n memFull =>
    obtain ⟨pcb, hpcb, rfl⟩ := map_eq_some_iff.mp h
    exact .sent n memFull pcb hpcb
  | memory full =>
    obtain ⟨pcb, hpcb, rfl⟩ := map_eq_some_iff.mp h
    exact .memory full pcb hpcb
  | err e =>
    obtain ⟨pcb, -, h⟩ := bind_eq_some_iff.mp h
    obtain ⟨he, ⟨⟩⟩ := ite_none_right_eq_some.mp h
    exact .err e he
  | connected rcvNxt e =>
    obtain ⟨pcb, hpcb, h⟩ := bind_eq_some_iff.mp h
    obtain ⟨⟨hsyn, he⟩, ⟨⟩⟩ := ite_none_right_eq_some.mp h
    by_cases hok : e = .ok
    · subst hok
      exact .established rcvNxt pcb hpcb hsyn
    · simp only [sbTcpConnectedCb, if_neg hok]
      rw [← hpcb]
      exact .refused rcvNxt e pcb hpcb he
  | progress state =>
    obtain ⟨pcb, hpcb, h⟩ := bind_eq_some_iff.mp h
    obtain ⟨hsync, ⟨⟩⟩ := ite_none_right_eq_some.mp h
    obtain ⟨hold, hnew⟩ := Bool.and_eq_true_iff.mp hsync
    exact .progress state pcb hpcb hold hnew
  | incoming new =>
    obtain ⟨htest, ⟨⟩⟩ := ite_none_right_eq_some.mp h
    simp only [Bool.and_eq_true] at htest
    exact .incoming new htest.1.1
  | connect r =>
    obtain ⟨hr, ⟨⟩⟩ := ite_none_right_eq_some.mp h
    apply eventStep_connectStart hr
  | connectFinish =>
    obtain ⟨-, ⟨⟩⟩ := ite_none_left_eq_some.mp h
    unfold connectFinish
    split
    · exact .connectFinishFails
    · exact .connectFinish
  | shutdown how r =>
    cases h
    apply eventStep_bsdShutdown
  | listen backlog listens =>
    obtain ⟨hl, ⟨⟩⟩ := ite_none_right_eq_some.mp h
    apply eventStep_bsdListen backlog hl
  | accept =>
    simp only [event] at h
    split at h
    next htake =>
      cases h
      apply eventStep_accept htake
    next => contradiction
  | write left =>
    simp only [event] at h
    split at h
    · cases h
      apply eventStep_tcpWrite
    · contradiction
  | nonblock v =>
    cases h
    exact .nonblock v
  | oobInline v =>
    cases h
    exact .oobInline v
  | soError =>
    cases h
    exact .soError
  | descriptors owners refs =>
    cases h
    exact .descriptors owners refs

structure SameRx (s s' : SbSocket β κ) : Prop where
  sameRxq : SameRxq s s'
  oobMarkDist_eq : s'.oobMarkDist = s.oobMarkDist
  oobState_eq : s'.oobState = s.oobState
  pcb_eq : ∀ pcb' ∈ s'.pcb, ∃ pcb ∈ s.pcb,
    pcb'.delivered = pcb.delivered ∧ pcb'.recved = pcb.recved

theorem SameRx.of_pcb
    (hq : SameRxq s s') (hd : s'.oobMarkDist = s.oobMarkDist) (ho : s'.oobState = s.oobState)
    (hpcb : s'.pcb = s.pcb) :
  SameRx s s'
  := ⟨hq, hd, ho, fun pcb' h => ⟨pcb', hpcb ▸ h, rfl, rfl⟩⟩

theorem SameRx.of_none
    (hq : SameRxq s s') (hd : s'.oobMarkDist = s.oobMarkDist) (ho : s'.oobState = s.oobState)
    (hpcb : s'.pcb = none) :
  SameRx s s'
  := ⟨hq, hd, ho, fun pcb' h => by simp [hpcb] at h⟩

theorem SameRx.of_some
    {pcb pcb' : TcpPcb} (hq : SameRxq s s') (hd : s'.oobMarkDist = s.oobMarkDist)
    (ho : s'.oobState = s.oobState) (hs : s.pcb = some pcb) (hs' : s'.pcb = some pcb')
    (hdel : pcb'.delivered = pcb.delivered) (hrecv : pcb'.recved = pcb.recved) :
  SameRx s s'
  := by
  refine ⟨hq, hd, ho, ?_⟩
  intro x hx
  cases hs'.symm.trans hx
  exact ⟨pcb, hs, hdel, hrecv⟩

theorem event_cases
    {e : TcpEvent β κ} (h : s.event L e = some s') :
  (∃ p pcb, e = .deliver p ∧ s.pcb = some pcb ∧ L.deliver pcb p.totLen = true ∧
    ((s.rxq ++ p.bufs).map Pbuf.addr).Nodup ∧
    s' = ((s.handOver p.totLen).sbTcpRecvCb (some p)).1) ∨
  (∀ p, e ≠ .deliver p) ∧ SameRx s s'
  := by
  cases eventStep_of_event h with
  | deliver p pcb hpcb hdel hfresh => exact .inl ⟨p, pcb, rfl, hpcb, hdel, hfresh, rfl⟩
  | urgent up pcb hpcb | sent n memFull pcb hpcb | memory full pcb hpcb
  | established rcvNxt pcb hpcb | progress state pcb hpcb | connects pcb hpcb
  | listens backlog pcb hpcb | write left chunk pcb hpcb =>
    exact .inr ⟨nofun, .of_some ⟨rfl, rfl, rfl⟩ rfl rfl hpcb rfl rfl rfl⟩
  | err e | shutBoth r => exact .inr ⟨nofun, .of_none ⟨rfl, rfl, rfl⟩ rfl rfl rfl⟩
  | _ => exact .inr ⟨nofun, .of_pcb ⟨rfl, rfl, rfl⟩ rfl rfl rfl⟩

end SbSocket

def TcpLabel.caller {β κ : Type} : TcpLabel β κ → Option β
  | .enter i | .run i | .wake i _ | .relock i | .clear i => some i
  | _ => none

namespace TcpWorld

variable {β κ : Type} {L : Lwip} {w w' : TcpWorld β κ}

/-! ### The core lock -/

def LockOk (w : TcpWorld β κ) : Prop :=
  ∀ i, (w.call i).holds = true ↔ w.lock = some i

theorem LockOk.not_holds_of_free
    (hw : w.LockOk) (hlock : w.lock = none) (i : β) :
  (w.call i).holds = false
  := by
  rw [Bool.eq_false_iff, ne_eq, hw i, hlock]
  nofun

theorem LockOk.not_holds_of_ne
    (hw : w.LockOk) {i j : β} (hlock : w.lock = none ∨ w.lock = some i) (hj : j ≠ i) :
  (w.call j).holds = false
  := by
  obtain hlock | hlock := hlock
  · exact hw.not_holds_of_free hlock j
  · rw [Bool.eq_false_iff, ne_eq, hw j, hlock]
    intro heq
    exact hj (some.inj heq).symm

/-! ### What a step can do -/

variable [DecidableEq β]

inductive Step (L : Lwip) (w : TcpWorld β κ) : TcpLabel β κ → TcpWorld β κ → Prop where
  | event (e : TcpEvent β κ) (s' : SbSocket β κ) (hlock : w.lock = none)
      (h : w.sock.event L e = some s') : Step L w (.event e) (w.afterEvent e s')
  | close (hrest : ∀ i, (w.call i).resting = true) : Step L w .close { w with closed := true }
  | begin (i : β) (r : RecvReq) (oob : Bool) (hrest : (w.call i).resting = true) :
      Step L w (.begin i r oob)
        { w with call := Function.update w.call i (Call.begin w.sock r oob) }
  | call {l : TcpLabel β κ} (i : β) (sec : Section β κ) (hl : l.caller = some i)
      (hlock : w.lock = none ∨ w.lock = some i)
      (h : Call.Step w.sock w.detached.length (w.call i) sec) : Step L w l (w.afterCall i sec)
  | clear (i : β) (r : RecvReq) (p : Progress) (e : Errno) (hc : w.call i = .clearErr r p e) :
      Step L w (.clear i)
        { w with
          sock := { w.sock with err := none }
          call := Function.update w.call i (.done r p (.error e)) }

theorem LockOk.update
    (hw : w.LockOk) {i : β} {c : Call} (hold : (w.call i).holds = false) (hnew : c.holds = false)
    {s : SbSocket β κ} :
  LockOk { w with sock := s, call := update w.call i c }
  := by
  intro j
  by_cases hj : j = i
  · subst hj
    have hlock := hw j
    simp [hnew, hold] at hlock ⊢
    exact hlock
  · simp only [update_of_ne hj]
    exact hw j

theorem LockOk.step
    {l : TcpLabel β κ} (hw : w.LockOk) (h : Step L w l w') :
  w'.LockOk
  := by
  cases h with
  | event e s' hlock h | close hrest => exact hw
  | begin i r oob hrest =>
    exact hw.update (s := w.sock) (Call.holds_of_resting hrest) (Call.holds_begin _ r oob)
  | clear i r p e hc => exact hw.update (by rw [hc]; rfl) rfl
  | call i sec hl hlock h =>
    intro j
    by_cases hj : j = i
    · subst hj
      simp only [afterCall, update_self]
      split <;> simp_all
    · have hfree := hw.not_holds_of_ne hlock hj
      simp only [afterCall, update_of_ne hj, hfree]
      split <;> simp [Ne.symm hj]

variable [Fintype β]

theorem step_of_next
    {l : TcpLabel β κ} (h : next L w l = some w') :
  Step L w l w'
  := by
  unfold next at h
  split at h
  · contradiction
  · cases l with
    | event e =>
      simp only [ite_none_right_eq_some, map_eq_some_iff,
        isNone_iff_eq_none] at h
      obtain ⟨hlock, s', he, rfl⟩ := h
      exact .event e s' hlock he
    | close =>
      obtain ⟨⟨-, hrest⟩, ⟨⟩⟩ := ite_none_right_eq_some.mp h
      exact .close hrest
    | begin i r oob =>
      obtain ⟨hrest, ⟨⟩⟩ := ite_none_right_eq_some.mp h
      exact .begin i r oob hrest
    | enter i =>
      simp only [ite_none_right_eq_some, map_eq_some_iff,
        isNone_iff_eq_none] at h
      obtain ⟨hlock, sec, hs, rfl⟩ := h
      exact .call i sec rfl (Or.inl hlock) (Call.step_of_enter hs)
    | run i =>
      simp only [ite_none_right_eq_some, map_eq_some_iff] at h
      obtain ⟨hlock, sec, hs, rfl⟩ := h
      exact .call i sec rfl (Or.inr hlock) (Call.step_of_locked hs)
    | wake i we =>
      simp only [ite_none_right_eq_some, map_eq_some_iff,
        isNone_iff_eq_none] at h
      obtain ⟨hlock, c, hc, rfl⟩ := h
      exact .call i _ rfl (Or.inl hlock) (Call.step_of_wake hc)
    | relock i =>
      simp only [ite_none_right_eq_some, map_eq_some_iff,
        isNone_iff_eq_none] at h
      obtain ⟨hlock, c, hc, rfl⟩ := h
      exact .call i _ rfl (Or.inl hlock) (Call.step_of_relock hc)
    | clear i =>
      simp only [map_eq_some_iff] at h
      obtain ⟨sec, hs, rfl⟩ := h
      cases hc : w.call i with
      | clearErr r p e =>
        rw [hc] at hs
        cases hs
        exact .clear i r p e hc
      | _ =>
        rw [hc] at hs
        contradiction

theorem lockOk_of_reach
    {good : TcpWorld β κ → TcpLabel β κ → Prop} (r : (system L).Reach good w) :
  w.LockOk
  := by
  apply r.invariant
  · rintro _ ⟨b, s, -, rfl⟩ i
    simp [start, Call.holds]
  · intro w l w' hw _ h
    exact hw.step (step_of_next h)

end TcpWorld
