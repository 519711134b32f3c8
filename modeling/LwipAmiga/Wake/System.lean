import LwipAmiga.Descriptor.World
import LwipAmiga.Lib.Wakeup
import LwipAmiga.Netif.Capacity
import LwipAmiga.Select.Scan
import LwipAmiga.Wake.Event

/-!
# Sleeping openers

Each opener may be asleep in a blocking call.
-/

/-! ### The transmit path -/

structure TxPath where
  activeIf : Option NetIfBase
  txWantSpace : Bool

/-- `netifbase_tx_writable`: a datagram of the largest size fits, or there is no interface. -/
def TxPath.txWritable (t : TxPath) : Bool :=
  match t.activeIf with
  | none => true
  | some i => decide (i.txMaxFrames ≤ i.txFree)

inductive NetEvent where
  | attach (i : NetIfBase)
  | taken (n : ℕ)
  | freed (n : ℕ)
  | detach

/-! ### What an opener is doing -/

inductive Activity (κ : Type) where
  | outside
  | recv (k : κ) (c : Call)
  | dgram (k : κ) (peek dontwait asleep : Bool)
  | accept (k : κ) (asleep : Bool)
  | connect (k : κ) (asleep : Bool)
  | send (k : κ) (left : ℕ) (dontwait asleep : Bool)
  | select (nfds : ℕ) (sets : FdKind → Option FdSet) (poll asleep : Bool)

inductive BlockingCall (κ : Type) where
  | recv (k : κ) (r : RecvReq) (oob : Bool)
  | dgram (k : κ) (peek dontwait : Bool)
  | accept (k : κ)
  | send (k : κ) (len : ℕ) (dontwait : Bool)
  | select (nfds : ℕ) (sets : FdKind → Option FdSet) (poll : Bool)

def selectWants {κ : Type} (tab : List (Option κ)) (nfds : ℕ) (sets : FdKind → Option FdSet) :
    List (κ × Want) :=
  (List.range nfds).flatMap fun fd =>
    match tab[fd]?.join with
    | none => []
    | some k => (FdKind.all.filter fun x => sbFdBit (sets x) fd).map fun x => (k, x.want)

namespace Activity

variable {κ : Type}

def on : Activity κ → Option κ
  | .recv k _ | .dgram k .. | .accept k _ | .connect k _ | .send k .. => some k
  | .outside | .select .. => none

def asleep : Activity κ → Bool
  | .outside => false
  | .recv _ c => c.want.isSome
  | .dgram _ _ _ a | .accept _ a | .connect _ a | .send _ _ _ a | .select _ _ _ a => a

def wants (tab : List (Option κ)) : Activity κ → List (κ × Want)
  | .recv k c => c.want.toList.map fun x => (k, x)
  | .dgram k _ _ true => [(k, .recvDgram)]
  | .accept k true => [(k, .accept)]
  | .connect k true => [(k, .connect)]
  | .send k _ _ true => [(k, .send)]
  | .select nfds sets _ true => selectWants tab nfds sets
  | _ => []

def woken (we : Option Errno) : Activity κ → Option (Activity κ)
  | .recv k c => (c.wake we).map fun c' => if c'.resting then .outside else .recv k c'
  | .dgram k peek dontwait true =>
      some (if we.isNone then .dgram k peek dontwait false else .outside)
  | .accept k true => some (if we.isNone then .accept k false else .outside)
  | .connect k true => some (if we.isNone then .connect k false else .outside)
  | .send k left dontwait true =>
      some (if we.isNone then .send k left dontwait false else .outside)
  | .select nfds sets poll true =>
      match we with
      | none => some (.select nfds sets poll false)
      | some .ewouldblock => some (.select nfds sets true false)
      | some _ => some .outside
  | _ => none

def holds : Activity κ → Bool
  | .recv _ c => c.holds
  | _ => false

end Activity

inductive Fresh where
  | socket (type : SbSockType) (sndBuf : ℕ)
  | accepted (pcb : TcpPcb)

def Fresh.sock {β κ : Type} (b : β) : Fresh → SbSocket β κ
  | .socket type sndBuf =>
      { SbSocket.sbSockAlloc b type with
        pcb := if type = .tcp then some (tcpNew sndBuf) else none }
  | .accepted pcb => SbSocket.accepted b pcb

/-! ### The state -/

structure WakeWorld (β κ : Type) where
  socks : κ → SbSocket β κ
  fds : β → List (Option κ)
  act : β → Activity κ
  sig : β → Bool
  lock : Option β
  tx : TxPath
  txWaiters : List κ

inductive WakeLabel (β κ : Type) where
  | event (k : κ) (e : TcpEvent β κ)
  | dgram (k : κ) (d : SbDgram) (alloc : Bool)
  | net (e : NetEvent)
  | enrol (k : κ)
  | create (k : κ) (b : β) (f : Fresh)
  | table (b : β) (tab : List (Option κ))
  | begin (b : β) (c : BlockingCall κ)
  | connect (b : β) (k : κ) (r : Err)
  | run (b : β)
  | wake (b : β) (we : Option Errno)

namespace WakeWorld

variable {β κ : Type} [DecidableEq β] [DecidableEq κ]

def setSock (w : WakeWorld β κ) (k : κ) (s : SbSocket β κ) (n : Notices) : WakeWorld β κ :=
  { w with
    socks := Function.update w.socks k s
    sig := if n.wake then Wakeup.signal w.sig s.sbWake else w.sig }

def settle (w : WakeWorld β κ) (b : β) (a : Activity κ) : WakeWorld β κ :=
  { w with
    act := Function.update w.act b a
    sig := if a.asleep then Function.update w.sig b false else w.sig }

def setTable (w : WakeWorld β κ) (b : β) (tab : List (Option κ)) : WakeWorld β κ :=
  { w with fds := Function.update w.fds b tab }

def create (w : WakeWorld β κ) (k : κ) (b : β) (f : Fresh) : WakeWorld β κ :=
  { w with
    socks := Function.update w.socks k (f.sock b)
    txWaiters := w.txWaiters.filter (· ≠ k) }

/-! ### Transmit room -/

def sbTxWantSpace (w : WakeWorld β κ) (k : κ) : WakeWorld β κ :=
  { w with
    socks := Function.update w.socks k (w.socks k).txEnrol
    txWaiters := if (w.socks k).txWaiting then w.txWaiters else w.txWaiters ++ [k]
    tx := { w.tx with txWantSpace := w.tx.txWantSpace || w.tx.activeIf.isSome } }

def wakeWaiter (w : WakeWorld β κ) (k : κ) : WakeWorld β κ :=
  w.setSock k (w.socks k).txSpaceAvail.1 (w.socks k).txSpaceAvail.2

/-- `sb_tx_space_avail`: every enrolled socket is taken off the list and woken. -/
def sbTxSpaceAvail (w : WakeWorld β κ) : WakeWorld β κ :=
  w.txWaiters.foldl wakeWaiter { w with txWaiters := [] }

/-- `netifbase_tx_wake`. -/
def txWake (w : WakeWorld β κ) : WakeWorld β κ :=
  if w.tx.txWantSpace then sbTxSpaceAvail { w with tx := { w.tx with txWantSpace := false } }
  else w

def setIf (w : WakeWorld β κ) (i : Option NetIfBase) : WakeWorld β κ :=
  { w with tx := { w.tx with activeIf := i } }

def afterNet (w : WakeWorld β κ) : NetEvent → Option (WakeWorld β κ)
  | .attach i => if w.tx.activeIf.isNone then some (w.setIf (some i)) else none
  | .taken n =>
      w.tx.activeIf.bind fun i =>
        if n ≤ i.txFree then some (w.setIf (some { i with txFree := i.txFree - n })) else none
  | .freed n =>
      w.tx.activeIf.map fun i =>
        let w' := w.setIf (some { i with txFree := i.txFree + n })
        if i.txFree < i.txMaxFrames ∧ i.txMaxFrames ≤ i.txFree + n then w'.txWake else w'
  | .detach => some (w.setIf none).txWake

/-! ### The sections of blocking calls -/

def recvStep (w : WakeWorld β κ) (b : β) (k : κ) (sec : Section β κ) : WakeWorld β κ :=
  settle
    { w.setSock k sec.sock SbSocket.quiet with
      lock := if sec.call.holds then some b else none }
    b (if sec.call.resting then .outside else .recv k sec.call)

def runRecv (w : WakeWorld β κ) (b : β) (k : κ) (c : Call) : Option (WakeWorld β κ) :=
  if c.holds then
    if w.lock = some b then (Call.locked (w.socks k) 0 c).map (w.recvStep b k) else none
  else
    match Call.clear (w.socks k) c with
    | some sec => some ((w.setSock k sec.sock SbSocket.quiet).settle b .outside)
    | none =>
        if w.lock.isNone then
          match Call.relock c with
          | some c' => some (w.recvStep b k ⟨w.socks k, c', []⟩)
          | none => (Call.enter (w.socks k) c).map (w.recvStep b k)
        else none

def runDgram (w : WakeWorld β κ) (b : β) (k : κ) (peek dontwait : Bool) : WakeWorld β κ :=
  match (w.socks k).sbDgramWait dontwait with
  | (.take, s) =>
      (w.setSock k (if peek then s else s.sbDgramDrop) SbSocket.quiet).settle b .outside
  | (.fail _, s) => (w.setSock k s SbSocket.quiet).settle b .outside
  | (.sleep, _) => w.settle b (.dgram k peek dontwait true)

def runAccept (w : WakeWorld β κ) (b : β) (k : κ) : WakeWorld β κ :=
  match (w.socks k).acceptTest with
  | (.take new, s) =>
      ((w.setSock k s SbSocket.quiet).settle b .outside).setTable b
        (((sbFdAlloc new (w.fds b)).map Prod.snd).getD (w.fds b))
  | (.fail _, _) => w.settle b .outside
  | (.sleep, _) => w.settle b (.accept k true)

def runConnect (w : WakeWorld β κ) (b : β) (k : κ) : WakeWorld β κ :=
  if (w.socks k).connectPending then w.settle b (.connect k true)
  else (w.setSock k (w.socks k).connectFinish.1 SbSocket.quiet).settle b .outside

/-- `sb_send_block`: the call sleeps, or gives up when it must not. -/
def sendBlock (w : WakeWorld β κ) (b : β) (k : κ) (left : ℕ) (dontwait : Bool) : WakeWorld β κ :=
  w.settle b (if dontwait then .outside else .send k left dontwait true)

def runSend (w : WakeWorld β κ) (b : β) (k : κ) (left : ℕ) (dontwait : Bool) : WakeWorld β κ :=
  if left = 0 then w.settle b .outside
  else
    match (w.socks k).sendTest left with
    | .stop _ | .fail _ => w.settle b .outside
    | .block => w.sendBlock b k left dontwait
    | .write chunk =>
        match (w.socks k).tcpWrite chunk with
        | (s, .ok) =>
            (w.setSock k s SbSocket.quiet).settle b (.send k (left - chunk) dontwait false)
        | (_, .mem) => w.sendBlock b k left dontwait
        | (_, _) => w.settle b .outside

def scan (w : WakeWorld β κ) (b : β) (nfds : ℕ) (sets : FdKind → Option FdSet) : Scan κ :=
  sbSelectScan (w.fds b) w.socks w.tx.txWritable sets (List.range nfds) .start

def runSelect (w : WakeWorld β κ) (b : β) (nfds : ℕ) (sets : FdKind → Option FdSet)
    (poll : Bool) : WakeWorld β κ :=
  let sc := w.scan b nfds sets
  let w' := sc.enrol.foldl sbTxWantSpace w
  if sc.hits ≠ 0 ∨ poll then w'.settle b .outside else w'.settle b (.select nfds sets poll true)

def run (w : WakeWorld β κ) (b : β) : Option (WakeWorld β κ) :=
  match w.act b with
  | .recv k c => w.runRecv b k c
  | .dgram k peek dontwait false =>
      if w.lock.isNone then some (w.runDgram b k peek dontwait) else none
  | .accept k false => if w.lock.isNone then some (w.runAccept b k) else none
  | .connect k false => if w.lock.isNone then some (w.runConnect b k) else none
  | .send k left dontwait false =>
      if w.lock.isNone then some (w.runSend b k left dontwait) else none
  | .select nfds sets poll false =>
      if w.lock.isNone then some (w.runSelect b nfds sets poll) else none
  | _ => none

instance lawfulBEqOption : LawfulBEq (Option κ) :=
  inferInstance

def start (w : WakeWorld β κ) (b : β) : BlockingCall κ → Option (Activity κ)
  | .recv k r oob =>
      if some k ∈ w.fds b ∧ (w.socks k).type = .tcp then
        let c := Call.begin (w.socks k) r oob
        some (if c.resting then .outside else .recv k c)
      else none
  | .dgram k peek dontwait =>
      if some k ∈ w.fds b ∧ (w.socks k).type ≠ .tcp then
        some (.dgram k peek (dontwait || (w.socks k).nonblock) false)
      else none
  | .accept k =>
      if some k ∈ w.fds b ∧ (w.socks k).type = .tcp ∧ (w.socks k).listening = true then
        some (.accept k false)
      else none
  | .send k len dontwait =>
      if some k ∈ w.fds b ∧ (w.socks k).type = .tcp then
        some (.send k len (dontwait || (w.socks k).nonblock) false)
      else none
  | .select nfds sets poll => some (.select (min nfds (w.fds b).length) sets poll false)

def isOutside (w : WakeWorld β κ) (b : β) : Bool :=
  match w.act b with
  | .outside => true
  | _ => false

/-! ### The transition system -/

variable [Fintype β] [Fintype κ]

def unused (w : WakeWorld β κ) (k : κ) : Bool :=
  decide ((∀ b, some k ∉ w.fds b) ∧ ∀ j, k ∉ (w.socks j).acceptq)

def next (L : Lwip) (w : WakeWorld β κ) (l : WakeLabel β κ) : Option (WakeWorld β κ) :=
  match l with
  | .run b => w.run b
  | .begin b c => if w.isOutside b then (w.start b c).map (w.settle b) else none
  | .event k e =>
      if w.lock.isNone then
        ((w.socks k).event L e).map fun s => w.setSock k s ((w.socks k).notices e)
      else none
  | .dgram k d alloc =>
      if w.lock.isNone ∧ (w.socks k).type ≠ .tcp then
        some (w.setSock k ((w.socks k).sbDgramQueue d alloc).1 ((w.socks k).sbDgramQueue d alloc).2)
      else none
  | .net e => if w.lock.isNone then w.afterNet e else none
  | .enrol k =>
      if w.lock.isNone ∧ (w.socks k).type ≠ .tcp ∧ w.tx.activeIf.isSome = true then
        some (w.sbTxWantSpace k)
      else none
  | .create k b f =>
      if w.lock.isNone ∧ w.unused k = true then some (w.create k b f) else none
  | .table b tab => if w.lock.isNone ∧ w.isOutside b = true then some (w.setTable b tab) else none
  | .connect b k r =>
      if w.lock.isNone ∧ w.isOutside b = true ∧ some k ∈ w.fds b ∧ (w.socks k).type = .tcp ∧
          (w.socks k).pcb.all (L.connect · r) = true then
        let (s, o) := (w.socks k).connectStart r
        let w' := w.setSock k s SbSocket.quiet
        some (if o = .wait then w'.runConnect b k else w'.settle b .outside)
      else none
  | .wake b we =>
      if w.lock.isNone then
        ((w.act b).woken we).map fun a =>
          { w.settle b a with
            sig := Function.update w.sig b false
            lock := if a.holds then some b else none }
      else none

def system (L : Lwip) : TransitionSystem (WakeWorld β κ) (WakeLabel β κ) where
  init w := (∀ k, ∃ b f, w.socks k = Fresh.sock b f) ∧ (∀ b, w.act b = .outside) ∧ w.lock = none ∧
    w.txWaiters = []
  next := next L

end WakeWorld
