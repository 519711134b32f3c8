import LwipAmiga.Tcp.System

/-!
# Operations on control blocks

`tcp_listen_with_backlog` replaces a control block by a smaller one, in state `LISTEN`.
-/

inductive PcbOp where
  | arg
  | accept
  | bind
  | connect
  | listen
  | shutdown
  | close
  | soOptions
  | localPort
  | recv
  | sent
  | err
  | abort
  | sndbuf
  | write
  | output
  | recved
  | nagle
  | remotePort
  | unsent
  | rcvNxt
  deriving DecidableEq

def PcbOp.full : PcbOp → Bool
  | .arg | .accept | .bind | .connect | .listen | .shutdown | .close | .soOptions | .localPort =>
      false
  | _ => true

inductive SockOpt where
  | pcbOption
  | eventMask (val : UInt32)
  | sndTimeo (ms : UInt32)
  | rcvTimeo (ms : UInt32)
  | nodelay
  | other
  deriving DecidableEq

inductive ApiCall (β : Type) where
  | setsockopt (o : SockOpt)
  | getsockopt (o : SockOpt)
  | bind
  | getsockname
  | getpeername
  | select
  | send (left : ℕ)
  | peerAddr (i : β)
  | lingerStart
  | linger

def ApiCall.lingers {β : Type} : ApiCall β → Bool
  | .lingerStart => true
  | _ => false

namespace SbSocket

variable {β κ : Type}

def on (s : SbSocket β κ) (ops : List PcbOp) : List (PcbOp × TcpState) :=
  match s.pcb with
  | none => []
  | some pcb => ops.map fun op => (op, pcb.state)

def sendOps (s : SbSocket β κ) (left : ℕ) : List (PcbOp × TcpState) :=
  if left = 0 then s.on [.output]
  else
    match s.sendTest left with
    | .stop _ => []
    | .fail _ => []
    | .block => if s.connecting then [] else s.on [.sndbuf, .output]
    | .write _ => s.on [.sndbuf, .write, .output]

def eventOps (s : SbSocket β κ) : TcpEvent β κ → List (PcbOp × TcpState)
  | .deliver _ => s.on [.rcvNxt, .recved]
  | .connected _ e =>
      if e = .ok then [(.rcvNxt, .established), (.nagle, .established)] else []
  | .connect _ => if s.connected || s.connecting then [] else s.on [.connect]
  | .shutdown how _ =>
      if how < 0 ∨ 2 < how then []
      else if how = 2 then s.on [.arg, .recv, .sent, .err, .shutdown]
      else s.on [.shutdown]
  | .listen _ listens =>
      if s.listening then []
      else if s.pcb.isSome && listens then
        s.on [.listen] ++ [(.arg, .listen), (.accept, .listen)]
      else s.on [.listen]
  | .write left => s.sendOps left
  | _ => []

def freeOps (s : SbSocket β κ) : List (PcbOp × TcpState) :=
  if s.listening then s.on [.arg, .accept, .close]
  else s.on [.arg, .recv, .sent, .err, .close, .abort]

def callOps (s : SbSocket β κ) : Call → List (PcbOp × TcpState)
  | .after _ _ d => if 0 < d.acked then s.on [.recved] else []
  | _ => []

def writableOps (s : SbSocket β κ) : List (PcbOp × TcpState) :=
  if s.err.isSome || s.connecting || s.shutWr || !s.connected then [] else s.on [.sndbuf]

def apiOps (s : SbSocket β κ) : ApiCall β → List (PcbOp × TcpState)
  | .setsockopt .pcbOption => s.on [.soOptions]
  | .setsockopt (.eventMask _) => if s.connected then s.on [.sndbuf] else []
  | .setsockopt .nodelay => s.on [.nagle]
  | .setsockopt _ => []
  | .getsockopt .pcbOption => s.on [.soOptions]
  | .getsockopt .nodelay => s.on [.nagle]
  | .getsockopt _ => []
  | .bind => s.on [.bind]
  | .getsockname => s.on [.localPort]
  | .getpeername => if s.connected then s.on [.remotePort] else []
  | .select => s.writableOps
  | .send left => s.sendOps left
  | .peerAddr _ => s.on [.remotePort]
  | .lingerStart => s.on [.unsent]
  | .linger => s.on [.unsent]

/-- `SO_EVENTMASK`: the mask, and the events of the present state. -/
def setEventMask (s : SbSocket β κ) (val : UInt32) : SbSocket β κ :=
  let ev := if s.rxq = [] then 0 else SB_FD_READ
  let ev := if s.naccept = 0 then ev else ev ||| SB_FD_ACCEPT
  let ev := if s.rxeof then ev ||| SB_FD_CLOSE else ev
  let ev := if s.err.isSome then ev ||| SB_FD_ERROR else ev
  let ev :=
    if s.connected && s.pcb.any (fun pcb => 0 < pcb.sndBuf) then ev ||| SB_FD_WRITE else ev
  let ev :=
    if s.oobState = .oobMarked ∨ s.oobState = .oobHave then ev ||| SB_FD_OOB else ev
  sbEvent { s with eventMask := val } ev

def api (s : SbSocket β κ) : ApiCall β → SbSocket β κ
  | .setsockopt (.eventMask val) => s.setEventMask val
  | .setsockopt (.sndTimeo ms) => { s with sndTimeoMs := ms }
  | .setsockopt (.rcvTimeo ms) => { s with rcvTimeoMs := ms }
  | .send left =>
      if left = 0 then s
      else
        match s.sendTest left with
        | .write chunk => (s.tcpWrite chunk).1
        | _ => s
  | _ => s

end SbSocket

structure TypedWorld (β κ : Type) where
  world : TcpWorld β κ
  lingering : Bool
  applied : List (PcbOp × TcpState)

inductive TypedLabel (β κ : Type) where
  | step (l : TcpLabel β κ)
  | api (c : ApiCall β)

namespace TypedWorld

variable {β κ : Type} [DecidableEq β] [Fintype β]

def stepOps (w : TcpWorld β κ) : TcpLabel β κ → List (PcbOp × TcpState)
  | .event e => w.sock.eventOps e
  | .close => w.sock.freeOps
  | .run i => w.sock.callOps (w.call i)
  | _ => []

def enabled (w : TypedWorld β κ) : ApiCall β → Bool
  | .peerAddr i =>
      match w.world.call i with
      | .done _ _ (.ok _) => true
      | _ => false
  | .lingerStart => !w.world.sock.nonblock && w.world.sock.connected
  | .linger => w.lingering
  | _ => true

def next (L : Lwip) (w : TypedWorld β κ) : TypedLabel β κ → Option (TypedWorld β κ)
  | .step l =>
      (w.world.next L l).map fun world =>
        { w with world := world, applied := w.applied ++ stepOps w.world l }
  | .api c =>
      if !w.world.closed && w.world.lock.isNone && w.enabled c then
        some
          { world := { w.world with sock := w.world.sock.api c }
            lingering := w.lingering || c.lingers
            applied := w.applied ++ w.world.sock.apiOps c }
      else none

def wireOps (s : SbSocket β κ) : List (PcbOp × TcpState) :=
  if s.connected then s.on [.rcvNxt, .arg, .recv, .sent, .err, .nagle]
  else s.on [.arg, .recv, .sent, .err]

def start (s : SbSocket β κ) : TypedWorld β κ where
  world := .start s
  lingering := false
  applied := wireOps s

def system (L : Lwip) : TransitionSystem (TypedWorld β κ) (TypedLabel β κ) where
  init w := ∃ b s, TcpWorld.Created b s ∧ w = start s
  next := next L

end TypedWorld
