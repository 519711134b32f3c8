import LwipAmiga.Socket.Callbacks

/-!
# Calls on one socket

The parts of the calls that run under the core lock, as functions on the socket object.
-/

namespace SbSocket

variable {β κ : Type}

def pendingOr (s : SbSocket β κ) (e : Errno) : Errno :=
  s.err.getD e

/-! ### Listening and accepting -/

def clampBacklog (backlog : ℤ) : ℕ :=
  if backlog < 1 then 1 else if (SB_ACCEPT_QMAX : ℤ) < backlog then SB_ACCEPT_QMAX else backlog.toNat

/-- `bsd_listen`, lwIP answering with a listening control block or with `NULL`. -/
def bsdListen (s : SbSocket β κ) (backlog : ℤ) (listens : Bool) :
    SbSocket β κ × Except Errno Unit :=
  if s.type ≠ .tcp then (s, .error .eopnotsupp)
  else
    match s.pcb with
    | none => (s, .error (s.pendingOr .einval))
    | some pcb =>
        if s.listening then (s, .ok ())
        else if listens then
          ({ s with
              pcb := some { pcb with state := .listen, backlog := clampBacklog backlog }
              listening := true }, .ok ())
        else (s, .error .enobufs)

inductive AcceptOutcome (κ : Type) where
  | take (new : κ)
  | fail (e : Errno)
  | sleep

def acceptTest (s : SbSocket β κ) : AcceptOutcome κ × SbSocket β κ :=
  if s.naccept = 0 then
    match s.err with
    | some e => (.fail e, s)
    | none => if s.nonblock then (.fail .ewouldblock, s) else (.sleep, s)
  else
    match s.acceptq with
    | [] => (.sleep, s)
    | new :: q => (.take new, { s with acceptq := q, naccept := s.naccept - 1 })

/-! ### Connecting -/

inductive ConnectOutcome where
  | ret (r : Except Errno Unit)
  | wait
  deriving DecidableEq

/-- `bsd_connect` on a TCP socket up to its wait loop, `r` being the answer of `tcp_connect`. -/
def connectStart (s : SbSocket β κ) (r : Err) : SbSocket β κ × ConnectOutcome :=
  if s.connected then (s, .ret (.error .eisconn))
  else if s.connecting then (s, .ret (.error .ealready))
  else
    match s.pcb with
    | none => (s, .ret (.error (s.pendingOr .einval)))
    | some pcb =>
        match sbMapErr r with
        | some e => ({ s with err := none, connecting := false }, .ret (.error e))
        | none =>
            let s' := { s with
              err := none, connecting := true, pcb := some { pcb with state := .synSent } }
            (s', if s.nonblock then .ret (.error .einprogress) else .wait)

def connectPending (s : SbSocket β κ) : Bool :=
  s.connecting && s.err.isNone

def connectFinish (s : SbSocket β κ) : SbSocket β κ × Except Errno Unit :=
  if !s.connected then ({ s with err := none }, .error (s.pendingOr .econnrefused))
  else (s, .ok ())

/-! ### Shutting down -/

/-- `bsd_shutdown`, `r` being the answer of `tcp_shutdown`.  Shutting down both directions detaches
the control block first. -/
def bsdShutdown (s : SbSocket β κ) (how : ℤ) (r : Err) : SbSocket β κ × Except Errno Unit :=
  if s.type ≠ .tcp then (s, .error .eopnotsupp)
  else if how < 0 ∨ 2 < how then (s, .error .einval)
  else
    let rd := how == 0 || how == 2
    let wr := how == 1 || how == 2
    if s.pcb.isNone then (s, .error .enotconn)
    else
      let s := if rd && wr then { s with pcb := none } else s
      match sbMapErr r with
      | none => ({ s with shutRd := s.shutRd || rd, shutWr := s.shutWr || wr }, .ok ())
      | some e => (s, .error e)

/-! ### Sending -/

inductive SendOutcome where
  | stop (e : Errno)
  | fail (e : Errno)
  | block
  | write (chunk : ℕ)
  deriving DecidableEq

def sendTest (s : SbSocket β κ) (left : ℕ) : SendOutcome :=
  match s.pcb with
  | none => .stop (s.pendingOr .epipe)
  | some pcb =>
      match s.err with
      | some e => .stop e
      | none =>
          if s.shutWr then .fail .eshutdown
          else if s.connecting then .block
          else if !s.connected then .stop .enotconn
          else if pcb.sndBuf = 0 then .block
          else .write (min (min left pcb.sndBuf) 16384)

/-- `tcp_write` of `chunk` bytes: with memory the bytes leave the send buffer, else it answers
`ERR_MEM`. -/
def tcpWrite (s : SbSocket β κ) (chunk : ℕ) : SbSocket β κ × Err :=
  match s.pcb with
  | none => (s, .arg)
  | some pcb =>
      if pcb.memFull then (s, .mem)
      else ({ s with pcb := some { pcb with sndBuf := pcb.sndBuf - chunk } }, .ok)

/-! ### Datagrams -/

inductive DgramOutcome where
  | take
  | fail (e : Errno)
  | sleep
  deriving DecidableEq

def sbDgramWait (s : SbSocket β κ) (dontwait : Bool) : DgramOutcome × SbSocket β κ :=
  if s.ndgrams = 0 then
    match s.err with
    | some e => (.fail e, { s with err := none })
    | none => if dontwait then (.fail .ewouldblock, s) else (.sleep, s)
  else (.take, s)

def sbDgramDrop (s : SbSocket β κ) : SbSocket β κ :=
  { s with dgrams := s.dgrams.tail, ndgrams := s.ndgrams - 1 }

/-! ### Options -/

/-- `FIONBIO`. -/
def setNonblock (s : SbSocket β κ) (v : Bool) : SbSocket β κ :=
  { s with nonblock := v }

/-- `SO_OOBINLINE`. -/
def setOobInline (s : SbSocket β κ) (v : Bool) : SbSocket β κ :=
  { s with oobInline := v }

def getSoError (s : SbSocket β κ) : SbSocket β κ × Option Errno :=
  ({ s with err := none }, s.err)

end SbSocket
