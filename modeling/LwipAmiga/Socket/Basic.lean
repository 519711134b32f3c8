import LwipAmiga.Lib.Word
import LwipAmiga.Socket.Owners
import LwipAmiga.Socket.Pbuf

/-!
# Socket objects

`struct SbSocket`, what its code reads of a TCP control block, and the readiness tests.
-/

inductive Errno where
  | eintr
  | ebadf
  | einval
  | emfile
  | epipe
  | ewouldblock
  | einprogress
  | ealready
  | eprotonosupport
  | esocktnosupport
  | eopnotsupp
  | eafnosupport
  | eaddrinuse
  | enetunreach
  | econnaborted
  | econnreset
  | enobufs
  | eisconn
  | enotconn
  | eshutdown
  | etimedout
  | econnrefused
  | emsgsize
  | edestaddrreq
  deriving DecidableEq

inductive Err where
  | ok
  | mem
  | buf
  | timeout
  | rte
  | inprogress
  | val
  | wouldblock
  | use
  | already
  | isconn
  | conn
  | ifErr
  | abrt
  | rst
  | clsd
  | arg
  deriving DecidableEq

def sbMapErr : Err → Option Errno
  | .ok => none
  | .mem | .buf => some .enobufs
  | .timeout => some .etimedout
  | .rte => some .enetunreach
  | .val | .arg => some .einval
  | .wouldblock => some .ewouldblock
  | .use => some .eaddrinuse
  | .already => some .ealready
  | .isconn => some .eisconn
  | .conn => some .enotconn
  | .abrt => some .econnaborted
  | .rst => some .econnreset
  | .clsd => some .eshutdown
  | .inprogress | .ifErr => some .einval

theorem sbMapErr_eq_none {e : Err} :
  sbMapErr e = none ↔ e = .ok
  := by
  cases e <;> simp [sbMapErr]

inductive SbSockType where
  | tcp
  | udp
  | raw
  deriving DecidableEq

inductive OobState where
  | oobNone
  | oobMarked
  | oobHave
  | oobRead
  deriving DecidableEq

inductive TcpState where
  | closed
  | listen
  | synSent
  | synRcvd
  | established
  | finWait1
  | finWait2
  | closeWait
  | closing
  | lastAck
  | timeWait
  deriving DecidableEq

def TCP_WND : ℕ := 1024 * 1024

def TCP_SND_BUF : ℕ := 1024 * 1024

structure TcpPcb where
  state : TcpState
  backlog : ℕ
  rcvNxt : UInt32
  rcvUp : UInt32
  urgRcv : Bool
  sndBuf : ℕ
  memFull : Bool
  delivered : ℕ
  recved : ℕ
  deriving DecidableEq

/-- `tcp_new`: a control block with a send buffer of `sndBuf` bytes. -/
def tcpNew (sndBuf : ℕ) : TcpPcb where
  state := .closed
  backlog := 0
  rcvNxt := 0
  rcvUp := 0
  urgRcv := false
  sndBuf := sndBuf
  memFull := false
  delivered := 0
  recved := 0

def tcpRecved (pcb : TcpPcb) (n : ℕ) : TcpPcb :=
  { pcb with recved := pcb.recved + n }

structure SbDgram where
  payload : List UInt8
  addr : UInt32
  port : UInt16
  deriving DecidableEq

structure SbSocket (β κ : Type) where
  owners : OwnerTable β
  refs : UInt8
  type : SbSockType
  nonblock : Bool
  connected : Bool
  connecting : Bool
  listening : Bool
  rxeof : Bool
  shutRd : Bool
  shutWr : Bool
  txWaiting : Bool
  pcb : Option TcpPcb
  err : Option Errno
  sndTimeoMs : UInt32
  rcvTimeoMs : UInt32
  eventMask : UInt32
  eventsPending : UInt32
  rxq : List Pbuf
  rxqTail : Option ℕ
  rxBytes : UInt32
  rxNextSeq : UInt32
  oobMarkDist : UInt32
  oobState : OobState
  oobByte : UInt8
  oobInline : Bool
  dgrams : List SbDgram
  ndgrams : ℕ
  acceptq : List κ
  naccept : ℕ

namespace SbSocket

variable {β κ : Type}

def sbSockAlloc (b : β) (type : SbSockType) : SbSocket β κ where
  owners := .single b
  refs := 1
  type := type
  nonblock := false
  connected := false
  connecting := false
  listening := false
  rxeof := false
  shutRd := false
  shutWr := false
  txWaiting := false
  pcb := none
  err := none
  sndTimeoMs := 0
  rcvTimeoMs := 0
  eventMask := 0
  eventsPending := 0
  rxq := []
  rxqTail := none
  rxBytes := 0
  rxNextSeq := 0
  oobMarkDist := 0
  oobState := .oobNone
  oobByte := 0
  oobInline := false
  dgrams := []
  ndgrams := 0
  acceptq := []
  naccept := 0

def markUp (s : SbSocket β κ) : Bool :=
  s.oobState == .oobHave || s.oobState == .oobRead

theorem markUp_iff {s : SbSocket β κ} :
  s.markUp = true ↔ s.oobState = .oobHave ∨ s.oobState = .oobRead
  := by
  simp [markUp]

def sbSockReadable (s : SbSocket β κ) : Bool :=
  s.err.isSome || s.rxeof ||
    match s.type with
    | .tcp => !s.rxq.isEmpty || s.naccept != 0
    | .udp | .raw => s.ndgrams != 0

def sbSockExceptable (s : SbSocket β κ) : Bool :=
  s.type == .tcp && (s.oobState == .oobMarked || s.oobState == .oobHave)

def sbSockWritable (s : SbSocket β κ) (txRoom : Bool) : Bool :=
  if s.err.isSome then true
  else if s.type ≠ .tcp then txRoom
  else if s.connecting then false
  else
    match s.pcb with
    | none => true
    | some pcb =>
        if s.shutWr then true
        else if !s.connected then false
        else decide (0 < pcb.sndBuf)

end SbSocket
