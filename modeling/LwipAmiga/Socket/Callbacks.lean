import LwipAmiga.Socket.Basic

/-!
# The lwIP callbacks

The callbacks lwIP runs under the core lock, as functions on the socket object.
-/

structure Notices where
  wake : Bool
  urg : Bool
  deriving DecidableEq

def SbSocket.sbWake {β κ : Type} (s : SbSocket β κ) : List β :=
  s.owners.bases

def SB_FD_ACCEPT : UInt32 := 0x01

def SB_FD_CONNECT : UInt32 := 0x02

def SB_FD_OOB : UInt32 := 0x04

def SB_FD_READ : UInt32 := 0x08

def SB_FD_WRITE : UInt32 := 0x10

def SB_FD_ERROR : UInt32 := 0x20

def SB_FD_CLOSE : UInt32 := 0x40

def SB_ACCEPT_QMAX : ℕ := 16

def SB_DGRAM_QMAX : ℕ := 32

namespace SbSocket

variable {β κ : Type}

def sbEvent (s : SbSocket β κ) (ev : UInt32) : SbSocket β κ :=
  { s with eventsPending := s.eventsPending ||| (ev &&& s.eventMask) }

/-! ### Receiving -/

def urgOffset (s : SbSocket β κ) (pcb : TcpPcb) : ℤ :=
  (pcb.rcvUp - s.rxNextSeq).toInt32.toInt

structure Mapped (β κ : Type) where
  sock : SbSocket β κ
  bufs : List Pbuf
  dlen : ℕ
  newoob : Bool

def mapUrgent (s : SbSocket β κ) (p : PbufChain) : Mapped β κ :=
  match s.pcb with
  | none => { sock := s, bufs := p.bufs, dlen := p.totLen, newoob := false }
  | some pcb =>
      if pcb.urgRcv then
        let d := s.urgOffset pcb
        if d < 0 then
          { sock := { s with pcb := some { pcb with urgRcv := false } }
            bufs := p.bufs, dlen := p.totLen, newoob := false }
        else if d.toNat < p.totLen then
          let dist := s.rxBytes + UInt32.ofNat d.toNat
          if s.oobInline then
            { sock := { s with
                pcb := some { pcb with urgRcv := false }
                oobMarkDist := dist, oobState := .oobHave }
              bufs := p.bufs, dlen := p.totLen, newoob := true }
          else
            match Pbuf.excise d.toNat p.bufs with
            | some (b, bufs) =>
                { sock := { s with
                    pcb := some (tcpRecved { pcb with urgRcv := false } 1)
                    oobMarkDist := dist, oobByte := b, oobState := .oobHave }
                  bufs := bufs, dlen := p.totLen - 1, newoob := true }
            | none => { sock := s, bufs := p.bufs, dlen := p.totLen, newoob := false }
        else if s.oobState ≠ .oobMarked then
          { sock := { s with oobState := .oobMarked }
            bufs := p.bufs, dlen := p.totLen, newoob := true }
        else
          { sock := s, bufs := p.bufs, dlen := p.totLen, newoob := false }
      else
        { sock := s, bufs := p.bufs, dlen := p.totLen, newoob := false }

def enqueue (s : SbSocket β κ) (bufs : List Pbuf) (dlen : ℕ) : SbSocket β κ :=
  { s with
    rxq :=
      if s.rxq = [] then bufs
      else
        match s.rxqTail with
        | some a => Pbuf.linkAfter a bufs s.rxq
        | none => s.rxq
    rxqTail := bufs.getLast?.map Pbuf.addr
    rxBytes := s.rxBytes + UInt32.ofNat dlen }

/-- `sb_tcp_recv_cb`: lwIP delivers a chain of bytes, or with `none` the end of the stream. -/
def sbTcpRecvCb (s : SbSocket β κ) : Option PbufChain → SbSocket β κ × Notices
  | none => (sbEvent { s with rxeof := true } SB_FD_CLOSE, { wake := true, urg := false })
  | some p =>
      let m := s.mapUrgent p
      let s' := { m.sock with rxNextSeq := m.sock.rxNextSeq + UInt32.ofNat p.totLen }
      let (s', ev) := if m.dlen = 0 then (s', 0) else (s'.enqueue m.bufs m.dlen, SB_FD_READ)
      (s'.sbEvent (if m.newoob then ev ||| SB_FD_OOB else ev), { wake := true, urg := m.newoob })

/-! ### The other TCP callbacks -/

def sbTcpSentCb (s : SbSocket β κ) : SbSocket β κ × Notices :=
  (s.sbEvent SB_FD_WRITE, { wake := true, urg := false })

def sbTcpErrCb (s : SbSocket β κ) (e : Err) : SbSocket β κ × Notices :=
  (sbEvent
    { s with
      pcb := none
      err := if s.connecting && e == .rst then some .econnrefused else sbMapErr e
      connecting := false
      connected := false }
    (SB_FD_ERROR ||| SB_FD_CLOSE),
   { wake := true, urg := false })

def sbTcpConnectedCb (s : SbSocket β κ) (pcb : TcpPcb) (e : Err) : SbSocket β κ × Notices :=
  if e = .ok then
    (sbEvent { s with connecting := false, connected := true, rxNextSeq := pcb.rcvNxt }
      SB_FD_CONNECT, { wake := true, urg := false })
  else
    (sbEvent { s with err := sbMapErr e } SB_FD_ERROR, { wake := true, urg := false })

def acceptOwner (lst : SbSocket β κ) : Option β :=
  if lst.naccept < SB_ACCEPT_QMAX then lst.owners.first else none

def accepted (owner : β) (newpcb : TcpPcb) : SbSocket β κ :=
  { sbSockAlloc owner .tcp with
    pcb := some newpcb, connected := true, rxNextSeq := newpcb.rcvNxt }

def acceptLink (lst : SbSocket β κ) (new : κ) : SbSocket β κ × Notices :=
  (sbEvent { lst with acceptq := lst.acceptq ++ [new], naccept := lst.naccept + 1 } SB_FD_ACCEPT,
   { wake := true, urg := false })

/-! ### Datagrams -/

/-- `sb_dgram_queue`: queue a datagram, unless the queue is full or, with `alloc` false, there is
no memory for it. -/
def sbDgramQueue (s : SbSocket β κ) (d : SbDgram) (alloc : Bool) : SbSocket β κ × Notices :=
  if SB_DGRAM_QMAX ≤ s.ndgrams || !alloc then (s, { wake := false, urg := false })
  else
    (sbEvent { s with dgrams := s.dgrams ++ [d], ndgrams := s.ndgrams + 1 } SB_FD_READ,
     { wake := true, urg := false })

def txEnrol (s : SbSocket β κ) : SbSocket β κ :=
  { s with txWaiting := true }

def txSpaceAvail (s : SbSocket β κ) : SbSocket β κ × Notices :=
  (sbEvent { s with txWaiting := false } SB_FD_WRITE, { wake := true, urg := false })

end SbSocket
