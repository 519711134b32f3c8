import LwipAmiga.Rx.Frame
import LwipAmiga.Socket.Pbuf

/-!
# The merge engine

`rx_gro.c`: consecutive data segments of a flow are linked into one chain, and of consecutive ACKs the
freshest is kept.
-/

open Bytes Ones

def RXGRO_FLOWS : ℕ := 4

def RXGRO_MAX_FRAMES : ℕ := 44

/-! ### Pbufs -/

structure RxPbuf extends Pbuf where
  frame : RxFrame

def Pbuf.patch (p : Pbuf) (i : ℕ) (xs : List UInt8) : Pbuf where
  addr := p.addr
  payload := Bytes.patch p.payload i xs
  totLen := p.totLen
  len_lt := by
    rw [length_patch]
    exact p.len_lt

namespace RxFrame

def groMeta (f : RxFrame) : Option RxGroMeta :=
  rxgroClassify f.mem f.len

def flow (f : RxFrame) : Option FlowKey :=
  f.groMeta.map RxGroMeta.key

def bytes (f : RxFrame) : List UInt8 :=
  f.data.take (f.len % 0x10000)

def pbuf (f : RxFrame) (addr : ℕ) : RxPbuf where
  addr := addr
  payload := f.bytes
  totLen := f.len % 0x10000
  len_lt := by
    rw [bytes, List.length_take]
    exact Nat.lt_of_le_of_lt (Nat.min_le_left ..) (Nat.mod_lt _ (by omega))
  frame := f

end RxFrame

/-! ### Contexts -/

structure RxGroCtx where
  chain : List RxPbuf
  ip : ℕ
  key : FlowKey
  nextSeq : UInt32
  payloadAdd : ℕ
  frames : ℕ
  isAck : Bool

inductive RxAct where
  | deliver (chain : List RxPbuf)
  | free (chain : List RxPbuf)

def rxgroSeqGt (a b : UInt32) : Bool :=
  (b - a) &&& 0x80000000 != 0

def Pbuf.fixLen (p : Pbuf) (ip add : ℕ) : Pbuf :=
  let oldLen := iphLen (mem p.payload) ip
  let newLen := (oldLen + add) % 0x10000
  let chksum := update (iphChksum (mem p.payload) ip) oldLen newLen
  (p.patch (ip + 2) (word16 newLen)).patch (ip + 10) (word16 chksum)

def Pbuf.refresh (head p : Pbuf) (ip payOff flags : ℕ) : Pbuf :=
  let th := payOff - TCP_HLEN
  let tcp := ip + IP_HLEN
  let head := head.patch (tcp + 8) (slice p.payload (th + 8) 4)
  let head := head.patch (tcp + 14) (slice p.payload (th + 14) 2)
  if flags &&& TCP_PSH ≠ 0 then
    head.patch (tcp + 13) [mem head.payload (tcp + 13) ||| UInt8.ofNat TCP_PSH]
  else head

/-- `pbuf_remove_header`, which leaves a pbuf that is too short. -/
def RxPbuf.strip (p : RxPbuf) (payOff : ℕ) : RxPbuf :=
  if payOff ≤ p.len then { p with toPbuf := p.removeHeader payOff } else p

def setTotLens : ℕ → List RxPbuf → List RxPbuf
  | _, [] => []
  | remaining, q :: qs =>
      { q with totLen := remaining % 0x10000 } ::
        setTotLens ((remaining + 2 ^ 32 - q.len) % 2 ^ 32) qs

namespace RxGroCtx

def flushed (c : RxGroCtx) : List RxPbuf :=
  match c.chain with
  | [] => []
  | head :: rest =>
      if 1 < c.frames then
        setTotLens (head.len + c.payloadAdd)
          ({ head with toPbuf := head.fixLen c.ip c.payloadAdd } :: rest)
      else head :: rest

def rxgroFlush (c : RxGroCtx) : RxGroCtx × List RxAct :=
  match c.chain with
  | [] => (c, [])
  | _ :: _ => ({ c with chain := [] }, [.deliver c.flushed])

def absorb (c : RxGroCtx) (p : RxPbuf) (payOff payLen flags : ℕ) : RxGroCtx :=
  { c with
    chain :=
      match c.chain with
      | [] => []
      | head :: rest =>
          { head with toPbuf := head.refresh p.toPbuf c.ip payOff flags } :: rest ++
            [p.strip payOff]
    nextSeq := c.nextSeq + UInt32.ofNat payLen
    payloadAdd := c.payloadAdd + payLen
    frames := c.frames + 1 }

def startRun (c : RxGroCtx) (p : RxPbuf) (key : FlowKey) (seq : UInt32) (payOff payLen : ℕ) :
    RxGroCtx :=
  { c with
    chain := [p]
    ip := payOff - TCP_HLEN - IP_HLEN
    key := key
    nextSeq := seq + UInt32.ofNat payLen
    payloadAdd := 0
    frames := 1
    isAck := false }

def holdAck (c : RxGroCtx) (p : RxPbuf) (key : FlowKey) (ackNo : UInt32) : RxGroCtx :=
  { c with
    chain := [p]
    key := key
    nextSeq := ackNo
    frames := 1
    isAck := true }

def sameflow (c : RxGroCtx) (key : FlowKey) : Bool :=
  !c.chain.isEmpty && c.key == key

def take (c : RxGroCtx) (p : RxPbuf) (m : RxGroMeta) : RxGroCtx × List RxAct :=
  match m.cls with
  | .nomerge =>
      if c.sameflow m.key then
        let (c', acts) := c.rxgroFlush
        (c', acts ++ [.deliver [p]])
      else (c, [.deliver [p]])
  | .ack ackNo =>
      if c.sameflow m.key && c.isAck && rxgroSeqGt ackNo c.nextSeq then
        ({ c with chain := [p], nextSeq := ackNo }, [.free c.chain])
      else
        let (c', acts) := c.rxgroFlush
        (c'.holdAck p m.key ackNo, acts)
  | .merge seq payOff payLen flags =>
      if c.sameflow m.key && !c.isAck && seq == c.nextSeq && c.frames < RXGRO_MAX_FRAMES then
        (c.absorb p payOff payLen flags, [])
      else
        let (c', acts) := c.rxgroFlush
        (c'.startRun p m.key seq payOff payLen, acts)

end RxGroCtx

/-! ### The engine -/

/-- `struct RxGro`, the contexts. -/
abbrev RxGro := Fin RXGRO_FLOWS → RxGroCtx

def FlowKey.slot (k : FlowKey) : Fin RXGRO_FLOWS :=
  ⟨((k.ports ^^^ k.srcIp) &&& 3).toNat, by
    rw [UInt32.toNat_and]
    exact Nat.lt_succ_of_le Nat.and_le_right⟩

def rxgroInit : RxGro := fun _ =>
  { chain := []
    ip := 0
    key := ⟨0, 0, 0⟩
    nextSeq := 0
    payloadAdd := 0
    frames := 0
    isAck := false }

def rxgroRx (g : RxGro) (p : RxPbuf) (m : RxGroMeta) : RxGro × List RxAct :=
  let (c, acts) := (g m.key.slot).take p m
  (Function.update g m.key.slot c, acts)

def rxgroFlushAll (g : RxGro) : RxGro × List RxAct :=
  (fun i => (g i).rxgroFlush.1, (List.finRange RXGRO_FLOWS).flatMap fun i => (g i).rxgroFlush.2)

def rxgroInput (g : RxGro) (p : RxPbuf) (m : Option RxGroMeta) (gro : Bool) :
    RxGro × List RxAct :=
  match m with
  | some m => if gro then rxgroRx g p m else (g, [.deliver [p]])
  | none => (g, [.deliver [p]])

/-! ### Runs -/

inductive RxOp where
  | frame (addr : ℕ) (f : RxFrame)
  | flush

def RxGro.step (gro : Bool) (g : RxGro) : RxOp → RxGro × List RxAct
  | .frame addr f => rxgroInput g (f.pbuf addr) f.groMeta gro
  | .flush => rxgroFlushAll g

def RxGro.run (gro : Bool) (ops : List RxOp) : RxGro × List RxAct :=
  ops.foldl
    (fun r op =>
      let (g, acts) := RxGro.step gro r.1 op
      (g, r.2 ++ acts))
    (rxgroInit, [])

def delivered (acts : List RxAct) : List (List RxPbuf) :=
  acts.filterMap fun
    | .deliver chain => some chain
    | .free _ => none

def freed (acts : List RxAct) : List RxPbuf :=
  acts.flatMap fun
    | .deliver _ => []
    | .free chain => chain
