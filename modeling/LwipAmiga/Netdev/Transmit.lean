import LwipAmiga.Lib.Ring
import LwipAmiga.Lib.Transition
import LwipAmiga.Netif.Capacity
import LwipAmiga.Netif.Chain
import LwipAmiga.Socket.Basic

/-!
# The transmit path of a netdev interface

`ndif_linkoutput` hands a frame to the driver or to the pending queue, and `netdevif_tx_reclaim` frees
frames and submits pending ones.
-/

/-! ### Sizes -/

def NDIF_MAX_STACK_SEGS : ℕ := 16

def NDIF_TX_PEND_MIN : ℕ := 128

def NDIF_TX_FREE_MIN : ℕ := 256

structure NetDevCaps where
  mtu : UInt16
  txMaxSegs : ℕ
  txRingSlots : UInt16
  txInFlightMax : UInt16
  txMaxSegs_pos : 0 < txMaxSegs

namespace NetDevCaps

variable (caps : NetDevCaps)

def pendWant : ℕ :=
  max ((netifbaseTxFrames NIB_MAX_L3 caps.mtu.toUInt32).toNat + 8) NDIF_TX_PEND_MIN

theorem pendWant_le :
  caps.pendWant ≤ 2 ^ 31
  := by
  have h := netifbaseTxFrames_le NIB_MAX_L3 caps.mtu.toUInt32
  rw [pendWant, NDIF_TX_PEND_MIN]
  omega

def pendMask : RingMask :=
  .ofSize caps.pendWant caps.pendWant_le

def txFreeWant : ℕ :=
  max (if caps.txInFlightMax = 0 then caps.txRingSlots.toNat * 2 else caps.txInFlightMax.toNat)
    NDIF_TX_FREE_MIN

theorem txFreeWant_lt :
  caps.txFreeWant + 1 ≤ 2 ^ 31
  := by
  have hslots := caps.txRingSlots.toNat_lt
  have hflight := caps.txInFlightMax.toNat_lt
  rw [txFreeWant, NDIF_TX_FREE_MIN]
  split
  · omega
  · omega

def txFreeMask : RingMask :=
  .ofSize (caps.txFreeWant + 1) caps.txFreeWant_lt

def maxSegs : ℕ :=
  min caps.txMaxSegs NDIF_MAX_STACK_SEGS

theorem maxSegs_pos :
  0 < caps.maxSegs
  := lt_min caps.txMaxSegs_pos (by decide)

end NetDevCaps

/-! ### The state -/

structure NetdevTx (ι : Type) where
  refs : ι → ℕ
  owned : ι → ℕ
  nib : NetIfBase
  maxSegs : ℕ
  pend : IndexRing (TxChain ι)
  kickPending : Bool
  flight : List (TxChain ι)
  completed : List (TxChain ι)
  nest : ℕ
  sent : List (TxChain ι)
  accepted : List (TxChain ι)
  published : ℕ

structure OutputEnv (ι : Type) where
  coalesced : Option ι
  cloned : Option ι
  accepts : Bool

namespace NetdevTx

variable {ι : Type} [DecidableEq ι]

/-! ### Submitting -/

def ndifTxSubmit (s : NetdevTx ι) (frame : TxChain ι) : NetdevTx ι :=
  { s with
    flight := s.flight ++ [frame]
    accepted := s.accepted ++ [frame]
    kickPending := true }

def handOver (s : NetdevTx ι) (frame : TxChain ι) (accepts : Bool) : Err × NetdevTx ι :=
  if s.pend.head ≠ s.pend.tail ∨ accepts = false then
    if s.pend.m.mask < s.pend.tail - s.pend.head then
      (.mem, { s with refs := pbufFree s.refs frame })
    else
      (.ok, { s with
        pend := s.pend.push frame
        nib := s.nib.txTaken 1
        sent := s.sent ++ [frame] })
  else
    (.ok, { s.ndifTxSubmit frame with sent := s.sent ++ [frame] })

def sendFrame (s : NetdevTx ι) (p : TxChain ι) (env : OutputEnv ι) : Err × NetdevTx ι :=
  if s.maxSegs < p.clen then (.ifErr, s)
  else
    match aliasGuard s.refs p env.cloned with
    | none => (.mem, s)
    | some (frame, refs) => handOver { s with refs := refs } frame env.accepts

def ndifLinkoutput (s : NetdevTx ι) (p : TxChain ι) (env : OutputEnv ι) : Err × NetdevTx ι :=
  if s.maxSegs < p.clen then
    let (q, refs) := pbufCoalesce s.refs p env.coalesced
    sendFrame { s with refs := refs } q env
  else s.sendFrame p env

/-! ### Reclaiming -/

def drainOne (s : NetdevTx ι) : NetdevTx ι :=
  { s.ndifTxSubmit s.pend.front with
    pend := s.pend.pop
    nib := s.nib.txFreed 1 }

def ndifTxPendDrain (s : NetdevTx ι) : ℕ → NetdevTx ι
  | 0 => s
  | n + 1 => if s.pend.head = s.pend.tail then s else ndifTxPendDrain s.drainOne n

def freeCompleted (s : NetdevTx ι) (seen : ℕ) : NetdevTx ι :=
  { s with
    refs := (s.completed.take seen).foldl pbufFree s.refs
    completed := s.completed.drop seen }

/-- `netdevif_tx_reclaim`, which sees `seen` completed frames and finds room for `room` frames. -/
def netdevifTxReclaim (s : NetdevTx ι) (seen room : ℕ) : NetdevTx ι :=
  (s.freeCompleted seen).ndifTxPendDrain room

def netdevifTxKick (s : NetdevTx ι) : NetdevTx ι :=
  if s.kickPending then { s with kickPending := false, published := s.accepted.length } else s

def netdevifTxPendFree (s : NetdevTx ι) : NetdevTx ι :=
  { s with
    refs := s.pend.items.foldl pbufFree s.refs
    pend := { s.pend with head := s.pend.tail } }

/-! ### The core lock -/

def netstackLock (s : NetdevTx ι) (seen room : ℕ) : NetdevTx ι :=
  if s.nest = 0 then netdevifTxReclaim { s with nest := 1 } seen room
  else { s with nest := s.nest + 1 }

def netstackUnlock (s : NetdevTx ι) : NetdevTx ι :=
  if s.nest = 1 then { s.netdevifTxKick with nest := 0 }
  else { s with nest := s.nest - 1 }

/-! ### Runs -/

def ownerOp (s : NetdevTx ι) (op : PbufOp ι) : Option (NetdevTx ι) :=
  (op.apply s.refs s.owned).map fun (refs, owned) => { s with refs := refs, owned := owned }

inductive TxLabel (ι : Type) where
  | lock (seen room : ℕ)
  | unlock
  | output (p : TxChain ι) (env : OutputEnv ι)
  | reclaim (seen room : ℕ)
  | done (k : ℕ)
  | doneInline (k : ℕ)
  | owner (op : PbufOp ι)

def next (s : NetdevTx ι) : TxLabel ι → Option (NetdevTx ι)
  | .lock seen room => some (s.netstackLock seen room)
  | .unlock => if 0 < s.nest then some s.netstackUnlock else none
  | .output p env =>
      if 0 < s.nest ∧ 0 < s.owned p.id ∧ (∀ i ∈ env.coalesced, s.refs i = 0) ∧
          ∀ i ∈ env.cloned, s.refs i = 0 then
        some (s.ndifLinkoutput p env).2
      else none
  | .reclaim seen room => if 0 < s.nest then some (s.netdevifTxReclaim seen room) else none
  | .done k =>
      s.flight[k]?.map fun frame =>
        { s with flight := s.flight.eraseIdx k, completed := s.completed ++ [frame] }
  | .doneInline k =>
      if 0 < s.nest then
        s.flight[k]?.map fun frame =>
          { s with flight := s.flight.eraseIdx k, refs := pbufFree s.refs frame }
      else none
  | .owner op => s.ownerOp op

def create (caps : NetDevCaps) (slots : ℕ → TxChain ι) : NetdevTx ι where
  refs _ := 0
  owned _ := 0
  nib := .txSetup caps.pendMask.size caps.mtu.toUInt32
  maxSegs := caps.maxSegs
  pend := .empty caps.pendMask slots
  kickPending := false
  flight := []
  completed := []
  nest := 0
  sent := []
  accepted := []
  published := 0

def system (caps : NetDevCaps) : TransitionSystem (NetdevTx ι) (TxLabel ι) where
  init s := ∃ slots, s = create caps slots
  next := next

def smallRing : NetDevCaps where
  mtu := 1500
  txMaxSegs := 4
  txRingSlots := 64
  txInFlightMax := 0
  txMaxSegs_pos := by decide

end NetdevTx
