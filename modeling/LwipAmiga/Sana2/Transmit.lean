import LwipAmiga.Lib.Transition
import LwipAmiga.Netif.Capacity
import LwipAmiga.Netif.Chain
import LwipAmiga.Rx.Frame
import LwipAmiga.Socket.Basic

/-!
# Transmitting over a SANA-II interface

`s2if_linkoutput` stages a request of the pool for a frame, `sana2if_tx_flush` hands the staged ones to
the driver, and the pump retires those that were queued.
-/

def S2IF_TX_REQS_MIN : ℕ := 64

def S2IF_TX_REQS_SLACK : ℕ := 8

structure Sana2Tx (ι : Type) where
  refs : ι → ℕ
  owned : ι → ℕ
  nib : NetIfBase
  free : List ℕ
  staged : List ℕ
  data : ℕ → Option (TxChain ι)
  inFlight : ℕ → Bool
  txInFlight : ℕ
  flushPending : Bool
  txDown : Bool
  up : Bool
  driver : List ℕ
  port : List ℕ
  txDone : List ℕ
  nest : ℕ
  pumpHolds : Bool
  sent : List (TxChain ι)
  handed : List (Option (TxChain ι))

structure Sana2Env (ι : Type) where
  len : ℕ
  cloned : Option ι
  quick : ℕ → Bool

namespace Sana2Tx

variable {ι : Type} [DecidableEq ι]

/-! ### Flushing -/

def s2ifTxRetire (s : Sana2Tx ι) (r : ℕ) : Sana2Tx ι :=
  { s with
    inFlight := Function.update s.inFlight r false
    refs := (s.data r).elim s.refs (pbufFree s.refs)
    data := Function.update s.data r none
    free := r :: s.free
    nib := s.nib.txFreed 1 }

def queued (s : Sana2Tx ι) (r : ℕ) : Sana2Tx ι :=
  { s with
    driver := s.driver ++ [r]
    inFlight := Function.update s.inFlight r true
    txInFlight := s.txInFlight + 1 }

def beginIo (quick : ℕ → Bool) (s : Sana2Tx ι) (r : ℕ) : Sana2Tx ι :=
  let s := { s with handed := s.handed ++ [s.data r] }
  if quick r then s.s2ifTxRetire r else s.queued r

def sana2ifTxFlush (s : Sana2Tx ι) (quick : ℕ → Bool) : Sana2Tx ι :=
  if s.flushPending then
    s.staged.foldl (beginIo quick) { s with staged := [], flushPending := false }
  else s

def s2ifTxComplete (s : Sana2Tx ι) (r : ℕ) : Sana2Tx ι :=
  { s.s2ifTxRetire r with txInFlight := s.txInFlight - 1 }

/-! ### `s2if_linkoutput` -/

def flushIfDry (s : Sana2Tx ι) (quick : ℕ → Bool) : Sana2Tx ι :=
  if s.free = [] then s.sana2ifTxFlush quick else s

def stage (s : Sana2Tx ι) (r : ℕ) (rest : List ℕ) (frame : TxChain ι) : Sana2Tx ι :=
  { s with
    free := rest
    nib := s.nib.txTaken 1
    data := Function.update s.data r (some frame)
    staged := s.staged ++ [r]
    flushPending := true
    sent := s.sent ++ [frame] }

def takeRequest (s : Sana2Tx ι) (p : TxChain ι) (cloned : Option ι) : Err × Sana2Tx ι :=
  match s.free with
  | [] => (.mem, s)
  | r :: rest =>
      match aliasGuard s.refs p cloned with
      | none => (.mem, s)
      | some (frame, refs) => (.ok, { s with refs := refs }.stage r rest frame)

def s2ifLinkoutput (s : Sana2Tx ι) (p : TxChain ι) (env : Sana2Env ι) : Err × Sana2Tx ι :=
  if s.txDown then (.ifErr, s)
  else if env.len < SIZEOF_ETH_HDR then (.ifErr, s)
  else (s.flushIfDry env.quick).takeRequest p env.cloned

/-! ### Runs -/

def netstackUnlock (s : Sana2Tx ι) (quick : ℕ → Bool) : Sana2Tx ι :=
  if s.nest = 1 then { s.sana2ifTxFlush quick with nest := 0 }
  else { s with nest := s.nest - 1 }

inductive TxLabel (ι : Type) where
  | lock (pump : Bool)
  | unlock (quick : ℕ → Bool)
  | output (p : TxChain ι) (env : Sana2Env ι)
  | reply (r : ℕ)
  | harvest (r : ℕ)
  | complete
  | netifUp
  | netifDown
  | owner (op : PbufOp ι)

def next (s : Sana2Tx ι) : TxLabel ι → Option (Sana2Tx ι)
  | .lock pump =>
      if s.nest = 0 ∨ s.pumpHolds = pump then some { s with nest := s.nest + 1, pumpHolds := pump }
      else none
  | .unlock quick => if 0 < s.nest then some (s.netstackUnlock quick) else none
  | .output p env =>
      if 0 < s.nest ∧ 0 < s.owned p.id ∧
          ∀ i ∈ env.cloned, (s.flushIfDry env.quick).refs i = 0 then
        some (s.s2ifLinkoutput p env).2
      else none
  | .reply r =>
      if r ∈ s.driver then some { s with driver := s.driver.erase r, port := s.port ++ [r] } else none
  | .harvest r =>
      if r ∈ s.port ∧ ¬ (0 < s.nest ∧ s.pumpHolds = true) then
        some { s with port := s.port.erase r, txDone := r :: s.txDone }
      else none
  | .complete =>
      match s.txDone with
      | [] => none
      | r :: rest =>
          if 0 < s.nest ∧ s.pumpHolds = true then
            some ({ s with txDone := rest }.s2ifTxComplete r)
          else none
  | .netifUp => if 0 < s.nest ∧ s.txDown = false then some { s with up := true } else none
  | .netifDown => if 0 < s.nest then some { s with up := false, txDown := true } else none
  | .owner op =>
      (op.apply s.refs s.owned).map fun (refs, owned) => { s with refs := refs, owned := owned }

/-- `s2i_TxReqs`, the size of the pool. -/
def txReqs (mtu : UInt32) : ℕ :=
  max ((netifbaseTxFrames NIB_MAX_L3 mtu).toNat + S2IF_TX_REQS_SLACK) S2IF_TX_REQS_MIN

def create (mtu : UInt32) : Sana2Tx ι where
  refs _ := 0
  owned _ := 0
  nib := .txSetup (txReqs mtu) mtu
  free := (List.range (txReqs mtu)).reverse
  staged := []
  data _ := none
  inFlight _ := false
  txInFlight := 0
  flushPending := false
  txDown := false
  up := false
  driver := []
  port := []
  txDone := []
  nest := 0
  pumpHolds := false
  sent := []
  handed := []

def system (mtu : UInt32) : TransitionSystem (Sana2Tx ι) (TxLabel ι) where
  init s := s = create mtu
  next := next

end Sana2Tx
