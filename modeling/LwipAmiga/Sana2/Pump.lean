import LwipAmiga.Sana2.Reads
import LwipAmiga.Sana2.Transmit

/-!
# The receive pump of a SANA-II interface

The pump keeps a pool of reads in the driver and one event request, and retires the write requests.
-/

def S2IF_RX_BATCH : ℕ := 64

/-! ### The link tracker -/

structure LinkEvents where
  online : Bool
  offline : Bool
deriving DecidableEq

inductive EvReply where
  | failed
  | fired (events : LinkEvents)
deriving DecidableEq

inductive EvPlace where
  | driver (mask : LinkEvents) (owed : Bool)
  | port (reply : EvReply)
  | taken (reply : EvReply)
  | home
deriving DecidableEq

def EvPlace.send (mask : LinkEvents) (online : Bool) : EvPlace :=
  .driver mask (mask.offline && !online)

def EvPlace.goOffline : EvPlace → EvPlace
  | .driver mask owed => .driver mask (owed || mask.offline)
  | ev => ev

def EvPlace.onPort : EvPlace → Bool
  | .port _ => true
  | _ => false

structure Sana2Link where
  ev : EvPlace
  evHome : Bool
  evDead : Bool
  rearm : Option LinkEvents
  up : Bool
  online : Bool

namespace Sana2Link

def device (L : Sana2Link) (online : Bool) : Sana2Link :=
  { L with online := online, ev := if online then L.ev else L.ev.goOffline }

def follow (L : Sana2Link) (events : LinkEvents) : Sana2Link :=
  let up := if events.online then true else if events.offline then false else L.up
  { L with up := up, rearm := some (if up then ⟨false, true⟩ else ⟨true, false⟩) }

def event (L : Sana2Link) (draining : Bool) : Sana2Link × Bool :=
  match L.ev with
  | .taken reply =>
      let L := { L with ev := .home, evHome := true }
      if draining then (L, false)
      else
        match reply with
        | .failed => ({ L with evDead := true }, false)
        | .fired events => (L.follow events, events.online)
  | _ => (L, false)

def rearmEvent (L : Sana2Link) (draining : Bool) : Sana2Link :=
  match L.rearm with
  | some mask =>
      if draining then { L with rearm := none }
      else { L with ev := .send mask L.online, evHome := false, rearm := none }
  | none => L

end Sana2Link

/-! ### The pump -/

inductive PumpPhase where
  | waiting
  | harvest
  | retire
  | link
  | rearm
  | unpark
  | rx
  | requeue
  | repost
  | deliver
  | input
  | check
  | exited
deriving DecidableEq

structure Sana2Pump (ι β : Type) where
  tx : Sana2Tx ι
  reads : Sana2Reads β
  link : Sana2Link
  phase : PumpPhase
  stopSig : Bool
  draining : Bool
  batch : ℕ

inductive PumpGet where
  | read
  | event
  | write (r : ℕ)
  | empty
deriving DecidableEq

structure PumpEnv (β : Type) where
  get : PumpGet
  alloc : Option β
  bad : Bool
  yields : Bool
  quick : ℕ → Bool

namespace Sana2Pump

variable {ι β : Type} [DecidableEq ι]

def txStep (s : Sana2Pump ι β) (l : Sana2Tx.TxLabel ι) (phase : PumpPhase) : Option (Sana2Pump ι β) :=
  (s.tx.next l).map fun tx => { s with tx := tx, phase := phase }

def lock (s : Sana2Pump ι β) (phase : PumpPhase) : Option (Sana2Pump ι β) :=
  if s.tx.nest = 0 then s.txStep (.lock true) phase else none

def unlock (s : Sana2Pump ι β) (quick : ℕ → Bool) (phase : PumpPhase) : Option (Sana2Pump ι β) :=
  if s.tx.nest = 1 then s.txStep (.unlock quick) phase else none

def wake (s : Sana2Pump ι β) : Option (Sana2Pump ι β) :=
  if s.stopSig = true ∧ s.draining = false then
    if s.tx.nest = 0 then some { s with stopSig := false, draining := true, phase := .harvest }
    else none
  else some { s with stopSig := false, phase := .harvest }

def s2ifPumpHarvest (s : Sana2Pump ι β) : PumpGet → Option (Sana2Pump ι β)
  | .read => s.reads.harvest.map fun R => { s with reads := R }
  | .event =>
      match s.link.ev with
      | .port reply => some { s with link := { s.link with ev := .taken reply } }
      | _ => none
  | .write r => s.txStep (.harvest r) .harvest
  | .empty =>
      if s.reads.port = [] ∧ s.tx.port = [] ∧ s.link.ev.onPort = false then s.lock .retire else none

def linkEvent (s : Sana2Pump ι β) : Sana2Pump ι β :=
  { s with
    link := (s.link.event s.draining).1
    reads := if (s.link.event s.draining).2 then s.reads.unparkAll else s.reads
    phase := .link }

def s2ifPumpTxev (s : Sana2Pump ι β) : Option (Sana2Pump ι β) :=
  match s.tx.txDone with
  | _ :: _ => s.txStep .complete .retire
  | [] => some s.linkEvent

def unparkOne (s : Sana2Pump ι β) : Sana2Pump ι β :=
  match s.reads.unparked with
  | [] => { s with phase := .rx }
  | r :: rest => { s with reads := s.reads.unparkOne r rest }

def inUse [DecidableEq β] (s : Sana2Pump ι β) (b : β) : Bool :=
  decide (∃ r < s.reads.num, s.reads.buf r = some b) || decide (b ∈ s.reads.out)

/-- `s2if_pump_rx_requeue` under the core lock; new buffers are not in use. -/
def s2ifPumpRxRequeue [DecidableEq β] (s : Sana2Pump ι β) (env : PumpEnv β) :
    Option (Sana2Pump ι β) :=
  match s.reads.rxDone with
  | (r, reply) :: rest =>
      if s.batch < S2IF_RX_BATCH then
        if ∀ b ∈ env.alloc, s.inUse b = false then
          some { s with
            batch := s.batch + 1
            reads := s.reads.process s.draining r reply rest env.alloc }
        else none
      else s.unlock env.quick .repost
  | [] => s.unlock env.quick .repost

def repostOne (s : Sana2Pump ι β) : Sana2Pump ι β :=
  match s.reads.repost with
  | [] => { s with phase := .deliver }
  | r :: rest => { s with reads := s.reads.repostOne r rest }

/-- `s2if_pump_rx_deliver` under the core lock: a frame is passed to lwIP, or dropped for its
checksum; the lock is released at the end and now and then between frames. -/
def deliverOne (s : Sana2Pump ι β) (env : PumpEnv β) : Option (Sana2Pump ι β) :=
  match s.reads.deliver with
  | [] => s.unlock env.quick .rx
  | (serial, b) :: rest =>
      if env.yields then s.unlock env.quick .deliver
      else if env.bad then some { s with reads := s.reads.drop rest }
      else some { s with reads := s.reads.pass serial b rest }

def s2ifPumpDrained (s : Sana2Pump ι β) : Bool :=
  s.reads.flight == 0 && (s.link.evHome || s.link.evDead) && s.tx.txInFlight == 0

def roundEnd (s : Sana2Pump ι β) : Option (Sana2Pump ι β) :=
  if s.draining then
    if s.tx.nest = 0 then
      some { s with phase := if s.s2ifPumpDrained then .exited else .waiting }
    else none
  else some { s with phase := .waiting }

def pumpNext [DecidableEq β] (s : Sana2Pump ι β) (env : PumpEnv β) : Option (Sana2Pump ι β) :=
  match s.phase with
  | .waiting => s.wake
  | .harvest => s.s2ifPumpHarvest env.get
  | .retire => s.s2ifPumpTxev
  | .link => s.unlock env.quick .rearm
  | .rearm => some { s with link := s.link.rearmEvent s.draining, phase := .unpark }
  | .unpark => some s.unparkOne
  | .rx =>
      match s.reads.rxDone with
      | [] => some { s with phase := .check }
      | _ :: _ => { s with batch := 0 }.lock .requeue
  | .requeue => s.s2ifPumpRxRequeue env
  | .repost => some s.repostOne
  | .deliver =>
      match s.reads.deliver with
      | [] => some { s with phase := .rx }
      | _ :: _ => s.lock .input
  | .input => s.deliverOne env
  | .check => s.roundEnd
  | .exited => none

/-! ### Runs -/

inductive Label (ι β : Type) where
  | tx (l : Sana2Tx.TxLabel ι)
  | readReply (r : ℕ) (error : RxError) (dataLength : ℕ)
  | evReply (reply : EvReply)
  | device (online : Bool)
  | seedLink
  | stop
  | freeRx (b : β)
  | pump (env : PumpEnv β)

def others (s : Sana2Pump ι β) : Sana2Tx.TxLabel ι → Bool
  | .lock pump => !pump || decide (0 < s.tx.nest)
  | .unlock _ => !s.tx.pumpHolds || decide (1 < s.tx.nest)
  | .harvest _ => false
  | .complete => false
  | _ => true

variable [DecidableEq β]

def next (s : Sana2Pump ι β) : Label ι β → Option (Sana2Pump ι β)
  | .tx l => if s.others l then s.txStep l s.phase else none
  | .readReply r error dataLength =>
      if r ∈ s.reads.driver then some { s with reads := s.reads.reply r error dataLength } else none
  | .evReply reply =>
      match s.link.ev with
      | .driver _ _ => some { s with link := { s.link with ev := .port reply } }
      | _ => none
  | .device online => some { s with link := s.link.device online }
  | .seedLink =>
      if 0 < s.tx.nest ∧ s.tx.pumpHolds = false then some { s with link := { s.link with up := true } }
      else none
  | .stop =>
      if s.tx.txDown = true ∧ s.tx.staged = [] then some { s with stopSig := true } else none
  | .freeRx b => if b ∈ s.reads.lent then some { s with reads := s.reads.freeRx b } else none
  | .pump env => s.pumpNext env

def create (mtu : UInt32) (numReads cap : ℕ) (buf : ℕ → Option β) : Sana2Pump ι β where
  tx := .create mtu
  reads :=
    { num := numReads
      cap := cap
      buf := buf
      state := fun _ => .flight
      flight := numReads
      driver := List.range numReads
      port := []
      rxDone := []
      repost := []
      unparked := []
      parked := []
      home := []
      deliver := []
      lent := []
      delivered := []
      serial := 0 }
  link := ⟨.send ⟨true, true⟩ true, false, false, none, false, true⟩
  phase := .waiting
  stopSig := false
  draining := false
  batch := 0

def Armed (numReads : ℕ) (buf : ℕ → Option β) : Prop :=
  (∀ r < numReads, (buf r).isSome = true) ∧ ∀ r < numReads, ∀ r' < numReads, buf r = buf r' → r = r'

def system (mtu : UInt32) : TransitionSystem (Sana2Pump ι β) (Label ι β) where
  init s := ∃ numReads cap buf, Armed numReads buf ∧ s = create mtu numReads cap buf
  next := next

end Sana2Pump
