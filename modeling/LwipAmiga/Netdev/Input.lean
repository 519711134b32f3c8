import LwipAmiga.Lib.Pool
import LwipAmiga.Lib.Transition
import LwipAmiga.Netdev.Checksum
import LwipAmiga.Rx.Pump

/-!
# The receive path of a netdev interface

`netdev_rx.c`: the unit task calls `ndif_rx_input` with a batch of frames, each in a buffer a cookie
stands for.
-/

def NDIF_RX_CHUNK : ℕ := 64

structure RxInput (χ : Type) where
  descs : List (NetDevRxDesc χ)
  consumed : ℕ
  sinceYield : ℕ

inductive UnitTask (χ : Type) where
  | idle
  | outer (c : RxInput χ)
  | chunk (c : RxInput χ) (left : ℕ)
  | yield (c : RxInput χ) (left : ℕ)

def UnitTask.Locked {χ : Type} : UnitTask χ → Prop
  | .chunk _ _ => True
  | _ => False

structure NetdevIf (χ : Type) where
  wraps : Pool χ
  gro : RxGro
  lent : Multiset ℕ
  task : UnitTask χ
  returned : List (List (NetDevRxDesc χ) × ℕ)
  ops : List RxOp

namespace NetdevIf

variable {χ : Type}

def ndifRxPbufFreed (w : NetdevIf χ) (a : ℕ) : NetdevIf χ :=
  { w with wraps := w.wraps.refund a }

def act (w : NetdevIf χ) : RxAct → NetdevIf χ
  | .deliver chain => { w with lent := (chain.map fun p => p.addr) + w.lent }
  | .free chain => (chain.map fun p => p.addr).foldl ndifRxPbufFreed w

def engine (offload : Bool) (w : NetdevIf χ) (op : RxOp) : NetdevIf χ :=
  let (g, acts) := RxGro.step offload w.gro op
  acts.foldl act { w with gro := g, ops := w.ops ++ [op] }

def finish (w : NetdevIf χ) (c : RxInput χ) : NetdevIf χ :=
  { w with
    task := .idle
    returned := w.returned ++ [(c.descs, c.consumed)] }

def ndifRxFrame (offload contended : Bool) (w : NetdevIf χ) (c : RxInput χ) (left : ℕ)
    (d : NetDevRxDesc χ) : NetdevIf χ :=
  if ndifDrop offload d then
    let w := w.engine offload .flush
    { w with
      wraps := w.wraps.pass d.cookie
      task := .chunk { c with consumed := c.consumed + 1 } left }
  else
    match w.wraps.borrow d.cookie with
    | none => (w.engine offload .flush).finish c
    | some (a, wraps) =>
        let w := { w with wraps := wraps }.engine offload (.frame a d.frame)
        let c := { c with consumed := c.consumed + 1, sinceYield := c.sinceYield + 1 }
        if RXGRO_YIELD_STRIDE ≤ c.sinceYield ∧ contended then
          { w.engine offload .flush with task := .yield { c with sinceYield := 0 } left }
        else { w with task := .chunk c left }

end NetdevIf

inductive NetdevLabel (χ : Type) where
  | call (descs : List (NetDevRxDesc χ))
  | outer
  | frame (contended : Bool)
  | unlock
  | relock
  | free (a : ℕ)

namespace NetdevIf

variable {χ : Type}

def next (offload : Bool) (w : NetdevIf χ) : NetdevLabel χ → Option (NetdevIf χ)
  | .call descs =>
      match w.task with
      | .idle => some { w with task := .outer ⟨descs, 0, 0⟩ }
      | _ => none
  | .outer =>
      match w.task with
      | .outer c =>
          if c.consumed < c.descs.length then
            some { w with task := .chunk c (min (c.descs.length - c.consumed) NDIF_RX_CHUNK) }
          else some (w.finish c)
      | _ => none
  | .frame contended =>
      match w.task with
      | .chunk c (left + 1) =>
          c.descs[c.consumed]?.map (w.ndifRxFrame offload contended c left)
      | _ => none
  | .unlock =>
      match w.task with
      | .chunk c 0 => some { w.engine offload .flush with task := .outer c }
      | _ => none
  | .relock =>
      match w.task with
      | .yield c left => some { w with task := .chunk c left }
      | _ => none
  | .free a =>
      if a ∈ w.lent then some ({ w with lent := w.lent.erase a }.ndifRxPbufFreed a) else none

def create (n : ℕ) (tag : ℕ → χ) : NetdevIf χ where
  wraps := .fresh n tag
  gro := rxgroInit
  lent := 0
  task := .idle
  returned := []
  ops := []

def system (offload : Bool) (n : ℕ) : TransitionSystem (NetdevIf χ) (NetdevLabel χ) where
  init w := ∃ tag, w = create n tag
  next := next offload

end NetdevIf
