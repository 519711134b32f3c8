import LwipAmiga.Lib.Transition
import Mathlib.Data.List.Basic

/-!
# The multicast registry

The library remembers in a table `sb_mcast` which socket has joined which group through which interface
address.
-/

def SB_MCAST_MEMBERSHIPS : ℕ := 32

structure SbMcastMember (κ : Type) where
  s : κ
  group : UInt32
  ifAddr : UInt32
  deriving DecidableEq

structure IgmpIf where
  addr : UInt32
  own : UInt32 → ℕ
  groups : UInt32 → ℕ

inductive McastErrno where
  | enobufs
  | eaddrnotavail
  deriving DecidableEq

structure McastWorld (κ : Type) where
  table : List (Option (SbMcastMember κ))
  nif : Option IgmpIf
  joins : List (SbMcastMember κ)

/-! ### lwIP's groups -/

namespace IgmpIf

def matchesAddr (n : IgmpIf) (ifAddr : UInt32) : Bool :=
  ifAddr == 0 || ifAddr == n.addr

/-- `igmp_joingroup` on the interface: one more reference. -/
def joingroup (n : IgmpIf) (group : UInt32) : IgmpIf :=
  { n with groups := Function.update n.groups group (n.groups group + 1) }

/-- `igmp_leavegroup` on the interface: one reference less, if there is one. -/
def leavegroup (n : IgmpIf) (group : UInt32) : IgmpIf :=
  { n with groups := Function.update n.groups group (n.groups group - 1) }

end IgmpIf

namespace McastWorld

variable {κ : Type} [DecidableEq κ]

def use (w : McastWorld κ) (group : UInt32) : ℕ :=
  match w.nif with
  | none => 0
  | some n => n.groups group

/-- `igmp_joingroup` for a row.  lwIP answers `ERR_OK` only with an interface that has the address,
and may refuse for reasons of its own; `accepts` is whether it does not. -/
def igmpJoingroup (w : McastWorld κ) (r : SbMcastMember κ) (accepts : Bool) :
    Option (McastWorld κ) :=
  w.nif.bind fun n =>
    if n.matchesAddr r.ifAddr && accepts then
      some { w with nif := some (n.joingroup r.group), joins := w.joins ++ [r] }
    else none

/-- `igmp_leavegroup` for a row: without an interface that has the address nothing happens. -/
def igmpLeavegroup (w : McastWorld κ) (r : SbMcastMember κ) : McastWorld κ :=
  match w.nif with
  | none => w
  | some n =>
      if n.matchesAddr r.ifAddr then
        { w with nif := some (n.leavegroup r.group), joins := w.joins.erase r }
      else w

/-! ### The registry -/

def sbMcastJoin (w : McastWorld κ) (r : SbMcastMember κ) (accepts : Bool) :
    McastWorld κ × Except McastErrno Unit :=
  if some r ∈ w.table then (w, .ok ())
  else
    match w.table.findIdx? Option.isNone with
    | none => (w, .error .enobufs)
    | some slot =>
        match w.igmpJoingroup r accepts with
        | none => (w, .error .eaddrnotavail)
        | some w' => ({ w' with table := w'.table.set slot (some r) }, .ok ())

def leaveSlot (w : McastWorld κ) (i : ℕ) (r : SbMcastMember κ) : McastWorld κ :=
  let w := w.igmpLeavegroup r
  { w with table := w.table.set i none }

def sbMcastLeave (w : McastWorld κ) (r : SbMcastMember κ) :
    McastWorld κ × Except McastErrno Unit :=
  match w.table.findIdx? (· == some r) with
  | none => (w, .error .eaddrnotavail)
  | some i => (w.leaveSlot i r, .ok ())

def dropSlot (s : κ) (w : McastWorld κ) (i : ℕ) : McastWorld κ :=
  match w.table[i]?.join with
  | none => w
  | some r => if r.s ≠ s then w else w.leaveSlot i r

def sbMcastDropAll (w : McastWorld κ) (s : κ) : McastWorld κ :=
  (List.range SB_MCAST_MEMBERSHIPS).foldl (dropSlot s) w

/-! ### The transition system -/

inductive Label (κ : Type) where
  | join (r : SbMcastMember κ) (accepts : Bool)
  | leave (r : SbMcastMember κ)
  | close (s : κ)
  | remove
  | add (addr : UInt32) (own : UInt32 → ℕ)

def next (w : McastWorld κ) : Label κ → Option (McastWorld κ)
  | .join r accepts => some (w.sbMcastJoin r accepts).1
  | .leave r => some (w.sbMcastLeave r).1
  | .close s => some (w.sbMcastDropAll s)
  | .remove => w.nif.map fun _ => { w with nif := none, joins := [] }
  | .add addr own =>
      if w.nif.isNone then some { w with nif := some ⟨addr, own, own⟩, joins := [] } else none

def start : McastWorld κ where
  table := List.replicate SB_MCAST_MEMBERSHIPS none
  nif := none
  joins := []

def system (κ : Type) [DecidableEq κ] : TransitionSystem (McastWorld κ) (Label κ) where
  init w := w = start
  next := next

end McastWorld
