import Mathlib.Data.Fin.VecNotation

/-!
# The packet heap

`netstack_mem.c`: three size classes are served from slabs, the rest by allocations of their own.
-/

abbrev NS_SLAB_CLASSES : ℕ := 3

/-- A size class. -/
abbrev SlabClass : Type :=
  Fin NS_SLAB_CLASSES

def nslabSlot : SlabClass → UInt32 :=
  ![128, 1600, 65600]

def nslabArenaSlots : SlabClass → ℕ :=
  ![64, 64, 2]

inductive MemSource where
  | exec
  | driver (g : ℕ)
deriving DecidableEq

inductive NsAlloc where
  | arena (n : ℕ)
  | block (n : ℕ)
deriving DecidableEq

inductive NsMemBlock where
  | slot (arena i : ℕ)
  | oneOff (n : ℕ)
deriving DecidableEq

def NsMemBlock.alloc : NsMemBlock → NsAlloc
  | .slot n _ => .arena n
  | .oneOff n => .block n

inductive NsWorld where
  | dma
  | exec
deriving DecidableEq

inductive NsOrigin where
  | exec
  | dma
  | slab (w : NsWorld) (cls : SlabClass)
  | free
deriving DecidableEq

structure NsHeap where
  activeNetdev : Option ℕ
  slabFree : NsWorld → SlabClass → List NsMemBlock
  slabArenas : NsWorld → SlabClass → List ℕ
  origin : NsMemBlock → NsOrigin
  size : NsMemBlock → UInt32
  memInUse : UInt32
  source : NsAlloc → Option MemSource
  fresh : ℕ
  live : List NsMemBlock

structure MallocEnv where
  grow : Bool
  regrow : Bool
  alloc : Bool

namespace NsHeap

def setAt {α : Type} (f : NsWorld → SlabClass → α) (w : NsWorld) (cls : SlabClass) (x : α) :
    NsWorld → SlabClass → α :=
  Function.update f w (Function.update (f w) cls x)

def world (h : NsHeap) : NsWorld :=
  if h.activeNetdev.isSome then .dma else .exec

def serves (h : NsHeap) : NsWorld → Option MemSource
  | .dma => h.activeNetdev.map .driver
  | .exec => some .exec

/-! ### `netstack_malloc` -/

def slots (n : ℕ) (cls : SlabClass) : List NsMemBlock :=
  (List.range (nslabArenaSlots cls)).map (.slot n)

/-- `nslab_grow`, when there is memory. -/
def nslabGrow (h : NsHeap) (cls : SlabClass) : NsHeap :=
  { h with
    slabArenas := setAt h.slabArenas h.world cls (h.fresh :: h.slabArenas h.world cls)
    slabFree := setAt h.slabFree h.world cls ((slots h.fresh cls).reverse ++ h.slabFree h.world cls)
    origin := fun b => if b ∈ slots h.fresh cls then .free else h.origin b
    source := Function.update h.source (.arena h.fresh) (h.serves h.world)
    fresh := h.fresh + 1 }

def refill (h : NsHeap) (cls : SlabClass) (grow : Bool) : NsHeap :=
  if h.slabFree h.world cls = [] ∧ grow = true then h.nslabGrow cls else h

def corrupt (h : NsHeap) (cls : SlabClass) : Bool :=
  (h.slabFree h.world cls).head?.any fun b => decide (h.origin b ≠ .free)

def dropFree (h : NsHeap) (cls : SlabClass) : NsHeap :=
  { h with slabFree := setAt h.slabFree h.world cls [] }

def validate (h : NsHeap) (cls : SlabClass) (regrow : Bool) : NsHeap :=
  if h.corrupt cls then (h.dropFree cls).refill cls regrow else h

def takeSlot (h : NsHeap) (cls : SlabClass) (b : NsMemBlock) (rest : List NsMemBlock) : NsHeap :=
  { h with
    slabFree := setAt h.slabFree h.world cls rest
    size := Function.update h.size b (nslabSlot cls)
    origin := Function.update h.origin b (.slab h.world cls)
    memInUse := h.memInUse + nslabSlot cls
    live := b :: h.live }

def oneOff (h : NsHeap) (total : UInt32) (alloc : Bool) : NsHeap × Option NsMemBlock :=
  if alloc then
    ({ h with
        origin := Function.update h.origin (.oneOff h.fresh) (if h.world = .dma then .dma else .exec)
        size := Function.update h.size (.oneOff h.fresh) total
        memInUse := h.memInUse + total
        source := Function.update h.source (.block h.fresh) (h.serves h.world)
        fresh := h.fresh + 1
        live := .oneOff h.fresh :: h.live },
      some (.oneOff h.fresh))
  else (h, none)

def slabMalloc (h : NsHeap) (cls : SlabClass) (total : UInt32) (env : MallocEnv) :
    NsHeap × Option NsMemBlock :=
  let h := (h.refill cls env.grow).validate cls env.regrow
  match h.slabFree h.world cls with
  | b :: rest => (h.takeSlot cls b rest, some b)
  | [] => h.oneOff total env.alloc

def slabClass (total : UInt32) : Option SlabClass :=
  if total ≤ nslabSlot 2 then
    some (if total ≤ nslabSlot 0 then 0 else if total ≤ nslabSlot 1 then 1 else 2)
  else none

def netstackMalloc (h : NsHeap) (size : UInt32) (env : MallocEnv) : NsHeap × Option NsMemBlock :=
  let total := ((size + 3) &&& ~~~3) + 8
  match slabClass total with
  | some cls => h.slabMalloc cls total env
  | none => h.oneOff total env.alloc

/-! ### `netstack_free` -/

/-- `netdevif_dma_free`: memory is given back to the driver of the attachment, if there is one; what
another driver has made stays outstanding. -/
def netdevifDmaFree (h : NsHeap) (a : NsAlloc) : NsHeap :=
  match h.activeNetdev with
  | none => h
  | some g =>
      if h.source a = some (.driver g) then { h with source := Function.update h.source a none } else h

def pushSlot (h : NsHeap) (w : NsWorld) (cls : SlabClass) (b : NsMemBlock) : NsHeap :=
  { h with
    slabFree := setAt h.slabFree w cls (b :: h.slabFree w cls)
    origin := Function.update h.origin b .free }

def account (h : NsHeap) (b : NsMemBlock) (size : UInt32) : NsHeap :=
  { h with memInUse := h.memInUse - size, live := h.live.erase b }

def netstackFree (h : NsHeap) (b : NsMemBlock) : NsHeap :=
  match h.origin b with
  | .slab .dma cls =>
      if h.activeNetdev.isNone then h.account b (nslabSlot cls)
      else (h.account b (nslabSlot cls)).pushSlot .dma cls b
  | .slab .exec cls => (h.account b (nslabSlot cls)).pushSlot .exec cls b
  | .dma => (h.account b (h.size b)).netdevifDmaFree b.alloc
  | .exec =>
      let h := h.account b (h.size b)
      { h with source := Function.update h.source b.alloc none }
  | .free => h

/-! ### `netstack_slab_detach` -/

def netstackSlabDetach (h : NsHeap) : NsHeap :=
  { h with
    source := fun a =>
      match a with
      | .arena n => if ∃ cls, n ∈ h.slabArenas .dma cls then none else h.source a
      | .block _ => h.source a
    slabArenas := Function.update h.slabArenas .dma fun _ => []
    slabFree := Function.update h.slabFree .dma fun _ => [] }

/-- `netstack_slab_exec_release`: the arenas of the exec world are given back. -/
def netstackSlabExecRelease (h : NsHeap) : NsHeap :=
  { h with
    source := fun a =>
      match a with
      | .arena n => if ∃ cls, n ∈ h.slabArenas .exec cls then none else h.source a
      | .block _ => h.source a
    slabArenas := Function.update h.slabArenas .exec fun _ => []
    slabFree := Function.update h.slabFree .exec fun _ => [] }

def empty : NsHeap where
  activeNetdev := none
  slabFree _ _ := []
  slabArenas _ _ := []
  origin _ := .free
  size _ := 0
  memInUse := 0
  source _ := none
  fresh := 0
  live := []

end NsHeap
