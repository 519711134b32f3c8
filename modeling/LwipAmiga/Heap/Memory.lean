import LwipAmiga.Heap.Slab
import LwipAmiga.Lib.Transition

/-!
# The packet heap in memory

`netstack_mem.c`, down to the longwords it reads and writes.
-/

/-! ### Constants -/

def NSMEM_ORIGIN_EXEC : ℕ := 0x45584543
def NSMEM_ORIGIN_DMA : ℕ := 0x444d4120
def NSMEM_ORIGIN_SLB0 : ℕ := 0x534C4230
def NSMEM_ORIGIN_SLB1 : ℕ := 0x534C4231
def NSMEM_ORIGIN_SLB2 : ℕ := 0x534C4232
def NSMEM_ORIGIN_XSL0 : ℕ := 0x58534C30
def NSMEM_ORIGIN_XSL1 : ℕ := 0x58534C31
def NSMEM_ORIGIN_XSL2 : ℕ := 0x58534C32
def NSMEM_ORIGIN_FREE : ℕ := 0x46524545

def nslabOrigin : NsWorld → SlabClass → ℕ
  | .dma => ![NSMEM_ORIGIN_SLB0, NSMEM_ORIGIN_SLB1, NSMEM_ORIGIN_SLB2]
  | .exec => ![NSMEM_ORIGIN_XSL0, NSMEM_ORIGIN_XSL1, NSMEM_ORIGIN_XSL2]

def nsmOrigin (origin : ℕ) : Option NsOrigin :=
  if origin = NSMEM_ORIGIN_SLB0 then some (.slab .dma 0)
  else if origin = NSMEM_ORIGIN_SLB1 then some (.slab .dma 1)
  else if origin = NSMEM_ORIGIN_SLB2 then some (.slab .dma 2)
  else if origin = NSMEM_ORIGIN_XSL0 then some (.slab .exec 0)
  else if origin = NSMEM_ORIGIN_XSL1 then some (.slab .exec 1)
  else if origin = NSMEM_ORIGIN_XSL2 then some (.slab .exec 2)
  else if origin = NSMEM_ORIGIN_DMA then some .dma
  else if origin = NSMEM_ORIGIN_EXEC then some .exec
  else if origin = NSMEM_ORIGIN_FREE then some .free
  else none

def NSMEM_HDR : ℕ := 8

def NSLAB_ARENA_HDR : ℕ := 64

def nslabArenaSize (cls : SlabClass) : ℕ :=
  NSLAB_ARENA_HDR + nslabArenaSlots cls * (nslabSlot cls).toNat

/-! ### The heap -/

structure NsMem where
  mem : ℕ → ℕ
  activeNetdev : Bool
  slabFree : NsWorld → SlabClass → ℕ
  slabArenas : NsWorld → SlabClass → ℕ
  memInUse : UInt32
  outstanding : List (ℕ × ℕ)
  owned : List (ℕ × UInt32)
  freed : List ℕ

structure MallocAt where
  grow : Option ℕ
  regrow : Option ℕ
  alloc : Option ℕ

namespace NsMem

def world (m : NsMem) : NsWorld :=
  if m.activeNetdev then .dma else .exec

def put (m : NsMem) (a v : ℕ) : NsMem :=
  { m with mem := Function.update m.mem a v }

/-! ### `netstack_malloc` -/

def nslabLink (slot : ℕ) : ℕ → ℕ → (ℕ → ℕ) × ℕ → (ℕ → ℕ) × ℕ
  | 0, _, r => r
  | n + 1, s, (mem, freeHead) =>
      nslabLink slot n (s + slot)
        (Function.update (Function.update mem s freeHead) (s + 4) NSMEM_ORIGIN_FREE, s)

/-- `nslab_grow` with the memory at `a`. -/
def nslabGrow (m : NsMem) (cls : SlabClass) (a : ℕ) : NsMem :=
  let size := nslabArenaSize cls
  let mem := Function.update (Function.update m.mem a (m.slabArenas m.world cls)) (a + 4) size
  let r := nslabLink (nslabSlot cls).toNat (nslabArenaSlots cls) (a + NSLAB_ARENA_HDR)
    (mem, m.slabFree m.world cls)
  { m with
    mem := r.1
    slabFree := NsHeap.setAt m.slabFree m.world cls r.2
    slabArenas := NsHeap.setAt m.slabArenas m.world cls a
    outstanding := (a, size) :: m.outstanding }

def refill (m : NsMem) (cls : SlabClass) (grow : Option ℕ) : NsMem :=
  match grow with
  | some a => if m.slabFree m.world cls = 0 then m.nslabGrow cls a else m
  | none => m

def corrupt (m : NsMem) (cls : SlabClass) : Prop :=
  m.slabFree m.world cls ≠ 0 ∧ m.mem (m.slabFree m.world cls + 4) ≠ NSMEM_ORIGIN_FREE

instance (m : NsMem) (cls : SlabClass) : Decidable (m.corrupt cls) :=
  inferInstanceAs (Decidable (_ ∧ _))

def validate (m : NsMem) (cls : SlabClass) (regrow : Option ℕ) : NsMem :=
  if m.corrupt cls then
    { m with slabFree := NsHeap.setAt m.slabFree m.world cls 0 }.refill cls regrow
  else m

def takeSlot (m : NsMem) (cls : SlabClass) : NsMem :=
  let h := m.slabFree m.world cls
  let m := { m with slabFree := NsHeap.setAt m.slabFree m.world cls (m.mem h) }
  let m := (m.put h (nslabSlot cls).toNat).put (h + 4) (nslabOrigin m.world cls)
  { m with memInUse := m.memInUse + nslabSlot cls }

def oneOff (m : NsMem) (total : UInt32) (alloc : Option ℕ) : NsMem × Option ℕ :=
  match alloc with
  | none => (m, none)
  | some h =>
      let origin := if m.activeNetdev then NSMEM_ORIGIN_DMA else NSMEM_ORIGIN_EXEC
      let m := { m with outstanding := (h, total.toNat) :: m.outstanding }
      let m := (m.put (h + 4) origin).put h total.toNat
      ({ m with memInUse := m.memInUse + total }, some h)

def slabMalloc (m : NsMem) (cls : SlabClass) (total : UInt32) (given : MallocAt) :
    NsMem × Option ℕ :=
  let m := (m.refill cls given.grow).validate cls given.regrow
  if m.slabFree m.world cls = 0 then m.oneOff total given.alloc
  else (m.takeSlot cls, some (m.slabFree m.world cls))

def total (size : UInt32) : UInt32 :=
  ((size + 3) &&& ~~~3) + 8

def netstackMalloc (m : NsMem) (size : UInt32) (given : MallocAt) : NsMem × Option ℕ :=
  match NsHeap.slabClass (total size) with
  | some cls => m.slabMalloc cls (total size) given
  | none => m.oneOff (total size) given.alloc

/-! ### `netstack_free` -/

def pushSlot (m : NsMem) (w : NsWorld) (cls : SlabClass) (h : ℕ) : NsMem :=
  let m := (m.put h (m.slabFree w cls)).put (h + 4) NSMEM_ORIGIN_FREE
  { m with slabFree := NsHeap.setAt m.slabFree w cls h }

def giveBack (m : NsMem) (h size : ℕ) : NsMem :=
  { m with outstanding := m.outstanding.erase (h, size) }

/-- `netstack_free` of the block with the header at `h`. -/
def netstackFree (m : NsMem) (h : ℕ) : NsMem :=
  let size := m.mem h
  match nsmOrigin (m.mem (h + 4)) with
  | some (.slab .dma cls) =>
      let m := { m with memInUse := m.memInUse - nslabSlot cls }
      if m.activeNetdev then m.pushSlot .dma cls h else m
  | some (.slab .exec cls) =>
      { m with memInUse := m.memInUse - nslabSlot cls }.pushSlot .exec cls h
  | some .dma =>
      let m := { m with memInUse := m.memInUse - UInt32.ofNat size }
      if m.activeNetdev then m.giveBack h size else m
  | some .exec => { m with memInUse := m.memInUse - UInt32.ofNat size }.giveBack h size
  | some .free => m
  | none => m

/-! ### The callers -/

def Payload (m : NsMem) (a : ℕ) : Prop :=
  ∃ x ∈ m.owned, x.1 + NSMEM_HDR ≤ a ∧ a < x.1 + NSMEM_HDR + x.2.toNat

def Heap (m : NsMem) (a : ℕ) : Prop :=
  ∃ r ∈ m.outstanding, r.1 ≤ a ∧ a < r.1 + r.2

instance (m : NsMem) : DecidablePred m.Payload := fun _ =>
  inferInstanceAs (Decidable (∃ x ∈ m.owned, _))

instance (m : NsMem) : DecidablePred m.Heap := fun _ =>
  inferInstanceAs (Decidable (∃ r ∈ m.outstanding, _))

def Fits (m : NsMem) (size a : ℕ) : Prop :=
  0 < a ∧ a + size ≤ 2 ^ 32 ∧ ∀ r ∈ m.outstanding, a + size ≤ r.1 ∨ r.1 + r.2 ≤ a

instance (m : NsMem) (size a : ℕ) : Decidable (m.Fits size a) :=
  inferInstanceAs (Decidable (_ ∧ _ ∧ ∀ r ∈ m.outstanding, _))

def Offers (m : NsMem) (size : UInt32) (given : MallocAt) : Prop :=
  (∀ cls, NsHeap.slabClass (total size) = some cls →
    (∀ a ∈ given.grow, m.Fits (nslabArenaSize cls) a) ∧
      ∀ a ∈ given.regrow, m.Fits (nslabArenaSize cls) a) ∧
    ∀ a ∈ given.alloc, m.Fits (total size).toNat a

instance (m : NsMem) (size : UInt32) (given : MallocAt) : Decidable (m.Offers size given) :=
  inferInstanceAs (Decidable (_ ∧ ∀ a ∈ given.alloc, _))

inductive Label where
  | attach
  | malloc (size : UInt32) (given : MallocAt)
  | free (h : ℕ)
  | write (value : ℕ → ℕ)

def isSlab (m : NsMem) (h : ℕ) : Bool :=
  match nsmOrigin (m.mem (h + 4)) with
  | some (.slab _ _) => true
  | _ => false

def own (m : NsMem) (h : ℕ) (size : UInt32) : NsMem :=
  { m with owned := (h, size) :: m.owned, freed := m.freed.filter (· ≠ h) }

def handOver (r : NsMem × Option ℕ) (size : UInt32) : NsMem :=
  match r with
  | (m, some h) => m.own h size
  | (m, none) => m

def release (m : NsMem) (h : ℕ) : NsMem :=
  { m.netstackFree h with
    owned := m.owned.filter (·.1 ≠ h)
    freed := if m.isSlab h then h :: m.freed else m.freed }

def overwrite (m : NsMem) (value : ℕ → ℕ) : NsMem :=
  { m with mem := fun a => if m.Payload a ∨ ¬ m.Heap a then value a else m.mem a }

def next (m : NsMem) : Label → Option NsMem
  | .attach => if m.activeNetdev then none else some { m with activeNetdev := true }
  | .malloc size given =>
      if size.toNat < 2 ^ 31 ∧ m.Offers size given then
        some (handOver (m.netstackMalloc size given) size)
      else none
  | .free h =>
      if h ∈ m.owned.map Prod.fst then some (m.release h)
      else if h ∈ m.freed then some (m.netstackFree h)
      else none
  | .write value => some (m.overwrite value)

def boot (mem : ℕ → ℕ) (activeNetdev : Bool) : NsMem where
  mem := mem
  activeNetdev := activeNetdev
  slabFree _ _ := 0
  slabArenas _ _ := 0
  memInUse := 0
  outstanding := []
  owned := []
  freed := []

def system : TransitionSystem NsMem Label where
  init m := ∃ mem activeNetdev, m = boot mem activeNetdev
  next := next

end NsMem
