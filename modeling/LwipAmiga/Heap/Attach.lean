import LwipAmiga.Heap.Source
import LwipAmiga.Lib.Transition

/-!
# The packet heap across attachments

Interfaces come and go, and blocks of the heap stay.
-/

open Option

structure NsRun where
  heap : NsHeap
  gen : ℕ

namespace NsRun

inductive Label where
  | attach
  | detach
  | malloc (size : UInt32) (env : MallocEnv)
  | free (b : NsMemBlock)

def next (s : NsRun) : Label → Option NsRun
  | .attach =>
      match s.heap.activeNetdev with
      | none => some ⟨{ s.heap with activeNetdev := some (s.gen + 1) }, s.gen + 1⟩
      | some _ => none
  | .detach =>
      match s.heap.activeNetdev with
      | none => none
      | some _ => some { s with heap := s.heap.detached }
  | .malloc size env => some { s with heap := (s.heap.netstackMalloc size env).1 }
  | .free b => if b ∈ s.heap.live then some { s with heap := s.heap.netstackFree b } else none

def system : TransitionSystem NsRun Label where
  init s := s = ⟨NsHeap.empty, 0⟩
  next := next

def OfDriver (s : NsRun) (a : NsAlloc) : Prop :=
  ∃ g, s.heap.activeNetdev = some g ∧ s.heap.source a = some (.driver g)

/-- `ndo_DmaFree` is called on the allocation: for the arenas when the driver is detached, and for a
block whose header says so. -/
def DmaFreed (s : NsRun) : Label → NsAlloc → Prop
  | .detach, .arena n => ∃ cls, n ∈ s.heap.slabArenas .dma cls
  | .free b, a => s.heap.origin b = .dma ∧ s.heap.activeNetdev ≠ none ∧ a = b.alloc
  | _, _ => False

def ofDma (s : NsRun) (b : NsMemBlock) : Bool :=
  match s.heap.origin b with
  | .dma => true
  | .slab .dma _ => true
  | _ => false

def sameAttachment (s : NsRun) : Label → Prop
  | .free b => ∀ g ∈ s.heap.activeNetdev, s.ofDma b = true →
      s.heap.source b.alloc = some (.driver g)
  | _ => True

instance (s : NsRun) : DecidablePred s.sameAttachment := fun l =>
  match l with
  | .free b => inferInstanceAs (Decidable (∀ g ∈ s.heap.activeNetdev, s.ofDma b = true →
      s.heap.source b.alloc = some (.driver g)))
  | .attach | .detach | .malloc _ _ => inferInstanceAs (Decidable True)

/-! ### The invariant -/

structure Inv (s : NsRun) : Prop where
  clean : s.heap.Clean
  active : ∀ g ∈ s.heap.activeNetdev, g ≤ s.gen
  numbered : ∀ a g, s.heap.source a = some (.driver g) → g ≤ s.gen
  arena : ∀ n, s.OfDriver (.arena n) → ∃ cls, n ∈ s.heap.slabArenas .dma cls

variable {s s' : NsRun}

theorem inv_init :
  Inv ⟨NsHeap.empty, 0⟩
  := by
  refine ⟨NsHeap.clean_empty, nofun, nofun, ?_⟩
  rintro n ⟨g, hactive, -⟩
  cases hactive

theorem Inv.attach (h : Inv s) (hnone : s.heap.activeNetdev = none) :
  Inv ⟨{ s.heap with activeNetdev := some (s.gen + 1) }, s.gen + 1⟩
  := by
  refine ⟨h.clean.attach hnone _, ?_, ?_, ?_⟩
  · rintro g ⟨⟩
    exact le_rfl
  · intro a g ha
    exact (h.numbered a g ha).trans (Nat.le_succ _)
  · -- Nothing is outstanding with the new driver.
    rintro n ⟨g, hactive, hsource⟩
    cases hactive
    have hle := h.numbered _ _ hsource
    omega

theorem Inv.detach (h : Inv s) :
  Inv { s with heap := s.heap.detached }
  := by
  refine ⟨h.clean.toInv.detached, nofun, ?_, ?_⟩
  · intro a g ha
    exact h.numbered a g (NsHeap.source_detached ha).1
  · rintro n ⟨g, hactive, -⟩
    cases hactive

theorem Inv.malloc (h : Inv s) (size : UInt32) (env : MallocEnv) :
  Inv { s with heap := (s.heap.netstackMalloc size env).1 }
  := by
  have hserved := h.clean.sound.served_netstackMalloc size env
  refine ⟨hserved.clean h.clean, ?_, ?_, ?_⟩
  · intro g hg
    rw [hserved.activeNetdev] at hg
    exact h.active g hg
  · intro a g ha
    obtain hold | ⟨hserves, -⟩ := hserved.new a _ ha
    · exact h.numbered a g hold
    · exact h.active g (NsHeap.driver_of_serves hserves)
  · rintro n ⟨g, hactive, hsource⟩
    obtain hold | ⟨hserves, cls, hn⟩ := hserved.new _ _ hsource
    · rw [hserved.activeNetdev] at hactive
      obtain ⟨cls, hn⟩ := h.arena n ⟨g, hactive, hold⟩
      exact ⟨cls, hserved.slabArenas _ _ hn⟩
    · rw [hserved.world_eq, NsHeap.world_of_serves hserves] at hn
      exact ⟨cls, hn⟩

theorem Inv.free {b : NsMemBlock} (h : Inv s) (hgood : s.sameAttachment (.free b)) :
  Inv { s with heap := s.heap.netstackFree b }
  := by
  have hf := NsHeap.frees_netstackFree s.heap b
  have hcurrent : s.heap.Current b := by
    intro hactive cls horigin
    obtain ⟨g, hg⟩ := ne_none_iff_exists'.mp hactive
    obtain ⟨n, i, rfl, -⟩ := h.clean.dma b cls horigin
    apply h.arena n
    refine ⟨g, hg, hgood g hg ?_⟩
    rw [ofDma, horigin]
  refine ⟨hf.clean h.clean hcurrent, ?_, ?_, ?_⟩
  · intro g hg
    rw [hf.activeNetdev] at hg
    exact h.active g hg
  · intro a g ha
    exact h.numbered a g (hf.outstanding ha)
  · rintro n ⟨g, hactive, hsource⟩
    rw [hf.activeNetdev] at hactive
    rw [hf.slabArenas]
    exact h.arena n ⟨g, hactive, hf.outstanding hsource⟩

theorem inv_of_reach (h : system.Reach sameAttachment s) :
  Inv s
  := by
  apply h.invariant
  · rintro s rfl
    apply inv_init
  · intro s l s' hs hgood hnext
    cases l with
    | attach =>
      simp only [system, next] at hnext
      split at hnext
      · rename_i hnone
        cases hnext
        apply hs.attach hnone
      · contradiction
    | detach =>
      simp only [system, next] at hnext
      split at hnext
      · contradiction
      · cases hnext
        apply hs.detach
    | malloc size env =>
      cases hnext
      apply hs.malloc
    | free b =>
      simp only [system, next, ite_none_right_eq_some] at hnext
      obtain ⟨-, hnext⟩ := hnext
      cases hnext
      apply hs.free hgood

/-! ### Attachments do not mix -/

theorem Inv.ofDriver_arena {n : ℕ} {cls : SlabClass} (h : Inv s)
    (hn : n ∈ s.heap.slabArenas .dma cls) :
  s.OfDriver (.arena n)
  := by
  obtain ⟨hsource, hserves⟩ := h.clean.arenas .dma cls n hn
  obtain ⟨src, hsrc⟩ := ne_none_iff_exists'.mp hserves
  rw [hsrc] at hsource
  obtain ⟨g, hactive, rfl⟩ := map_eq_some_iff.mp hsrc
  use g

theorem Inv.ofDriver_slot {cls : SlabClass} {b : NsMemBlock} (h : Inv s)
    (hb : b ∈ s.heap.slabFree .dma cls) :
  s.OfDriver b.alloc
  := by
  have hlisted := h.clean.clean cls b hb
  cases b with
  | slot n i =>
    obtain ⟨cls', hn⟩ := hlisted
    apply h.ofDriver_arena hn
  | oneOff n => cases hlisted

theorem Inv.ofDriver_dmaFreed {l : Label} {a : NsAlloc} (h : Inv s) (hgood : s.sameAttachment l)
    (ha : s.DmaFreed l a) :
  s.OfDriver a
  := by
  cases l with
  | attach | malloc size env => cases ha
  | detach =>
    cases a with
    | arena n =>
      obtain ⟨cls, hn⟩ := ha
      apply h.ofDriver_arena hn
    | block n => cases ha
  | free b =>
    obtain ⟨horigin, hactive, rfl⟩ := ha
    obtain ⟨g, hg⟩ := ne_none_iff_exists'.mp hactive
    refine ⟨g, hg, hgood g hg ?_⟩
    rw [ofDma, horigin]

/-- Every slot on a free list of the DMA world is in memory of the attached driver, and a driver is
given back only what it gave out. -/
theorem slabs_of_attachment (h : system.Reach sameAttachment s) :
  (∀ cls, ∀ b ∈ s.heap.slabFree .dma cls, s.OfDriver b.alloc) ∧
    (∀ size env, ∀ b ∈ (s.heap.netstackMalloc size env).2,
      (s.heap.netstackMalloc size env).1.source b.alloc ≠ none) ∧
    ∀ l, s.sameAttachment l → s.next l ≠ none → ∀ a, s.DmaFreed l a → s.OfDriver a
  := by
  have hinv := inv_of_reach h
  refine ⟨?_, ?_, ?_⟩
  · intro cls b hb
    apply hinv.ofDriver_slot hb
  · intro size env b hb
    apply (hinv.clean.sound.served_netstackMalloc size env).held (hinv.clean.listed_of _) b hb
  · intro l hgood _ a ha
    apply hinv.ofDriver_dmaFreed hgood ha

def plenty : MallocEnv := ⟨true, true, true⟩

def attached : List Label :=
  [.attach, .malloc 1000 plenty, .malloc 65600 plenty]

def returned : List Label :=
  attached ++ [.free (.slot 0 63), .free (.oneOff 1), .detach] ++ attached

theorem returned_enabled :
  (system.exec ⟨NsHeap.empty, 0⟩ returned).isSome = true
  := by
  decide

theorem slabs_of_attachment_returned :
  ∃ s, system.Reach sameAttachment s ∧ .slot 2 0 ∈ s.heap.slabFree .dma 1 ∧ s.OfDriver (.arena 2) ∧
    s.next (.free (.oneOff 3)) ≠ none ∧ s.OfDriver (.block 3)
  := by
  have hreach : system.Reach sameAttachment (system.last _ returned returned_enabled) := by
    apply TransitionSystem.reach_last rfl
    decide
  obtain ⟨hfree, -, hdma⟩ := slabs_of_attachment hreach
  have hslot : .slot 2 0 ∈ (system.last _ returned returned_enabled).heap.slabFree .dma 1 := by
    decide
  have hblock : (system.last _ returned returned_enabled).next (.free (.oneOff 3)) ≠ none := by
    decide
  have hgood : (system.last _ returned returned_enabled).sameAttachment (.free (.oneOff 3)) := by
    decide
  exact ⟨_, hreach, hslot, hfree _ _ hslot, hblock, hdma _ hgood hblock _ ⟨rfl, nofun, rfl⟩⟩

def outlived : List Label :=
  attached ++ [.detach, .attach, .free (.slot 0 63)]

theorem outlived_enabled :
  (system.exec ⟨NsHeap.empty, 0⟩ outlived).isSome = true
  := by
  decide

/-- The slot is on a free list of the second driver, and the next allocation returns it, although its
arena was given back. -/
theorem slot_outlives_attachment :
  ∃ s, system.Reachable s ∧ .slot 0 63 ∈ s.heap.slabFree .dma 1 ∧
    (s.heap.netstackMalloc 1000 plenty).2 = some (.slot 0 63) ∧
    (s.heap.netstackMalloc 1000 plenty).1.source (.arena 0) = none ∧
    s.next (.free (.oneOff 1)) ≠ none ∧ s.DmaFreed (.free (.oneOff 1)) (.block 1) ∧
    s.heap.activeNetdev = some 2 ∧ s.heap.source (.block 1) = some (.driver 1)
  := by
  have hreach : system.Reachable (system.last _ outlived outlived_enabled) :=
    TransitionSystem.reachable_last rfl
  refine ⟨_, hreach, ?_, ?_, ?_, ?_, ⟨?_, ?_, ?_⟩, ?_, ?_⟩ <;> decide

end NsRun
