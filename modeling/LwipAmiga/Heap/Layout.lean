import LwipAmiga.Heap.Memory
import LwipAmiga.Heap.Tidy
import LwipAmiga.Lib.Ranges

/-!
# Where the heap lies

A layout gives the allocations of the heap their addresses, and the blocks lie in them.
-/

open Function

theorem hdr_le_slot :
  ∀ cls, NSMEM_HDR ≤ (nslabSlot cls).toNat
  := by
  decide

/-! ### Known blocks -/

namespace NsHeap

variable {h : NsHeap} {w : NsWorld} {cls c : SlabClass} {b : NsMemBlock}

def Known (h : NsHeap) (b : NsMemBlock) : Prop :=
  (∃ w cls, h.SlotOf w cls b) ∨ ∃ n, b = .oneOff n ∧ b ∈ h.live

theorem Tidy.known_of_live (ht : h.Tidy) (hb : b ∈ h.live) :
  h.Known b
  := by
  obtain ⟨w, cls, hslot, -⟩ | ⟨w, n, heq, -⟩ := ht.charged b hb
  · exact .inl ⟨w, cls, hslot⟩
  · exact .inr ⟨n, heq, hb⟩

theorem Tidy.known_of_free (ht : h.Tidy) (hb : b ∈ h.slabFree w cls) :
  h.Known b
  := .inl ⟨w, cls, (ht.free w cls b hb).1⟩

theorem Tidy.source_arena {n : ℕ} (ht : h.Tidy) (hn : n ∈ h.slabArenas w cls) :
  h.source (.arena n) ≠ none
  := by
  obtain ⟨hsource, hserves⟩ := ht.arenas w cls n hn
  rw [hsource]
  apply hserves

theorem Tidy.source_of_known (ht : h.Tidy) (hb : h.Known b) :
  h.source b.alloc ≠ none
  := by
  obtain ⟨w, cls, hslot⟩ | ⟨n, rfl, hlive⟩ := hb
  · cases b with
    | slot n i => exact ht.source_arena hslot.1
    | oneOff n => contradiction
  · obtain ⟨w, cls, hslot, -⟩ | ⟨w, m, -, -, hsource, hserves⟩ := ht.charged _ hlive
    · contradiction
    · rw [hsource]
      apply hserves

theorem Tidy.index_lt_fresh {a : NsAlloc} (ht : h.Tidy) (ha : h.source a ≠ none) :
  a.index < h.fresh
  := by
  obtain ⟨src, hsrc⟩ := Option.ne_none_iff_exists'.mp ha
  exact ht.fresh a src hsrc

theorem known_nslabGrow (hb : (h.nslabGrow c).Known b) :
  (∃ i < nslabArenaSlots c, b = .slot h.fresh i) ∨ h.Known b
  := by
  obtain ⟨w, cls, hslot⟩ | hlive := hb
  · cases b with
    | oneOff n => contradiction
    | slot n i =>
      obtain ⟨hn, hi⟩ := hslot
      obtain ⟨-, rfl, rfl⟩ | hold := mem_slabArenas_nslabGrow hn
      · exact .inl ⟨i, hi, rfl⟩
      · exact .inr (.inl ⟨w, cls, hold, hi⟩)
  · exact .inr (.inr hlive)

theorem source_update
    {a x : NsAlloc} {src : Option MemSource} (hx : update h.source a src x ≠ none) :
  x = a ∨ x ≠ a ∧ h.source x ≠ none
  := by
  by_cases heq : x = a
  · exact .inl heq
  · rw [update_of_ne heq] at hx
    exact .inr ⟨heq, hx⟩

end NsHeap

/-! ### Layouts -/

structure NsLayout where
  base : NsAlloc → ℕ
  cls : ℕ → SlabClass

namespace NsLayout

def addr (L : NsLayout) : NsMemBlock → ℕ
  | .slot n i => L.base (.arena n) + NSLAB_ARENA_HDR + i * (nslabSlot (L.cls n)).toNat
  | .oneOff n => L.base (.block n)

def extent (L : NsLayout) (h : NsHeap) : NsAlloc → ℕ
  | .arena n => nslabArenaSize (L.cls n)
  | .block n => (h.size (.oneOff n)).toNat

def cap (L : NsLayout) (h : NsHeap) : NsMemBlock → ℕ
  | .slot n _ => (nslabSlot (L.cls n)).toNat
  | .oneOff n => (h.size (.oneOff n)).toNat

structure Places (L : NsLayout) (h : NsHeap) (outstanding : List (ℕ × ℕ)) : Prop where
  tidy : h.Tidy
  cls : ∀ w cls, ∀ n ∈ h.slabArenas w cls, L.cls n = cls
  hdr : ∀ n, .oneOff n ∈ h.live → NSMEM_HDR ≤ (h.size (.oneOff n)).toNat
  bound : ∀ a, h.source a ≠ none → 0 < L.base a ∧ L.base a + L.extent h a ≤ 2 ^ 32
  apart : ∀ a a', h.source a ≠ none → h.source a' ≠ none → a ≠ a' →
    Apart (L.base a) (L.extent h a) (L.base a') (L.extent h a')
  outstanding : ∀ a, h.source a ≠ none → (L.base a, L.extent h a) ∈ outstanding

structure Writes (L : NsLayout) (h : NsHeap) (b : NsMemBlock) (x y : ℕ) (mem mem' : ℕ → ℕ) :
    Prop where
  first : mem' (L.addr b) = x
  second : mem' (L.addr b + 4) = y
  block : ∀ b', h.Known b' → b' ≠ b →
    mem' (L.addr b') = mem (L.addr b') ∧ mem' (L.addr b' + 4) = mem (L.addr b' + 4)
  arena : ∀ w cls, ∀ n ∈ h.slabArenas w cls, mem' (L.base (.arena n)) = mem (L.base (.arena n))

namespace Places

variable {L : NsLayout} {h : NsHeap} {out : List (ℕ × ℕ)} {w : NsWorld} {cls : SlabClass}
  {b b' : NsMemBlock}

theorem hdr_le_cap (hp : L.Places h out) (hb : h.Known b) :
  NSMEM_HDR ≤ L.cap h b
  := by
  obtain ⟨w, cls, hslot⟩ | ⟨n, rfl, hlive⟩ := hb
  · cases b with
    | oneOff n => contradiction
    | slot n i => apply hdr_le_slot
  · exact hp.hdr n hlive

theorem within (hp : L.Places h out) (hb : h.Known b) :
  L.base b.alloc ≤ L.addr b ∧ L.addr b + L.cap h b ≤ L.base b.alloc + L.extent h b.alloc ∧
    ∀ n i, b = .slot n i → L.base b.alloc + NSLAB_ARENA_HDR ≤ L.addr b
  := by
  cases b with
  | oneOff n => exact ⟨le_rfl, le_rfl, nofun⟩
  | slot n i =>
    obtain ⟨w, cls, hn, hi⟩ | ⟨n, heq, -⟩ := hb
    · have hcls := hp.cls w cls n hn
      have hmul : (i + 1) * (nslabSlot cls).toNat ≤ nslabArenaSlots cls * (nslabSlot cls).toNat :=
        Nat.mul_le_mul_right _ hi
      rw [Nat.succ_mul] at hmul
      simp only [addr, cap, extent, NsMemBlock.alloc, hcls, nslabArenaSize]
      refine ⟨by omega, by omega, ?_⟩
      intro _ _ _
      omega
    · cases heq

theorem apart_blocks
    (hp : L.Places h out) (hb : h.Known b) (hb' : h.Known b') (hne : b ≠ b') :
  Apart (L.addr b) (L.cap h b) (L.addr b') (L.cap h b')
  := by
  obtain ⟨hlo, hhi, -⟩ := hp.within hb
  obtain ⟨hlo', hhi', -⟩ := hp.within hb'
  by_cases halloc : b.alloc = b'.alloc
  · cases b with
    | oneOff n => exact absurd (NsHeap.eq_oneOff_of_alloc halloc.symm).symm hne
    | slot n i =>
      cases b' with
      | oneOff n' => cases halloc
      | slot n' i' =>
        cases halloc
        -- Slots of one arena are apart by their numbers.
        have hi : i ≠ i' := by
          rintro rfl
          contradiction
        simp only [Apart, addr, cap]
        generalize (nslabSlot (L.cls n)).toNat = s
        obtain hlt | hlt := Nat.lt_or_gt_of_ne hi
        · have hmul := Nat.mul_le_mul_right s hlt
          rw [Nat.succ_mul] at hmul
          omega
        · have hmul := Nat.mul_le_mul_right s hlt
          rw [Nat.succ_mul] at hmul
          omega
  · have hapart := hp.apart _ _ (hp.tidy.source_of_known hb) (hp.tidy.source_of_known hb') halloc
    unfold Apart at *
    omega

theorem apart_arena {n : ℕ} (hp : L.Places h out) (hn : n ∈ h.slabArenas w cls) (hb : h.Known b) :
  Apart (L.base (.arena n)) NSLAB_ARENA_HDR (L.addr b) (L.cap h b)
  := by
  obtain ⟨hlo, hhi, hslot⟩ := hp.within hb
  by_cases halloc : b.alloc = .arena n
  · cases b with
    | oneOff n' => cases halloc
    | slot n' i =>
      have hle := hslot n' i rfl
      rw [halloc] at hle
      exact .inl hle
  · have hapart := hp.apart _ _ (hp.tidy.source_of_known hb) (hp.tidy.source_arena hn) halloc
    have hextent : NSLAB_ARENA_HDR ≤ L.extent h (.arena n) := Nat.le_add_right _ _
    unfold Apart at *
    omega

theorem addr_injective
    (hp : L.Places h out) (hb : h.Known b) (hb' : h.Known b') (heq : L.addr b = L.addr b') :
  b = b'
  := by
  by_contra hne
  have hapart := hp.apart_blocks hb hb' hne
  have hcap := hp.hdr_le_cap hb
  have hcap' := hp.hdr_le_cap hb'
  unfold Apart at hapart
  unfold NSMEM_HDR at hcap hcap'
  omega

theorem addr_pos (hp : L.Places h out) (hb : h.Known b) :
  L.addr b ≠ 0
  := by
  obtain ⟨hpos, -⟩ := hp.bound _ (hp.tidy.source_of_known hb)
  obtain ⟨hlo, -⟩ := hp.within hb
  omega

theorem writes (hp : L.Places h out) (hb : h.Known b) (mem : ℕ → ℕ) (x y : ℕ) :
  Writes L h b x y mem (update (update mem (L.addr b) x) (L.addr b + 4) y)
  := by
  have hcap := hp.hdr_le_cap hb
  unfold NSMEM_HDR at hcap
  constructor
  · rw [update_of_ne (by omega), update_self]
  · rw [update_self]
  · intro b' hb' hne
    have hapart := hp.apart_blocks hb' hb hne
    have hcap' := hp.hdr_le_cap hb'
    unfold Apart at hapart
    unfold NSMEM_HDR at hcap'
    constructor
    · rw [update_of_ne (by omega), update_of_ne (by omega)]
    · rw [update_of_ne (by omega), update_of_ne (by omega)]
  · intro w cls n hn
    have hapart := hp.apart_arena hn hb
    unfold Apart NSLAB_ARENA_HDR at hapart
    rw [update_of_ne (by omega), update_of_ne (by omega)]

theorem kept
    {h' : NsHeap} {out' : List (ℕ × ℕ)} (hp : L.Places h out) (ht : h'.Tidy)
    (harenas : h'.slabArenas = h.slabArenas) (hlive : ∀ n, .oneOff n ∈ h'.live → .oneOff n ∈ h.live)
    (hsize : ∀ n, h'.size (.oneOff n) = h.size (.oneOff n))
    (hsource : ∀ a, h'.source a ≠ none → h.source a ≠ none ∧ (L.base a, L.extent h a) ∈ out') :
  L.Places h' out'
  := by
  have hextent : ∀ a, L.extent h' a = L.extent h a := by
    intro a
    cases a with
    | arena n => rfl
    | block n => rw [extent, extent, hsize]
  constructor
  · exact ht
  · rw [harenas]
    exact hp.cls
  · intro n hn
    rw [hsize]
    exact hp.hdr n (hlive n hn)
  · intro a ha
    rw [hextent]
    exact hp.bound a (hsource a ha).1
  · intro a a' ha ha' hne
    rw [hextent, hextent]
    exact hp.apart a a' (hsource a ha).1 (hsource a' ha').1 hne
  · intro a ha
    rw [hextent]
    exact (hsource a ha).2

/-! ### New memory -/

theorem apart_fits_block
    {m : NsMem} {size a : ℕ} (hp : L.Places h m.outstanding) (hfits : m.Fits size a)
    (hb : h.Known b) :
  Apart a size (L.addr b) (L.cap h b)
  := by
  have hapart := hfits.2.2 _ (hp.outstanding _ (hp.tidy.source_of_known hb))
  obtain ⟨hlo, hhi, -⟩ := hp.within hb
  unfold Apart
  omega

theorem mem_fits
    {m : NsMem} {mem' : ℕ → ℕ} {size a : ℕ} (hp : L.Places h m.outstanding) (hfits : m.Fits size a)
    (hout : ∀ p, p < a ∨ a + size ≤ p → mem' p = m.mem p) :
  (∀ b, h.Known b → mem' (L.addr b) = m.mem (L.addr b) ∧ mem' (L.addr b + 4) = m.mem (L.addr b + 4)) ∧
    ∀ w cls, ∀ n ∈ h.slabArenas w cls, mem' (L.base (.arena n)) = m.mem (L.base (.arena n))
  := by
  constructor
  · intro b hb
    have hapart := hp.apart_fits_block hfits hb
    have hcap := hp.hdr_le_cap hb
    unfold Apart at hapart
    unfold NSMEM_HDR at hcap
    exact ⟨hout _ (by omega), hout _ (by omega)⟩
  · intro w cls n hn
    have hapart := hfits.2.2 _ (hp.outstanding _ (hp.tidy.source_arena hn))
    have hextent : 0 < L.extent h (.arena n) := Nat.lt_of_lt_of_le (by decide) (Nat.le_add_right _ _)
    apply hout
    omega

end Places

structure Agree (L L' : NsLayout) (h h' : NsHeap) : Prop where
  base : ∀ a, h.source a ≠ none → L'.base a = L.base a
  extent : ∀ a, h.source a ≠ none → L'.extent h' a = L.extent h a
  cls : ∀ n, h.source (.arena n) ≠ none → L'.cls n = L.cls n

theorem Agree.addr
    {L L' : NsLayout} {h h' : NsHeap} {b : NsMemBlock} (hL : Agree L L' h h')
    (hb : h.source b.alloc ≠ none) :
  L'.addr b = L.addr b
  := by
  cases b with
  | oneOff n => exact hL.base _ hb
  | slot n i => rw [NsLayout.addr, NsLayout.addr, hL.base (.arena n) hb, hL.cls n hb]

theorem Places.extend
    {L L' : NsLayout} {m : NsMem} {h h' : NsHeap} {x : NsAlloc} {size a : ℕ}
    (hp : L.Places h m.outstanding) (hL : Agree L L' h h') (ht : h'.Tidy)
    (hsource : ∀ y, h'.source y ≠ none → y = x ∨ y ≠ x ∧ h.source y ≠ none)
    (hcls : ∀ w cls, ∀ n ∈ h'.slabArenas w cls, L'.cls n = cls)
    (hhdr : ∀ n, .oneOff n ∈ h'.live → NSMEM_HDR ≤ (h'.size (.oneOff n)).toNat)
    (hbase : L'.base x = a) (hextent : L'.extent h' x = size) (hfits : m.Fits size a) :
  L'.Places h' ((a, size) :: m.outstanding)
  := by
  refine ⟨ht, hcls, hhdr, ?_, ?_, ?_⟩
  · intro y hy
    obtain rfl | ⟨-, hold⟩ := hsource y hy
    · rw [hbase, hextent]
      exact ⟨hfits.1, hfits.2.1⟩
    · rw [hL.base y hold, hL.extent y hold]
      exact hp.bound y hold
  · intro y y' hy hy' hne
    obtain rfl | ⟨-, hold⟩ := hsource y hy
    · obtain rfl | ⟨-, hold'⟩ := hsource y' hy'
      · contradiction
      · rw [hbase, hextent, hL.base y' hold', hL.extent y' hold']
        exact hfits.2.2 _ (hp.outstanding y' hold')
    · rw [hL.base y hold, hL.extent y hold]
      obtain rfl | ⟨-, hold'⟩ := hsource y' hy'
      · rw [hbase, hextent]
        exact Apart.symm (hfits.2.2 _ (hp.outstanding y hold))
      · rw [hL.base y' hold', hL.extent y' hold']
        exact hp.apart y y' hold hold' hne
  · intro y hy
    obtain rfl | ⟨-, hold⟩ := hsource y hy
    · rw [hbase, hextent]
      exact .head _
    · rw [hL.base y hold, hL.extent y hold]
      exact .tail _ (hp.outstanding y hold)

def withArena (L : NsLayout) (n a : ℕ) (cls : SlabClass) : NsLayout where
  base := Function.update L.base (.arena n) a
  cls := Function.update L.cls n cls

def withBlock (L : NsLayout) (n a : ℕ) : NsLayout where
  base := Function.update L.base (.block n) a
  cls := L.cls

theorem withArena_base (L : NsLayout) (n a : ℕ) (cls : SlabClass) :
  (L.withArena n a cls).base (.arena n) = a
  := by
  simp [withArena]

theorem withArena_cls (L : NsLayout) (n a : ℕ) (cls : SlabClass) :
  (L.withArena n a cls).cls n = cls
  := by
  simp [withArena]

theorem withBlock_base (L : NsLayout) (n a : ℕ) :
  (L.withBlock n a).base (.block n) = a
  := by
  simp [withBlock]

variable {L : NsLayout} {m : NsMem} {h : NsHeap} {a : ℕ}

theorem agree_withArena (ht : h.Tidy) (cls : SlabClass) :
  Agree L (L.withArena h.fresh a cls) h (h.nslabGrow cls)
  := by
  have hne : ∀ n, h.source (.arena n) ≠ none → n ≠ h.fresh := by
    intro n hn
    exact Nat.ne_of_lt (ht.index_lt_fresh hn)
  constructor
  · intro x hx
    cases x with
    | block n => simp [withArena]
    | arena n => simp [withArena, hne n hx]
  · intro x hx
    cases x with
    | block n => rfl
    | arena n => simp [withArena, extent, hne n hx]
  · intro n hn
    simp [withArena, hne n hn]

theorem Places.nslabGrow
    {cls : SlabClass} (hp : L.Places h m.outstanding) (hfits : m.Fits (nslabArenaSize cls) a) :
  (L.withArena h.fresh a cls).Places (h.nslabGrow cls) ((a, nslabArenaSize cls) :: m.outstanding)
  := by
  have hL := agree_withArena (a := a) (L := L) hp.tidy cls
  apply hp.extend hL (hp.tidy.nslabGrow cls) (fun y hy => NsHeap.source_update hy)
  · intro w cls' n hn
    obtain ⟨-, rfl, rfl⟩ | hold := NsHeap.mem_slabArenas_nslabGrow hn
    · apply withArena_cls
    · rw [hL.cls n (hp.tidy.source_arena hold)]
      exact hp.cls w cls' n hold
  · exact hp.hdr
  · apply withArena_base
  · rw [extent, withArena_cls]
  · exact hfits

theorem agree_withBlock (ht : h.Tidy) (total : UInt32) :
  Agree L (L.withBlock h.fresh a) h (h.oneOff total true).1
  := by
  have hne : ∀ n, h.source (.block n) ≠ none → n ≠ h.fresh := by
    intro n hn
    exact Nat.ne_of_lt (ht.index_lt_fresh hn)
  constructor
  · intro x hx
    cases x with
    | block n => simp [withBlock, hne n hx]
    | arena n => simp [withBlock]
  · intro x hx
    cases x with
    | block n => simp [extent, NsHeap.oneOff, hne n hx]
    | arena n => rfl
  · intro n _
    rfl

theorem Places.oneOff
    {total : UInt32} (hp : L.Places h m.outstanding) (hfits : m.Fits total.toNat a)
    (htotal : NSMEM_HDR ≤ total.toNat) :
  (L.withBlock h.fresh a).Places (h.oneOff total true).1 ((a, total.toNat) :: m.outstanding)
  := by
  have hsize : (h.oneOff total true).1.size (.oneOff h.fresh) = total := by
    simp [NsHeap.oneOff]
  apply hp.extend (agree_withBlock hp.tidy total) (hp.tidy.oneOff total true)
    (fun y hy => NsHeap.source_update hy)
  · exact hp.cls
  · intro n hn
    obtain heq | hold := List.mem_cons.mp hn
    · cases heq
      rw [hsize]
      apply htotal
    · have hne : NsMemBlock.oneOff n ≠ .oneOff h.fresh := by
        have hlt := hp.tidy.live n hold
        rintro ⟨⟩
        exact lt_irrefl _ hlt
      change NSMEM_HDR ≤ (update h.size (.oneOff h.fresh) total (.oneOff n)).toNat
      rw [update_of_ne hne]
      exact hp.hdr n hold
  · apply withBlock_base
  · rw [extent, hsize]
  · exact hfits

end NsLayout
