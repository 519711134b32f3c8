import LwipAmiga.Heap.Source
import Mathlib.Algebra.BigOperators.Group.List.Lemmas
import Mathlib.Algebra.GroupWithZero.Nat

/-!
# No slot in two places

While the attached driver does not change, a slot is on at most one free list, once, or allocated, and
`ns_MemInUse` is the sum of the sizes of the blocks that are allocated.
-/

open Function List

namespace NsHeap

variable {h h' : NsHeap} {w w' : NsWorld} {cls cls' : SlabClass} {b b' : NsMemBlock}

def SlotOf (h : NsHeap) (w : NsWorld) (cls : SlabClass) : NsMemBlock → Prop
  | .slot n i => n ∈ h.slabArenas w cls ∧ i < nslabArenaSlots cls
  | .oneOff _ => False

def Charged (h : NsHeap) (b : NsMemBlock) : Prop :=
  (∃ w cls, h.SlotOf w cls b ∧ h.origin b = .slab w cls ∧ h.size b = nslabSlot cls) ∨
    ∃ w n, b = .oneOff n ∧ h.origin b = ownOrigin w ∧ h.source b.alloc = h.serves w ∧
      h.serves w ≠ none

structure Tidy (h : NsHeap) : Prop extends h.Clean where
  unique : ∀ {w cls w' cls' n}, n ∈ h.slabArenas w cls → n ∈ h.slabArenas w' cls' →
    w = w' ∧ cls = cls'
  free : ∀ w cls, ∀ b ∈ h.slabFree w cls, h.SlotOf w cls b ∧ h.origin b = .free
  nodup : ∀ w cls, (h.slabFree w cls).Nodup
  charged : ∀ b ∈ h.live, h.Charged b
  liveNodup : h.live.Nodup
  inUse : h.memInUse.toNat = (h.live.map fun b => (h.size b).toNat).sum % 2 ^ 32

theorem tidy_empty :
  empty.Tidy
  := by
  refine ⟨clean_empty, nofun, nofun, ?_, nofun, nodup_nil, rfl⟩
  intro w cls
  exact nodup_nil

theorem Tidy.eq_of_slotOf (ht : h.Tidy) (hb : h.SlotOf w cls b) (hb' : h.SlotOf w' cls' b) :
  w = w' ∧ cls = cls'
  := by
  cases b with
  | slot n i => exact ht.unique hb.1 hb'.1
  | oneOff n => contradiction

theorem Tidy.lt_fresh {n : ℕ} (ht : h.Tidy) (hn : n ∈ h.slabArenas w cls) :
  n < h.fresh
  := by
  obtain ⟨hsource, hserves⟩ := ht.arenas w cls n hn
  obtain ⟨src, hsrc⟩ := Option.ne_none_iff_exists'.mp hserves
  rw [hsrc] at hsource
  exact ht.fresh _ _ hsource

theorem Charged.origin_ne (hb : h.Charged b) :
  h.origin b ≠ .free
  := by
  obtain ⟨w, cls, -, horigin, -⟩ | ⟨w, n, -, horigin, -⟩ := hb
  · rw [horigin]
    nofun
  · rw [horigin]
    cases w <;> nofun

/-! ### `netstack_malloc` -/

theorem SlotOf.nslabGrow (hb : h.SlotOf w cls b) :
  (h.nslabGrow cls').SlotOf w cls b
  := by
  cases b with
  | slot n i => exact ⟨mem_setAt_cons hb.1, hb.2⟩
  | oneOff n => contradiction

theorem Tidy.origin_nslabGrow (ht : h.Tidy) (hb : h.SlotOf w cls b) :
  (h.nslabGrow cls').origin b = h.origin b
  := by
  simp only [NsHeap.nslabGrow]
  rw [if_neg]
  intro hmem
  obtain ⟨i, rfl⟩ := mem_slots hmem
  exact lt_irrefl _ (ht.lt_fresh hb.1)

theorem nodup_slots (n : ℕ) (cls : SlabClass) :
  (slots n cls).Nodup
  := by
  apply nodup_range.map
  intro i j hij
  cases hij
  rfl

theorem mem_slots_iff {n : ℕ} :
  b ∈ slots n cls ↔ ∃ i < nslabArenaSlots cls, b = .slot n i
  := by
  simp [slots, eq_comm]

theorem Charged.nslabGrow (ht : h.Tidy) (hb : h.Charged b) (cls : SlabClass) :
  (h.nslabGrow cls).Charged b
  := by
  obtain ⟨w', cls', hslot, horigin, hsize⟩ | ⟨w', n, rfl, horigin, hsource, hserves⟩ := hb
  · left
    refine ⟨w', cls', hslot.nslabGrow, ?_, hsize⟩
    rw [ht.origin_nslabGrow hslot]
    apply horigin
  · right
    refine ⟨w', n, rfl, ?_, ?_, hserves⟩
    · simp only [NsHeap.nslabGrow]
      rw [if_neg]
      · apply horigin
      · intro hmem
        obtain ⟨i, hi⟩ := mem_slots hmem
        cases hi
    · change update h.source (.arena h.fresh) (h.serves h.world) (.block n) = h.serves w'
      have hne : NsAlloc.block n ≠ .arena h.fresh := by simp
      rw [update_of_ne hne]
      apply hsource

theorem Tidy.nslabGrow (ht : h.Tidy) (cls : SlabClass) :
  (h.nslabGrow cls).Tidy
  := by
  constructor
  · apply ht.toClean.nslabGrow
  · intro w cls₁ w' cls₂ n hn hn'
    obtain ⟨rfl, rfl, rfl⟩ | hold := mem_slabArenas_nslabGrow hn
    · obtain ⟨rfl, rfl, -⟩ | hold' := mem_slabArenas_nslabGrow hn'
      · exact ⟨rfl, rfl⟩
      · exact absurd (ht.lt_fresh hold') (lt_irrefl _)
    · obtain ⟨-, -, rfl⟩ | hold' := mem_slabArenas_nslabGrow hn'
      · exact absurd (ht.lt_fresh hold) (lt_irrefl _)
      · exact ht.unique hold hold'
  · intro w cls' b hb
    obtain ⟨rfl, rfl, hb⟩ | hold := mem_setAt hb
    · obtain hnew | hold := mem_append.mp hb
      · obtain ⟨i, hi, rfl⟩ := mem_slots_iff.mp (mem_reverse.mp hnew)
        refine ⟨⟨mem_setAt_self, hi⟩, ?_⟩
        simp only [NsHeap.nslabGrow]
        rw [if_pos (mem_reverse.mp hnew)]
      · obtain ⟨hslot, horigin⟩ := ht.free _ _ b hold
        refine ⟨hslot.nslabGrow, ?_⟩
        rw [ht.origin_nslabGrow hslot]
        apply horigin
    · obtain ⟨hslot, horigin⟩ := ht.free _ _ b hold
      refine ⟨hslot.nslabGrow, ?_⟩
      rw [ht.origin_nslabGrow hslot]
      apply horigin
  · intro w cls'
    obtain ⟨rfl, rfl, heq⟩ | ⟨-, heq⟩ := setAt_cases h.slabFree h.world w cls cls'
      ((slots h.fresh cls).reverse ++ h.slabFree h.world cls)
    · change (setAt h.slabFree h.world cls' _ h.world cls').Nodup
      rw [heq]
      apply List.Nodup.append (nodup_reverse.mpr (nodup_slots _ _)) (ht.nodup _ _)
      intro b hnew hold
      obtain ⟨i, rfl⟩ := mem_slots (mem_reverse.mp hnew)
      exact lt_irrefl _ (ht.lt_fresh (ht.free _ _ _ hold).1.1)
    · change (setAt h.slabFree h.world cls _ w cls').Nodup
      rw [heq]
      apply ht.nodup
  · intro b hb
    apply (ht.charged b hb).nslabGrow ht
  · apply ht.liveNodup
  · apply ht.inUse

theorem sum_size_cons
    {size : NsMemBlock → UInt32} {inUse x : UInt32} {l : List NsMemBlock} (hb : b ∉ l)
    (hsum : inUse.toNat = (l.map fun b => (size b).toNat).sum % 2 ^ 32) :
  (inUse + x).toNat =
    ((b :: l).map fun b' => (update size b x b').toNat).sum % 2 ^ 32
  := by
  have hrest : (l.map fun b' => (update size b x b').toNat) =
      l.map fun b => (size b).toNat := by
    apply map_congr_left
    intro b' hb'
    rw [update_of_ne]
    rintro rfl
    contradiction
  rw [map_cons, sum_cons, hrest, update_self, UInt32.toNat_add, hsum]
  omega

theorem Tidy.takeSlot
    {rest : List NsMemBlock} (ht : h.Tidy) (hfree : h.slabFree h.world cls = b :: rest) :
  (h.takeSlot cls b rest).Tidy
  := by
  have hmem : b ∈ h.slabFree h.world cls := by
    rw [hfree]
    exact .head _
  obtain ⟨hslot, horigin⟩ := ht.free _ _ b hmem
  have hnot : b ∉ h.live := by
    intro hlive
    exact (ht.charged b hlive).origin_ne horigin
  have hnodup := ht.nodup h.world cls
  rw [hfree] at hnodup
  obtain ⟨hrest, hnodup⟩ := nodup_cons.mp hnodup
  have hother : ∀ b', b' ≠ b → (h.takeSlot cls b rest).origin b' = h.origin b' := fun b' hb' =>
    update_of_ne hb' ..
  constructor
  · apply (ht.sound.served_takeSlot hfree).clean ht.toClean
  · exact ht.unique
  · intro w cls' b' hb'
    change b' ∈ setAt h.slabFree h.world cls rest w cls' at hb'
    obtain ⟨rfl, rfl, heq⟩ | ⟨hne, heq⟩ := setAt_cases h.slabFree h.world w cls cls' rest
    · rw [heq] at hb'
      rw [hother b' (ne_of_mem_of_not_mem hb' hrest)]
      apply ht.free
      rw [hfree]
      exact .tail _ hb'
    · rw [heq] at hb'
      rw [hother]
      · exact ht.free w cls' b' hb'
      · -- The slot was on the list of its class only.
        rintro rfl
        exact hne (ht.eq_of_slotOf (ht.free w cls' b' hb').1 hslot)
  · intro w cls'
    obtain ⟨-, -, heq⟩ | ⟨-, heq⟩ := setAt_cases h.slabFree h.world w cls cls' rest
    · change (setAt h.slabFree h.world cls rest w cls').Nodup
      rw [heq]
      apply hnodup
    · change (setAt h.slabFree h.world cls rest w cls').Nodup
      rw [heq]
      apply ht.nodup
  · intro b' hb'
    obtain rfl | hlive := mem_cons.mp hb'
    · exact .inl ⟨h.world, cls, hslot, update_self .., update_self ..⟩
    · have hne : b' ≠ b := by
        rintro rfl
        contradiction
      have hsize : (h.takeSlot cls b rest).size b' = h.size b' := update_of_ne hne ..
      obtain ⟨w, cls', hslot', horigin', hsize'⟩ | ⟨w, n, heq, horigin', hsource⟩ :=
        ht.charged b' hlive
      · exact .inl ⟨w, cls', hslot', (hother b' hne).trans horigin', hsize.trans hsize'⟩
      · exact .inr ⟨w, n, heq, (hother b' hne).trans horigin', hsource⟩
  · exact nodup_cons.mpr ⟨hnot, ht.liveNodup⟩
  · exact sum_size_cons hnot ht.inUse

theorem Tidy.oneOff (ht : h.Tidy) (total : UInt32) (alloc : Bool) :
  (h.oneOff total alloc).1.Tidy
  := by
  cases alloc with
  | false => apply ht
  | true =>
    have hnot : .oneOff h.fresh ∉ h.live := by
      intro hlive
      exact lt_irrefl _ (ht.live _ hlive)
    have hother : ∀ b', b' ≠ .oneOff h.fresh →
        (h.oneOff total true).1.origin b' = h.origin b' := fun b' hb' =>
      update_of_ne hb' ..
    constructor
    · apply (ht.sound.served_oneOff total true).clean ht.toClean
    · exact ht.unique
    · intro w cls b hb
      obtain ⟨hslot, horigin⟩ := ht.free w cls b hb
      refine ⟨hslot, ?_⟩
      rw [hother]
      · apply horigin
      · rintro rfl
        contradiction
    · apply ht.nodup
    · intro b hb
      obtain rfl | hlive := mem_cons.mp hb
      · refine .inr ⟨h.world, h.fresh, rfl, ?_, update_self .., h.serves_world⟩
        change update h.origin (.oneOff h.fresh) _ (.oneOff h.fresh) = _
        rw [update_self]
        cases h.world <;> rfl
      · have hne : b ≠ .oneOff h.fresh := by
          rintro rfl
          contradiction
        have hsize : (h.oneOff total true).1.size b = h.size b := update_of_ne hne ..
        obtain ⟨w, cls, hslot, horigin, hsize'⟩ | ⟨w, n, rfl, horigin, hsource, hserves⟩ :=
          ht.charged b hlive
        · exact .inl ⟨w, cls, hslot, (hother b hne).trans horigin, hsize.trans hsize'⟩
        · refine .inr ⟨w, n, rfl, (hother _ hne).trans horigin, ?_, hserves⟩
          change update h.source (.block h.fresh) (h.serves h.world) (.block n) = h.serves w
          rw [update_of_ne]
          · apply hsource
          · rintro ⟨⟩
            contradiction
    · exact nodup_cons.mpr ⟨hnot, ht.liveNodup⟩
    · exact sum_size_cons hnot ht.inUse

/-! ### `netstack_free` -/

theorem Tidy.current (ht : h.Tidy) (hb : b ∈ h.live) :
  h.Current b
  := by
  intro _ cls horigin
  obtain ⟨w, cls', hslot, horigin', -⟩ | ⟨w, n, -, horigin', -⟩ := ht.charged b hb
  · rw [horigin'] at horigin
    cases horigin
    cases b with
    | slot n i => exact ⟨_, hslot.1⟩
    | oneOff n => contradiction
  · rw [horigin'] at horigin
    cases w <;> cases horigin

theorem sum_size_erase
    {size : NsMemBlock → UInt32} {inUse : UInt32} {l : List NsMemBlock} (hb : b ∈ l)
    (hsum : inUse.toNat = (l.map fun b => (size b).toNat).sum % 2 ^ 32) :
  (inUse - size b).toNat = ((l.erase b).map fun b => (size b).toNat).sum % 2 ^ 32
  := by
  have herase := ((perm_cons_erase hb).map fun b => (size b).toNat).sum_eq
  rw [map_cons, sum_cons] at herase
  have hlt := (size b).toNat_lt
  rw [UInt32.toNat_sub, hsum, herase]
  omega

theorem Tidy.netstackFree_slab
    (ht : h.Tidy) (hslot : h.SlotOf w cls b) (horigin : h.origin b = .slab w cls) :
  h.netstackFree b = (h.account b (nslabSlot cls)).pushSlot w cls b
  := by
  cases w with
  | exec => rw [NsHeap.netstackFree, horigin]
  | dma =>
    rw [NsHeap.netstackFree, horigin]
    dsimp only
    rw [if_neg]
    cases b with
    | oneOff n => contradiction
    | slot n i =>
      have hserves := (ht.arenas .dma cls n hslot.1).2
      rw [serves] at hserves
      cases hactive : h.activeNetdev with
      | none =>
        rw [hactive] at hserves
        contradiction
      | some g => simp

theorem netstackFree_own
    (horigin : h.origin b = ownOrigin w) (hsource : h.source b.alloc = h.serves w)
    (hserves : h.serves w ≠ none) :
  h.netstackFree b =
    { h.account b (h.size b) with source := update h.source b.alloc none }
  := by
  cases w with
  | exec => rw [NsHeap.netstackFree, horigin, ownOrigin]; rfl
  | dma =>
    rw [NsHeap.netstackFree, horigin, ownOrigin]
    dsimp only
    cases hactive : h.activeNetdev with
    | none =>
      rw [serves, hactive] at hserves
      contradiction
    | some g =>
      have hactive' : (h.account b (h.size b)).activeNetdev = some g := hactive
      rw [serves, hactive] at hsource
      rw [netdevifDmaFree, hactive']
      exact if_pos hsource

theorem Tidy.free_slab
    (ht : h.Tidy) (hb : b ∈ h.live) (hslot : h.SlotOf w cls b) (horigin : h.origin b = .slab w cls)
    (hsize : h.size b = nslabSlot cls) :
  ((h.account b (nslabSlot cls)).pushSlot w cls b).Tidy
  := by
  have hclean := (frees_netstackFree h b).clean ht.toClean (ht.current hb)
  rw [ht.netstackFree_slab hslot horigin] at hclean
  have hnot : ∀ w' cls', b ∉ h.slabFree w' cls' := by
    intro w' cls' hmem
    have hfree := (ht.free w' cls' b hmem).2
    rw [horigin] at hfree
    cases hfree
  have hother : ∀ b', b' ≠ b →
      ((h.account b (nslabSlot cls)).pushSlot w cls b).origin b' = h.origin b' := fun b' hb' =>
    update_of_ne hb' ..
  constructor
  · apply hclean
  · exact ht.unique
  · intro w' cls' b' hb'
    obtain ⟨rfl, rfl, hnew⟩ | hold := mem_setAt hb'
    · obtain rfl | hold := mem_cons.mp hnew
      · exact ⟨hslot, update_self ..⟩
      · rw [hother b' (ne_of_mem_of_not_mem hold (hnot _ _))]
        exact ht.free _ _ b' hold
    · rw [hother b' (ne_of_mem_of_not_mem hold (hnot _ _))]
      exact ht.free _ _ b' hold
  · intro w' cls'
    change (setAt h.slabFree w cls (b :: h.slabFree w cls) w' cls').Nodup
    obtain ⟨-, -, heq⟩ | ⟨-, heq⟩ := setAt_cases h.slabFree w w' cls cls' (b :: h.slabFree w cls)
    · rw [heq]
      exact nodup_cons.mpr ⟨hnot _ _, ht.nodup _ _⟩
    · rw [heq]
      apply ht.nodup
  · intro b' hb'
    obtain ⟨hne, hlive⟩ := (List.Nodup.mem_erase_iff ht.liveNodup).mp hb'
    obtain ⟨w', cls', hslot', horigin', hsize'⟩ | ⟨w', n, heq, horigin', hsource⟩ :=
      ht.charged b' hlive
    · exact .inl ⟨w', cls', hslot', (hother b' hne).trans horigin', hsize'⟩
    · exact .inr ⟨w', n, heq, (hother b' hne).trans horigin', hsource⟩
  · exact ht.liveNodup.erase b
  · have hsum := sum_size_erase hb ht.inUse
    rw [hsize] at hsum
    apply hsum

theorem Tidy.free_own {n : ℕ} (ht : h.Tidy) (hb : .oneOff n ∈ h.live)
    (horigin : h.origin (.oneOff n) = ownOrigin w) (hsource : h.source (.block n) = h.serves w)
    (hserves : h.serves w ≠ none) :
  Tidy { h.account (.oneOff n) (h.size (.oneOff n)) with
    source := update h.source (.block n) none }
  := by
  have hclean := (frees_netstackFree h (.oneOff n)).clean ht.toClean (ht.current hb)
  rw [netstackFree_own horigin hsource hserves] at hclean
  refine ⟨hclean, ht.unique, ht.free, ht.nodup, ?_, ht.liveNodup.erase _, sum_size_erase hb ht.inUse⟩
  intro b' hb'
  obtain ⟨hne, hlive⟩ := (List.Nodup.mem_erase_iff ht.liveNodup).mp hb'
  obtain ⟨w', cls', hslot', horigin', hsize'⟩ | ⟨w', n', rfl, horigin', hsource', hserves'⟩ :=
    ht.charged b' hlive
  · exact .inl ⟨w', cls', hslot', horigin', hsize'⟩
  · refine .inr ⟨w', n', rfl, horigin', ?_, hserves'⟩
    change update h.source (.block n) none (.block n') = h.serves w'
    rw [update_of_ne]
    · apply hsource'
    · rintro ⟨⟩
      contradiction

theorem Tidy.attach (ht : h.Tidy) (hnone : h.activeNetdev = none) (g : ℕ) :
  Tidy { h with activeNetdev := some g }
  := by
  refine ⟨ht.toClean.attach hnone g, ht.unique, ht.free, ht.nodup, ?_, ht.liveNodup, ht.inUse⟩
  intro b hb
  obtain hslab | ⟨w, n, heq, horigin, hsource, hserves⟩ := ht.charged b hb
  · exact .inl hslab
  · cases w with
    | dma =>
      rw [serves, hnone] at hserves
      contradiction
    | exec => exact .inr ⟨.exec, n, heq, horigin, hsource, hserves⟩

end NsHeap
