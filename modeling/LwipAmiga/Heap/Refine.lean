import LwipAmiga.Heap.Layout
import LwipAmiga.Lib.Linked

/-!
# The heap in memory represents the heap

The memory represents a heap when its lists are linked in the heap's order and the headers say what the
heap says.
-/

open Function List

def NsOrigin.word : NsOrigin → ℕ
  | .exec => NSMEM_ORIGIN_EXEC
  | .dma => NSMEM_ORIGIN_DMA
  | .slab w cls => nslabOrigin w cls
  | .free => NSMEM_ORIGIN_FREE

theorem nsmOrigin_word (o : NsOrigin) :
  nsmOrigin o.word = some o
  := by
  cases o with
  | exec | dma | free => decide
  | slab w cls =>
    revert cls
    cases w <;> decide

namespace NsMem

structure Shows (L : NsLayout) (m : NsMem) (h : NsHeap) : Prop where
  activeNetdev : m.activeNetdev = h.activeNetdev.isSome
  inUse : m.memInUse = h.memInUse
  free : ∀ w cls, Linked m.mem (m.slabFree w cls) ((h.slabFree w cls).map L.addr)
  arenas : ∀ w cls, Linked m.mem (m.slabArenas w cls)
    ((h.slabArenas w cls).map fun n => L.base (.arena n))
  origin : ∀ b, h.Known b → m.mem (L.addr b + 4) = (h.origin b).word
  size : ∀ b ∈ h.live, m.mem (L.addr b) = (h.size b).toNat

structure Owns (L : NsLayout) (m : NsMem) (h : NsHeap) : Prop where
  owned : m.owned.map Prod.fst = h.live.map L.addr
  room : ∀ x ∈ m.owned, NSMEM_HDR + x.2.toNat ≤ m.mem x.1
  freed : ∀ p ∈ m.freed, ∃ b, h.Known b ∧ h.origin b = .free ∧ L.addr b = p

structure Represents (L : NsLayout) (m : NsMem) (h : NsHeap) : Prop where
  places : L.Places h m.outstanding
  shows : Shows L m h
  owns : Owns L m h

variable {L L' : NsLayout} {m m' : NsMem} {h h' : NsHeap} {w : NsWorld} {cls : SlabClass}
  {b b' : NsMemBlock}

theorem Shows.world_eq (hs : Shows L m h) :
  m.world = h.world
  := by
  rw [NsMem.world, NsHeap.world, hs.activeNetdev]

/-! ### `nslab_grow` -/

theorem nslabLink_spec
    {slot : ℕ} (hslot : 8 ≤ slot) (n s : ℕ) (mem : ℕ → ℕ) (freeHead : ℕ) (l : List ℕ) (hs : 0 < s)
    (hlinked : Linked mem freeHead l) (hl : ∀ a ∈ l, a < s ∨ s + n * slot ≤ a) :
  (∀ a, a < s ∨ s + n * slot ≤ a → (nslabLink slot n s (mem, freeHead)).1 a = mem a) ∧
    (∀ i < n, (nslabLink slot n s (mem, freeHead)).1 (s + i * slot + 4) = NSMEM_ORIGIN_FREE) ∧
    Linked (nslabLink slot n s (mem, freeHead)).1 (nslabLink slot n s (mem, freeHead)).2
      (((range n).map fun i => s + i * slot).reverse ++ l)
  := by
  induction n generalizing s mem freeHead l with
  | zero => exact ⟨fun _ _ => rfl, nofun, hlinked⟩
  | succ n ih =>
    rw [Nat.succ_mul] at hl
    have hpush : Linked
        (update (update mem s freeHead) (s + 4) NSMEM_ORIGIN_FREE) s (s :: l) := by
      apply hlinked.push (by omega)
      · rw [update_of_ne (by omega), update_self]
      · intro a ha
        have hout := hl a ha
        rw [update_of_ne (by omega), update_of_ne (by omega)]
    have hl' : ∀ a ∈ s :: l, a < s + slot ∨ s + slot + n * slot ≤ a := by
      intro a ha
      obtain rfl | ha := mem_cons.mp ha
      · omega
      · have hout := hl a ha
        omega
    obtain ⟨hout, hstamp, hlink⟩ := ih (s + slot) _ s (s :: l) (by omega) hpush hl'
    refine ⟨?_, ?_, ?_⟩
    · intro a ha
      rw [Nat.succ_mul] at ha
      rw [nslabLink, hout a (by omega), update_of_ne (by omega),
        update_of_ne (by omega)]
    · intro i hi
      cases i with
      | zero =>
        rw [nslabLink, Nat.zero_mul, Nat.add_zero, hout _ (by omega), update_self]
      | succ i =>
        have hnext : s + (i + 1) * slot + 4 = s + slot + i * slot + 4 := by
          rw [Nat.succ_mul]
          omega
        rw [nslabLink, hnext]
        exact hstamp i (by omega)
    · have hrange : ((range (n + 1)).map fun i => s + i * slot).reverse ++ l =
          ((range n).map fun i => s + slot + i * slot).reverse ++ s :: l := by
        rw [range_succ_eq_map, map_cons, reverse_cons, append_assoc,
          map_map, Nat.zero_mul, Nat.add_zero, singleton_append]
        congr 3
        funext i
        simp only [comp_apply, Nat.succ_eq_add_one, Nat.add_mul, Nat.one_mul]
        omega
      rw [hrange, nslabLink]
      apply hlink

theorem nslabGrow_spec
    {a : ℕ} {l : List ℕ} (m : NsMem) (cls : SlabClass) (ha : 0 < a)
    (hlinked : Linked m.mem (m.slabFree m.world cls) l)
    (hl : ∀ p ∈ l, p < a ∨ a + nslabArenaSize cls ≤ p) :
  (∀ p, p < a ∨ a + nslabArenaSize cls ≤ p → (m.nslabGrow cls a).mem p = m.mem p) ∧
    (m.nslabGrow cls a).mem a = m.slabArenas m.world cls ∧
    (∀ i < nslabArenaSlots cls, (m.nslabGrow cls a).mem
      (a + NSLAB_ARENA_HDR + i * (nslabSlot cls).toNat + 4) = NSMEM_ORIGIN_FREE) ∧
    Linked (m.nslabGrow cls a).mem ((m.nslabGrow cls a).slabFree m.world cls)
      (((range (nslabArenaSlots cls)).map fun i =>
        a + NSLAB_ARENA_HDR + i * (nslabSlot cls).toNat).reverse ++ l)
  := by
  have hslot : 8 ≤ (nslabSlot cls).toNat := hdr_le_slot cls
  have hlinked' : Linked
      (update (update m.mem a (m.slabArenas m.world cls)) (a + 4)
        (nslabArenaSize cls)) (m.slabFree m.world cls) l := by
    apply hlinked.congr
    intro p hp
    have hout := hl p hp
    unfold nslabArenaSize NSLAB_ARENA_HDR at hout
    rw [update_of_ne (by omega), update_of_ne (by omega)]
  have hl' : ∀ p ∈ l, p < a + NSLAB_ARENA_HDR ∨
      a + NSLAB_ARENA_HDR + nslabArenaSlots cls * (nslabSlot cls).toNat ≤ p := by
    intro p hp
    have hout := hl p hp
    unfold nslabArenaSize at hout
    omega
  obtain ⟨hout, hstamp, hlink⟩ := nslabLink_spec hslot (nslabArenaSlots cls) (a + NSLAB_ARENA_HDR)
    _ _ l (by omega) hlinked' hl'
  refine ⟨?_, ?_, hstamp, ?_⟩
  · intro p hp
    unfold nslabArenaSize at hp
    refine (hout p (by omega)).trans ?_
    unfold NSLAB_ARENA_HDR at hp
    rw [update_of_ne (by omega), update_of_ne (by omega)]
  · refine (hout a (by unfold NSLAB_ARENA_HDR; omega)).trans ?_
    rw [update_of_ne (by omega), update_self]
  · change Linked _ (NsHeap.setAt m.slabFree m.world cls _ m.world cls) _
    rw [NsHeap.setAt_self]
    exact hlink

theorem map_addr_free
    (ht : h.Tidy) (hL : NsLayout.Agree L L' h h') (w : NsWorld) (cls : SlabClass) :
  (h.slabFree w cls).map L'.addr = (h.slabFree w cls).map L.addr
  := by
  apply map_congr_left
  intro b hb
  exact hL.addr (ht.source_of_known (ht.known_of_free hb))

theorem map_base_arenas
    (ht : h.Tidy) (hL : NsLayout.Agree L L' h h') (w : NsWorld) (cls : SlabClass) :
  ((h.slabArenas w cls).map fun n => L'.base (.arena n)) =
    (h.slabArenas w cls).map fun n => L.base (.arena n)
  := by
  apply map_congr_left
  intro n hn
  exact hL.base _ (ht.source_arena hn)

theorem Owns.block {x : ℕ × UInt32} (ho : Owns L m h) (hx : x ∈ m.owned) :
  ∃ b ∈ h.live, L.addr b = x.1
  := by
  rw [← mem_map, ← ho.owned]
  exact mem_map_of_mem hx

theorem Owns.room_of
    {x : ℕ × UInt32} {mem' : ℕ → ℕ} (ho : Owns L m h) (hx : x ∈ m.owned)
    (hmem : ∀ b ∈ h.live, L.addr b = x.1 → mem' (L.addr b) = m.mem (L.addr b)) :
  NSMEM_HDR + x.2.toNat ≤ mem' x.1
  := by
  obtain ⟨b, hb, hbx⟩ := ho.block hx
  rw [← hbx, hmem b hb hbx, hbx]
  exact ho.room x hx

theorem Owns.kept
    (ho : Owns L m h) (hp : L.Places h m.outstanding) (hL : NsLayout.Agree L L' h h')
    (howned : m'.owned = m.owned) (hfreed : m'.freed = m.freed) (hlive : h'.live = h.live)
    (hmem : ∀ b, h.Known b → m'.mem (L.addr b) = m.mem (L.addr b))
    (hknown : ∀ b, h.Known b → h'.Known b ∧ h'.origin b = h.origin b) :
  Owns L' m' h'
  := by
  have haddr : ∀ b, h.Known b → L'.addr b = L.addr b := by
    intro b hb
    exact hL.addr (hp.tidy.source_of_known hb)
  constructor
  · rw [howned, hlive, ho.owned]
    apply map_congr_left
    intro b hb
    exact (haddr b (hp.tidy.known_of_live hb)).symm
  · intro x hx
    rw [howned] at hx
    exact ho.room_of hx fun b hb _ => hmem b (hp.tidy.known_of_live hb)
  · intro p hp'
    rw [hfreed] at hp'
    obtain ⟨b, hb, hfree, rfl⟩ := ho.freed p hp'
    obtain ⟨hb', horigin⟩ := hknown b hb
    rw [← horigin] at hfree
    exact ⟨b, hb', hfree, haddr b hb⟩

theorem Represents.nslabGrow
    {a : ℕ} (hr : Represents L m h) (cls : SlabClass) (hfits : m.Fits (nslabArenaSize cls) a) :
  Represents (L.withArena h.fresh a cls) (m.nslabGrow cls a) (h.nslabGrow cls)
  := by
  obtain ⟨hp, hs, ho⟩ := hr
  have ht := hp.tidy
  have hL : NsLayout.Agree L (L.withArena h.fresh a cls) h (h.nslabGrow cls) :=
    NsLayout.agree_withArena ht cls
  have hworld := hs.world_eq
  have hlist : ∀ p ∈ (h.slabFree h.world cls).map L.addr, p < a ∨ a + nslabArenaSize cls ≤ p := by
    refine forall_mem_map.mpr fun b hb => ?_
    have hknown := ht.known_of_free hb
    have hapart := hp.apart_fits_block hfits hknown
    have hcap := hp.hdr_le_cap hknown
    unfold Apart at hapart
    unfold NSMEM_HDR at hcap
    omega
  have hfree := hs.free h.world cls
  rw [← hworld] at hfree hlist
  obtain ⟨hout, hnext, hstamp, hlinked⟩ := nslabGrow_spec m cls hfits.1 hfree hlist
  obtain ⟨hblock, harena⟩ := hp.mem_fits hfits hout
  have hslot : ∀ i, (L.withArena h.fresh a cls).addr (.slot h.fresh i) =
      a + NSLAB_ARENA_HDR + i * (nslabSlot cls).toNat := by
    intro i
    rw [NsLayout.addr, NsLayout.withArena_base, NsLayout.withArena_cls]
  have horigin : ∀ b, h.Known b → (h.nslabGrow cls).Known b ∧
      (h.nslabGrow cls).origin b = h.origin b := by
    intro b hb
    obtain ⟨w, cls', hslot⟩ | hlive := hb
    · exact ⟨.inl ⟨w, cls', hslot.nslabGrow⟩, ht.origin_nslabGrow hslot⟩
    · refine ⟨.inr hlive, if_neg ?_⟩
      intro hmem
      obtain ⟨n, rfl, -⟩ := hlive
      obtain ⟨i, hi⟩ := NsHeap.mem_slots hmem
      cases hi
  refine ⟨hp.nslabGrow hfits, ⟨hs.activeNetdev, hs.inUse, ?_, ?_, ?_, ?_⟩,
    ho.kept hp hL rfl rfl rfl (fun b hb => (hblock b hb).1) horigin⟩
  · intro w cls'
    by_cases heq : w = h.world ∧ cls' = cls
    · obtain ⟨rfl, rfl⟩ := heq
      have hnew : ((h.nslabGrow cls').slabFree h.world cls').map (L.withArena h.fresh a cls').addr =
          ((range (nslabArenaSlots cls')).map fun i =>
            a + NSLAB_ARENA_HDR + i * (nslabSlot cls').toNat).reverse ++
            (h.slabFree h.world cls').map L.addr := by
        change (NsHeap.setAt h.slabFree h.world cls' _ h.world cls').map _ = _
        rw [NsHeap.setAt_self, map_append, map_addr_free ht hL, map_reverse, NsHeap.slots,
          map_map]
        congr 2
        apply map_congr_left
        intro i _
        exact hslot i
      rw [hnew, ← hworld]
      exact hlinked
    · change Linked _ (NsHeap.setAt m.slabFree m.world cls _ w cls')
        ((NsHeap.setAt h.slabFree h.world cls _ w cls').map _)
      rw [hworld, NsHeap.setAt_of_ne _ _ heq, NsHeap.setAt_of_ne _ _ heq, map_addr_free ht hL]
      apply (hs.free w cls').congr
      exact forall_mem_map.mpr fun b hb => (hblock b (ht.known_of_free hb)).1
  · intro w cls'
    have hold : ∀ p ∈ (h.slabArenas w cls').map fun n => L.base (.arena n),
        (m.nslabGrow cls a).mem p = m.mem p := forall_mem_map.mpr (harena w cls')
    change Linked _ (NsHeap.setAt m.slabArenas m.world cls _ w cls')
      ((NsHeap.setAt h.slabArenas h.world cls _ w cls').map _)
    rw [hworld]
    by_cases heq : w = h.world ∧ cls' = cls
    · obtain ⟨rfl, rfl⟩ := heq
      rw [NsHeap.setAt_self, NsHeap.setAt_self, map_cons, map_base_arenas ht hL,
        NsLayout.withArena_base]
      apply (hs.arenas h.world cls').push (Nat.ne_of_gt hfits.1) _ hold
      rw [hnext, hworld]
    · rw [NsHeap.setAt_of_ne _ _ heq, NsHeap.setAt_of_ne _ _ heq, map_base_arenas ht hL]
      apply (hs.arenas w cls').congr hold
  · intro b hb
    obtain ⟨i, hi, rfl⟩ | hold := NsHeap.known_nslabGrow hb
    · rw [hslot, hstamp i hi]
      change _ = (if _ then NsOrigin.free else _).word
      rw [if_pos (NsHeap.mem_slots_iff.mpr ⟨i, hi, rfl⟩)]
      rfl
    · rw [hL.addr (ht.source_of_known hold), (hblock b hold).2, hs.origin b hold,
        (horigin b hold).2]
  · intro b hb
    have hknown := ht.known_of_live hb
    rw [hL.addr (ht.source_of_known hknown), (hblock b hknown).1]
    exact hs.size b hb

/-! ### Headers -/

structure ChangesAt (h h' : NsHeap) (b : NsMemBlock) : Prop where
  slabArenas : h'.slabArenas = h.slabArenas
  live : ∀ b', b' ≠ b → (b' ∈ h'.live ↔ b' ∈ h.live)
  origin : ∀ b', b' ≠ b → h'.origin b' = h.origin b'
  size : ∀ b', b' ≠ b → h'.size b' = h.size b'

theorem ChangesAt.known (hc : ChangesAt h h' b) (hslot : h.SlotOf w cls b) :
  h'.Known b' ↔ h.Known b'
  := by
  have hown : ∀ n, .oneOff n ≠ b := by
    rintro n rfl
    contradiction
  have hslots : ∀ w cls, h'.SlotOf w cls b' ↔ h.SlotOf w cls b' := by
    intro w cls
    cases b' with
    | oneOff n => exact Iff.rfl
    | slot n i => simp only [NsHeap.SlotOf, hc.slabArenas]
  constructor
  · rintro (⟨w, cls, hb'⟩ | ⟨n, rfl, hlive⟩)
    · exact .inl ⟨w, cls, (hslots w cls).mp hb'⟩
    · exact .inr ⟨n, rfl, (hc.live _ (hown n)).mp hlive⟩
  · rintro (⟨w, cls, hb'⟩ | ⟨n, rfl, hlive⟩)
    · exact .inl ⟨w, cls, (hslots w cls).mpr hb'⟩
    · exact .inr ⟨n, rfl, (hc.live _ (hown n)).mpr hlive⟩

theorem Shows.write
    {x y q : ℕ} {l : List NsMemBlock} (hs : Shows L m h) (ht : h.Tidy) (hc : ChangesAt h h' b)
    (hslot : h.SlotOf w cls b) (hw : NsLayout.Writes L h b x y m.mem m'.mem)
    (hactive : m'.activeNetdev = h'.activeNetdev.isSome) (hinUse : m'.memInUse = h'.memInUse)
    (harenas : m'.slabArenas = m.slabArenas)
    (hm : m'.slabFree = NsHeap.setAt m.slabFree w cls q)
    (hh : h'.slabFree = NsHeap.setAt h.slabFree w cls l)
    (hlist : Linked m'.mem q (l.map L.addr)) (horigin : (h'.origin b).word = y)
    (hsize : b ∈ h'.live → (h'.size b).toNat = x) :
  Shows L m' h'
  := by
  refine ⟨hactive, hinUse, ?_, ?_, ?_, ?_⟩
  · intro w' cls'
    rw [hm, hh]
    by_cases heq : w' = w ∧ cls' = cls
    · obtain ⟨rfl, rfl⟩ := heq
      rw [NsHeap.setAt_self, NsHeap.setAt_self]
      apply hlist
    · rw [NsHeap.setAt_of_ne _ _ heq, NsHeap.setAt_of_ne _ _ heq]
      apply (hs.free w' cls').congr
      refine forall_mem_map.mpr fun b' hb' => ?_
      apply (hw.block b' (ht.known_of_free hb') _).1
      -- A slot is on the list of its class only.
      rintro rfl
      exact heq (ht.eq_of_slotOf (ht.free w' cls' b' hb').1 hslot)
  · intro w' cls'
    rw [harenas, hc.slabArenas]
    apply (hs.arenas w' cls').congr
    exact forall_mem_map.mpr (hw.arena w' cls')
  · intro b' hb'
    rw [hc.known hslot] at hb'
    by_cases heq : b' = b
    · rw [heq, hw.second, horigin]
    · rw [(hw.block b' hb' heq).2, hc.origin b' heq]
      exact hs.origin b' hb'
  · intro b' hb'
    by_cases heq : b' = b
    · subst heq
      rw [hw.first, hsize hb']
    · have hlive := (hc.live b' heq).mp hb'
      rw [(hw.block b' (ht.known_of_live hlive) heq).1, hc.size b' heq]
      exact hs.size b' hlive

/-! ### A slot is taken -/

theorem Shows.head
    {rest : List NsMemBlock} (hs : Shows L m h) (hfree : h.slabFree w cls = b :: rest) :
  m.slabFree w cls = L.addr b ∧ Linked m.mem (m.mem (L.addr b)) (rest.map L.addr)
  := by
  have hlinked := hs.free w cls
  rw [hfree] at hlinked
  exact ⟨hlinked.1, hlinked.2.2⟩

theorem Represents.takeSlot
    {rest : List NsMemBlock} {size : UInt32} (hr : Represents L m h)
    (hfree : h.slabFree h.world cls = b :: rest)
    (hroom : NSMEM_HDR + size.toNat ≤ (nslabSlot cls).toNat) :
  Represents L ((m.takeSlot cls).own (L.addr b) size) (h.takeSlot cls b rest)
  := by
  obtain ⟨hp, hs, ho⟩ := hr
  have ht := hp.tidy
  have hmem : b ∈ h.slabFree h.world cls := by
    rw [hfree]
    exact .head _
  obtain ⟨hslot, hfreeb⟩ := ht.free _ _ b hmem
  have hne : ∀ b' ∈ h.live, b' ≠ b := by
    rintro b' hb' rfl
    exact (ht.charged b' hb').origin_ne hfreeb
  have hown : ∀ n, .oneOff n ≠ b := by
    rintro n rfl
    contradiction
  have hc : ChangesAt h (h.takeSlot cls b rest) b := by
    refine ⟨rfl, ?_, fun b' hb' => update_of_ne hb' _ _,
      fun b' hb' => update_of_ne hb' _ _⟩
    intro b' hb'
    exact ⟨fun hlive => (mem_cons.mp hlive).resolve_left hb', .tail _⟩
  obtain ⟨hhead, hrest⟩ := hs.head hfree
  have hw : NsLayout.Writes L h b (nslabSlot cls).toNat (nslabOrigin h.world cls) m.mem
      ((m.takeSlot cls).own (L.addr b) size).mem := by
    have hmem' : ((m.takeSlot cls).own (L.addr b) size).mem =
        update (update m.mem (L.addr b) (nslabSlot cls).toNat) (L.addr b + 4)
          (nslabOrigin h.world cls) := by
      rw [← hhead, ← hs.world_eq]
      rfl
    rw [hmem']
    apply hp.writes (ht.known_of_free hmem)
  refine ⟨?_, ?_, ⟨?_, ?_, ?_⟩⟩
  · apply hp.kept (ht.takeSlot hfree) rfl
    · intro n hn
      exact (hc.live _ (hown n)).mp hn
    · intro n
      exact hc.size _ (hown n)
    · intro a ha
      exact ⟨ha, hp.outstanding a ha⟩
  · apply hs.write (l := rest) ht hc hslot hw hs.activeNetdev _ rfl
    · rw [← hs.world_eq]
      rfl
    · rfl
    · rw [hs.world_eq, hhead]
      apply hrest.congr
      refine forall_mem_map.mpr fun b' hb' => ?_
      have hnodup := ht.nodup h.world cls
      rw [hfree] at hnodup
      have hmem' : b' ∈ h.slabFree h.world cls := by
        rw [hfree]
        exact .tail _ hb'
      exact (hw.block b' (ht.known_of_free hmem')
        (ne_of_mem_of_not_mem hb' (nodup_cons.mp hnodup).1)).1
    · simp only [NsHeap.takeSlot, update_self, NsOrigin.word]
    · intro _
      simp only [NsHeap.takeSlot, update_self]
    · change m.memInUse + _ = h.memInUse + _
      rw [hs.inUse]
  · exact congrArg (L.addr b :: ·) ho.owned
  · intro x hx
    obtain rfl | hold := mem_cons.mp hx
    · rw [hw.first]
      apply hroom
    · exact ho.room_of hold fun b' hb' _ => (hw.block b' (ht.known_of_live hb') (hne b' hb')).1
  · intro p hp'
    obtain ⟨hold, hpb⟩ := mem_filter.mp hp'
    obtain ⟨b', hb', hfree', rfl⟩ := ho.freed p hold
    have hne' : b' ≠ b := by
      rintro rfl
      simp at hpb
    refine ⟨b', (hc.known hslot).mpr hb', ?_, rfl⟩
    rw [hc.origin b' hne']
    apply hfree'

/-! ### A block of its own is made -/

theorem known_oneOff {total : UInt32} (hb : (h.oneOff total true).1.Known b) :
  b = .oneOff h.fresh ∨ h.Known b
  := by
  obtain hslot | ⟨n, rfl, hlive⟩ := hb
  · exact .inr (.inl hslot)
  · obtain heq | hlive := mem_cons.mp hlive
    · exact .inl heq
    · exact .inr (.inr ⟨n, rfl, hlive⟩)

theorem Represents.oneOff
    {a : ℕ} {total size : UInt32} (hr : Represents L m h) (hfits : m.Fits total.toNat a)
    (hroom : NSMEM_HDR + size.toNat ≤ total.toNat) :
  Represents (L.withBlock h.fresh a) ((m.oneOff total (some a)).1.own a size)
    (h.oneOff total true).1
  := by
  obtain ⟨hp, hs, ho⟩ := hr
  have ht := hp.tidy
  have hL : NsLayout.Agree L (L.withBlock h.fresh a) h (h.oneOff total true).1 :=
    NsLayout.agree_withBlock ht total
  have haddr : ∀ b, h.Known b → (L.withBlock h.fresh a).addr b = L.addr b := fun b hb =>
    hL.addr (ht.source_of_known hb)
  have hnew : (L.withBlock h.fresh a).addr (.oneOff h.fresh) = a := L.withBlock_base h.fresh a
  have hne : ∀ b, h.Known b → b ≠ .oneOff h.fresh := by
    rintro b hb rfl
    exact lt_irrefl _ (ht.index_lt_fresh (ht.source_of_known hb))
  generalize hm' : (m.oneOff total (some a)).1.own a size = m'
  have hmem' : m'.mem = update (update m.mem (a + 4)
      (if m.activeNetdev then NSMEM_ORIGIN_DMA else NSMEM_ORIGIN_EXEC)) a total.toNat := by
    rw [← hm']
    rfl
  have hout : ∀ p, p < a ∨ a + total.toNat ≤ p → m'.mem p = m.mem p := by
    intro p hp'
    unfold NSMEM_HDR at hroom
    rw [hmem', update_of_ne (by omega), update_of_ne (by omega)]
  obtain ⟨hblock, harena⟩ := hp.mem_fits hfits hout
  have horigin : ∀ b, h.Known b → (h.oneOff total true).1.origin b = h.origin b := fun b hb =>
    update_of_ne (hne b hb) _ _
  have hsize : ∀ b, h.Known b → (h.oneOff total true).1.size b = h.size b := fun b hb =>
    update_of_ne (hne b hb) _ _
  have hfirst : m'.mem a = total.toNat := by
    rw [hmem', update_self]
  refine ⟨?_, ⟨?_, ?_, ?_, ?_, ?_, ?_⟩, ⟨?_, ?_, ?_⟩⟩
  · have houtstanding : m'.outstanding = (a, total.toNat) :: m.outstanding := by
      rw [← hm']
      rfl
    rw [houtstanding]
    exact hp.oneOff hfits (by omega)
  · rw [← hm']
    exact hs.activeNetdev
  · rw [← hm']
    change m.memInUse + _ = h.memInUse + _
    rw [hs.inUse]
  · intro w cls
    have hlists : m'.slabFree = m.slabFree := by
      rw [← hm']
      rfl
    change Linked _ _ ((h.slabFree w cls).map _)
    rw [hlists, map_addr_free ht hL]
    apply (hs.free w cls).congr
    exact forall_mem_map.mpr fun b hb => (hblock b (ht.known_of_free hb)).1
  · intro w cls
    have hlists : m'.slabArenas = m.slabArenas := by
      rw [← hm']
      rfl
    change Linked _ _ ((h.slabArenas w cls).map _)
    rw [hlists, map_base_arenas ht hL]
    apply (hs.arenas w cls).congr
    exact forall_mem_map.mpr (harena w cls)
  · intro b hb
    obtain rfl | hold := known_oneOff hb
    · rw [hnew, hmem', update_of_ne (by omega), update_self, hs.activeNetdev]
      simp only [NsHeap.oneOff, if_true, update_self, NsHeap.world]
      by_cases hsome : h.activeNetdev.isSome = true
      · simp [hsome, NsOrigin.word]
      · simp [hsome, NsOrigin.word]
    · rw [haddr b hold, (hblock b hold).2, horigin b hold]
      exact hs.origin b hold
  · intro b hb
    obtain rfl | hlive := mem_cons.mp hb
    · rw [hnew, hfirst]
      simp only [NsHeap.oneOff, if_true, update_self]
    · have hknown := ht.known_of_live hlive
      rw [haddr b hknown, (hblock b hknown).1, hsize b hknown]
      exact hs.size b hlive
  · have howned : m'.owned = (a, size) :: m.owned := by
      rw [← hm']
      rfl
    change _ = (NsMemBlock.oneOff h.fresh :: h.live).map _
    rw [howned, map_cons, map_cons, hnew, ho.owned]
    congr 1
    apply map_congr_left
    intro b hb
    exact (haddr b (ht.known_of_live hb)).symm
  · intro x hx
    rw [← hm'] at hx
    obtain rfl | hold := mem_cons.mp hx
    · rw [hfirst]
      exact hroom
    · exact ho.room_of hold fun b hb _ => (hblock b (ht.known_of_live hb)).1
  · intro p hp'
    rw [← hm'] at hp'
    obtain ⟨hold, -⟩ := mem_filter.mp hp'
    obtain ⟨b, hb, hfree, rfl⟩ := ho.freed p hold
    refine ⟨b, ?_, (horigin b hb).trans hfree, haddr b hb⟩
    obtain hslot | ⟨n, rfl, hlive⟩ := hb
    · exact .inl hslot
    · exact .inr ⟨n, rfl, .tail _ hlive⟩

/-! ### A block is freed -/

theorem Owns.filter
    (ho : Owns L m h) (hp : L.Places h m.outstanding) (hb : b ∈ h.live) :
  (m.owned.filter (·.1 ≠ L.addr b)).map Prod.fst = (h.live.erase b).map L.addr
  := by
  have hfilter : (h.live.erase b).map L.addr = (h.live.map L.addr).filter (· ≠ L.addr b) := by
    rw [hp.tidy.liveNodup.erase_eq_filter, filter_map]
    congr 1
    apply filter_congr
    intro b' hb'
    have hinj := hp.addr_injective (hp.tidy.known_of_live hb') (hp.tidy.known_of_live hb)
    simp only [comp_apply, decide_not, ne_eq]
    grind
  rw [hfilter, ← ho.owned, filter_map]
  rfl

theorem Owns.room_filter
    {mem' : ℕ → ℕ} (ho : Owns L m h) (hp : L.Places h m.outstanding)
    (hmem : ∀ b', h.Known b' → b' ≠ b → mem' (L.addr b') = m.mem (L.addr b')) :
  ∀ x ∈ m.owned.filter (·.1 ≠ L.addr b), NSMEM_HDR + x.2.toNat ≤ mem' x.1
  := by
  intro x hx
  obtain ⟨hx, hne⟩ := mem_filter.mp hx
  refine ho.room_of hx fun b' hb' haddr => hmem b' (hp.tidy.known_of_live hb') ?_
  rintro rfl
  simp [haddr] at hne

theorem Represents.free_slab
    (hr : Represents L m h) (hb : b ∈ h.live) (hslot : h.SlotOf w cls b)
    (horigin : h.origin b = .slab w cls) (hsize : h.size b = nslabSlot cls) :
  Represents L (m.release (L.addr b)) ((h.account b (nslabSlot cls)).pushSlot w cls b)
  := by
  obtain ⟨hp, hs, ho⟩ := hr
  have ht := hp.tidy
  have hknown := ht.known_of_live hb
  have hword : nsmOrigin (m.mem (L.addr b + 4)) = some (.slab w cls) := by
    rw [hs.origin b hknown, horigin, nsmOrigin_word]
  have hactive : w = .dma → m.activeNetdev = true := by
    rintro rfl
    cases b with
    | oneOff n => contradiction
    | slot n i =>
      have hserves := (ht.arenas .dma cls n hslot.1).2
      rw [NsHeap.serves] at hserves
      rw [hs.activeNetdev]
      cases hnone : h.activeNetdev with
      | none =>
        rw [hnone] at hserves
        contradiction
      | some g => rfl
  have hfree : m.netstackFree (L.addr b) =
      { m with memInUse := m.memInUse - nslabSlot cls }.pushSlot w cls (L.addr b) := by
    simp only [NsMem.netstackFree, hword]
    cases w with
    | exec => rfl
    | dma => exact if_pos (hactive rfl)
  have hslab : m.isSlab (L.addr b) = true := by
    rw [NsMem.isSlab, hword]
  rw [NsMem.release, hfree, hslab]
  have hown : ∀ n, .oneOff n ≠ b := by
    rintro n rfl
    contradiction
  have hc : ChangesAt h ((h.account b (nslabSlot cls)).pushSlot w cls b) b := by
    refine ⟨rfl, ?_, fun b' hb' => update_of_ne hb' _ _, fun _ _ => rfl⟩
    intro b' hb'
    exact mem_erase_of_ne hb'
  have hw := hp.writes hknown m.mem (m.slabFree w cls) NSMEM_ORIGIN_FREE
  refine ⟨?_, ?_, ⟨?_, ?_, ?_⟩⟩
  · apply hp.kept (ht.free_slab hb hslot horigin hsize) rfl
    · intro n hn
      exact (hc.live _ (hown n)).mp hn
    · intro n
      rfl
    · intro a ha
      exact ⟨ha, hp.outstanding a ha⟩
  · refine hs.write (q := L.addr b) (l := b :: h.slabFree w cls) ht hc hslot hw hs.activeNetdev ?_ rfl
      rfl rfl ?_ ?_ ?_
    · change m.memInUse - _ = h.memInUse - _
      rw [hs.inUse]
    · apply (hs.free w cls).push (hp.addr_pos hknown) hw.first
      refine forall_mem_map.mpr fun b' hb' => ?_
      apply (hw.block b' (ht.known_of_free hb') _).1
      rintro rfl
      exact (ht.charged b' hb).origin_ne (ht.free w cls b' hb').2
    · simp only [NsHeap.pushSlot, update_self, NsOrigin.word]
    · intro hlive
      exact absurd hlive ht.liveNodup.not_mem_erase
  · exact ho.filter hp hb
  · exact ho.room_filter hp fun b' hb' hne => (hw.block b' hb' hne).1
  · intro p hp'
    obtain rfl | hold := mem_cons.mp hp'
    · exact ⟨b, (hc.known hslot).mpr hknown, update_self _ _ _, rfl⟩
    · obtain ⟨b', hb', hfree', rfl⟩ := ho.freed p hold
      refine ⟨b', (hc.known hslot).mpr hb', ?_, rfl⟩
      rw [hc.origin]
      · apply hfree'
      · rintro rfl
        exact (ht.charged b' hb).origin_ne hfree'

theorem Represents.netstackFree_own
    {n : ℕ} (hr : Represents L m h) (hb : .oneOff n ∈ h.live)
    (horigin : h.origin (.oneOff n) = NsHeap.ownOrigin w) (hserves : h.serves w ≠ none) :
  m.netstackFree (L.addr (.oneOff n)) =
    { m with memInUse := m.memInUse - h.size (.oneOff n) }.giveBack (L.addr (.oneOff n))
      (h.size (.oneOff n)).toNat
  := by
  have hs := hr.shows
  have hword : nsmOrigin (m.mem (L.addr (.oneOff n) + 4)) = some (NsHeap.ownOrigin w) := by
    rw [hs.origin _ (hr.places.tidy.known_of_live hb), horigin, nsmOrigin_word]
  simp only [NsMem.netstackFree, hword, hs.size _ hb, UInt32.ofNat_toNat]
  cases w with
  | exec => rfl
  | dma =>
    apply if_pos
    rw [hs.activeNetdev]
    cases hnone : h.activeNetdev with
    | none =>
      rw [NsHeap.serves, hnone] at hserves
      contradiction
    | some g => rfl

theorem Represents.free_own
    {n : ℕ} (hr : Represents L m h) (hb : .oneOff n ∈ h.live)
    (horigin : h.origin (.oneOff n) = NsHeap.ownOrigin w) (hsource : h.source (.block n) = h.serves w)
    (hserves : h.serves w ≠ none) :
  Represents L (m.release (L.addr (.oneOff n)))
    { h.account (.oneOff n) (h.size (.oneOff n)) with
      source := update h.source (.block n) none }
  := by
  have hfree := hr.netstackFree_own hb horigin hserves
  obtain ⟨hp, hs, ho⟩ := hr
  have ht := hp.tidy
  have hslab : m.isSlab (L.addr (.oneOff n)) = false := by
    rw [NsMem.isSlab, hs.origin _ (ht.known_of_live hb), horigin, nsmOrigin_word]
    cases w <;> rfl
  have hknown : ∀ b', NsHeap.Known { h.account (.oneOff n) (h.size (.oneOff n)) with
      source := update h.source (.block n) none } b' → h.Known b' := by
    rintro b' (hslot | ⟨n', rfl, hlive⟩)
    · exact .inl hslot
    · exact .inr ⟨n', rfl, mem_of_mem_erase hlive⟩
  rw [NsMem.release, hfree, hslab]
  refine ⟨?_, ⟨hs.activeNetdev, ?_, hs.free, hs.arenas, fun b' hb' => hs.origin b' (hknown b' hb'),
    fun b' hb' => hs.size b' (mem_of_mem_erase hb')⟩,
    ⟨ho.filter hp hb, ho.room_filter hp fun _ _ _ => rfl, ?_⟩⟩
  · apply hp.kept (ht.free_own hb horigin hsource hserves) rfl
    · intro n' hn'
      exact mem_of_mem_erase hn'
    · intro n'
      rfl
    · intro a ha
      obtain rfl | ⟨hne, ha⟩ := NsHeap.source_update ha
      · exact absurd (update_self _ _ _) ha
      · refine ⟨ha, ?_⟩
        refine (mem_erase_of_ne ?_).mpr (hp.outstanding a ha)
        -- Another allocation does not lie where this one does.
        have hblock := ht.source_of_known (ht.known_of_live hb)
        have hapart := hp.apart a (.block n) ha hblock hne
        have hhdr := hp.hdr n hb
        intro heq
        obtain ⟨hbase, hextent⟩ := Prod.mk.inj heq
        rw [hbase, hextent] at hapart
        change Apart (L.base (.block n)) (h.size (.oneOff n)).toNat (L.base (.block n))
          (h.size (.oneOff n)).toNat at hapart
        unfold Apart at hapart
        unfold NSMEM_HDR at hhdr
        omega
  · change m.memInUse - _ = h.memInUse - _
    rw [hs.inUse]
  · intro p hp'
    obtain ⟨b', hb', hfree', rfl⟩ := ho.freed p hp'
    refine ⟨b', ?_, hfree', rfl⟩
    obtain hslot | ⟨n', rfl, hlive⟩ := hb'
    · exact .inl hslot
    · refine .inr ⟨n', rfl, (mem_erase_of_ne ?_).mpr hlive⟩
      intro heq
      rw [heq] at hfree'
      exact (ht.charged _ hb).origin_ne hfree'

theorem Represents.free (hr : Represents L m h) (hb : b ∈ h.live) :
  Represents L (m.release (L.addr b)) (h.netstackFree b)
  := by
  have ht := hr.places.tidy
  obtain ⟨w, cls, hslot, horigin, hsize⟩ | ⟨w, n, rfl, horigin, hsource, hserves⟩ := ht.charged b hb
  · rw [ht.netstackFree_slab hslot horigin]
    exact hr.free_slab hb hslot horigin hsize
  · rw [NsHeap.netstackFree_own horigin hsource hserves]
    exact hr.free_own hb horigin hsource hserves

theorem Represents.netstackFree_freed {p : ℕ} (hr : Represents L m h) (hp : p ∈ m.freed) :
  m.netstackFree p = m
  := by
  obtain ⟨b, hb, hfree, rfl⟩ := hr.owns.freed p hp
  rw [NsMem.netstackFree, hr.shows.origin b hb, hfree, nsmOrigin_word]

end NsMem
