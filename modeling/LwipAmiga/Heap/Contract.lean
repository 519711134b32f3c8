import LwipAmiga.Heap.Refine
import LwipAmiga.Lib.Word

/-!
# The packet heap keeps its contract

In every state that callers lead to which write to what they own only, the memory represents a tidy
heap.
-/

open List Option

theorem NsHeap.slabFree_nslabGrow_ne (h : NsHeap) (cls : SlabClass) :
  (h.nslabGrow cls).slabFree h.world cls ≠ []
  := by
  have hpos : ∀ cls, nslabArenaSlots cls ≠ 0 := by decide
  change setAt h.slabFree h.world cls _ h.world cls ≠ []
  rw [setAt_self]
  simp [slots, hpos]

theorem NsHeap.Tidy.validate_eq {h : NsHeap} (ht : h.Tidy) (cls : SlabClass) (regrow : Bool) :
  h.validate cls regrow = h
  := by
  apply if_neg
  intro hcorrupt
  unfold corrupt at hcorrupt
  cases hfree : h.slabFree h.world cls with
  | nil => simp [hfree] at hcorrupt
  | cons b rest =>
    have hb : b ∈ h.slabFree h.world cls := by
      rw [hfree]
      exact .head _
    simp [hfree, (ht.free _ _ b hb).2] at hcorrupt

namespace NsMem

variable {L : NsLayout} {m m' : NsMem} {h : NsHeap} {w : NsWorld} {cls : SlabClass} {b : NsMemBlock}

/-! ### Writes of the callers -/

theorem Represents.cap_eq (hr : Represents L m h) (hb : b ∈ h.live) :
  L.cap h b = (h.size b).toNat
  := by
  cases b with
  | oneOff n => rfl
  | slot n i =>
    obtain ⟨w, cls, hslot, -, hsize⟩ | ⟨w, n, heq, -⟩ := hr.places.tidy.charged _ hb
    · rw [NsLayout.cap, hr.places.cls w cls n hslot.1, hsize]
    · cases heq

theorem Represents.payload
    {a : ℕ} (hr : Represents L m h) (ha : m.Payload a) :
  ∃ b ∈ h.live, L.addr b + NSMEM_HDR ≤ a ∧ a < L.addr b + L.cap h b
  := by
  obtain ⟨x, hx, hlo, hhi⟩ := ha
  obtain ⟨b, hb, haddr⟩ := hr.owns.block hx
  have hroom := hr.owns.room x hx
  rw [← haddr, hr.shows.size b hb, ← hr.cap_eq hb] at hroom
  rw [← haddr] at hlo hhi
  exact ⟨b, hb, hlo, by omega⟩

theorem Represents.overwrite_eq (hr : Represents L m h) (value : ℕ → ℕ) :
  (∀ b, h.Known b → (m.overwrite value).mem (L.addr b) = m.mem (L.addr b) ∧
      (m.overwrite value).mem (L.addr b + 4) = m.mem (L.addr b + 4)) ∧
    ∀ w cls, ∀ n ∈ h.slabArenas w cls,
      (m.overwrite value).mem (L.base (.arena n)) = m.mem (L.base (.arena n))
  := by
  have hp := hr.places
  have hkeep : ∀ a, ¬ m.Payload a → m.Heap a → (m.overwrite value).mem a = m.mem a := by
    intro a hpayload hheap
    apply if_neg
    rintro (hin | hout)
    · exact hpayload hin
    · exact hout hheap
  constructor
  · intro b hb
    obtain ⟨hlo, hhi, -⟩ := hp.within hb
    have hcap := hp.hdr_le_cap hb
    have hheader : ∀ a, L.addr b ≤ a → a < L.addr b + NSMEM_HDR →
        (m.overwrite value).mem a = m.mem a := by
      intro a hlo' hhi'
      apply hkeep
      · intro hin
        obtain ⟨b', hb', hlo'', hhi''⟩ := hr.payload hin
        by_cases heq : b' = b
        · rw [heq] at hlo''
          omega
        · have hapart := hp.apart_blocks (hp.tidy.known_of_live hb') hb heq
          unfold Apart at hapart
          omega
      · exact ⟨_, hp.outstanding _ (hp.tidy.source_of_known hb), by dsimp only; omega,
          by dsimp only; omega⟩
    unfold NSMEM_HDR at hheader
    exact ⟨hheader _ (by omega) (by omega), hheader _ (by omega) (by omega)⟩
  · intro w cls n hn
    apply hkeep
    · intro hin
      obtain ⟨b, hb, hlo, hhi⟩ := hr.payload hin
      have hapart := hp.apart_arena hn (hp.tidy.known_of_live hb)
      unfold Apart NSLAB_ARENA_HDR at hapart
      omega
    · refine ⟨_, hp.outstanding _ (hp.tidy.source_arena hn), le_rfl, ?_⟩
      exact Nat.lt_add_of_pos_right (Nat.lt_of_lt_of_le (by decide) (Nat.le_add_right _ _))

theorem Represents.overwrite (hr : Represents L m h) (value : ℕ → ℕ) :
  Represents L (m.overwrite value) h
  := by
  have ht := hr.places.tidy
  obtain ⟨hblock, harena⟩ := hr.overwrite_eq value
  obtain ⟨hp, hs, ho⟩ := hr
  refine ⟨hp, ⟨hs.activeNetdev, hs.inUse, ?_, ?_, ?_, ?_⟩, ⟨ho.owned, ?_, ho.freed⟩⟩
  · intro w cls
    apply (hs.free w cls).congr
    exact forall_mem_map.mpr fun b hb => (hblock b (ht.known_of_free hb)).1
  · intro w cls
    apply (hs.arenas w cls).congr
    exact forall_mem_map.mpr (harena w cls)
  · intro b hb
    rw [(hblock b hb).2]
    exact hs.origin b hb
  · intro b hb
    rw [(hblock b (ht.known_of_live hb)).1]
    exact hs.size b hb
  · intro x hx
    exact ho.room_of hx fun b hb _ => (hblock b (ht.known_of_live hb)).1

/-! ### Allocations -/

theorem toNat_total {size : UInt32} (hsize : size.toNat < 2 ^ 31) :
  NSMEM_HDR + size.toNat ≤ (total size).toNat
  := by
  have hadd : (size + 3).toNat = size.toNat + 3 := by
    rw [UInt32.toNat_add]
    change (size.toNat + 3) % 2 ^ 32 = _
    omega
  have hround := UInt32.toNat_and_not_three (size + 3)
  rw [hadd] at hround
  rw [total, UInt32.toNat_add, hround]
  change NSMEM_HDR + size.toNat ≤ ((size.toNat + 3) / 4 * 4 + 8) % 2 ^ 32
  unfold NSMEM_HDR
  omega

theorem le_slot_of_slabClass {total : UInt32} (hcls : NsHeap.slabClass total = some cls) :
  total.toNat ≤ (nslabSlot cls).toNat
  := by
  unfold NsHeap.slabClass at hcls
  split_ifs at hcls with h₂ h₀ h₁
  · cases hcls
    exact UInt32.le_iff_toNat_le.mp h₀
  · cases hcls
    exact UInt32.le_iff_toNat_le.mp h₁
  · cases hcls
    exact UInt32.le_iff_toNat_le.mp h₂

theorem Represents.validate_eq (hr : Represents L m h) (cls : SlabClass) (regrow : Option ℕ) :
  m.validate cls regrow = m
  := by
  apply if_neg
  rintro ⟨hne, hstamp⟩
  rw [hr.shows.world_eq] at hne hstamp
  cases hfree : h.slabFree h.world cls with
  | nil =>
    have hlinked := hr.shows.free h.world cls
    rw [hfree] at hlinked
    exact hne hlinked
  | cons b rest =>
    obtain ⟨hhead, -⟩ := hr.shows.head hfree
    have hmem : b ∈ h.slabFree h.world cls := by
      rw [hfree]
      exact .head _
    apply hstamp
    rw [hhead, hr.shows.origin b (hr.places.tidy.known_of_free hmem),
      (hr.places.tidy.free _ _ b hmem).2]
    rfl

theorem Represents.refill
    {grow : Option ℕ} (hr : Represents L m h) (hfits : ∀ a ∈ grow, m.Fits (nslabArenaSize cls) a) :
  ∃ L', Represents L' (m.refill cls grow) (h.refill cls grow.isSome) ∧
    ((h.refill cls grow.isSome).slabFree h.world cls = [] → m.refill cls grow = m ∧
      h.refill cls grow.isSome = h)
  := by
  have hnil : m.slabFree m.world cls = 0 ↔ h.slabFree h.world cls = [] := by
    rw [hr.shows.world_eq, (hr.shows.free h.world cls).eq_nil_iff, map_eq_nil_iff]
  cases grow with
  | none =>
    refine ⟨L, ?_, ?_⟩
    · simpa [NsMem.refill, NsHeap.refill] using hr
    · simp [NsMem.refill, NsHeap.refill]
  | some a =>
    by_cases hempty : h.slabFree h.world cls = []
    · rw [NsMem.refill, if_pos (hnil.mpr hempty), isSome_some, NsHeap.refill,
        if_pos ⟨hempty, rfl⟩]
      refine ⟨_, hr.nslabGrow cls (hfits a rfl), ?_⟩
      intro hgrown
      exact absurd hgrown (h.slabFree_nslabGrow_ne cls)
    · rw [NsMem.refill, if_neg (fun hzero => hempty (hnil.mp hzero)), NsHeap.refill,
        if_neg (fun hgrow => hempty hgrow.1)]
      exact ⟨L, hr, fun hgrown => absurd hgrown hempty⟩

theorem Represents.handOver_oneOff
    {size : UInt32} {alloc : Option ℕ} {total : UInt32} (hr : Represents L m h)
    (hroom : NSMEM_HDR + size.toNat ≤ total.toNat) (hfits : ∀ a ∈ alloc, m.Fits total.toNat a) :
  ∃ L', Represents L' (handOver (m.oneOff total alloc) size) (h.oneOff total alloc.isSome).1
  := by
  cases alloc with
  | none => exact ⟨L, hr⟩
  | some a => exact ⟨_, hr.oneOff (hfits a rfl) hroom⟩

theorem Represents.handOver
    {size : UInt32} {given : MallocAt} (hr : Represents L m h) (hsize : size.toNat < 2 ^ 31)
    (hoffers : m.Offers size given) :
  ∃ L', Represents L' (handOver (m.netstackMalloc size given) size)
    (h.netstackMalloc size ⟨given.grow.isSome, given.regrow.isSome, given.alloc.isSome⟩).1
  := by
  have hroom := toNat_total hsize
  obtain ⟨hgrow, halloc⟩ := hoffers
  cases hcls : NsHeap.slabClass (total size) with
  | none =>
    have hcls' := hcls
    unfold total at hcls'
    simp only [NsMem.netstackMalloc, NsHeap.netstackMalloc, hcls, hcls']
    exact hr.handOver_oneOff hroom halloc
  | some cls =>
    have hcls' := hcls
    unfold total at hcls'
    obtain ⟨L', hr', hsame⟩ := hr.refill (hgrow cls hcls).1
    have hworld : (h.refill cls given.grow.isSome).world = h.world := by
      unfold NsHeap.refill
      split <;> rfl
    simp only [NsMem.netstackMalloc, NsHeap.netstackMalloc, hcls, hcls', NsMem.slabMalloc,
      NsHeap.slabMalloc, hr'.validate_eq, hr'.places.tidy.validate_eq,
      hworld]
    cases hfree : (h.refill cls given.grow.isSome).slabFree h.world cls with
    | nil =>
      -- Growth failed: a block of its own is made.
      obtain ⟨hm, hh⟩ := hsame hfree
      rw [hh] at hfree
      have hzero : m.slabFree m.world cls = 0 := by
        rw [hr.shows.world_eq, (hr.shows.free h.world cls).eq_nil_iff, hfree, map_nil]
      rw [hm, hh, if_pos hzero]
      exact hr.handOver_oneOff hroom halloc
    | cons b rest =>
      rw [← hworld] at hfree
      obtain ⟨hhead, -⟩ := hr'.shows.head hfree
      have hknown : (h.refill cls given.grow.isSome).Known b := by
        apply hr'.places.tidy.known_of_free
        rw [hfree]
        exact .head _
      rw [hr'.shows.world_eq, hhead,
        if_neg (hr'.places.addr_pos hknown)]
      exact ⟨L', hr'.takeSlot hfree (hroom.trans (le_slot_of_slabClass hcls))⟩

/-! ### Runs -/

theorem Represents.attach (hr : Represents L m h) (hnone : h.activeNetdev = none) :
  Represents L { m with activeNetdev := true } { h with activeNetdev := some 0 }
  := by
  obtain ⟨hp, hs, ho⟩ := hr
  refine ⟨?_, ⟨rfl, hs.inUse, hs.free, hs.arenas, hs.origin, hs.size⟩, ⟨ho.owned, ho.room, ho.freed⟩⟩
  apply hp.kept (hp.tidy.attach hnone 0) rfl
  · intro n hn
    exact hn
  · intro n
    rfl
  · intro a ha
    exact ⟨ha, hp.outstanding a ha⟩

theorem represents_boot (mem : ℕ → ℕ) (activeNetdev : Bool) :
  ∃ L h, Represents L (boot mem activeNetdev) h
  := by
  have hboot : Represents ⟨fun _ => 0, fun _ => 0⟩ (boot mem false) NsHeap.empty := by
    have hknown : ∀ b, ¬ NsHeap.empty.Known b := by
      rintro b (⟨w, cls, hslot⟩ | ⟨n, -, hlive⟩)
      · cases b with
        | slot n i => cases hslot.1
        | oneOff n => exact hslot
      · cases hlive
    refine ⟨⟨NsHeap.tidy_empty, nofun, nofun, ?_, ?_, ?_⟩, ⟨rfl, rfl, fun _ _ => rfl, fun _ _ => rfl,
      ?_, nofun⟩, ⟨rfl, nofun, nofun⟩⟩
    · intro a ha
      exact absurd rfl ha
    · intro a a' ha
      exact absurd rfl ha
    · intro a ha
      exact absurd rfl ha
    · intro b hb
      exact absurd hb (hknown b)
  cases activeNetdev with
  | false => exact ⟨_, _, hboot⟩
  | true => exact ⟨_, _, hboot.attach rfl⟩

theorem Represents.step {l : Label} (hr : Represents L m h) (hnext : m.next l = some m') :
  ∃ L' h', Represents L' m' h'
  := by
  cases l with
  | attach =>
    simp only [next] at hnext
    split at hnext
    · contradiction
    · rename_i hactive
      cases hnext
      refine ⟨L, _, hr.attach ?_⟩
      rw [hr.shows.activeNetdev] at hactive
      simpa using hactive
  | malloc size given =>
    simp only [next, ite_none_right_eq_some] at hnext
    obtain ⟨⟨hsize, hoffers⟩, hm'⟩ := hnext
    obtain rfl := some.inj hm'
    obtain ⟨L', hr'⟩ := hr.handOver hsize hoffers
    exact ⟨L', _, hr'⟩
  | free p =>
    simp only [next] at hnext
    split at hnext
    · rename_i hp
      cases hnext
      rw [hr.owns.owned] at hp
      obtain ⟨b, hb, rfl⟩ := mem_map.mp hp
      exact ⟨L, _, hr.free hb⟩
    · obtain ⟨hp, hm'⟩ := ite_none_right_eq_some.mp hnext
      obtain rfl := some.inj hm'
      rw [hr.netstackFree_freed hp]
      exact ⟨L, h, hr⟩
  | write value =>
    cases hnext
    exact ⟨L, h, hr.overwrite value⟩

theorem represents_of_reachable (hm : system.Reachable m) :
  ∃ L h, Represents L m h
  := by
  apply hm.invariant
  · rintro m ⟨mem, activeNetdev, rfl⟩
    exact represents_boot mem activeNetdev
  · rintro m l m' ⟨L, h, hr⟩ _ hnext
    exact hr.step hnext

/-! ### The contract -/

def InSlot (arenas : List ℕ) (cls : SlabClass) (p : ℕ) : Prop :=
  ∃ a ∈ arenas, ∃ i < nslabArenaSlots cls,
    p = a + NSLAB_ARENA_HDR + i * (nslabSlot cls).toNat

structure Contract (m : NsMem) (free arenas : NsWorld → SlabClass → List ℕ) : Prop where
  linkedFree : ∀ w cls, Linked m.mem (m.slabFree w cls) (free w cls)
  linkedArenas : ∀ w cls, Linked m.mem (m.slabArenas w cls) (arenas w cls)
  disjoint : m.owned.Pairwise fun x y => Apart x.1 (m.mem x.1) y.1 (m.mem y.1)
  room : ∀ x ∈ m.owned, NSMEM_HDR + x.2.toNat ≤ m.mem x.1
  place : ∀ x ∈ m.owned,
    (∃ w cls, nsmOrigin (m.mem (x.1 + 4)) = some (.slab w cls) ∧ m.mem x.1 = (nslabSlot cls).toNat ∧
      InSlot (arenas w cls) cls x.1) ∨
    ∃ w, nsmOrigin (m.mem (x.1 + 4)) = some (NsHeap.ownOrigin w) ∧ (x.1, m.mem x.1) ∈ m.outstanding
  outstanding : ∀ w cls, ∀ a ∈ arenas w cls, (a, nslabArenaSize cls) ∈ m.outstanding
  freeSlab : ∀ x ∈ m.owned, ∀ w cls, nsmOrigin (m.mem (x.1 + 4)) = some (.slab w cls) →
    ∃ m', m.next (.free x.1) = some m' ∧ ∀ w' cls', Linked m'.mem (m'.slabFree w' cls')
      (NsHeap.setAt free w cls (x.1 :: free w cls) w' cls')
  freeOwn : ∀ x ∈ m.owned, ∀ w, nsmOrigin (m.mem (x.1 + 4)) = some (NsHeap.ownOrigin w) →
    ∃ m', m.next (.free x.1) = some m' ∧ m'.outstanding = m.outstanding.erase (x.1, m.mem x.1) ∧
      ∀ w' cls', Linked m'.mem (m'.slabFree w' cls') (free w' cls')
  freeTwice : ∀ p ∈ m.freed, m.netstackFree p = m
  slots : ∀ w cls, ∀ p ∈ free w cls, InSlot (arenas w cls) cls p ∧ p ∉ m.owned.map Prod.fst
  nodup : ∀ w cls, (free w cls).Nodup
  unique : ∀ {w cls w' cls' p}, p ∈ free w cls → p ∈ free w' cls' → w = w' ∧ cls = cls'
  inUse : m.memInUse.toNat = (m.owned.map fun x => m.mem x.1).sum

theorem Represents.inSlot (hr : Represents L m h) (hslot : h.SlotOf w cls b) :
  InSlot ((h.slabArenas w cls).map fun n => L.base (.arena n)) cls (L.addr b)
  := by
  cases b with
  | oneOff n => contradiction
  | slot n i =>
    obtain ⟨hn, hi⟩ := hslot
    refine ⟨_, mem_map_of_mem hn, i, hi, ?_⟩
    rw [NsLayout.addr, hr.places.cls w cls n hn]

theorem Represents.owned_eq (hr : Represents L m h) :
  (m.owned.map fun x => (x.1, m.mem x.1)) = h.live.map fun b => (L.addr b, L.cap h b)
  := by
  have hfst : (m.owned.map fun x => (x.1, m.mem x.1)) =
      (m.owned.map Prod.fst).map fun p => (p, m.mem p) := by
    rw [List.map_map]
    rfl
  rw [hfst, hr.owns.owned, List.map_map]
  apply List.map_congr_left
  intro b hb
  rw [Function.comp_apply, hr.shows.size b hb, hr.cap_eq hb]

theorem Represents.pairwise_live (hr : Represents L m h) :
  (h.live.map fun b => (L.addr b, L.cap h b)).Pairwise fun r r' => Apart r.1 r.2 r'.1 r'.2
  := by
  rw [pairwise_map]
  apply List.Pairwise.imp_of_mem _ hr.places.tidy.liveNodup
  intro b b' hb hb' hne
  exact hr.places.apart_blocks (hr.places.tidy.known_of_live hb) (hr.places.tidy.known_of_live hb') hne

theorem Represents.sum_lt (hr : Represents L m h) :
  (h.live.map fun b => (h.size b).toNat).sum < 2 ^ 32
  := by
  have hbounds : ∀ r ∈ h.live.map fun b => (L.addr b, L.cap h b), 1 ≤ r.1 ∧ r.1 + r.2 ≤ 2 ^ 32 := by
    intro r hr'
    obtain ⟨b, hb, rfl⟩ := List.mem_map.mp hr'
    have hknown := hr.places.tidy.known_of_live hb
    obtain ⟨hpos, hbound⟩ := hr.places.bound _ (hr.places.tidy.source_of_known hknown)
    obtain ⟨hlo, hhi, -⟩ := hr.places.within hknown
    dsimp only
    omega
  have hsum := sum_le_of_apart hr.pairwise_live hbounds
  have hsizes : (h.live.map fun b => (L.addr b, L.cap h b)).map Prod.snd =
      h.live.map fun b => (h.size b).toNat := by
    rw [List.map_map]
    apply List.map_congr_left
    intro b hb
    exact hr.cap_eq hb
  rw [hsizes] at hsum
  omega

theorem Represents.linked_free
    (hr : Represents L m h) (hb : b ∈ h.live) (horigin : h.origin b = .slab w cls)
    (w' : NsWorld) (cls' : SlabClass) :
  Linked (m.release (L.addr b)).mem ((m.release (L.addr b)).slabFree w' cls')
    (NsHeap.setAt (fun w cls => (h.slabFree w cls).map L.addr) w cls
      (L.addr b :: (h.slabFree w cls).map L.addr) w' cls')
  := by
  obtain ⟨w₀, cls₀, hslot, ho, -⟩ | ⟨w₀, n, -, ho, -⟩ := hr.places.tidy.charged b hb
  · rw [horigin] at ho
    cases ho
    have hlinked := (hr.free hb).shows.free w' cls'
    rw [hr.places.tidy.netstackFree_slab hslot horigin] at hlinked
    change Linked _ _ ((NsHeap.setAt h.slabFree w cls (b :: h.slabFree w cls) w' cls').map L.addr)
      at hlinked
    by_cases heq : w' = w ∧ cls' = cls
    · obtain ⟨rfl, rfl⟩ := heq
      rw [NsHeap.setAt_self] at hlinked ⊢
      exact hlinked
    · rw [NsHeap.setAt_of_ne _ _ heq] at hlinked ⊢
      exact hlinked
  · rw [horigin] at ho
    cases w₀ <;> cases ho

theorem Represents.giveBack_own
    (hr : Represents L m h) (hb : b ∈ h.live) (horigin : h.origin b = NsHeap.ownOrigin w) :
  (m.release (L.addr b)).outstanding = m.outstanding.erase (L.addr b, m.mem (L.addr b)) ∧
    ∀ w' cls', Linked (m.release (L.addr b)).mem ((m.release (L.addr b)).slabFree w' cls')
      ((h.slabFree w' cls').map L.addr)
  := by
  obtain ⟨w₀, cls₀, -, ho, -⟩ | ⟨w₀, n, rfl, ho, hsource, hserves⟩ := hr.places.tidy.charged b hb
  · rw [horigin] at ho
    cases w <;> cases ho
  · constructor
    · rw [NsMem.release, hr.netstackFree_own hb ho hserves, hr.shows.size _ hb]
      rfl
    · intro w' cls'
      have hlinked := (hr.free hb).shows.free w' cls'
      rw [NsHeap.netstackFree_own ho hsource hserves] at hlinked
      exact hlinked

theorem Represents.contract (hr : Represents L m h) :
  m.Contract (fun w cls => (h.slabFree w cls).map L.addr)
    (fun w cls => (h.slabArenas w cls).map fun n => L.base (.arena n))
  := by
  have hp := hr.places
  have ht := hp.tidy
  have hs := hr.shows
  have hnext : ∀ b ∈ h.live, m.next (.free (L.addr b)) = some (m.release (L.addr b)) := by
    intro b hb
    apply if_pos
    rw [hr.owns.owned]
    exact List.mem_map_of_mem hb
  have horigin : ∀ b ∈ h.live, nsmOrigin (m.mem (L.addr b + 4)) = some (h.origin b) := by
    intro b hb
    rw [hs.origin b (ht.known_of_live hb), nsmOrigin_word]
  constructor
  · exact hs.free
  · exact hs.arenas
  · have hpairwise := hr.pairwise_live
    rw [← hr.owned_eq, List.pairwise_map] at hpairwise
    exact hpairwise
  · exact hr.owns.room
  · intro x hx
    obtain ⟨b, hb, haddr⟩ := hr.owns.block hx
    rw [← haddr, horigin b hb, hs.size b hb]
    obtain ⟨w, cls, hslot, ho, hsize⟩ | ⟨w, n, rfl, ho, -⟩ := ht.charged b hb
    · exact .inl ⟨w, cls, by rw [ho], by rw [hsize], hr.inSlot hslot⟩
    · refine .inr ⟨w, by rw [ho], ?_⟩
      exact hp.outstanding _ (ht.source_of_known (ht.known_of_live hb))
  · intro w cls a ha
    obtain ⟨n, hn, rfl⟩ := List.mem_map.mp ha
    have hmem := hp.outstanding _ (ht.source_arena hn)
    rw [NsLayout.extent, hp.cls w cls n hn] at hmem
    exact hmem
  · intro x hx w cls hword
    obtain ⟨b, hb, haddr⟩ := hr.owns.block hx
    rw [← haddr, horigin b hb] at hword
    rw [← haddr]
    exact ⟨_, hnext b hb, hr.linked_free hb (Option.some.inj hword)⟩
  · intro x hx w hword
    obtain ⟨b, hb, haddr⟩ := hr.owns.block hx
    rw [← haddr, horigin b hb] at hword
    rw [← haddr]
    exact ⟨_, hnext b hb, hr.giveBack_own hb (Option.some.inj hword)⟩
  · intro p hp'
    exact hr.netstackFree_freed hp'
  · intro w cls p hp'
    obtain ⟨b, hb, rfl⟩ := List.mem_map.mp hp'
    obtain ⟨hslot, hfree⟩ := ht.free w cls b hb
    refine ⟨hr.inSlot hslot, ?_⟩
    rw [hr.owns.owned]
    intro hmem
    obtain ⟨b', hb', haddr⟩ := List.mem_map.mp hmem
    obtain rfl := hp.addr_injective (ht.known_of_live hb') (ht.known_of_free hb) haddr
    exact (ht.charged b' hb').origin_ne hfree
  · intro w cls
    apply List.Nodup.map_on _ (ht.nodup w cls)
    intro b hb b' hb' haddr
    exact hp.addr_injective (ht.known_of_free hb) (ht.known_of_free hb') haddr
  · intro w cls w' cls' p hp₁ hp₂
    obtain ⟨b, hb, rfl⟩ := List.mem_map.mp hp₁
    obtain ⟨b', hb', haddr⟩ := List.mem_map.mp hp₂
    obtain rfl := hp.addr_injective (ht.known_of_free hb') (ht.known_of_free hb) haddr
    exact ht.eq_of_slotOf (ht.free w cls b' hb).1 (ht.free w' cls' b' hb').1
  · have hsum : (m.owned.map fun x => m.mem x.1) = h.live.map fun b => (h.size b).toNat := by
      have hsnd := congrArg (List.map Prod.snd) hr.owned_eq
      rw [List.map_map, List.map_map] at hsnd
      refine hsnd.trans (List.map_congr_left ?_)
      intro b hb
      exact hr.cap_eq hb
    rw [hsum, hs.inUse, ht.inUse, Nat.mod_eq_of_lt hr.sum_lt]

/-- In every state that callers lead to who write to what they own only, the heap keeps its contract.
-/
theorem heap_contract (hm : system.Reachable m) :
  ∃ free arenas, m.Contract free arenas
  := by
  obtain ⟨L, h, hr⟩ := represents_of_reachable hm
  exact ⟨_, _, hr.contract⟩

def fourBlocks : List Label :=
  [.malloc 2000 ⟨some 0x10000, none, none⟩, .attach, .malloc 2000 ⟨some 0x100000, none, none⟩,
    .malloc 2000 ⟨none, none, none⟩, .malloc 70000 ⟨none, none, some 0x200000⟩, .free 0x100040,
    .free 0x100040]

theorem fourBlocks_enabled :
  (system.exec (boot (fun _ => 0) false) fourBlocks).isSome = true
  := by
  decide

theorem heap_contract_fourBlocks :
  ∃ m, system.Reachable m ∧ (∃ free arenas, m.Contract free arenas) ∧
    m.owned.map Prod.fst = [0x200000, 0x110080, 0x20080] ∧
    m.memInUse = 70008 + 65600 + 65600 ∧ m.slabFree .dma 2 = 0x100040
  := by
  have hreach : system.Reachable (system.last _ _ fourBlocks_enabled) :=
    TransitionSystem.reachable_last ⟨fun _ => 0, false, rfl⟩
  exact ⟨_, hreach, heap_contract hreach, by decide, by decide, by decide⟩

/-! ### `netstack_calloc` -/

/-- The bytes from `p` on that the loop of `netstack_calloc` clears, in the longwords they are in. -/
def clear (mem : ℕ → ℕ) (p : ℕ) (bytes : UInt32) (a : ℕ) : ℕ :=
  if p ≤ a ∧ a < p + bytes.toNat then mem a % 256 ^ (4 - min 4 (p + bytes.toNat - a)) else mem a

def netstackCalloc (m : NsMem) (count size : UInt32) (given : MallocAt) : NsMem × Option ℕ :=
  let bytes := count * size
  match m.netstackMalloc bytes given with
  | (m, some h) => ({ m with mem := clear m.mem (h + NSMEM_HDR) bytes }, some h)
  | (m, none) => (m, none)

theorem mem_oneOff {total : UInt32} {alloc : Option ℕ} {p : ℕ}
    (hp : (m.oneOff total alloc).2 = some p) :
  (m.oneOff total alloc).1.mem p = total.toNat
  := by
  cases alloc with
  | none => contradiction
  | some h =>
    obtain rfl := Option.some.inj hp
    apply Function.update_self

theorem mem_takeSlot (m : NsMem) (cls : SlabClass) :
  (m.takeSlot cls).mem (m.slabFree m.world cls) = (nslabSlot cls).toNat
  := by
  change Function.update (Function.update _ _ _) _ _ _ = _
  rw [Function.update_of_ne (by omega)]
  apply Function.update_self

/-- A block has the size of its slot, or what was asked for. -/
theorem mem_netstackMalloc {size : UInt32} {given : MallocAt} {p : ℕ}
    (hp : (m.netstackMalloc size given).2 = some p) :
  (m.netstackMalloc size given).1.mem p = (total size).toNat ∨
    ∃ cls, NsHeap.slabClass (total size) = some cls ∧
      (m.netstackMalloc size given).1.mem p = (nslabSlot cls).toNat
  := by
  unfold netstackMalloc at hp ⊢
  split at hp
  next cls hcls =>
    rw [hcls]
    unfold slabMalloc at hp ⊢
    dsimp only at hp ⊢
    split at hp
    next hempty =>
      rw [if_pos hempty]
      left
      apply mem_oneOff hp
    next hslot =>
      rw [if_neg hslot]
      obtain rfl := Option.some.inj hp
      exact .inr ⟨cls, rfl, mem_takeSlot _ cls⟩
  next hcls =>
    rw [hcls]
    left
    apply mem_oneOff hp

theorem toNat_total_mod (size : UInt32) :
  (total size).toNat = ((size.toNat + 3) % 2 ^ 32 / 4 * 4 + 8) % 2 ^ 32
  := by
  rw [total, UInt32.toNat_add, UInt32.toNat_and_not_three, UInt32.toNat_add]
  rfl

/-- The block of a size that is given modulo `2 ^ 32` has room for it just when adding the header does
not wrap around. -/
theorem room_iff {size : UInt32} {given : MallocAt} {p n : ℕ}
    (hn : size.toNat = n % 2 ^ 32) (hp : (m.netstackMalloc size given).2 = some p) :
  NSMEM_HDR + n ≤ (m.netstackMalloc size given).1.mem p ↔ n ≤ 2 ^ 32 - 12
  := by
  have htotal := toNat_total_mod size
  unfold NSMEM_HDR
  obtain hmem | ⟨cls, hcls, hmem⟩ := mem_netstackMalloc hp
  · rw [hmem]
    omega
  · have hle := le_slot_of_slabClass hcls
    have hslot : ∀ cls, (nslabSlot cls).toNat ≤ 2 ^ 31 := by decide
    have hlt := hslot cls
    rw [hmem]
    omega

/-- A block of `netstack_calloc` has room for all elements just when their size and that of the header
do not wrap around, and then every longword of them is clear. -/
theorem calloc_room_iff {count size : UInt32} {given : MallocAt} {p : ℕ}
    (hp : (m.netstackCalloc count size given).2 = some p) :
  (NSMEM_HDR + count.toNat * size.toNat ≤ (m.netstackCalloc count size given).1.mem p ↔
      count.toNat * size.toNat ≤ 2 ^ 32 - 12) ∧
    (count.toNat * size.toNat ≤ 2 ^ 32 - 12 → ∀ i, i + 4 ≤ count.toNat * size.toNat →
      (m.netstackCalloc count size given).1.mem (p + NSMEM_HDR + i) = 0)
  := by
  have hbytes : (count * size).toNat = count.toNat * size.toNat % 2 ^ 32 := UInt32.toNat_mul count size
  unfold netstackCalloc at hp ⊢
  dsimp only at hp ⊢
  split at hp
  next m' h hmalloc =>
    obtain rfl := Option.some.inj hp
    have hroom : NSMEM_HDR + _ ≤ (m.netstackMalloc (count * size) given).1.mem h ↔ _ :=
      room_iff hbytes (by rw [hmalloc])
    rw [hmalloc] at hroom
    dsimp only at hroom ⊢
    constructor
    · rw [clear, if_neg (by unfold NSMEM_HDR; omega), hroom]
    · intro hfits i hi
      rw [Nat.mod_eq_of_lt (by omega)] at hbytes
      rw [clear, if_pos (by omega), hbytes, min_eq_left (by omega)]
      apply Nat.mod_one
  next => contradiction

/-- 65537 elements of 65536 bytes get the slot of one of them. -/
theorem calloc_room_iff_wrap :
  (netstackCalloc (boot (fun _ => 0) false) 0x10001 0x10000 ⟨some 0x10000, none, none⟩).2 =
      some 0x20080 ∧
    ¬ NSMEM_HDR + 0x10001 * 0x10000 ≤
      (netstackCalloc (boot (fun _ => 0) false) 0x10001 0x10000 ⟨some 0x10000, none, none⟩).1.mem 0x20080
  := by
  have hp : (netstackCalloc (boot (fun _ => 0) false) 0x10001 0x10000 ⟨some 0x10000, none, none⟩).2 =
      some 0x20080 := by
    decide
  refine ⟨hp, ?_⟩
  intro hle
  have hsmall := (calloc_room_iff hp).1.mp hle
  contradiction

end NsMem
