import LwipAmiga.Heap.Slab

/-!
# Where the memory of the heap comes from

The arenas and headers are in memory they say they are in, and what is outstanding is with the attached
driver.
-/

open Function List Option

def NsAlloc.index : NsAlloc → ℕ
  | .arena n => n
  | .block n => n

namespace NsHeap

variable {h h' : NsHeap} {w w' : NsWorld} {cls cls' : SlabClass} {b b' : NsMemBlock}

/-! ### Tables -/

theorem setAt_cases
    {α : Type} (f : NsWorld → SlabClass → α) (w w' : NsWorld) (cls cls' : SlabClass) (x : α) :
  (w' = w ∧ cls' = cls ∧ setAt f w cls x w' cls' = x) ∨
    ¬ (w' = w ∧ cls' = cls) ∧ setAt f w cls x w' cls' = f w' cls'
  := by
  by_cases hw : w' = w
  · subst hw
    rw [setAt, update_self]
    by_cases hcls : cls' = cls
    · subst hcls
      exact .inl ⟨rfl, rfl, update_self ..⟩
    · exact .inr ⟨fun heq => hcls heq.2, update_of_ne hcls ..⟩
  · rw [setAt, update_of_ne hw]
    exact .inr ⟨fun heq => hw heq.1, rfl⟩

theorem setAt_of_ne
    {α : Type} (f : NsWorld → SlabClass → α) (x : α) (hne : ¬ (w' = w ∧ cls' = cls)) :
  setAt f w cls x w' cls' = f w' cls'
  := by
  obtain ⟨hw, hcls, -⟩ | ⟨-, heq⟩ := setAt_cases f w w' cls cls' x
  · exact absurd ⟨hw, hcls⟩ hne
  · apply heq

theorem setAt_self {α : Type} (f : NsWorld → SlabClass → α) (x : α) :
  setAt f w cls x w cls = x
  := by
  rw [setAt, update_self, update_self]

theorem mem_setAt
    {α : Type} {f : NsWorld → SlabClass → List α} {l : List α} {x : α}
    (hx : x ∈ setAt f w cls l w' cls') :
  (w' = w ∧ cls' = cls ∧ x ∈ l) ∨ x ∈ f w' cls'
  := by
  obtain ⟨hw, hcls, heq⟩ | ⟨-, heq⟩ := setAt_cases f w w' cls cls' l
  · rw [heq] at hx
    exact .inl ⟨hw, hcls, hx⟩
  · rw [heq] at hx
    exact .inr hx

theorem mem_setAt_cons
    {α : Type} {f : NsWorld → SlabClass → List α} {x y : α} (hx : x ∈ f w' cls') :
  x ∈ setAt f w cls (y :: f w cls) w' cls'
  := by
  obtain ⟨rfl, rfl, heq⟩ | ⟨-, heq⟩ := setAt_cases f w w' cls cls' (y :: f w cls)
  · rw [heq]
    exact .tail _ hx
  · rw [heq]
    apply hx

theorem mem_setAt_self {α : Type} {f : NsWorld → SlabClass → List α} {x : α} :
  x ∈ setAt f w cls (x :: f w cls) w cls
  := by
  rw [setAt_self]
  exact .head _

/-! ### The invariant -/

def InArena (h : NsHeap) (w : NsWorld) : NsMemBlock → Prop
  | .slot n _ => ∃ cls, n ∈ h.slabArenas w cls
  | .oneOff _ => False

instance (h : NsHeap) (w : NsWorld) : DecidablePred (h.InArena w) := fun b =>
  match b with
  | .slot n _ => inferInstanceAs (Decidable (∃ cls, n ∈ h.slabArenas w cls))
  | .oneOff _ => inferInstanceAs (Decidable False)

def Listed (h : NsHeap) (w : NsWorld) : Prop :=
  ∀ cls, ∀ b ∈ h.slabFree w cls, h.InArena w b

structure Inv (h : NsHeap) : Prop where
  fresh : ∀ a src, h.source a = some src → a.index < h.fresh
  arenas : ∀ w cls, ∀ n ∈ h.slabArenas w cls, h.source (.arena n) = h.serves w ∧ h.serves w ≠ none
  listed : h.Listed .exec
  exec : ∀ b cls, h.origin b = .slab .exec cls → h.InArena .exec b
  dma : ∀ b cls, h.origin b = .slab .dma cls →
    ∃ n i, b = .slot n i ∧ n < h.fresh ∧ h.source (.arena n) ≠ some .exec
  own : ∀ b, h.origin b = .dma ∨ h.origin b = .exec → ∃ n, b = .oneOff n
  live : ∀ n, .oneOff n ∈ h.live → n < h.fresh

structure Clean (h : NsHeap) : Prop extends h.Inv where
  clean : h.Listed .dma

structure Accounts (h : NsHeap) : Prop where
  driver : ∀ a g, h.source a = some (.driver g) → h.activeNetdev = some g
  arena : ∀ n g, h.source (.arena n) = some (.driver g) → ∃ cls, n ∈ h.slabArenas .dma cls
  block : ∀ n g, h.source (.block n) = some (.driver g) →
    .oneOff n ∈ h.live ∧ h.origin (.oneOff n) = .dma

def OfDrivers (h : NsHeap) (b : NsMemBlock) : Prop :=
  ∃ n i, b = .slot n i ∧ n < h.fresh ∧ h.source (.arena n) ≠ some .exec

def Servable (h : NsHeap) : NsWorld → NsMemBlock → Prop
  | .dma, b => h.OfDrivers b
  | .exec, b => h.InArena .exec b

structure Sound (h : NsHeap) : Prop extends h.Inv where
  stale : ∀ cls, ∀ b ∈ h.slabFree .dma cls, h.OfDrivers b

theorem accounts_empty :
  empty.Accounts
  := by
  constructor <;> nofun

theorem clean_empty :
  empty.Clean
  := by
  constructor
  · constructor <;> nofun
  · nofun

theorem Clean.listed_of (hc : h.Clean) (w : NsWorld) :
  h.Listed w
  := by
  cases w with
  | dma => apply hc.clean
  | exec => apply hc.listed

theorem Inv.ofDrivers (hi : h.Inv) (hb : h.InArena .dma b) :
  h.OfDrivers b
  := by
  cases b with
  | oneOff n => contradiction
  | slot n i =>
    obtain ⟨cls, hn⟩ := hb
    obtain ⟨hsource, hserves⟩ := hi.arenas .dma cls n hn
    obtain ⟨g, hg⟩ := ne_none_iff_exists'.mp hserves
    refine ⟨n, i, rfl, ?_, ?_⟩
    · rw [hg] at hsource
      exact hi.fresh _ _ hsource
    · rw [hsource, serves]
      simp

theorem Clean.sound (hc : h.Clean) :
  h.Sound
  := ⟨hc.toInv, fun cls b hb => hc.ofDrivers (hc.clean cls b hb)⟩

theorem Sound.servable (hs : h.Sound) (hb : b ∈ h.slabFree w cls) :
  h.Servable w b
  := by
  cases w with
  | dma => exact hs.stale cls b hb
  | exec => exact hs.listed cls b hb

theorem Servable.eq_slot (hb : h.Servable w b) :
  ∃ n i, b = .slot n i
  := by
  cases b with
  | slot n i => exact ⟨n, i, rfl⟩
  | oneOff n =>
    cases w with
    | dma =>
      obtain ⟨m, i, heq, -⟩ := hb
      cases heq
    | exec => contradiction

theorem serves_world (h : NsHeap) :
  h.serves h.world ≠ none
  := by
  unfold world serves
  cases h.activeNetdev <;> simp

theorem world_of_serves {g : ℕ} (hw : h.serves w = some (.driver g)) :
  w = .dma
  := by
  cases w with
  | dma => rfl
  | exec => cases hw

theorem driver_of_serves {g : ℕ} (hw : h.serves w = some (.driver g)) :
  h.activeNetdev = some g
  := by
  obtain rfl := world_of_serves hw
  obtain ⟨g', hg', heq⟩ := map_eq_some_iff.mp hw
  cases heq
  apply hg'

/-! ### `netstack_malloc` -/

def ownOrigin : NsWorld → NsOrigin
  | .dma => .dma
  | .exec => .exec

def Tracked (h : NsHeap) : NsAlloc → Prop
  | .arena n => ∃ cls, n ∈ h.slabArenas h.world cls
  | .block n => .oneOff n ∈ h.live ∧ h.origin (.oneOff n) = ownOrigin h.world

structure Extends (h h' : NsHeap) : Prop where
  activeNetdev : h'.activeNetdev = h.activeNetdev
  fresh : h.fresh ≤ h'.fresh
  source : ∀ a src, h.source a = some src → h'.source a = some src
  kept : ∀ a, a.index < h.fresh → h'.source a = h.source a
  slabArenas : ∀ w cls, h.slabArenas w cls ⊆ h'.slabArenas w cls
  live : ∀ n, .oneOff n ∈ h.live →
    .oneOff n ∈ h'.live ∧ h'.origin (.oneOff n) = h.origin (.oneOff n)
  new : ∀ a src, h'.source a = some src →
    h.source a = some src ∨ h.serves h.world = some src ∧ h'.Tracked a

theorem Extends.refl (h : NsHeap) :
  Extends h h
  := ⟨rfl, le_rfl, fun _ _ ha => ha, fun _ _ => rfl, fun _ _ _ hn => hn, fun _ hn => ⟨hn, rfl⟩,
    fun _ _ ha => .inl ha⟩

theorem Extends.world_eq (hext : Extends h h') :
  h'.world = h.world
  := by
  rw [world, hext.activeNetdev, world]

theorem Extends.serves_eq (hext : Extends h h') (w : NsWorld) :
  h'.serves w = h.serves w
  := by
  cases w with
  | dma => rw [serves, hext.activeNetdev, serves]
  | exec => rfl

theorem Extends.tracked {a : NsAlloc} (hext : Extends h h') (ha : h.Tracked a) :
  h'.Tracked a
  := by
  cases a with
  | arena n =>
    obtain ⟨cls, hn⟩ := ha
    refine ⟨cls, ?_⟩
    rw [hext.world_eq]
    exact hext.slabArenas _ _ hn
  | block n =>
    obtain ⟨hlive, horigin⟩ := ha
    obtain ⟨hlive', horigin'⟩ := hext.live n hlive
    refine ⟨hlive', ?_⟩
    rw [horigin', horigin, hext.world_eq]

theorem Extends.trans {h'' : NsHeap} (h₁ : Extends h h') (h₂ : Extends h' h'') :
  Extends h h''
  := by
  constructor
  · rw [h₂.activeNetdev, h₁.activeNetdev]
  · apply h₁.fresh.trans h₂.fresh
  · intro a src ha
    apply h₂.source a src (h₁.source a src ha)
  · intro a ha
    rw [h₂.kept a (ha.trans_le h₁.fresh), h₁.kept a ha]
  · intro w cls
    apply List.Subset.trans (h₁.slabArenas w cls) (h₂.slabArenas w cls)
  · intro n hn
    obtain ⟨hlive, horigin⟩ := h₁.live n hn
    obtain ⟨hlive', horigin'⟩ := h₂.live n hlive
    exact ⟨hlive', horigin'.trans horigin⟩
  · intro a src ha
    obtain hold | ⟨hserves, htracked⟩ := h₂.new a src ha
    · obtain hold | ⟨hserves, htracked⟩ := h₁.new a src hold
      · exact .inl hold
      · exact .inr ⟨hserves, h₂.tracked htracked⟩
    · rw [h₁.world_eq, h₁.serves_eq] at hserves
      exact .inr ⟨hserves, htracked⟩

theorem Extends.accounts (hext : Extends h h') (ha : h.Accounts) :
  h'.Accounts
  := by
  constructor
  · intro a g hsource
    rw [hext.activeNetdev]
    obtain hold | ⟨hserves, -⟩ := hext.new a _ hsource
    · exact ha.driver a g hold
    · exact driver_of_serves hserves
  · intro n g hsource
    obtain hold | ⟨hserves, htracked⟩ := hext.new _ _ hsource
    · obtain ⟨cls, hn⟩ := ha.arena n g hold
      exact ⟨cls, hext.slabArenas _ _ hn⟩
    · obtain ⟨cls, hn⟩ := htracked
      rw [hext.world_eq, world_of_serves hserves] at hn
      exact ⟨cls, hn⟩
  · intro n g hsource
    obtain hold | ⟨hserves, hlive, horigin⟩ := hext.new _ _ hsource
    · obtain ⟨hlive, hdma⟩ := ha.block n g hold
      obtain ⟨hlive', horigin⟩ := hext.live n hlive
      exact ⟨hlive', horigin.trans hdma⟩
    · rw [hext.world_eq, world_of_serves hserves] at horigin
      exact ⟨hlive, horigin⟩

theorem Inv.arenas_extends
    {n : ℕ} (hi : h.Inv) (hext : Extends h h') (hn : n ∈ h.slabArenas w cls) :
  h'.source (.arena n) = h'.serves w ∧ h'.serves w ≠ none
  := by
  obtain ⟨hsource, hne⟩ := hi.arenas w cls n hn
  obtain ⟨src, hsrc⟩ := ne_none_iff_exists'.mp hne
  rw [hext.serves_eq]
  refine ⟨?_, hne⟩
  rw [hsrc] at hsource ⊢
  apply hext.source _ _ hsource

theorem Inv.update_source
    {a a' : NsAlloc} {x : Option MemSource} {src : MemSource} (hi : h.Inv) (ha : a.index = h.fresh)
    (ha' : h.source a' = some src) :
  update h.source a x a' = some src
  := by
  have hlt := hi.fresh a' src ha'
  rw [update_of_ne]
  · apply ha'
  · rintro rfl
    omega

theorem update_source_of_lt
    {a a' : NsAlloc} {x : Option MemSource} (ha : a.index = h.fresh) (ha' : a'.index < h.fresh) :
  update h.source a x a' = h.source a'
  := by
  rw [update_of_ne]
  rintro rfl
  omega

theorem mem_slots {n : ℕ} (hb : b ∈ slots n cls) :
  ∃ i, b = .slot n i
  := by
  obtain ⟨i, -, rfl⟩ := mem_map.mp hb
  exact ⟨i, rfl⟩

theorem Inv.extends_nslabGrow (hi : h.Inv) (cls : SlabClass) :
  Extends h (h.nslabGrow cls)
  := by
  constructor
  · rfl
  · exact Nat.le_succ _
  · intro a src ha
    apply hi.update_source rfl ha
  · intro a ha
    apply update_source_of_lt rfl ha
  · intro w cls' n hn
    exact mem_setAt_cons hn
  · intro n hn
    refine ⟨hn, if_neg ?_⟩
    intro hmem
    obtain ⟨i, hi⟩ := mem_slots hmem
    cases hi
  · intro a src ha
    by_cases heq : a = .arena h.fresh
    · subst heq
      change update h.source (.arena h.fresh) (h.serves h.world) (.arena h.fresh) = _ at ha
      rw [update_self] at ha
      exact .inr ⟨ha, cls, mem_setAt_self⟩
    · change update h.source (.arena h.fresh) (h.serves h.world) a = _ at ha
      rw [update_of_ne heq] at ha
      exact .inl ha

theorem InArena.nslabGrow (hb : h.InArena w b) :
  (h.nslabGrow cls).InArena w b
  := by
  cases b with
  | slot n i =>
    obtain ⟨cls', hn⟩ := hb
    exact ⟨cls', mem_setAt_cons hn⟩
  | oneOff n => contradiction

theorem Listed.nslabGrow (hw : h.Listed w) :
  (h.nslabGrow cls).Listed w
  := by
  intro cls' b hb
  obtain ⟨rfl, rfl, hnew⟩ | hold := mem_setAt hb
  · obtain hnew | hold := mem_append.mp hnew
    · obtain ⟨i, rfl⟩ := mem_slots (mem_reverse.mp hnew)
      exact ⟨cls', mem_setAt_self⟩
    · apply (hw cls' b hold).nslabGrow
  · apply (hw cls' b hold).nslabGrow

theorem mem_slabArenas_nslabGrow {n : ℕ} (hn : n ∈ (h.nslabGrow cls).slabArenas w cls') :
  (w = h.world ∧ cls' = cls ∧ n = h.fresh) ∨ n ∈ h.slabArenas w cls'
  := by
  obtain ⟨rfl, rfl, hn⟩ | hn := mem_setAt hn
  · obtain rfl | hn := mem_cons.mp hn
    · exact .inl ⟨rfl, rfl, rfl⟩
    · exact .inr hn
  · exact .inr hn

theorem Inv.nslabGrow (hi : h.Inv) (cls : SlabClass) :
  (h.nslabGrow cls).Inv
  := by
  have hext := hi.extends_nslabGrow cls
  have hnew : (h.nslabGrow cls).source (.arena h.fresh) = h.serves h.world :=
    update_self ..
  have hold : ∀ a, a ≠ .arena h.fresh → (h.nslabGrow cls).source a = h.source a := fun a ha =>
    update_of_ne ha ..
  -- The headers of the new slots say that they are free.
  have horigin : ∀ b o, (h.nslabGrow cls).origin b = o → o ≠ .free → h.origin b = o := by
    intro b o hb ho
    simp only [NsHeap.nslabGrow] at hb
    split at hb
    · exact absurd hb.symm ho
    · apply hb
  constructor
  · intro a src ha
    by_cases heq : a = .arena h.fresh
    · rw [heq]
      exact Nat.lt_succ_self _
    · rw [hold a heq] at ha
      exact (hi.fresh a src ha).trans (Nat.lt_succ_self _)
  · intro w cls' n hn
    obtain ⟨rfl, -, rfl⟩ | hn := mem_slabArenas_nslabGrow hn
    · exact ⟨hnew, h.serves_world⟩
    · apply hi.arenas_extends hext hn
  · apply hi.listed.nslabGrow
  · intro b cls' hb
    apply (hi.exec b cls' (horigin b _ hb nofun)).nslabGrow
  · intro b cls' hb
    obtain ⟨n, i, rfl, hn, hsource⟩ := hi.dma b cls' (horigin b _ hb nofun)
    refine ⟨n, i, rfl, hn.trans (Nat.lt_succ_self _), ?_⟩
    rw [hold]
    · apply hsource
    · rintro ⟨⟩
      exact lt_irrefl _ hn
  · rintro b (hb | hb)
    · exact hi.own b (.inl (horigin b _ hb nofun))
    · exact hi.own b (.inr (horigin b _ hb nofun))
  · intro n hn
    exact (hi.live n hn).trans (Nat.lt_succ_self _)

theorem Clean.nslabGrow (hc : h.Clean) (cls : SlabClass) :
  (h.nslabGrow cls).Clean
  := ⟨hc.toInv.nslabGrow cls, hc.clean.nslabGrow⟩

theorem Extends.ofDrivers (hext : Extends h h') (hb : h.OfDrivers b) :
  h'.OfDrivers b
  := by
  obtain ⟨n, i, rfl, hn, hsource⟩ := hb
  refine ⟨n, i, rfl, hn.trans_le hext.fresh, ?_⟩
  rw [hext.kept (.arena n) hn]
  apply hsource

theorem Sound.nslabGrow (hs : h.Sound) (cls : SlabClass) :
  (h.nslabGrow cls).Sound
  := by
  use hs.toInv.nslabGrow cls
  intro cls' b hb
  have hext := hs.extends_nslabGrow cls
  obtain ⟨hw, rfl, hnew⟩ | hold := mem_setAt hb
  · obtain hnew | hold := mem_append.mp hnew
    · obtain ⟨i, rfl⟩ := mem_slots (mem_reverse.mp hnew)
      refine ⟨h.fresh, i, rfl, Nat.lt_succ_self _, ?_⟩
      change update h.source (.arena h.fresh) (h.serves h.world) (.arena h.fresh) ≠ _
      rw [update_self, ← hw, serves]
      simp
    · rw [← hw] at hold
      exact hext.ofDrivers (hs.stale _ b hold)
  · exact hext.ofDrivers (hs.stale _ b hold)

structure Grows (h h' : NsHeap) : Prop extends Extends h h' where
  sound : h'.Sound
  listed : ∀ w, h.Listed w → h'.Listed w
  origin : ∀ b, h'.origin b = h.origin b ∨ h.fresh ≤ b.alloc.index ∧ h'.origin b = .free
  sameLive : h'.live = h.live

theorem Sound.grows_refl (hs : h.Sound) :
  Grows h h
  := ⟨.refl h, hs, fun _ hw => hw, fun _ => .inl rfl, rfl⟩

theorem Sound.grows_nslabGrow (hs : h.Sound) (cls : SlabClass) :
  Grows h (h.nslabGrow cls)
  := by
  refine ⟨hs.extends_nslabGrow cls, hs.nslabGrow cls, fun _ hw => hw.nslabGrow, ?_, rfl⟩
  intro b
  by_cases hmem : b ∈ slots h.fresh cls
  · obtain ⟨i, rfl⟩ := mem_slots hmem
    exact .inr ⟨le_rfl, if_pos hmem⟩
  · exact .inl (if_neg hmem)

theorem Sound.grows_refill (hs : h.Sound) (cls : SlabClass) (grow : Bool) :
  Grows h (h.refill cls grow)
  := by
  unfold refill
  split
  · apply hs.grows_nslabGrow
  · apply hs.grows_refl

theorem Listed.dropFree (hw : h.Listed w) (cls : SlabClass) :
  (h.dropFree cls).Listed w
  := by
  intro cls' b hb
  obtain ⟨-, -, hnil⟩ | hold := mem_setAt hb
  · cases hnil
  · exact hw cls' b hold

theorem Sound.dropFree (hs : h.Sound) (cls : SlabClass) :
  (h.dropFree cls).Sound
  := by
  constructor
  · exact ⟨hs.fresh, hs.arenas, hs.listed.dropFree cls, hs.exec, hs.dma, hs.own, hs.live⟩
  · intro cls' b hb
    obtain ⟨-, -, hnil⟩ | hold := mem_setAt hb
    · cases hnil
    · exact hs.stale cls' b hold

theorem Sound.grows_validate (hs : h.Sound) (cls : SlabClass) (regrow : Bool) :
  Grows h (h.validate cls regrow)
  := by
  unfold validate
  split
  · have hg := (hs.dropFree cls).grows_refill cls regrow
    refine ⟨?_, hg.sound, fun w hw => hg.listed w (hw.dropFree cls), hg.origin, hg.sameLive⟩
    exact ⟨hg.activeNetdev, hg.fresh, hg.source, hg.kept, hg.slabArenas, hg.live, hg.new⟩
  · apply hs.grows_refl

def Returned (h h' : NsHeap) : NsMemBlock → Prop
  | .slot n i => ∃ cls, h'.origin (.slot n i) = .slab h.world cls
  | .oneOff n => h.fresh ≤ n ∧ h'.origin (.oneOff n) = ownOrigin h.world ∧
      h'.source (.block n) = h.serves h.world

structure Served (h : NsHeap) (r : NsHeap × Option NsMemBlock) : Prop extends Extends h r.1 where
  sound : r.1.Sound
  listed : ∀ w, h.Listed w → r.1.Listed w
  origin : ∀ b, b ∉ r.2 →
    r.1.origin b = h.origin b ∨ h.fresh ≤ b.alloc.index ∧ r.1.origin b = .free
  liveSubset : h.live ⊆ r.1.live
  liveBlock : ∀ b ∈ r.2, b ∈ r.1.live
  returned : ∀ b ∈ r.2, h.Returned r.1 b
  held : h.Listed h.world → ∀ b ∈ r.2, r.1.source b.alloc ≠ none

theorem Served.newBlock {r : NsHeap × Option NsMemBlock} {n : ℕ} (hs : Served h r)
    (hn : .oneOff n ∈ r.2) :
  h.fresh ≤ n
  := (hs.returned _ hn).1

theorem Served.clean {r : NsHeap × Option NsMemBlock} (hs : Served h r) (hc : h.Clean) :
  r.1.Clean
  := ⟨hs.sound.toInv, hs.listed .dma hc.clean⟩

theorem Extends.source_ne_none {a : NsAlloc} (hext : Extends h h') (ha : h.source a ≠ none) :
  h'.source a ≠ none
  := by
  obtain ⟨src, hsrc⟩ := ne_none_iff_exists'.mp ha
  rw [hext.source a src hsrc]
  nofun

theorem Served.of_grows {r : NsHeap × Option NsMemBlock} (hg : Grows h h') (hs : Served h' r) :
  Served h r
  := by
  constructor
  · apply hg.toExtends.trans hs.toExtends
  · apply hs.sound
  · intro w hw
    apply hs.listed w (hg.listed w hw)
  · intro b hnot
    obtain hsame | ⟨hle, hfree⟩ := hs.origin b hnot
    · rw [hsame]
      apply hg.origin b
    · exact .inr ⟨hg.fresh.trans hle, hfree⟩
  · rw [← hg.sameLive]
    apply hs.liveSubset
  · apply hs.liveBlock
  · intro b hb
    have hreturned := hs.returned b hb
    cases b with
    | slot n i =>
      obtain ⟨cls, horigin⟩ := hreturned
      rw [hg.world_eq] at horigin
      exact ⟨cls, horigin⟩
    | oneOff n =>
      obtain ⟨hfresh, horigin, hsource⟩ := hreturned
      rw [hg.world_eq] at horigin
      rw [hg.world_eq, hg.serves_eq] at hsource
      exact ⟨hg.fresh.trans hfresh, horigin, hsource⟩
  · intro hw
    apply hs.held
    rw [hg.world_eq]
    apply hg.listed _ hw

theorem Listed.takeSlot
    {rest : List NsMemBlock} (hw : h.Listed w) (hrest : rest ⊆ h.slabFree h.world cls) :
  (h.takeSlot cls b rest).Listed w
  := by
  intro cls' b' hb'
  obtain ⟨rfl, rfl, hnew⟩ | hold := mem_setAt hb'
  · exact hw _ b' (hrest hnew)
  · exact hw cls' b' hold

theorem Inv.takeSlot
    {rest : List NsMemBlock} (hi : h.Inv) (hslot : h.Servable h.world b)
    (hrest : rest ⊆ h.slabFree h.world cls) :
  (h.takeSlot cls b rest).Inv
  := by
  have horigin : ∀ b', b' ≠ b → (h.takeSlot cls b rest).origin b' = h.origin b' := fun b' hb' =>
    update_of_ne hb' ..
  have hself : (h.takeSlot cls b rest).origin b = .slab h.world cls := update_self ..
  constructor
  · apply hi.fresh
  · apply hi.arenas
  · apply hi.listed.takeSlot hrest
  · intro b' cls' hb'
    by_cases heq : b' = b
    · rw [heq, hself] at hb'
      injection hb' with hworld
      rw [hworld] at hslot
      rw [heq]
      obtain ⟨n, i, rfl⟩ := hslot.eq_slot
      exact hslot
    · rw [horigin b' heq] at hb'
      exact hi.exec b' cls' hb'
  · intro b' cls' hb'
    by_cases heq : b' = b
    · rw [heq, hself] at hb'
      injection hb' with hworld
      rw [hworld] at hslot
      rw [heq]
      exact hslot
    · rw [horigin b' heq] at hb'
      exact hi.dma b' cls' hb'
  · intro b' hb'
    by_cases heq : b' = b
    · rw [heq, hself] at hb'
      simp at hb'
    · rw [horigin b' heq] at hb'
      exact hi.own b' hb'
  · intro n hn
    obtain heq | hlive := mem_cons.mp hn
    · obtain ⟨m, i, hm⟩ := hslot.eq_slot
      rw [hm] at heq
      cases heq
    · exact hi.live n hlive

theorem Sound.served_takeSlot
    {rest : List NsMemBlock} (hs : h.Sound) (hfree : h.slabFree h.world cls = b :: rest) :
  Served h (h.takeSlot cls b rest, some b)
  := by
  have hmem : b ∈ h.slabFree h.world cls := by
    rw [hfree]
    exact .head _
  have hrest : rest ⊆ h.slabFree h.world cls := by
    rw [hfree]
    apply subset_cons_self
  have hslot := hs.servable hmem
  obtain ⟨n, i, rfl⟩ := hslot.eq_slot
  constructor
  · refine ⟨rfl, le_rfl, fun _ _ ha => ha, fun _ _ => rfl, fun _ _ _ hn => hn, ?_,
      fun _ _ ha => .inl ha⟩
    intro n' hn'
    have hne : NsMemBlock.oneOff n' ≠ .slot n i := nofun
    exact ⟨.tail _ hn', update_of_ne hne (.slab h.world cls) h.origin⟩
  · use hs.toInv.takeSlot hslot hrest
    intro cls' b' hb'
    obtain ⟨hw, rfl, hnew⟩ | hold := mem_setAt hb'
    · apply hs.stale cls' b'
      rw [hw]
      exact hrest hnew
    · exact hs.stale cls' b' hold
  · intro w hw
    apply hw.takeSlot hrest
  · intro b' hb'
    refine .inl (update_of_ne ?_ ..)
    rintro rfl
    exact hb' rfl
  · apply subset_cons_self
  · rintro b' ⟨⟩
    exact .head _
  · rintro b' ⟨⟩
    exact ⟨cls, update_self ..⟩
  · rintro hw b' ⟨⟩
    obtain ⟨cls', hn⟩ := hw cls _ hmem
    obtain ⟨hsource, hserves⟩ := hs.arenas _ _ n hn
    change h.source (.arena n) ≠ none
    rw [hsource]
    apply hserves

theorem Inv.extends_oneOff (hi : h.Inv) (total : UInt32) :
  Extends h (h.oneOff total true).1
  := by
  constructor
  · rfl
  · exact Nat.le_succ _
  · intro a src ha
    apply hi.update_source rfl ha
  · intro a ha
    apply update_source_of_lt rfl ha
  · intro w cls n hn
    exact hn
  · intro n hn
    have hne : NsMemBlock.oneOff n ≠ .oneOff h.fresh := by
      rintro ⟨⟩
      exact lt_irrefl _ (hi.live _ hn)
    exact ⟨.tail _ hn, update_of_ne hne ..⟩
  · intro a src ha
    by_cases heq : a = .block h.fresh
    · subst heq
      change update h.source (.block h.fresh) (h.serves h.world) (.block h.fresh) = _ at ha
      rw [update_self] at ha
      refine .inr ⟨ha, .head _, ?_⟩
      change update h.origin (.oneOff h.fresh) _ (.oneOff h.fresh) = ownOrigin h.world
      rw [update_self]
      cases h.world <;> rfl
    · change update h.source (.block h.fresh) (h.serves h.world) a = _ at ha
      rw [update_of_ne heq] at ha
      exact .inl ha

theorem Inv.oneOff (hi : h.Inv) (total : UInt32) :
  (h.oneOff total true).1.Inv
  := by
  have hold : ∀ a, a ≠ .block h.fresh → (h.oneOff total true).1.source a = h.source a := fun a ha =>
    update_of_ne ha ..
  have hself : (h.oneOff total true).1.origin (.oneOff h.fresh) =
      if h.world = .dma then .dma else .exec := update_self ..
  have horigin : ∀ b, b ≠ .oneOff h.fresh → (h.oneOff total true).1.origin b = h.origin b :=
    fun b hb => update_of_ne hb ..
  have hnotSlab : ∀ b w cls, (h.oneOff total true).1.origin b = .slab w cls →
      h.origin b = .slab w cls := by
    intro b w cls hb
    by_cases heq : b = .oneOff h.fresh
    · rw [heq, hself] at hb
      split at hb <;> cases hb
    · rw [horigin b heq] at hb
      apply hb
  constructor
  · intro a src ha
    by_cases heq : a = .block h.fresh
    · rw [heq]
      exact Nat.lt_succ_self _
    · rw [hold a heq] at ha
      exact (hi.fresh a src ha).trans (Nat.lt_succ_self _)
  · intro w cls n hn
    rw [hold (.arena n) nofun]
    exact hi.arenas w cls n hn
  · apply hi.listed
  · intro b cls hb
    exact hi.exec b cls (hnotSlab b _ cls hb)
  · intro b cls hb
    obtain ⟨n, i, rfl, hn, hsource⟩ := hi.dma b cls (hnotSlab b _ cls hb)
    refine ⟨n, i, rfl, hn.trans (Nat.lt_succ_self _), ?_⟩
    rw [hold (.arena n) nofun]
    apply hsource
  · intro b hb
    by_cases heq : b = .oneOff h.fresh
    · exact ⟨h.fresh, heq⟩
    · rw [horigin b heq] at hb
      exact hi.own b hb
  · intro n hn
    obtain heq | hlive := mem_cons.mp hn
    · cases heq
      exact Nat.lt_succ_self _
    · exact (hi.live n hlive).trans (Nat.lt_succ_self _)

theorem Sound.served_oneOff (hs : h.Sound) (total : UInt32) (alloc : Bool) :
  Served h (h.oneOff total alloc)
  := by
  cases alloc with
  | false =>
    exact ⟨.refl h, hs, fun _ hw => hw, fun _ _ => .inl rfl, List.Subset.refl _, nofun, nofun, nofun⟩
  | true =>
    have hext := hs.extends_oneOff total
    have hsource : (h.oneOff total true).1.source (.block h.fresh) = h.serves h.world :=
      update_self ..
    constructor
    · apply hext
    · use hs.toInv.oneOff total
      intro cls b hb
      exact hext.ofDrivers (hs.stale cls b hb)
    · exact fun _ hw => hw
    · intro b hb
      refine .inl (update_of_ne ?_ ..)
      rintro rfl
      exact hb rfl
    · apply subset_cons_self
    · rintro b ⟨⟩
      exact .head _
    · rintro b ⟨⟩
      refine ⟨le_rfl, ?_, hsource⟩
      change update h.origin (.oneOff h.fresh) _ (.oneOff h.fresh) = ownOrigin h.world
      rw [update_self]
      cases h.world <;> rfl
    · rintro - b ⟨⟩
      change (h.oneOff total true).1.source (.block h.fresh) ≠ none
      rw [hsource]
      apply h.serves_world

theorem Sound.served_slabMalloc
    (hs : h.Sound) (cls : SlabClass) (total : UInt32) (env : MallocEnv) :
  Served h (h.slabMalloc cls total env)
  := by
  have hrefill := hs.grows_refill cls env.grow
  have hvalidate := hrefill.sound.grows_validate cls env.regrow
  apply Served.of_grows hrefill
  apply Served.of_grows hvalidate
  unfold slabMalloc
  dsimp only
  split
  · rename_i b rest hfree
    apply hvalidate.sound.served_takeSlot hfree
  · apply hvalidate.sound.served_oneOff

theorem Sound.served_netstackMalloc (hs : h.Sound) (size : UInt32) (env : MallocEnv) :
  Served h (h.netstackMalloc size env)
  := by
  unfold netstackMalloc
  dsimp only
  split
  · apply hs.served_slabMalloc
  · apply hs.served_oneOff

/-! ### `netstack_free` -/

def Current (h : NsHeap) (b : NsMemBlock) : Prop :=
  h.activeNetdev ≠ none → ∀ cls, h.origin b = .slab .dma cls → h.InArena .dma b

instance (h : NsHeap) : DecidablePred h.Current := fun b =>
  inferInstanceAs
    (Decidable (h.activeNetdev ≠ none → ∀ cls, h.origin b = .slab .dma cls → h.InArena .dma b))

structure Frees (h h' : NsHeap) (b : NsMemBlock) : Prop where
  activeNetdev : h'.activeNetdev = h.activeNetdev
  fresh : h'.fresh = h.fresh
  slabArenas : h'.slabArenas = h.slabArenas
  source : ∀ a, h'.source a = h.source a ∨
    h'.source a = none ∧ a = b.alloc ∧ (h.origin b = .dma ∨ h.origin b = .exec)
  given : ∀ g, h.origin b = .dma → h.activeNetdev = some g →
    h.source b.alloc = some (.driver g) → h'.source b.alloc = none
  slabFree : ∀ w cls, ∀ b' ∈ h'.slabFree w cls, b' ∈ h.slabFree w cls ∨
    b' = b ∧ h.origin b = .slab w cls ∧ (w = .dma → h.activeNetdev ≠ none)
  origin : ∀ b', h'.origin b' = h.origin b' ∨ b' = b ∧ h'.origin b' = .free
  live : ∀ b' ∈ h.live, b' ≠ b → b' ∈ h'.live
  subset : h'.live ⊆ h.live

theorem mem_live_account (size : UInt32) (hb' : b' ∈ h.live) (hne : b' ≠ b) :
  b' ∈ (h.account b size).live
  := (mem_erase_of_ne hne).mpr hb'

theorem frees_account (size : UInt32) (hdma : h.origin b ≠ .dma ∨ h.activeNetdev = none) :
  Frees h (h.account b size) b
  := by
  refine ⟨rfl, rfl, rfl, fun _ => .inl rfl, ?_, fun _ _ _ hb' => .inl hb', fun _ => .inl rfl,
    fun _ => mem_live_account size, erase_subset⟩
  intro g horigin hactive
  rcases hdma with hdma | hdma
  · contradiction
  · rw [hdma] at hactive
    contradiction

theorem frees_pushSlot
    (size : UInt32) (horigin : h.origin b = .slab w cls) (hw : w = .dma → h.activeNetdev ≠ none) :
  Frees h ((h.account b size).pushSlot w cls b) b
  := by
  refine ⟨rfl, rfl, rfl, fun _ => .inl rfl, ?_, ?_, ?_, fun _ => mem_live_account size, erase_subset⟩
  · intro g hdma
    rw [horigin] at hdma
    cases hdma
  · intro w' cls' b' hb'
    obtain ⟨rfl, rfl, hb'⟩ | hold := mem_setAt hb'
    · obtain rfl | hold := mem_cons.mp hb'
      · exact .inr ⟨rfl, horigin, hw⟩
      · exact .inl hold
    · exact .inl hold
  · intro b'
    by_cases heq : b' = b
    · right
      subst heq
      exact ⟨rfl, update_self ..⟩
    · left
      exact update_of_ne heq ..

theorem frees_source
    (size : UInt32) (horigin : h.origin b = .dma ∨ h.origin b = .exec) :
  Frees h { h.account b size with source := update h.source b.alloc none } b
  := by
  refine ⟨rfl, rfl, rfl, ?_, ?_, fun _ _ _ hb' => .inl hb', fun _ => .inl rfl,
    fun _ => mem_live_account size, erase_subset⟩
  · intro a
    by_cases heq : a = b.alloc
    · right
      subst heq
      exact ⟨update_self .., rfl, horigin⟩
    · left
      exact update_of_ne heq ..
  · intro g _ _ _
    exact update_self ..

theorem frees_netdevifDmaFree (size : UInt32) (horigin : h.origin b = .dma) :
  Frees h ((h.account b size).netdevifDmaFree b.alloc) b
  := by
  unfold netdevifDmaFree
  split
  · rename_i hactive
    exact frees_account size (.inr hactive)
  · rename_i g hactive
    split
    · exact frees_source size (.inl horigin)
    · rename_i hother
      refine ⟨rfl, rfl, rfl, fun _ => .inl rfl, ?_, fun _ _ _ hb' => .inl hb', fun _ => .inl rfl,
        fun _ => mem_live_account size, erase_subset⟩
      intro g' _ hactive' hsource
      change h.activeNetdev = some g at hactive
      rw [hactive'] at hactive
      cases hactive
      contradiction

theorem frees_netstackFree (h : NsHeap) (b : NsMemBlock) :
  Frees h (h.netstackFree b) b
  := by
  unfold netstackFree
  split
  · rename_i cls horigin
    split
    · apply frees_account
      left
      rw [horigin]
      nofun
    · rename_i hactive
      apply frees_pushSlot _ horigin
      intro _ hnone
      rw [hnone] at hactive
      contradiction
  · rename_i cls horigin
    apply frees_pushSlot _ horigin
    nofun
  · rename_i horigin
    apply frees_netdevifDmaFree _ horigin
  · rename_i horigin
    exact frees_source _ (.inr horigin)
  · rename_i horigin
    refine ⟨rfl, rfl, rfl, fun _ => .inl rfl, ?_, fun _ _ _ hb' => .inl hb', fun _ => .inl rfl,
      fun _ hb' _ => hb', List.Subset.refl _⟩
    intro g hdma
    rw [horigin] at hdma
    cases hdma

namespace Frees

theorem inArena (hf : Frees h h' b) (hb' : h.InArena w b') :
  h'.InArena w b'
  := by
  cases b' with
  | slot n i =>
    obtain ⟨cls, hn⟩ := hb'
    rw [← hf.slabArenas] at hn
    exact ⟨cls, hn⟩
  | oneOff n => contradiction

theorem outstanding
    {a : NsAlloc} {src : MemSource} (hf : Frees h h' b) (ha : h'.source a = some src) :
  h.source a = some src
  := by
  obtain hsame | ⟨hnone, -⟩ := hf.source a
  · rw [← hsame]
    apply ha
  · rw [hnone] at ha
    contradiction

theorem origin_of {o : NsOrigin} (hf : Frees h h' b) (ho : o ≠ .free) (hb' : h'.origin b' = o) :
  h.origin b' = o
  := by
  obtain hsame | ⟨-, hfree⟩ := hf.origin b'
  · rw [← hsame]
    apply hb'
  · rw [hfree] at hb'
    exact absurd hb'.symm ho

theorem serves_eq (hf : Frees h h' b) (w : NsWorld) :
  h'.serves w = h.serves w
  := by
  cases w with
  | dma => rw [serves, serves, hf.activeNetdev]
  | exec => rfl

theorem source_of_ne
    {a : NsAlloc} (hf : Frees h h' b) (hi : h.Inv) (ha : ∀ n, b = .oneOff n → a ≠ .block n) :
  h'.source a = h.source a
  := by
  obtain hsame | ⟨-, heq, horigin⟩ := hf.source a
  · apply hsame
  · obtain ⟨n, rfl⟩ := hi.own b horigin
    exact absurd heq (ha n rfl)

theorem source_arena (hf : Frees h h' b) (hi : h.Inv) (n : ℕ) :
  h'.source (.arena n) = h.source (.arena n)
  := by
  apply hf.source_of_ne hi
  nofun

theorem inv (hf : Frees h h' b) (hi : h.Inv) :
  h'.Inv
  := by
  constructor
  · intro a src ha
    rw [hf.fresh]
    exact hi.fresh a src (hf.outstanding ha)
  · intro w cls n hn
    rw [hf.slabArenas] at hn
    rw [hf.source_arena hi, hf.serves_eq]
    exact hi.arenas w cls n hn
  · intro cls b' hb'
    obtain hold | ⟨rfl, horigin, -⟩ := hf.slabFree _ _ b' hb'
    · exact hf.inArena (hi.listed cls b' hold)
    · exact hf.inArena (hi.exec b' cls horigin)
  · intro b' cls hb'
    exact hf.inArena (hi.exec b' cls (hf.origin_of nofun hb'))
  · intro b' cls hb'
    obtain ⟨n, i, rfl, hn, hsource⟩ := hi.dma b' cls (hf.origin_of nofun hb')
    refine ⟨n, i, rfl, ?_, ?_⟩
    · rw [hf.fresh]
      apply hn
    · rw [hf.source_arena hi]
      apply hsource
  · rintro b' (hb' | hb')
    · exact hi.own b' (.inl (hf.origin_of nofun hb'))
    · exact hi.own b' (.inr (hf.origin_of nofun hb'))
  · intro n hn
    rw [hf.fresh]
    exact hi.live n (hf.subset hn)

theorem accounts (hf : Frees h h' b) (ha : h.Accounts) :
  h'.Accounts
  := by
  constructor
  · intro a g hsource
    rw [hf.activeNetdev]
    exact ha.driver a g (hf.outstanding hsource)
  · intro n g hn
    rw [hf.slabArenas]
    exact ha.arena n g (hf.outstanding hn)
  · intro n g hn
    have hbefore := hf.outstanding hn
    obtain ⟨hlive, hdma⟩ := ha.block n g hbefore
    have hne : NsMemBlock.oneOff n ≠ b := by
      rintro rfl
      have hnone := hf.given g hdma (ha.driver _ g hbefore) hbefore
      change h'.source (.block n) = none at hnone
      rw [hnone] at hn
      contradiction
    use hf.live _ hlive hne
    obtain hsame | ⟨heq, -⟩ := hf.origin (.oneOff n)
    · rw [hsame]
      apply hdma
    · contradiction

theorem sound (hf : Frees h h' b) (hs : h.Sound) :
  h'.Sound
  := by
  have hkept : ∀ b', h.OfDrivers b' → h'.OfDrivers b' := by
    rintro _ ⟨n, i, rfl, hn, hsource⟩
    refine ⟨n, i, rfl, ?_, ?_⟩
    · rw [hf.fresh]
      apply hn
    · rw [hf.source_arena hs.toInv]
      apply hsource
  use hf.inv hs.toInv
  intro cls b' hb'
  obtain hold | ⟨rfl, horigin, -⟩ := hf.slabFree _ _ b' hb'
  · exact hkept b' (hs.stale cls b' hold)
  · exact hkept b' (hs.dma b' cls horigin)

theorem clean (hf : Frees h h' b) (hc : h.Clean) (hb : h.Current b) :
  h'.Clean
  := by
  use hf.inv hc.toInv
  intro cls b' hb'
  obtain hold | ⟨rfl, horigin, hactive⟩ := hf.slabFree _ _ b' hb'
  · exact hf.inArena (hc.clean cls b' hold)
  · exact hf.inArena (hb (hactive rfl) cls horigin)

end Frees

theorem Inv.current (hi : h.Inv) (ha : h.Accounts) (hb : h.source b.alloc ≠ none) :
  h.Current b
  := by
  intro _ cls horigin
  obtain ⟨n, i, rfl, -, hexec⟩ := hi.dma b cls horigin
  obtain ⟨src, hsrc⟩ := ne_none_iff_exists'.mp hb
  cases src with
  | exec => contradiction
  | driver g => exact ha.arena n g hsrc

/-! ### `netstack_slab_detach` -/

theorem eq_oneOff_of_alloc {n : ℕ} (hb : b.alloc = .block n) :
  b = .oneOff n
  := by
  cases b with
  | slot m i => cases hb
  | oneOff m =>
    cases hb
    rfl

theorem Inv.attach (hi : h.Inv) (hnone : h.activeNetdev = none) (g : ℕ) :
  Inv { h with activeNetdev := some g }
  := by
  refine ⟨hi.fresh, ?_, hi.listed, hi.exec, hi.dma, hi.own, hi.live⟩
  intro w cls n hn
  cases w with
  | dma =>
    have hserves := (hi.arenas .dma cls n hn).2
    rw [serves, hnone] at hserves
    contradiction
  | exec => exact hi.arenas .exec cls n hn

theorem Clean.attach (hc : h.Clean) (hnone : h.activeNetdev = none) (g : ℕ) :
  Clean { h with activeNetdev := some g }
  := ⟨hc.toInv.attach hnone g, hc.clean⟩

theorem Accounts.attach (ha : h.Accounts) (hnone : h.activeNetdev = none) (g : ℕ) :
  Accounts { h with activeNetdev := some g }
  := by
  refine ⟨?_, ha.arena, ha.block⟩
  intro a g hsource
  have hg := ha.driver a g hsource
  rw [hnone] at hg
  contradiction

theorem foldl_netstackFree (hi : h.Inv) (ha : h.Accounts) (l : List NsMemBlock) :
  (l.foldl netstackFree h).Inv ∧ (l.foldl netstackFree h).Accounts ∧ (l.foldl netstackFree h).activeNetdev = h.activeNetdev ∧
    ∀ a, (∀ n, .oneOff n ∈ l → a ≠ .block n) →
      (l.foldl netstackFree h).source a = h.source a
  := by
  induction l generalizing h with
  | nil => exact ⟨hi, ha, rfl, fun _ _ => rfl⟩
  | cons b l ih =>
    have hf := frees_netstackFree h b
    obtain ⟨hinv, haccounts, hactive, hkept⟩ := ih (hf.inv hi) (hf.accounts ha)
    refine ⟨hinv, haccounts, hactive.trans hf.activeNetdev, ?_⟩
    intro a hne
    rw [foldl_cons, hkept a fun n hn => hne n (.tail _ hn)]
    apply hf.source_of_ne hi
    rintro n rfl
    exact hne n (.head _)

theorem Accounts.no_block
    {l : List NsMemBlock} (ha : h.Accounts)
    (hl : ∀ n g, h.source (.block n) = some (.driver g) → .oneOff n ∈ l) (n g : ℕ) :
  (l.foldl netstackFree h).source (.block n) ≠ some (.driver g)
  := by
  induction l generalizing h with
  | nil =>
    intro hn
    cases hl n g hn
  | cons b l ih =>
    have hf := frees_netstackFree h b
    apply ih (hf.accounts ha)
    intro n g hn
    have hbefore := hf.outstanding hn
    obtain rfl | hmem := mem_cons.mp (hl n g hbefore)
    · have hdma := (ha.block n g hbefore).2
      have hnone := hf.given g hdma (ha.driver _ g hbefore) hbefore
      change (h.netstackFree (.oneOff n)).source (.block n) = none at hnone
      rw [hnone] at hn
      contradiction
    · apply hmem

def detached (h : NsHeap) : NsHeap :=
  { h.netstackSlabDetach with activeNetdev := none }

theorem source_detached {a : NsAlloc} {src : MemSource} (ha : h.detached.source a = some src) :
  h.source a = some src ∧ ∀ n, a = .arena n → ∀ cls, n ∉ h.slabArenas .dma cls
  := by
  cases a with
  | arena n =>
    simp only [detached, netstackSlabDetach] at ha
    split at ha
    · contradiction
    · rename_i hnot
      use ha
      rintro n ⟨⟩ cls hn
      exact hnot ⟨cls, hn⟩
  | block n =>
    use ha
    nofun

theorem Inv.source_detached_exec {a : NsAlloc} (hi : h.Inv) (ha : h.source a = some .exec) :
  h.detached.source a = some .exec
  := by
  cases a with
  | arena n =>
    simp only [detached, netstackSlabDetach]
    rw [if_neg]
    · apply ha
    · rintro ⟨cls, hn⟩
      have hdma := (hi.arenas .dma cls n hn).1
      rw [ha, serves] at hdma
      simp at hdma
  | block n => apply ha

theorem Accounts.detached
    (ha : h.Accounts) (hblock : ∀ n g, h.source (.block n) ≠ some (.driver g)) :
  h.detached.Accounts
  := by
  have hno : ∀ a g, h.detached.source a ≠ some (.driver g) := by
    intro a g hsource
    obtain ⟨hsource, hnot⟩ := source_detached hsource
    cases a with
    | arena n =>
      obtain ⟨cls, hn⟩ := ha.arena n g hsource
      exact hnot n rfl cls hn
    | block n => exact hblock n g hsource
  constructor
  · intro a g hsource
    exact absurd hsource (hno a g)
  · intro n g hn
    exact absurd hn (hno _ g)
  · intro n g hn
    exact absurd hn (hno _ g)

theorem Inv.detached (hi : h.Inv) :
  h.detached.Clean
  := by
  have hin : ∀ b, h.InArena .exec b → h.detached.InArena .exec b := by
    intro b hb
    cases b with
    | slot n i => exact hb
    | oneOff n => contradiction
  constructor
  · constructor
    · intro a src ha
      exact hi.fresh a src (source_detached ha).1
    · intro w cls n hn
      cases w with
      | dma => cases hn
      | exec => exact ⟨hi.source_detached_exec (hi.arenas .exec cls n hn).1, nofun⟩
    · intro cls b hb
      exact hin b (hi.listed cls b hb)
    · intro b cls hb
      exact hin b (hi.exec b cls hb)
    · intro b cls hb
      obtain ⟨n, i, rfl, hn, hsource⟩ := hi.dma b cls hb
      refine ⟨n, i, rfl, hn, ?_⟩
      intro hdetached
      exact hsource (source_detached hdetached).1
    · apply hi.own
    · apply hi.live
  · nofun

/-! ### `netstack_slab_exec_release` -/

theorem source_released
    {a : NsAlloc} {src : MemSource} (ha : h.netstackSlabExecRelease.source a = some src) :
  h.source a = some src ∧ ∀ n, a = .arena n → ∀ cls, n ∉ h.slabArenas .exec cls
  := by
  cases a with
  | arena n =>
    simp only [netstackSlabExecRelease] at ha
    split at ha
    · contradiction
    · rename_i hnot
      use ha
      rintro n ⟨⟩ cls hn
      exact hnot ⟨cls, hn⟩
  | block n =>
    use ha
    nofun

theorem Inv.released (hi : h.Inv) (hnamed : ∀ b cls, h.origin b ≠ .slab .exec cls) :
  h.netstackSlabExecRelease.Inv
  := by
  constructor
  · intro a src ha
    exact hi.fresh a src (source_released ha).1
  · intro w cls n hn
    cases w with
    | exec => cases hn
    | dma =>
      obtain ⟨hsource, hserves⟩ := hi.arenas .dma cls n hn
      refine ⟨?_, hserves⟩
      simp only [netstackSlabExecRelease]
      rw [if_neg]
      · exact hsource
      · rintro ⟨cls', hn'⟩
        have hexec := (hi.arenas .exec cls' n hn').1
        rw [hsource, serves, serves] at hexec
        simp at hexec
  · nofun
  · intro b cls hb
    exact absurd hb (hnamed b cls)
  · intro b cls hb
    obtain ⟨n, i, rfl, hn, hsource⟩ := hi.dma b cls hb
    refine ⟨n, i, rfl, hn, ?_⟩
    intro hexec
    exact hsource (source_released hexec).1
  · apply hi.own
  · apply hi.live

end NsHeap
