import LwipAmiga.Heap.Source

/-!
# Who has the blocks of the heap

Each block that is allocated is reachable from one structure: a socket, a control block, an interface
or lwIP itself.
-/

open Function Option

inductive Holder (κ : Type) where
  | queue (k : κ)
  | pcb (k : κ)
  | netif
  | lwip
deriving DecidableEq

structure Custody (κ : Type) where
  heap : NsHeap
  gen : ℕ
  holder : NsMemBlock → Option (Holder κ × NsWorld)

def NsMemBlock.isSlot : NsMemBlock → Bool
  | .slot _ _ => true
  | .oneOff _ => false

namespace Custody

variable {κ : Type}

def empty : Custody κ :=
  ⟨NsHeap.empty, 0, fun _ => none⟩

/-- `netstack_malloc` for a structure. -/
def malloc (c : Custody κ) (x : Holder κ) (size : UInt32) (env : MallocEnv) : Custody κ :=
  let r := c.heap.netstackMalloc size env
  match r.2 with
  | some b =>
      { c with heap := r.1, holder := Function.update c.holder b (some (x, c.heap.world)) }
  | none => { c with heap := r.1 }

/-- `netstack_free`. -/
def drop (c : Custody κ) (b : NsMemBlock) : Custody κ :=
  { c with heap := c.heap.netstackFree b, holder := Function.update c.holder b none }

def dropAll (c : Custody κ) (l : List NsMemBlock) : Custody κ :=
  l.foldl drop c

def blocksOf (c : Custody κ) (gone : Holder κ → Bool) : List NsMemBlock :=
  c.heap.live.filter fun b => (c.holder b).any fun e => gone e.1

def move (c : Custody κ) (f : NsMemBlock → Holder κ → Holder κ) : Custody κ :=
  { c with holder := fun b => (c.holder b).map fun e => (f b e.1, e.2) }

def attach (c : Custody κ) : Custody κ :=
  { c with heap := { c.heap with activeNetdev := some (c.gen + 1) }, gen := c.gen + 1 }

/-- `netstack_slab_detach` for the driver that is attached, if one is. -/
def detach (c : Custody κ) : Custody κ :=
  if c.heap.activeNetdev.isSome then { c with heap := c.heap.detached } else c

/-- `netstack_slab_exec_release` -/
def release (c : Custody κ) : Custody κ :=
  { c with heap := c.heap.netstackSlabExecRelease }

/-! ### Holders -/

variable {c : Custody κ} {b b' : NsMemBlock} {x y : Holder κ} {w : NsWorld}

theorem holder_malloc
    {size : UInt32} {env : MallocEnv} (hb : (c.malloc x size env).holder b = some (y, w)) :
  y = x ∨ c.holder b = some (y, w)
  := by
  unfold malloc at hb
  dsimp only at hb
  split at hb
  · rename_i b' _
    change update c.holder b' (some (x, c.heap.world)) b = _ at hb
    by_cases heq : b = b'
    · rw [heq, update_self] at hb
      exact .inl (Prod.mk.inj (some.inj hb)).1.symm
    · rw [update_of_ne heq] at hb
      exact .inr hb
  · exact .inr hb

theorem holder_drop (hb : (c.drop b).holder b' = some (y, w)) :
  b' ≠ b ∧ c.holder b' = some (y, w)
  := by
  change update c.holder b none b' = _ at hb
  by_cases heq : b' = b
  · rw [heq, update_self] at hb
    contradiction
  · rw [update_of_ne heq] at hb
    exact ⟨heq, hb⟩

theorem holder_move
    {f : NsMemBlock → Holder κ → Holder κ} (hb : (c.move f).holder b = some (x, w)) :
  ∃ y, c.holder b = some (y, w) ∧ f b y = x
  := by
  obtain ⟨⟨y, w'⟩, hy, heq⟩ := map_eq_some_iff.mp hb
  obtain ⟨hx, rfl⟩ := Prod.mk.inj heq
  exact ⟨y, hy, hx⟩

/-! ### The invariant -/

def Header (h : NsHeap) (w : NsWorld) : NsMemBlock → Prop
  | .slot n i => ∃ cls, h.origin (.slot n i) = .slab w cls
  | .oneOff n => h.origin (.oneOff n) = NsHeap.ownOrigin w

structure Ok (c : Custody κ) : Prop where
  sound : c.heap.Sound
  live : ∀ b x w, c.holder b = some (x, w) → b ∈ c.heap.live
  numbered : ∀ b x w, c.holder b = some (x, w) → b.alloc.index < c.heap.fresh
  header : ∀ b x w, c.holder b = some (x, w) → Header c.heap w b
  named : ∀ b cls, c.heap.origin b = .slab .exec cls → c.holder b ≠ none
  own : ∀ n x, c.holder (.oneOff n) = some (x, .exec) → c.heap.source (.block n) = some .exec

theorem ok_empty :
  (empty : Custody κ).Ok
  := by
  refine ⟨NsHeap.clean_empty.sound, ?_, ?_, ?_, ?_, ?_⟩ <;> nofun

theorem Ok.inArena {n i : ℕ} (h : c.Ok) (hb : c.holder (.slot n i) = some (x, .exec)) :
  ∃ cls, n ∈ c.heap.slabArenas .exec cls
  := by
  obtain ⟨cls, horigin⟩ := h.header _ _ _ hb
  exact h.sound.exec _ cls horigin

theorem Ok.outstanding (h : c.Ok) (hb : c.holder b = some (x, .exec)) :
  c.heap.source b.alloc = some .exec
  := by
  cases b with
  | slot n i =>
    obtain ⟨cls, hn⟩ := h.inArena hb
    exact (h.sound.arenas .exec cls n hn).1
  | oneOff n => exact h.own n x hb

/-! ### What keeps it -/

theorem Header.congr {h h' : NsHeap} (horigin : h'.origin b = h.origin b)
    (hb : Header h w b) :
  Header h' w b
  := by
  cases b with
  | slot n i =>
    obtain ⟨cls, hb⟩ := hb
    exact ⟨cls, horigin.trans hb⟩
  | oneOff n => exact horigin.trans hb

theorem index_lt_of_returned
    {h : NsHeap} {r : NsHeap × Option NsMemBlock} (hr : h.Served r) (hb : b ∈ r.2) :
  b.alloc.index < r.1.fresh
  := by
  have hreturned := hr.returned b hb
  cases b with
  | oneOff n =>
    obtain ⟨-, -, hsource⟩ := hreturned
    obtain ⟨src, hsrc⟩ := ne_none_iff_exists'.mp h.serves_world
    exact hr.sound.fresh _ src (hsource.trans hsrc)
  | slot n i =>
    obtain ⟨cls, horigin⟩ := hreturned
    cases hw : h.world with
    | dma =>
      rw [hw] at horigin
      obtain ⟨m, j, heq, hlt, -⟩ := hr.sound.dma _ cls horigin
      cases heq
      exact hlt
    | exec =>
      rw [hw] at horigin
      obtain ⟨cls', hn⟩ := hr.sound.exec _ cls horigin
      exact hr.sound.fresh _ _ (hr.sound.arenas .exec cls' n hn).1

theorem header_of_returned {h h' : NsHeap} (hb : h.Returned h' b) :
  Header h' h.world b
  := by
  cases b with
  | slot n i => exact hb
  | oneOff n => exact hb.2.1

theorem Ok.malloc (h : c.Ok) (x : Holder κ) (size : UInt32) (env : MallocEnv) :
  (c.malloc x size env).Ok
  := by
  have hserved := h.sound.served_netstackMalloc size env
  -- What is held keeps its header, unless it is the block that is returned.
  have hkept : ∀ b y w, b ∉ (c.heap.netstackMalloc size env).2 → c.holder b = some (y, w) →
      (c.heap.netstackMalloc size env).1.origin b = c.heap.origin b := by
    intro b y w hnot hb
    obtain hsame | ⟨hle, -⟩ := hserved.origin b hnot
    · apply hsame
    · have hlt := h.numbered b y w hb
      omega
  have hnamed : ∀ b cls, b ∉ (c.heap.netstackMalloc size env).2 →
      (c.heap.netstackMalloc size env).1.origin b = .slab .exec cls → c.holder b ≠ none := by
    intro b cls hnot hb
    obtain hsame | ⟨-, hfree⟩ := hserved.origin b hnot
    · rw [hsame] at hb
      exact h.named b cls hb
    · rw [hfree] at hb
      cases hb
  unfold Custody.malloc
  dsimp only
  split
  · rename_i b hb
    have hmem : b ∈ (c.heap.netstackMalloc size env).2 := hb
    have hne : ∀ b', b' ≠ b → b' ∉ (c.heap.netstackMalloc size env).2 := by
      intro b' hb' hmem'
      exact hb' (some.inj (hmem'.symm.trans hmem))
    have hself : update c.holder b (some (x, c.heap.world)) b = _ :=
      update_self ..
    have hother : ∀ b', b' ≠ b →
        update c.holder b (some (x, c.heap.world)) b' = c.holder b' := fun b' hb' =>
      update_of_ne hb' ..
    constructor
    · apply hserved.sound
    · intro b' y w hb'
      by_cases heq : b' = b
      · rw [heq]
        exact hserved.liveBlock b hmem
      · exact hserved.liveSubset (h.live b' y w ((hother b' heq).symm.trans hb'))
    · intro b' y w hb'
      by_cases heq : b' = b
      · rw [heq]
        apply index_lt_of_returned hserved hmem
      · exact (h.numbered b' y w ((hother b' heq).symm.trans hb')).trans_le hserved.fresh
    · intro b' y w hb'
      by_cases heq : b' = b
      · rw [heq] at hb' ⊢
        obtain ⟨-, rfl⟩ := Prod.mk.inj (some.inj (hself.symm.trans hb'))
        exact header_of_returned (hserved.returned b hmem)
      · have hold := (hother b' heq).symm.trans hb'
        exact (h.header b' y w hold).congr (hkept b' y w (hne b' heq) hold)
    · intro b' cls hb'
      change update c.holder b (some (x, c.heap.world)) b' ≠ none
      by_cases heq : b' = b
      · rw [heq, hself]
        nofun
      · rw [hother b' heq]
        exact hnamed b' cls (hne b' heq) hb'
    · intro n y hb'
      by_cases heq : .oneOff n = b
      · subst heq
        obtain ⟨-, hw⟩ := Prod.mk.inj (some.inj (hself.symm.trans hb'))
        obtain ⟨-, -, hsource⟩ := hserved.returned _ hmem
        rw [hw] at hsource
        exact hsource
      · exact hserved.source _ _ (h.own n y ((hother _ heq).symm.trans hb'))
  · rename_i hnone
    rw [hnone] at hkept hnamed
    constructor
    · apply hserved.sound
    · intro b y w hb
      exact hserved.liveSubset (h.live b y w hb)
    · intro b y w hb
      exact (h.numbered b y w hb).trans_le hserved.fresh
    · intro b y w hb
      exact (h.header b y w hb).congr (hkept b y w nofun hb)
    · intro b cls hb
      exact hnamed b cls nofun hb
    · intro n y hb
      exact hserved.source _ _ (h.own n y hb)

theorem origin_netstackFree {h : NsHeap} {cls : SlabClass} (hb : h.origin b = .slab .exec cls) :
  (h.netstackFree b).origin b = .free
  := by
  simp only [NsHeap.netstackFree, hb]
  exact update_self ..

theorem Ok.drop (h : c.Ok) (b : NsMemBlock) :
  (c.drop b).Ok
  := by
  have hf := NsHeap.frees_netstackFree c.heap b
  have horigin : ∀ b', b' ≠ b → (c.drop b).heap.origin b' = c.heap.origin b' := by
    intro b' hne
    obtain hsame | ⟨heq, -⟩ := hf.origin b'
    · apply hsame
    · contradiction
  constructor
  · apply hf.sound h.sound
  · intro b' y w hb'
    obtain ⟨hne, hb'⟩ := holder_drop hb'
    exact hf.live b' (h.live b' y w hb') hne
  · intro b' y w hb'
    have hlt := h.numbered b' y w (holder_drop hb').2
    rw [← hf.fresh] at hlt
    exact hlt
  · intro b' y w hb'
    obtain ⟨hne, hb'⟩ := holder_drop hb'
    exact (h.header b' y w hb').congr (horigin b' hne)
  · intro b' cls hb'
    have hbefore : c.heap.origin b' = .slab .exec cls := hf.origin_of nofun hb'
    by_cases heq : b' = b
    · subst heq
      have hfree : (c.drop b').heap.origin b' = .free := origin_netstackFree hbefore
      rw [hfree] at hb'
      cases hb'
    · have hsame : (c.drop b).holder b' = c.holder b' := update_of_ne heq ..
      rw [hsame]
      exact h.named b' cls hbefore
  · intro n y hb'
    obtain ⟨hne, hb'⟩ := holder_drop hb'
    have hsource : (c.drop b).heap.source (.block n) = c.heap.source (.block n) := by
      apply hf.source_of_ne h.sound.toInv
      rintro m rfl ⟨⟩
      exact hne rfl
    rw [hsource]
    exact h.own n y hb'

theorem Ok.dropAll (h : c.Ok) (l : List NsMemBlock) :
  (c.dropAll l).Ok
  := by
  induction l generalizing c with
  | nil => exact h
  | cons b l ih => exact ih (h.drop b)

theorem holder_dropAll (c : Custody κ) (l : List NsMemBlock) (b : NsMemBlock) :
  (c.dropAll l).holder b = if b ∈ l then none else c.holder b
  := by
  induction l generalizing c with
  | nil => rfl
  | cons b' l ih =>
    rw [dropAll, List.foldl_cons]
    refine (ih (c.drop b')).trans ?_
    by_cases hl : b ∈ l
    · rw [if_pos hl, if_pos (.tail _ hl)]
    · rw [if_neg hl]
      by_cases heq : b = b'
      · rw [heq, if_pos (.head _)]
        exact update_self ..
      · rw [if_neg (by simp [heq, hl])]
        exact update_of_ne heq ..

theorem Ok.holder_of_dropAll
    {gone : Holder κ → Bool} (h : c.Ok)
    (hb : (c.dropAll (c.blocksOf gone)).holder b = some (x, w)) :
  c.holder b = some (x, w) ∧ gone x = false
  := by
  rw [holder_dropAll] at hb
  split at hb
  · contradiction
  · rename_i hnot
    use hb
    by_contra hgone
    apply hnot
    refine List.mem_filter.mpr ⟨h.live b x w hb, ?_⟩
    rw [hb]
    simpa using hgone

theorem Ok.move (h : c.Ok) (f : NsMemBlock → Holder κ → Holder κ) :
  (c.move f).Ok
  := by
  constructor
  · apply h.sound
  · intro b x w hb
    obtain ⟨y, hy, -⟩ := holder_move hb
    exact h.live b y w hy
  · intro b x w hb
    obtain ⟨y, hy, -⟩ := holder_move hb
    exact h.numbered b y w hy
  · intro b x w hb
    obtain ⟨y, hy, -⟩ := holder_move hb
    exact h.header b y w hy
  · intro b cls hb hnone
    exact h.named b cls hb (map_eq_none_iff.mp hnone)
  · intro n x hb
    obtain ⟨y, hy, -⟩ := holder_move hb
    exact h.own n y hy

theorem Ok.attach (h : c.Ok) (hnone : c.heap.activeNetdev = none) :
  c.attach.Ok
  := by
  refine ⟨⟨?_, h.sound.stale⟩, h.live, h.numbered, h.header, h.named, h.own⟩
  exact h.sound.toInv.attach hnone _

theorem Ok.detach (h : c.Ok) :
  c.detach.Ok
  := by
  unfold Custody.detach
  split
  · refine ⟨h.sound.detached.sound, h.live, h.numbered, h.header, h.named, ?_⟩
    intro n x hb
    exact h.sound.source_detached_exec (h.own n x hb)
  · exact h

theorem Ok.release
    (h : c.Ok) (hfree : ∀ n i x, c.holder (.slot n i) ≠ some (x, .exec)) :
  c.release.Ok
  := by
  -- No header names a class of the exec world any more.
  have hnamed : ∀ b cls, c.heap.origin b ≠ .slab .exec cls := by
    intro b cls hb
    obtain ⟨⟨x, w⟩, hx⟩ := ne_none_iff_exists'.mp (h.named b cls hb)
    have hheader := h.header b x w hx
    cases b with
    | slot n i =>
      obtain ⟨cls', hslot⟩ := hheader
      rw [hb] at hslot
      injection hslot with hw
      rw [← hw] at hx
      exact hfree n i x hx
    | oneOff n =>
      have hslot : c.heap.origin (.oneOff n) = NsHeap.ownOrigin w := hheader
      rw [hb] at hslot
      cases w <;> cases hslot
  refine ⟨⟨?_, ?_⟩, h.live, h.numbered, h.header, h.named, h.own⟩
  · apply h.sound.toInv.released hnamed
  · intro cls b hb
    obtain ⟨n, i, rfl, hn, hsource⟩ := h.sound.stale cls b hb
    refine ⟨n, i, rfl, hn, ?_⟩
    intro hexec
    exact hsource (NsHeap.source_released hexec).1

end Custody
