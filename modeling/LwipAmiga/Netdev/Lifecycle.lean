import LwipAmiga.Heap.Source
import LwipAmiga.Netdev.Conserve

/-!
# The life of a netdev interface

`sb_netdev_up` and `sb_netdev_down` attach a driver, start the interface, and take it down again.
-/

open Option TransitionSystem

def NDIF_MIN_WRAPS : ℕ := 64

def ndifWraps (rxPoolBufs : UInt32) (rxRingSlots : UInt16) : ℕ :=
  max (max rxPoolBufs.toNat (rxRingSlots.toNat * 2)) NDIF_MIN_WRAPS

inductive NetdevPhase (χ : Type) where
  | closed
  | attached
  | created (w : NetdevIf χ)
  | started (w : NetdevIf χ)
  | stopped (w : NetdevIf χ)
  | destroyed (w : NetdevIf χ)

namespace NetdevPhase

variable {χ : Type}

def ndi : NetdevPhase χ → Option (NetdevIf χ)
  | .closed => none
  | .attached => none
  | .created w => some w
  | .started w => some w
  | .stopped w => some w
  | .destroyed w => some w

def Attached : NetdevPhase χ → Prop
  | .closed => False
  | _ => True

def isCreated : NetdevPhase χ → Bool
  | .created _ => true
  | .started _ => true
  | .stopped _ => true
  | _ => false

def rx (offload : Bool) : NetdevPhase χ → NetdevLabel χ → Option (NetdevPhase χ)
  | .started w, l => (w.next offload l).map .started
  | .stopped w, .free a => (w.next offload (.free a)).map .stopped
  | _, _ => none

end NetdevPhase

inductive RxPacket where
  | wrap (g a : ℕ)
  | block (b : NsMemBlock)
deriving DecidableEq

structure SbStackCtx (χ : Type) where
  gen : ℕ
  phase : NetdevPhase χ
  heap : NsHeap
  looped : Finset NsMemBlock
  tx : List NsMemBlock
  stale : Multiset (ℕ × ℕ)

inductive SbLabel (χ : Type) where
  | attach
  | create (rxPoolBufs : UInt32) (rxRingSlots : UInt16) (tag : ℕ → χ)
  | start
  | rx (l : NetdevLabel χ)
  | stop (force : Bool) (bound : ℕ)
  | destroy
  | detach
  | malloc (size : UInt32) (env : MallocEnv)
  | loop (size : UInt32) (env : MallocEnv)
  | output (b : NsMemBlock)
  | reclaim
  | free (b : NsMemBlock)
  | recv (p : RxPacket)

namespace SbStackCtx

variable {χ : Type}

/-- `netdevif_destroy`.  The frames of the transmit path are freed, the arenas are given back, and the
wraps that are out are left to the sockets. -/
def netdevifDestroy (s : SbStackCtx χ) (w : NetdevIf χ) : SbStackCtx χ :=
  { s with
    phase := .destroyed w
    heap :=
      let h := s.tx.foldl NsHeap.netstackFree s.heap
      if h.activeNetdev = some s.gen then h.detached else h
    tx := []
    stale := (w.lent.map fun a => (s.gen, a)) + s.stale }

def next (offload : Bool) (s : SbStackCtx χ) : SbLabel χ → Option (SbStackCtx χ)
  | .attach =>
      match s.phase with
      | .closed => some { s with gen := s.gen + 1, phase := .attached }
      | _ => none
  | .create rxPoolBufs rxRingSlots tag =>
      match s.phase with
      | .attached =>
          some { s with
            phase := .created (.create (ndifWraps rxPoolBufs rxRingSlots) tag)
            heap := { s.heap with activeNetdev := some s.gen } }
      | _ => none
  | .start =>
      match s.phase with
      | .created w => some { s with phase := .started w }
      | _ => none
  | .rx l => (s.phase.rx offload l).map fun phase => { s with phase := phase }
  | .stop force bound =>
      match s.phase with
      | .started w =>
          match w.task with
          | .idle => if force ∨ bound = 0 then some { s with phase := .stopped w } else none
          | _ => none
      | _ => none
  | .destroy =>
      match s.phase with
      | .created w => some (s.netdevifDestroy w)
      | .stopped w => some (s.netdevifDestroy w)
      | _ => none
  | .detach =>
      match s.phase with
      | .attached => some { s with phase := .closed }
      | .destroyed _ => some { s with phase := .closed }
      | _ => none
  | .malloc size env => some { s with heap := (s.heap.netstackMalloc size env).1 }
  | .loop size env =>
      match s.heap.netstackMalloc size env with
      | (h, some b) => some { s with heap := h, looped := insert b s.looped }
      | (h, none) => some { s with heap := h }
  | .output b =>
      if s.phase.isCreated ∧ b ∈ s.heap.live ∧ b ∉ s.looped ∧ b ∉ s.tx then
        some { s with tx := s.tx ++ [b] }
      else none
  | .reclaim =>
      match s.tx with
      | b :: tx => some { s with heap := s.heap.netstackFree b, tx := tx }
      | [] => none
  | .free b =>
      if b ∈ s.heap.live ∧ b ∉ s.looped ∧ b ∉ s.tx then
        some { s with heap := s.heap.netstackFree b }
      else none
  | .recv (.block b) =>
      if b ∈ s.looped then
        some { s with heap := s.heap.netstackFree b, looped := s.looped.erase b }
      else none
  | .recv (.wrap g a) =>
      if (g, a) ∈ s.stale then some { s with stale := s.stale.erase (g, a) } else none

def boot : SbStackCtx χ where
  gen := 0
  phase := .closed
  heap := .empty
  looped := ∅
  tx := []
  stale := 0

def system (offload : Bool) : TransitionSystem (SbStackCtx χ) (SbLabel χ) where
  init s := s = boot
  next := next offload

/-! ### What the driver is owed -/

def Received (s : SbStackCtx χ) : RxPacket → Prop
  | .wrap g a => (g, a) ∈ s.stale ∨
      s.phase.isCreated = true ∧ g = s.gen ∧ ∃ w ∈ s.phase.ndi, a ∈ w.lent
  | .block b => b ∈ s.looped

def Holds (s : SbStackCtx χ) : MemSource → Prop
  | .exec => True
  | .driver g => g = s.gen ∧ s.phase.Attached

def Intact (s : SbStackCtx χ) : RxPacket → Prop
  | .wrap g _ => s.Holds (.driver g)
  | .block b => ∃ src, s.heap.source b.alloc = some src ∧ s.Holds src

structure Returned (s : SbStackCtx χ) : Prop where
  cookies : ∀ w ∈ s.phase.ndi, (w.consumed : Multiset χ) = w.wraps.released
  memory : ∀ a, s.heap.source a ≠ some (.driver s.gen)

/-! ### The condition -/

def unpinned (s : SbStackCtx χ) : SbLabel χ → Prop
  | .destroy => (∀ w ∈ s.phase.ndi, w.lent = 0) ∧
      (∀ b ∈ s.heap.live, s.heap.origin b = .dma → b ∈ s.tx) ∧
      ∀ b ∈ s.looped, s.heap.source b.alloc = some .exec
  | .reclaim => ∀ b ∈ s.tx.head?, s.heap.Current b
  | .free b => s.heap.Current b
  | _ => True

instance (s : SbStackCtx χ) : DecidablePred s.unpinned := fun l =>
  match l with
  | .destroy => inferInstanceAs (Decidable ((∀ w ∈ s.phase.ndi, w.lent = 0) ∧
      (∀ b ∈ s.heap.live, s.heap.origin b = .dma → b ∈ s.tx) ∧
      ∀ b ∈ s.looped, s.heap.source b.alloc = some .exec))
  | .reclaim => inferInstanceAs (Decidable (∀ b ∈ s.tx.head?, s.heap.Current b))
  | .free b => inferInstanceAs (Decidable (s.heap.Current b))
  | .attach | .create _ _ _ | .start | .rx _ | .stop _ _ | .detach | .malloc _ _ | .loop _ _
  | .output _ | .recv _ => inferInstanceAs (Decidable True)

end SbStackCtx

/-! ### The invariant -/

def NetdevPhase.Inv {χ : Type} (offload : Bool) : NetdevPhase χ → Prop
  | .closed => True
  | .attached => True
  | .created w => (∃ n, NetdevIf.Inv offload n w) ∧ w.task = .idle
  | .started w => ∃ n, NetdevIf.Inv offload n w
  | .stopped w => (∃ n, NetdevIf.Inv offload n w) ∧ w.task = .idle
  | .destroyed w => (w.consumed : Multiset χ) = w.wraps.released

theorem NetdevPhase.Inv.rx
    {χ : Type} {offload : Bool} {phase phase' : NetdevPhase χ} {l : NetdevLabel χ}
    (h : phase.Inv offload) (hnext : phase.rx offload l = some phase') :
  phase'.Inv offload ∧ phase.isCreated = true ∧ phase'.isCreated = true
  := by
  unfold NetdevPhase.rx at hnext
  split at hnext
  · rename_i w l
    obtain ⟨w', hw', rfl⟩ := map_eq_some_iff.mp hnext
    obtain ⟨n, hinv⟩ := h
    exact ⟨⟨n, hinv.next hw'⟩, rfl, rfl⟩
  · rename_i w a
    obtain ⟨w', hw', rfl⟩ := map_eq_some_iff.mp hnext
    obtain ⟨⟨n, hinv⟩, hidle⟩ := h
    refine ⟨⟨⟨n, hinv.next hw'⟩, ?_⟩, rfl, rfl⟩
    simp only [NetdevIf.next, ite_none_right_eq_some] at hw'
    obtain ⟨-, hw'⟩ := hw'
    obtain rfl := some.inj hw'
    apply hidle
  · contradiction

theorem NetdevIf.Inv.released
    {χ : Type} {offload : Bool} {n : ℕ} {w : NetdevIf χ} (h : NetdevIf.Inv offload n w)
    (hidle : w.task = .idle) (hlent : w.lent = 0) :
  (w.consumed : Multiset χ) = w.wraps.released
  := by
  have hgro : w.gro.wraps = 0 := by
    apply Finset.sum_eq_zero
    intro i _
    rw [h.accounted.empty (by rw [hidle]; exact id) i]
    rfl
  have hlive : w.wraps.live = 0 := by rw [h.sound.live, hgro, hlent, add_zero]
  rw [← h.accounted.came, h.sound.balanced.items, hlive, Multiset.map_zero, add_zero]

namespace SbStackCtx

variable {χ : Type} {offload : Bool} {s s' : SbStackCtx χ}

structure Inv (offload : Bool) (s : SbStackCtx χ) : Prop where
  heap : s.heap.Clean
  accounts : s.heap.Accounts
  phase : s.phase.Inv offload
  active : s.heap.activeNetdev = if s.phase.isCreated then some s.gen else none
  looped : ∀ b ∈ s.looped, s.heap.source b.alloc ≠ none
  tx : ∀ n, .oneOff n ∈ s.tx → n < s.heap.fresh ∧ .oneOff n ∉ s.looped
  stale : s.stale = 0

theorem inv_boot :
  Inv offload (boot : SbStackCtx χ)
  := ⟨NsHeap.clean_empty, NsHeap.accounts_empty, trivial, rfl, nofun, nofun, rfl⟩

theorem Inv.move
    {phase : NetdevPhase χ} (h : Inv offload s) (hphase : phase.Inv offload)
    (hcreated : phase.isCreated = s.phase.isCreated) :
  Inv offload { s with phase := phase }
  := by
  refine ⟨h.heap, h.accounts, hphase, ?_, h.looped, h.tx, h.stale⟩
  change s.heap.activeNetdev = if phase.isCreated then some s.gen else none
  rw [hcreated]
  apply h.active

theorem Inv.attach (h : Inv offload s) (hphase : s.phase = .closed) :
  Inv offload { s with gen := s.gen + 1, phase := (.attached : NetdevPhase χ) }
  := by
  have hactive := h.active
  rw [hphase] at hactive
  exact ⟨h.heap, h.accounts, trivial, hactive, h.looped, h.tx, h.stale⟩

theorem Inv.create
    {n : ℕ} {tag : ℕ → χ} (h : Inv offload s) (hphase : s.phase = .attached) :
  Inv offload { s with
    phase := .created (.create n tag)
    heap := { s.heap with activeNetdev := some s.gen } }
  := by
  have hnone := h.active
  rw [hphase] at hnone
  change s.heap.activeNetdev = none at hnone
  constructor
  · apply h.heap.attach hnone
  · apply h.accounts.attach hnone
  · exact ⟨⟨n, NetdevIf.inv_create n tag⟩, rfl⟩
  · rfl
  · apply h.looped
  · apply h.tx
  · apply h.stale

theorem Inv.malloc
    {r : NsHeap × Option NsMemBlock} (h : Inv offload s) (hr : s.heap.Served r) :
  Inv offload { s with heap := r.1 }
  := by
  constructor
  · apply hr.clean h.heap
  · apply hr.accounts h.accounts
  · apply h.phase
  · change r.1.activeNetdev = _
    rw [hr.activeNetdev]
    apply h.active
  · intro b hb
    apply hr.source_ne_none (h.looped b hb)
  · intro n hn
    obtain ⟨hlt, hlooped⟩ := h.tx n hn
    exact ⟨hlt.trans_le hr.fresh, hlooped⟩
  · apply h.stale

theorem Inv.loop
    {r : NsHeap × Option NsMemBlock} {b : NsMemBlock} (h : Inv offload s) (hr : s.heap.Served r)
    (hb : r.2 = some b) :
  Inv offload { s with heap := r.1, looped := insert b s.looped }
  := by
  have hmalloc := h.malloc hr
  refine ⟨hmalloc.heap, hmalloc.accounts, hmalloc.phase, hmalloc.active, ?_, ?_, hmalloc.stale⟩
  · intro b' hb'
    obtain rfl | hold := Finset.mem_insert.mp hb'
    · exact hr.held (h.heap.listed_of _) b' hb
    · exact hmalloc.looped b' hold
  · intro n hn
    obtain ⟨hlt, hlooped⟩ := hmalloc.tx n hn
    use hlt
    intro hmem
    obtain rfl | hold := Finset.mem_insert.mp hmem
    · have hnew := hr.newBlock hb
      have hold := (h.tx n hn).1
      omega
    · exact hlooped hold

theorem Inv.free
    {b : NsMemBlock} {looped : Finset NsMemBlock} {tx : List NsMemBlock} (h : Inv offload s)
    (hb : s.heap.Current b) (hlooped : looped ⊆ s.looped) (hnot : ∀ n, b = .oneOff n → b ∉ looped)
    (htx : tx ⊆ s.tx) :
  Inv offload { s with heap := s.heap.netstackFree b, looped := looped, tx := tx }
  := by
  have hf := NsHeap.frees_netstackFree s.heap b
  constructor
  · apply hf.clean h.heap hb
  · apply hf.accounts h.accounts
  · apply h.phase
  · change (s.heap.netstackFree b).activeNetdev = _
    rw [hf.activeNetdev]
    apply h.active
  · intro b' hb'
    change (s.heap.netstackFree b).source b'.alloc ≠ none
    rw [hf.source_of_ne h.heap.toInv]
    · exact h.looped b' (hlooped hb')
    · rintro n rfl halloc
      obtain rfl := NsHeap.eq_oneOff_of_alloc halloc
      exact hnot n rfl hb'
  · intro n hn
    obtain ⟨hlt, hnl⟩ := h.tx n (htx hn)
    change n < (s.heap.netstackFree b).fresh ∧ _
    rw [hf.fresh]
    exact ⟨hlt, fun hmem => hnl (hlooped hmem)⟩
  · apply h.stale

theorem Inv.destroy
    {w : NetdevIf χ} (h : Inv offload s) (hcreated : s.phase.isCreated = true)
    (hreleased : (w.consumed : Multiset χ) = w.wraps.released) (hlent : w.lent = 0)
    (hlive : ∀ b ∈ s.heap.live, s.heap.origin b = .dma → b ∈ s.tx)
    (hlooped : ∀ b ∈ s.looped, s.heap.source b.alloc = some .exec) :
  Inv offload (s.netdevifDestroy w)
  := by
  obtain ⟨hinv, haccounts, hactive, hkept⟩ := NsHeap.foldl_netstackFree h.heap.toInv h.accounts s.tx
  have hgen : (s.tx.foldl NsHeap.netstackFree s.heap).activeNetdev = some s.gen := by
    rw [hactive, h.active, if_pos hcreated]
  have hblock := h.accounts.no_block fun n g hn =>
    hlive _ (h.accounts.block n g hn).1 (h.accounts.block n g hn).2
  have hheap : (s.netdevifDestroy w).heap = (s.tx.foldl NsHeap.netstackFree s.heap).detached :=
    if_pos hgen
  constructor
  · rw [hheap]
    apply hinv.detached
  · rw [hheap]
    apply haccounts.detached hblock
  · apply hreleased
  · rw [hheap]
    rfl
  · intro b hb
    rw [hheap, hinv.source_detached_exec]
    · nofun
    · rw [hkept]
      · exact hlooped b hb
      · intro n hn halloc
        obtain rfl := NsHeap.eq_oneOff_of_alloc halloc
        exact (h.tx n hn).2 hb
  · nofun
  · change (w.lent.map fun a => (s.gen, a)) + s.stale = 0
    rw [hlent, h.stale]
    rfl

theorem Inv.step
    {l : SbLabel χ} (h : Inv offload s) (hgood : s.unpinned l) (hnext : s.next offload l = some s') :
  Inv offload s'
  := by
  have hphase := h.phase
  cases l with
  | attach =>
    simp only [next] at hnext
    split at hnext
    · rename_i hclosed
      cases hnext
      apply h.attach hclosed
    · contradiction
  | create rxPoolBufs rxRingSlots tag =>
    simp only [next] at hnext
    split at hnext
    · rename_i hattached
      cases hnext
      apply h.create hattached
    · contradiction
  | start =>
    simp only [next] at hnext
    split at hnext
    · rename_i w hw
      cases hnext
      rw [hw] at hphase
      refine h.move ?_ ?_
      · exact hphase.1
      · rw [hw]
        rfl
    · contradiction
  | rx l =>
    obtain ⟨phase, hrx, rfl⟩ := Option.map_eq_some_iff.mp hnext
    obtain ⟨hphase', hbefore, hafter⟩ := hphase.rx hrx
    apply h.move hphase'
    rw [hbefore, hafter]
  | stop force bound =>
    simp only [next] at hnext
    split at hnext
    · rename_i w hw
      split at hnext
      · rename_i hidle
        obtain ⟨-, ⟨⟩⟩ := Option.ite_none_right_eq_some.mp hnext
        rw [hw] at hphase
        refine h.move ?_ ?_
        · exact ⟨hphase, hidle⟩
        · rw [hw]
          rfl
      · contradiction
    · contradiction
  | destroy =>
    obtain ⟨hlent, hlive, hlooped⟩ := hgood
    simp only [next] at hnext
    split at hnext
    · rename_i w hw
      cases hnext
      rw [hw] at hphase hlent
      obtain ⟨⟨n, hinv⟩, hidle⟩ := hphase
      have hzero := hlent w rfl
      apply h.destroy _ (hinv.released hidle hzero) hzero hlive hlooped
      rw [hw]
      rfl
    · rename_i w hw
      cases hnext
      rw [hw] at hphase hlent
      obtain ⟨⟨n, hinv⟩, hidle⟩ := hphase
      have hzero := hlent w rfl
      apply h.destroy _ (hinv.released hidle hzero) hzero hlive hlooped
      rw [hw]
      rfl
    · contradiction
  | detach =>
    simp only [next] at hnext
    split at hnext
    · rename_i hw
      cases hnext
      refine h.move ?_ ?_
      · exact trivial
      · rw [hw]
        rfl
    · rename_i w hw
      cases hnext
      refine h.move ?_ ?_
      · exact trivial
      · rw [hw]
        rfl
    · contradiction
  | malloc size env =>
    cases hnext
    apply h.malloc (h.heap.sound.served_netstackMalloc size env)
  | loop size env =>
    have hserved := h.heap.sound.served_netstackMalloc size env
    simp only [next] at hnext
    split at hnext
    · rename_i heap b hmalloc
      rw [hmalloc] at hserved
      cases hnext
      exact h.loop hserved rfl
    · rename_i heap hmalloc
      rw [hmalloc] at hserved
      cases hnext
      exact h.malloc hserved
  | output b =>
    simp only [next, Option.ite_none_right_eq_some] at hnext
    obtain ⟨⟨-, hlive, hlooped, -⟩, hnext⟩ := hnext
    cases hnext
    refine ⟨h.heap, h.accounts, h.phase, h.active, h.looped, ?_, h.stale⟩
    intro n hn
    obtain hold | hnew := List.mem_append.mp hn
    · exact h.tx n hold
    · obtain rfl := List.mem_singleton.mp hnew
      exact ⟨h.heap.live n hlive, hlooped⟩
  | reclaim =>
    simp only [next] at hnext
    split at hnext
    · rename_i b tx htx
      cases hnext
      have hb : s.heap.Current b := by
        apply hgood b
        rw [htx]
        rfl
      apply h.free hb (Finset.Subset.refl _)
      · rintro n rfl
        apply (h.tx n _).2
        rw [htx]
        exact .head _
      · rw [htx]
        apply List.subset_cons_self
    · contradiction
  | free b =>
    simp only [next, Option.ite_none_right_eq_some] at hnext
    obtain ⟨⟨-, hlooped, -⟩, hnext⟩ := hnext
    cases hnext
    exact h.free hgood (Finset.Subset.refl _) (fun _ _ => hlooped) (List.Subset.refl _)
  | recv p =>
    cases p with
    | block b =>
      simp only [next, Option.ite_none_right_eq_some] at hnext
      obtain ⟨hb, hnext⟩ := hnext
      cases hnext
      have hcurrent := h.heap.current h.accounts (h.looped b hb)
      exact h.free hcurrent (Finset.erase_subset _ _) (fun _ _ => Finset.notMem_erase b _)
        (List.Subset.refl _)
    | wrap g a =>
      simp only [next, h.stale, Multiset.notMem_zero, if_false] at hnext
      contradiction

theorem Inv.intact {p : RxPacket} (h : Inv offload s) (hp : s.Received p) :
  s.Intact p
  := by
  have hattached : s.phase.isCreated = true → s.phase.Attached := by
    cases s.phase <;> simp [NetdevPhase.isCreated, NetdevPhase.Attached]
  cases p with
  | wrap g a =>
    obtain hstale | ⟨hcreated, hg, -⟩ := hp
    · rw [h.stale] at hstale
      exact absurd hstale (Multiset.notMem_zero _)
    · exact ⟨hg, hattached hcreated⟩
  | block b =>
    obtain ⟨src, hsrc⟩ := ne_none_iff_exists'.mp (h.looped b hp)
    refine ⟨src, hsrc, ?_⟩
    cases src with
    | exec => trivial
    | driver g =>
      have hg := h.accounts.driver b.alloc g hsrc
      rw [h.active] at hg
      obtain ⟨hcreated, hg⟩ := ite_none_right_eq_some.mp hg
      exact ⟨(some.inj hg).symm, hattached hcreated⟩

theorem Inv.returned (h : Inv offload s) (hdetach : s.next offload .detach ≠ none) :
  s.Returned
  := by
  have hphase := h.phase
  have hactive := h.active
  have hno : s.phase.isCreated = false → ∀ a, s.heap.source a ≠ some (.driver s.gen) := by
    intro hcreated a ha
    have hg := h.accounts.driver a s.gen ha
    rw [h.active, hcreated] at hg
    contradiction
  simp only [next] at hdetach
  split at hdetach
  · rename_i hw
    constructor
    · rw [hw]
      nofun
    · apply hno
      rw [hw]
      rfl
  · rename_i w hw
    rw [hw] at hphase
    constructor
    · rw [hw]
      rintro w' ⟨⟩
      apply hphase
    · apply hno
      rw [hw]
      rfl
  · contradiction

theorem inv_of_reach (h : (system offload).Reach unpinned s) :
  Inv offload s
  := by
  apply h.invariant
  · rintro s rfl
    apply inv_boot
  · intro s l s' hs hgood hnext
    apply hs.step hgood hnext

/-! ### Detaching -/

/-- Whenever the driver is detached, all cookies are released and all memory is given back. -/
theorem detach_returns_memory (h : (system offload).Reach unpinned s) :
  (s.next offload .detach ≠ none → s.Returned) ∧ ∀ p, s.Received p → s.Intact p
  := by
  have hinv := inv_of_reach h
  constructor
  · apply hinv.returned
  · intro p hp
    apply hinv.intact hp

def plenty : MallocEnv :=
  ⟨true, true, true⟩

def traffic : List (SbLabel ℕ) :=
  [.attach, .create 0 0 fun _ => 0, .start, .rx (.call [⟨⟨fun _ => 0, 0⟩, 0, 0, 7⟩]), .rx .outer,
    .rx (.frame false), .rx .unlock, .rx .outer, .loop 1000 plenty, .malloc 65600 plenty]

def drained : List (SbLabel ℕ) :=
  traffic ++ [.rx (.free 63), .recv (.block (.slot 0 63)), .output (.oneOff 1), .stop false 0, .destroy]

theorem drained_enabled :
  ((system false).exec boot drained).isSome = true
  := by
  decide

theorem detach_returns_memory_drained :
  ∃ s : SbStackCtx ℕ, (system false).Reach unpinned s ∧ s.next false .detach ≠ none ∧ s.Returned ∧
    ∃ w ∈ s.phase.ndi, w.wraps.released = {7}
  := by
  have hreach : (system false).Reach unpinned
      ((system false).last (boot : SbStackCtx ℕ) drained drained_enabled) := by
    apply reach_last rfl
    decide
  have hdetach : ((system false).last (boot : SbStackCtx ℕ) drained drained_enabled).next false .detach ≠
      none := by
    decide
  exact ⟨_, hreach, hdetach, (detach_returns_memory hreach).1 hdetach, _, rfl, rfl⟩

def pinned : List (SbLabel ℕ) :=
  traffic ++ [.stop false 0, .destroy]

theorem pinned_enabled :
  ((system false).exec boot pinned).isSome = true
  := by
  decide

/-- The driver is detached with a cookie that is not released and a block that is not given back. -/
theorem detach_pinned :
  ∃ s s' : SbStackCtx ℕ, (system false).Reachable s ∧ s.next false .detach = some s' ∧
    (∃ w ∈ s.phase.ndi, w.consumed = [7] ∧ w.wraps.released = 0) ∧
    s.heap.source (.block 1) = some (.driver s.gen) ∧
    s'.Received (.wrap 1 63) ∧ ¬ s'.Intact (.wrap 1 63) ∧
    s'.Received (.block (.slot 0 63)) ∧ ¬ s'.Intact (.block (.slot 0 63))
  := by
  have hreach : (system false).Reachable
      ((system false).last (boot : SbStackCtx ℕ) pinned pinned_enabled) :=
    reachable_last rfl
  refine ⟨_, _, hreach, rfl, ⟨_, rfl, rfl, rfl⟩, rfl, ?_, ?_, ?_, ?_⟩
  · left
    decide
  · exact And.right
  · change .slot 0 63 ∈ ((system false).last (boot : SbStackCtx ℕ) pinned pinned_enabled).looped
    decide
  · rintro ⟨src, hsrc, -⟩
    cases hsrc

end SbStackCtx
