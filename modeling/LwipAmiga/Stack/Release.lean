import LwipAmiga.Descriptor.References
import LwipAmiga.Heap.Custody

/-!
# The final release of the heap

When a shutdown ends the stack task, it releases the arenas of the exec world.
-/

open Option TransitionSystem

inductive StackPhase where
  | off
  | running
  | quitting
  | down
  | released
deriving DecidableEq

structure StackRun (β κ : Type) where
  lib : World β κ
  mem : Custody κ
  phase : StackPhase
  shuttingDown : Bool

/-! ### Without openers and releases there are no sockets -/

theorem World.socks_eq_none
    {β κ : Type} [DecidableEq κ] [Fintype β] {w : World β κ} (hrefs : w.RefsOk) (htabs : TablesOk w.opener w.fds)
    (hclosed : ∀ b, w.opener b = .closed) (hparked : w.parked = []) (k : κ) :
  w.socks k = none
  := by
  have hzero : ∀ k, w.references k = 0 := by
    intro k
    simp [references, held, hparked, htabs.absent _ (hclosed _)]
  -- A socket that is not queued would have no reference.
  have hqueued : ∀ k s, w.socks k = some s → Queued w.socks k := by
    intro k s hs
    by_contra hnot
    have hcounts := hrefs.counts k
    rw [hs, refTotal_of_not_queued hnot, hzero] at hcounts
    exact lt_irrefl _ hcounts.2
  cases hs : w.socks k with
  | none => rfl
  | some s =>
    -- Its listener would be queued itself, and then has no queue.
    obtain ⟨l, hl⟩ := hqueued k s hs
    cases hlst : w.socks l with
    | none =>
      rw [queueAt_of_none hlst] at hl
      cases hl
    | some lst =>
      rw [hrefs.apart.leaf l (hqueued l lst hlst)] at hl
      cases hl

/-! ### The stack task -/

namespace StackRun

inductive Label (β κ : Type) where
  | lib (l : World.Label β κ) (closes : κ → Bool)
  | malloc (x : Holder κ) (size : UInt32) (env : MallocEnv)
  | free (b : NsMemBlock)
  | move (b : NsMemBlock) (x : Holder κ)
  | attach
  | ifDown
  | shutdown
  | cancelShutdown
  | quit
  | release
  | exit

variable {β κ : Type} [DecidableEq β] [DecidableEq κ]

def orphaned (socks : κ → Option (SbSocket β κ)) : Holder κ → Bool
  | .queue k | .pcb k => (socks k).isNone
  | .netif | .lwip => false

def closed (socks : κ → Option (SbSocket β κ)) (closes : κ → Bool) : Holder κ → Holder κ
  | .pcb k => if (socks k).isNone && closes k then .lwip else .pcb k
  | x => x

def settle (mem : Custody κ) (socks : κ → Option (SbSocket β κ)) (closes : κ → Bool) : Custody κ :=
  let mem := mem.move fun _ => closed socks closes
  mem.dropAll (mem.blocksOf (orphaned socks))

def sbIfDown (mem : Custody κ) : Custody κ :=
  (mem.dropAll (mem.blocksOf (· == .netif))).detach

def admits (s : StackRun β κ) : World.Label β κ → Bool
  | .libOpen _ => s.phase == .off || s.phase == .running && !s.shuttingDown
  | _ => s.phase == .running || s.phase == .quitting

def lwipRuns (s : StackRun β κ) : Bool :=
  s.phase == .running || s.phase == .quitting

def next [Fintype β] (s : StackRun β κ) : Label β κ → Option (StackRun β κ)
  | .lib l closes =>
      if s.admits l then
        (s.lib.next l).map fun lib =>
          { s with
            lib := lib, mem := settle s.mem lib.socks closes
            phase := if s.phase = .off then .running else s.phase }
      else none
  | .malloc x size env =>
      if s.lwipRuns ∧ orphaned s.lib.socks x = false then
        some { s with mem := s.mem.malloc x size env }
      else none
  | .free b =>
      if s.lwipRuns ∧ (s.mem.holder b).isSome then some { s with mem := s.mem.drop b } else none
  | .move b x =>
      if s.lwipRuns ∧ orphaned s.lib.socks x = false then
        some { s with mem := s.mem.move fun b' y => if b' = b then x else y }
      else none
  | .attach =>
      if s.phase = .running ∧ s.mem.heap.activeNetdev = none then
        some { s with mem := s.mem.attach }
      else none
  | .ifDown =>
      match s.phase with
      | .running => some { s with mem := sbIfDown s.mem }
      | .quitting => some { s with mem := sbIfDown s.mem, phase := .down }
      | _ => none
  | .shutdown =>
      if s.phase = .running ∧ s.shuttingDown = false then some { s with shuttingDown := true }
      else none
  | .cancelShutdown =>
      if s.phase = .running ∧ s.shuttingDown = true then some { s with shuttingDown := false }
      else none
  | .quit =>
      if s.phase = .running ∧ s.shuttingDown = true ∧ ∀ b, s.lib.opener b = .closed then
        some { s with phase := .quitting }
      else none
  | .release =>
      if s.phase = .down then some { s with mem := s.mem.release, phase := .released } else none
  | .exit =>
      if s.phase = .released then some { s with phase := .off, shuttingDown := false } else none

def boot : StackRun β κ :=
  ⟨World.start, .empty, .off, false⟩

def system (β κ : Type) [DecidableEq β] [DecidableEq κ] [Fintype β] :
    TransitionSystem (StackRun β κ) (Label β κ) where
  init s := s = boot
  next := next

def quiet [Fintype β] (s : StackRun β κ) : Label β κ → Prop
  | .lib l _ => s.lib.fewReferences l
  | .release => s.lib.parked.isEmpty = true ∧ ∀ b ∈ s.mem.heap.live,
      b.isSlot = true → s.mem.holder b ≠ some (.lwip, .exec)
  | _ => True

instance [Fintype β] (s : StackRun β κ) : DecidablePred s.quiet := fun l =>
  match l with
  | .lib l _ => inferInstanceAs (Decidable (s.lib.fewReferences l))
  | .release => inferInstanceAs (Decidable (s.lib.parked.isEmpty = true ∧ ∀ b ∈ s.mem.heap.live,
      b.isSlot = true → s.mem.holder b ≠ some (.lwip, .exec)))
  | .malloc .. | .free _ | .move .. | .attach | .ifDown | .shutdown | .cancelShutdown | .quit
  | .exit => inferInstanceAs (Decidable True)

/-! ### The invariant -/

structure Inv [Fintype β] (s : StackRun β κ) : Prop where
  mem : s.mem.Ok
  present : ∀ b x w, s.mem.holder b = some (x, w) → orphaned s.lib.socks x = false
  tables : TablesOk s.lib.opener s.lib.fds
  refs : s.lib.RefsOk
  opener : s.phase ≠ .running → ∀ b, s.lib.opener b = .closed
  netif : s.phase = .down → ∀ b w, s.mem.holder b ≠ some (.netif, w)

variable [Fintype β] {s s' : StackRun β κ}

theorem inv_boot :
  (boot : StackRun β κ).Inv
  := by
  refine ⟨Custody.ok_empty, nofun, ?_, World.refsOk_start, fun _ _ => rfl, nofun⟩
  have hreach : (World.system β κ).Reachable World.start := .init rfl
  exact World.tablesOk_of_reach hreach

omit [DecidableEq β] in
theorem Inv.settle
    (h : s.Inv) (lib : World β κ) (closes : κ → Bool) :
  (settle s.mem lib.socks closes).Ok ∧
    ∀ b x w, (settle s.mem lib.socks closes).holder b = some (x, w) →
      orphaned lib.socks x = false ∧ (x = .netif → s.mem.holder b = some (.netif, w))
  := by
  have hmoved := h.mem.move fun _ => closed lib.socks closes
  use hmoved.dropAll _
  intro b x w hb
  obtain ⟨hb, hpresent⟩ := hmoved.holder_of_dropAll hb
  use hpresent
  rintro rfl
  obtain ⟨y, hy, hclosed⟩ := Custody.holder_move hb
  rw [hy]
  cases y with
  | netif => rfl
  | queue k | lwip => cases hclosed
  | pcb k =>
    simp only [closed] at hclosed
    split at hclosed <;> cases hclosed

omit [DecidableEq β] in
theorem Inv.sbIfDown (h : s.Inv) :
  (sbIfDown s.mem).Ok ∧ ∀ b x w, (sbIfDown s.mem).holder b = some (x, w) →
    s.mem.holder b = some (x, w) ∧ x ≠ .netif
  := by
  constructor
  · exact (h.mem.dropAll _).detach
  · intro b x w hb
    have hholder : ∀ c : Custody κ, c.detach.holder = c.holder := by
      intro c
      unfold Custody.detach
      split <;> rfl
    rw [StackRun.sbIfDown, hholder] at hb
    obtain ⟨hb, hne⟩ := h.mem.holder_of_dropAll hb
    use hb
    simpa using hne

omit [Fintype β] in
theorem opener_of_next
    {w w' : World β κ} {l : World.Label β κ} (hclosed : ∀ b, w.opener b = .closed)
    (hnext : w.next l = some w') (hl : ∀ b, l ≠ .libOpen b) (b : β) :
  w'.opener b = .closed
  := by
  have hnot : ∀ b, w.opener b ≠ .opened := by
    intro b
    rw [hclosed]
    nofun
  cases l with
  | libOpen b => exact absurd rfl (hl b)
  | incoming l newpcb mem =>
    simp only [World.next, bind_eq_some_iff, ite_none_right_eq_some] at hnext
    obtain ⟨lst, -, -, hnext⟩ := hnext
    cases hnext
    unfold World.sbTcpAcceptCb
    split
    · apply hclosed
    · split <;> apply hclosed
  | other k f =>
    simp only [World.next, map_eq_some_iff] at hnext
    obtain ⟨t, -, rfl⟩ := hnext
    apply hclosed
  | cleanup b =>
    simp only [World.next, hclosed] at hnext
    contradiction
  | _ => simp [World.next, hnot] at hnext

theorem Inv.lib
    {l : World.Label β κ} {closes : κ → Bool} {lib : World β κ} (h : s.Inv) (hadmits : s.admits l)
    (hfew : s.lib.fewReferences l) (hnext : s.lib.next l = some lib) :
  Inv { s with
    lib := lib, mem := StackRun.settle s.mem lib.socks closes
    phase := if s.phase = .off then .running else s.phase }
  := by
  have hstep := World.step_of_next hnext
  obtain ⟨hok, hheld⟩ := h.settle lib closes
  refine ⟨hok, fun b x w hb => (hheld b x w hb).1, ?_, ?_, ?_, ?_⟩
  · exact World.tablesOk_step h.tables hstep
  · exact h.refs.step h.tables hfew hstep
  · intro hphase
    have hne : s.phase ≠ .off := by
      intro hoff
      rw [if_pos hoff] at hphase
      exact hphase rfl
    rw [if_neg hne] at hphase
    refine opener_of_next (h.opener hphase) hnext ?_
    rintro b rfl
    simp [admits, hne, hphase] at hadmits
  · intro hphase b w hb
    have hdown : s.phase = .down := by
      by_cases hoff : s.phase = .off
      · rw [if_pos hoff] at hphase
        cases hphase
      · rw [if_neg hoff] at hphase
        exact hphase
    exact h.netif hdown b w ((hheld b _ w hb).2 rfl)

omit [DecidableEq β] in
theorem Inv.heap
    {mem : Custody κ} (h : s.Inv) (hruns : s.lwipRuns = true) (hok : mem.Ok)
    (hpresent : ∀ b x w, mem.holder b = some (x, w) → orphaned s.lib.socks x = false) :
  Inv { s with mem := mem }
  := by
  refine ⟨hok, hpresent, h.tables, h.refs, h.opener, ?_⟩
  intro hphase
  have hdown : s.phase = .down := hphase
  simp [lwipRuns, hdown] at hruns

omit [DecidableEq β] in
theorem Inv.malloc
    {x : Holder κ} (h : s.Inv) (hruns : s.lwipRuns = true) (hx : orphaned s.lib.socks x = false)
    (size : UInt32) (env : MallocEnv) :
  Inv { s with mem := s.mem.malloc x size env }
  := by
  apply h.heap hruns (h.mem.malloc x size env)
  intro b y w hb
  obtain rfl | hold := Custody.holder_malloc hb
  · exact hx
  · exact h.present b y w hold

omit [DecidableEq β] in
theorem Inv.holder_ne
    {x : Holder κ} {n i : ℕ} (h : s.Inv) (hphase : s.phase = .down) (hquiet : s.quiet .release) :
  s.mem.holder (.slot n i) ≠ some (x, .exec)
  := by
  intro hb
  obtain ⟨hparked, hlwip⟩ := hquiet
  have hsocks := World.socks_eq_none h.refs h.tables (h.opener (by simp [hphase]))
    (List.isEmpty_iff.mp hparked)
  have hpresent := h.present _ _ _ hb
  cases x with
  | queue k | pcb k => simp [orphaned, hsocks] at hpresent
  | netif => exact h.netif hphase _ _ hb
  | lwip => exact hlwip _ (h.mem.live _ _ _ hb) rfl hb

theorem Inv.step {l : Label β κ} (h : s.Inv) (hquiet : s.quiet l) (hnext : s.next l = some s') :
  s'.Inv
  := by
  cases l with
  | lib l closes =>
    simp only [next, ite_none_right_eq_some, map_eq_some_iff] at hnext
    obtain ⟨hadmits, lib, hlib, rfl⟩ := hnext
    apply h.lib hadmits hquiet hlib
  | malloc x size env =>
    simp only [next, ite_none_right_eq_some] at hnext
    obtain ⟨⟨hruns, hx⟩, hnext⟩ := hnext
    cases hnext
    apply h.malloc hruns hx
  | free b =>
    simp only [next, ite_none_right_eq_some] at hnext
    obtain ⟨⟨hruns, -⟩, hnext⟩ := hnext
    cases hnext
    apply h.heap hruns (h.mem.drop b)
    intro b' x w hb'
    exact h.present b' x w (Custody.holder_drop hb').2
  | move b x =>
    simp only [next, ite_none_right_eq_some] at hnext
    obtain ⟨⟨hruns, hx⟩, hnext⟩ := hnext
    cases hnext
    apply h.heap hruns (h.mem.move _)
    intro b' y w hb'
    obtain ⟨z, hz, rfl⟩ := Custody.holder_move hb'
    split
    · exact hx
    · exact h.present b' z w hz
  | attach =>
    simp only [next, ite_none_right_eq_some] at hnext
    obtain ⟨⟨hphase, hnone⟩, hnext⟩ := hnext
    cases hnext
    have hruns : s.lwipRuns = true := by simp [lwipRuns, hphase]
    exact h.heap hruns (h.mem.attach hnone) h.present
  | ifDown =>
    obtain ⟨hok, hheld⟩ := h.sbIfDown
    have hpresent : ∀ b x w, (StackRun.sbIfDown s.mem).holder b = some (x, w) →
        orphaned s.lib.socks x = false := fun b x w hb => h.present b x w (hheld b x w hb).1
    simp only [next] at hnext
    split at hnext
    · rename_i hphase
      cases hnext
      have hruns : s.lwipRuns = true := by simp [lwipRuns, hphase]
      exact h.heap hruns hok hpresent
    · rename_i hphase
      cases hnext
      refine ⟨hok, hpresent, h.tables, h.refs, fun _ => h.opener (by simp [hphase]), ?_⟩
      intro _ b w hb
      exact (hheld b _ w hb).2 rfl
    · contradiction
  | shutdown | cancelShutdown =>
    simp only [next, ite_none_right_eq_some] at hnext
    obtain ⟨-, hnext⟩ := hnext
    cases hnext
    exact ⟨h.mem, h.present, h.tables, h.refs, h.opener, h.netif⟩
  | quit =>
    simp only [next, ite_none_right_eq_some] at hnext
    obtain ⟨⟨-, -, hclosed⟩, hnext⟩ := hnext
    cases hnext
    exact ⟨h.mem, h.present, h.tables, h.refs, fun _ => hclosed, nofun⟩
  | release =>
    simp only [next, ite_none_right_eq_some] at hnext
    obtain ⟨hphase, hnext⟩ := hnext
    cases hnext
    refine ⟨?_, h.present, h.tables, h.refs, fun _ => h.opener (by simp [hphase]), nofun⟩
    apply h.mem.release
    intro n i x
    apply h.holder_ne hphase hquiet
  | exit =>
    simp only [next, ite_none_right_eq_some] at hnext
    obtain ⟨hphase, hnext⟩ := hnext
    cases hnext
    exact ⟨h.mem, h.present, h.tables, h.refs, fun _ => h.opener (by simp [hphase]), nofun⟩

theorem inv_of_reach (h : (system β κ).Reach quiet s) :
  s.Inv
  := by
  apply h.invariant
  · rintro s rfl
    apply inv_boot
  · intro s l s' hs hquiet hnext
    apply hs.step hquiet hnext

/-! ### The release is safe -/

/-- When the arenas of the exec world are released no structure holds a block in them, and what is held
of them at any time is in memory that is outstanding. -/
theorem exec_release_safe (h : (system β κ).Reach quiet s) :
  (s.next .release ≠ none → s.quiet .release → ∀ b e, s.mem.holder b = some e →
      ∀ cls, ∀ n ∈ s.mem.heap.slabArenas .exec cls, b.alloc ≠ .arena n) ∧
    (∀ b x, s.mem.holder b = some (x, .exec) → s.mem.heap.source b.alloc = some .exec) ∧
    ∀ cls, ∀ b ∈ s.mem.heap.slabFree .exec cls, s.mem.heap.source b.alloc = some .exec
  := by
  have hinv := inv_of_reach h
  refine ⟨?_, ?_, ?_⟩
  · rintro hnext hquiet b ⟨x, w⟩ hb cls n hn hin
    have hphase : s.phase = .down := by
      by_contra hphase
      exact hnext (if_neg hphase)
    have hexec := (hinv.mem.sound.arenas .exec cls n hn).1
    cases b with
    | oneOff m => cases hin
    | slot m i =>
      cases hin
      cases w with
      | exec => exact hinv.holder_ne hphase hquiet hb
      | dma =>
        -- A slot of the DMA world is in memory of a driver.
        obtain ⟨cls', horigin⟩ := hinv.mem.header _ _ _ hb
        obtain ⟨_, _, ⟨⟩, -, hsource⟩ := hinv.mem.sound.dma _ _ horigin
        exact hsource hexec
  · intro b x hb
    exact hinv.mem.outstanding hb
  · intro cls b hb
    have hlisted := hinv.mem.sound.listed cls b hb
    cases b with
    | oneOff n => cases hlisted
    | slot n i =>
      obtain ⟨cls', hn⟩ := hlisted
      exact (hinv.mem.sound.arenas .exec cls' n hn).1

def call (l : World.Label (Fin 1) (Fin 1)) : Label (Fin 1) (Fin 1) :=
  .lib l fun _ => false

def plenty : MallocEnv := ⟨true, true, true⟩

def datagram : List (Label (Fin 1) (Fin 1)) :=
  [call (.libOpen 0), call (.socket 0 2 2 0 (some 0) true), .malloc .lwip 1000 plenty,
    .move (.slot 0 63) (.queue 0)]

def shutDown : List (Label (Fin 1) (Fin 1)) :=
  call (.libClose 0) :: List.replicate 65 (call (.cleanup 0)) ++ [.shutdown, .quit, .ifDown]

def closedRun : List (Label (Fin 1) (Fin 1)) :=
  datagram ++ [call (.close 0 0)] ++ shutDown

def reopenedRun : List (Label (Fin 1) (Fin 1)) :=
  closedRun ++ [.release, .exit, call (.libOpen 0), call (.socket 0 2 2 0 (some 0) true),
    .malloc (.queue 0) 1000 plenty]

theorem closedRun_enabled :
  ((system (Fin 1) (Fin 1)).exec boot closedRun).isSome = true
  := by
  decide

def closedEnd : StackRun (Fin 1) (Fin 1) :=
  (system (Fin 1) (Fin 1)).last boot closedRun closedRun_enabled

theorem reopenedRun_enabled :
  ((system (Fin 1) (Fin 1)).exec boot reopenedRun).isSome = true
  := by
  decide

def reopenedEnd : StackRun (Fin 1) (Fin 1) :=
  (system (Fin 1) (Fin 1)).last boot reopenedRun reopenedRun_enabled

/-- There is an arena to release, and nothing in it; and the next task has an arena of its own. -/
theorem exec_release_safe_reopened :
  (∃ s : StackRun (Fin 1) (Fin 1), (system (Fin 1) (Fin 1)).Reach quiet s ∧
    s.next .release ≠ none ∧ 0 ∈ s.mem.heap.slabArenas .exec 1 ∧
    ∀ b e, s.mem.holder b = some e → b.alloc ≠ .arena 0) ∧
    ∃ s : StackRun (Fin 1) (Fin 1), (system (Fin 1) (Fin 1)).Reach quiet s ∧
      s.mem.holder (.slot 1 63) = some (.queue 0, .exec) ∧
      s.mem.heap.source (NsMemBlock.slot 1 63).alloc = some .exec
  := by
  have hreach : (system (Fin 1) (Fin 1)).Reach quiet closedEnd := by
    apply reach_last rfl
    decide +kernel
  have hnext : closedEnd.next .release ≠ none := by decide
  have hquiet : closedEnd.quiet .release := by decide +kernel
  have harena : 0 ∈ closedEnd.mem.heap.slabArenas .exec 1 := by decide +kernel
  have hreach' : (system (Fin 1) (Fin 1)).Reach quiet reopenedEnd := by
    apply reach_last rfl
    decide +kernel
  have hheld : reopenedEnd.mem.holder (.slot 1 63) = some (.queue 0, .exec) := by decide +kernel
  constructor
  · refine ⟨closedEnd, hreach, hnext, harena, ?_⟩
    intro b e hb
    exact (exec_release_safe hreach).1 hnext hquiet b e hb 1 0 harena
  · have hsource := (exec_release_safe hreach').2.1 (.slot 1 63) (.queue 0) hheld
    exact ⟨reopenedEnd, hreach', hheld, hsource⟩

def parkedRun : List (Label (Fin 1) (Fin 1)) :=
  datagram ++ [call (.release 0 0 7 false true)] ++ shutDown

def obtainedRun : List (Label (Fin 1) (Fin 1)) :=
  parkedRun ++ [.release, .exit, call (.libOpen 0), call (.obtain 0 7 2)]

theorem parkedRun_enabled :
  ((system (Fin 1) (Fin 1)).exec boot parkedRun).isSome = true
  := by
  decide

def parkedEnd : StackRun (Fin 1) (Fin 1) :=
  (system (Fin 1) (Fin 1)).last boot parkedRun parkedRun_enabled

theorem obtainedRun_enabled :
  ((system (Fin 1) (Fin 1)).exec boot obtainedRun).isSome = true
  := by
  decide

def obtainedEnd : StackRun (Fin 1) (Fin 1) :=
  (system (Fin 1) (Fin 1)).last boot obtainedRun obtainedRun_enabled

/-- The client that obtains the parked socket has a datagram in memory that was given back. -/
theorem parked_outlives_release :
  (∃ s : StackRun (Fin 1) (Fin 1), (system (Fin 1) (Fin 1)).Reachable s ∧
    s.next .release ≠ none ∧ s.mem.holder (.slot 0 63) = some (.queue 0, .exec) ∧
    0 ∈ s.mem.heap.slabArenas .exec 1 ∧ s.lib.parked.map SbReleased.s = [0]) ∧
    ∃ s : StackRun (Fin 1) (Fin 1), (system (Fin 1) (Fin 1)).Reachable s ∧
      sbFdGet (s.lib.fds 0) 0 = some 0 ∧ s.mem.holder (.slot 0 63) = some (.queue 0, .exec) ∧
      s.mem.heap.source (.arena 0) = none
  := by
  have hreach : (system (Fin 1) (Fin 1)).Reachable parkedEnd := reachable_last rfl
  have hreach' : (system (Fin 1) (Fin 1)).Reachable obtainedEnd :=
    reachable_last rfl
  constructor
  · refine ⟨parkedEnd, hreach, ?_, ?_, ?_, ?_⟩ <;> decide +kernel
  · refine ⟨obtainedEnd, hreach', ?_, ?_, ?_⟩ <;> decide +kernel

end StackRun
