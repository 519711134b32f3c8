import LwipAmiga.Socket.Ready
import Mathlib.Algebra.Order.BigOperators.Group.List

/-!
# Scanning descriptor sets

`sb_select_scan` looks at each requested descriptor once, under the core lock.
-/

open List

inductive FdKind where
  | read
  | write
  | except
  deriving DecidableEq

namespace FdKind

def want : FdKind → Want
  | .read => .read
  | .write => .write
  | .except => .except

def all : List FdKind := [.read, .write, .except]

theorem mem_all (x : FdKind) :
  x ∈ all
  := by
  cases x <;> simp [all]

end FdKind

/-- A descriptor set. -/
abbrev FdSet := List (BitVec 32)

def SB_FD_WORDS : ℕ := 8

def sbFdBit (set : Option FdSet) (fd : ℕ) : Bool :=
  match set with
  | none => false
  | some ws => ws.getD (fd / 32) 0 &&& (1#32 <<< (fd % 32)) != 0

/-- `sb_fd_setbit`: the set with the descriptor. -/
def sbFdSetbit (set : FdSet) (fd : ℕ) : FdSet :=
  set.modify (fd / 32) (· ||| (1#32 <<< (fd % 32)))

theorem sbFdBit_some (ws : FdSet) (fd : ℕ) :
  sbFdBit (some ws) fd = (ws.getD (fd / 32) 0).getLsbD (fd % 32)
  := by
  have hlt : fd % 32 < 32 := Nat.mod_lt _ (by decide)
  have hbit : ∀ i < 32, (1#32 <<< (fd % 32)).getLsbD i = decide (i = fd % 32) := by
    intro i hi
    simp only [BitVec.getLsbD_shiftLeft, BitVec.getLsbD_one]
    simp only [hi, decide_true, Bool.true_and]
    by_cases h : i = fd % 32
    · simp [h]
    · simp only [h, decide_false, Bool.and_eq_false_imp]
      simp only [Bool.not_eq_true', decide_eq_false_iff_not, decide_eq_true_eq]
      omega
  simp only [sbFdBit]
  generalize ws.getD (fd / 32) 0 = w
  rw [Bool.eq_iff_iff, bne_iff_ne]
  constructor
  · intro h
    by_contra hw
    apply h
    apply BitVec.eq_of_getLsbD_eq
    intro i hi
    simp only [BitVec.getLsbD_and, hbit i hi]
    by_cases hi' : i = fd % 32
    · subst hi'
      simpa using hw
    · simp [hi']
  · intro h h0
    have := congrArg (·.getLsbD (fd % 32)) h0
    simp [BitVec.getLsbD_and, hbit _ hlt, h] at this

theorem length_sbFdSetbit (ws : FdSet) (fd : ℕ) :
  (sbFdSetbit ws fd).length = ws.length
  := by
  simp [sbFdSetbit]

theorem sbFdBit_sbFdSetbit
    {ws : FdSet} {fd : ℕ} (h : fd / 32 < ws.length) (i : ℕ) :
  sbFdBit (some (sbFdSetbit ws fd)) i = (sbFdBit (some ws) i || decide (i = fd))
  := by
  have hlt : i % 32 < 32 := Nat.mod_lt _ (by decide)
  rw [sbFdBit_some, sbFdBit_some, sbFdSetbit]
  simp only [getD_eq_getElem?_getD, getElem?_modify]
  by_cases hw : fd / 32 = i / 32
  · have hi : i / 32 < ws.length := hw ▸ h
    simp only [hw, if_true, getElem?_eq_getElem hi, Option.map_eq_map, Option.map_some,
      Option.getD_some, BitVec.getLsbD_or, BitVec.getLsbD_shiftLeft, BitVec.getLsbD_one]
    congr 1
    rw [Bool.eq_iff_iff]
    simp only [Bool.and_eq_true, decide_eq_true_eq, Bool.not_eq_true', decide_eq_false_iff_not]
    omega
  · have hne : i ≠ fd := by
      rintro rfl
      exact hw rfl
    simp [hw, hne]

def FdSet.empty : FdSet := List.replicate SB_FD_WORDS 0

theorem sbFdBit_empty (fd : ℕ) :
  sbFdBit (some FdSet.empty) fd = false
  := by
  rw [sbFdBit_some, FdSet.empty, getD_eq_getElem?_getD, getElem?_replicate]
  split <;> simp

/-! ### The scan -/

structure Scan (κ : Type) where
  hits : ℤ
  out : FdKind → FdSet
  enrol : List κ

def Scan.start {κ : Type} : Scan κ where
  hits := 0
  out _ := FdSet.empty
  enrol := []

section Scan

variable {β κ : Type} (tab : List (Option κ)) (socks : κ → SbSocket β κ) (txRoom : Bool)
  (sets : FdKind → Option FdSet)

def requested (fd : ℕ) : Bool :=
  sbFdBit (sets .read) fd || sbFdBit (sets .write) fd || sbFdBit (sets .except) fd

def scanSet (fd : ℕ) (k : κ) (acc : Scan κ) (x : FdKind) : Scan κ :=
  if sbFdBit (sets x) fd then
    if (socks k).ready txRoom x.want then
      { acc with
        hits := acc.hits + 1
        out := Function.update acc.out x (sbFdSetbit (acc.out x) fd) }
    else if x = .write ∧ (socks k).type ≠ .tcp then { acc with enrol := acc.enrol ++ [k] }
    else acc
  else acc

def sbSelectScan : List ℕ → Scan κ → Scan κ
  | [], acc => acc
  | fd :: fds, acc =>
      if requested sets fd then
        match tab[fd]?.join with
        | none => { acc with hits := -1 }
        | some k => sbSelectScan fds (FdKind.all.foldl (scanSet socks txRoom sets fd k) acc)
      else sbSelectScan fds acc

def found (fd : ℕ) (x : FdKind) : Bool :=
  match tab[fd]?.join with
  | none => false
  | some k => sbFdBit (sets x) fd && (socks k).ready txRoom x.want

def scanStep (acc : Scan κ) (fd : ℕ) : Scan κ :=
  match tab[fd]?.join with
  | none => acc
  | some k => FdKind.all.foldl (scanSet socks txRoom sets fd k) acc

theorem sbSelectScan_eq (fds : List ℕ) (acc : Scan κ) :
  (sbSelectScan tab socks txRoom sets fds acc).hits = -1 ∧
    (∃ fd ∈ fds, requested sets fd = true ∧ tab[fd]?.join = none) ∨
  sbSelectScan tab socks txRoom sets fds acc = fds.foldl (scanStep tab socks txRoom sets) acc ∧
    ∀ fd ∈ fds, requested sets fd = true → tab[fd]?.join ≠ none
  := by
  induction fds generalizing acc with
  | nil =>
    right
    simp [sbSelectScan]
  | cons fd fds ih =>
    rw [sbSelectScan]
    by_cases hreq : requested sets fd = true
    · rw [if_pos hreq]
      cases htab : tab[fd]?.join with
      | none =>
        left
        exact ⟨rfl, fd, mem_cons_self, hreq, htab⟩
      | some k =>
        have hstep : scanStep tab socks txRoom sets acc fd =
            FdKind.all.foldl (scanSet socks txRoom sets fd k) acc := by
          simp only [scanStep, htab]
        simp only [foldl_cons, hstep, mem_cons, exists_eq_or_imp, forall_eq_or_imp,
          htab, hreq]
        simpa using ih (FdKind.all.foldl (scanSet socks txRoom sets fd k) acc)
    · rw [if_neg hreq]
      have hnone : ∀ x, sbFdBit (sets x) fd = false := by
        simp only [requested, Bool.or_eq_true, not_or, Bool.not_eq_true] at hreq
        intro x
        cases x
        · exact hreq.1.1
        · exact hreq.1.2
        · exact hreq.2
      have hstep : scanStep tab socks txRoom sets acc fd = acc := by
        unfold scanStep
        split <;> simp [FdKind.all, scanSet, hnone]
      simp only [foldl_cons, hstep, mem_cons, exists_eq_or_imp, forall_eq_or_imp]
      simpa [hreq] using ih acc

variable {tab socks txRoom sets}

/-! ### What one descriptor adds -/

theorem found_of_some
    {fd : ℕ} {k : κ} (h : tab[fd]?.join = some k) (x : FdKind) :
  found tab socks txRoom sets fd x = (sbFdBit (sets x) fd && (socks k).ready txRoom x.want)
  := by
  simp only [found, h]

theorem hits_scanSet (fd : ℕ) (k : κ) (acc : Scan κ) (x : FdKind) :
  (scanSet socks txRoom sets fd k acc x).hits =
    acc.hits + if sbFdBit (sets x) fd && (socks k).ready txRoom x.want then 1 else 0
  := by
  unfold scanSet
  by_cases hbit : sbFdBit (sets x) fd = true
  · by_cases hready : (socks k).ready txRoom x.want = true
    · simp [hbit, hready]
    · simp only [hbit, hready, if_true, Bool.false_eq_true, if_false]
      split <;> simp
  · simp [hbit]

theorem hits_scanStep (acc : Scan κ) (fd : ℕ) :
  (scanStep tab socks txRoom sets acc fd).hits = acc.hits +
    ((if found tab socks txRoom sets fd .read then 1 else 0) +
      (if found tab socks txRoom sets fd .write then 1 else 0) +
      (if found tab socks txRoom sets fd .except then 1 else 0))
  := by
  cases htab : tab[fd]?.join with
  | none => simp [scanStep, found, htab]
  | some k =>
    simp only [scanStep, htab, FdKind.all, foldl_cons, foldl_nil, hits_scanSet,
      found_of_some htab]
    omega

theorem hits_foldl (fds : List ℕ) (acc : Scan κ) :
  (fds.foldl (scanStep tab socks txRoom sets) acc).hits = acc.hits +
    (fds.countP (found tab socks txRoom sets · .read) +
      fds.countP (found tab socks txRoom sets · .write) +
      fds.countP (found tab socks txRoom sets · .except))
  := by
  induction fds generalizing acc with
  | nil => simp
  | cons fd fds ih =>
    rw [foldl_cons, ih, hits_scanStep]
    simp only [countP_cons]
    push_cast
    omega

def Scan.Sized (acc : Scan κ) : Prop :=
  ∀ x, (acc.out x).length = SB_FD_WORDS

theorem sized_start :
  (Scan.start : Scan κ).Sized
  := by
  intro x
  simp [Scan.start, FdSet.empty]

theorem sized_scanSet
    {acc : Scan κ} (h : acc.Sized) (fd : ℕ) (k : κ) (x : FdKind) :
  (scanSet socks txRoom sets fd k acc x).Sized
  := by
  intro y
  unfold scanSet
  split
  · split
    · by_cases hy : y = x
      · subst hy
        simp [length_sbFdSetbit, h y]
      · simp [Function.update_of_ne hy, h y]
    · split
      · exact h y
      · exact h y
  · exact h y

theorem bit_scanSet
    {acc : Scan κ} {fd : ℕ} (h : acc.Sized) (hfd : fd < 32 * SB_FD_WORDS) (k : κ) (x y : FdKind)
    (i : ℕ) :
  sbFdBit (some ((scanSet socks txRoom sets fd k acc x).out y)) i =
    (sbFdBit (some (acc.out y)) i ||
      (decide (y = x ∧ i = fd) && (sbFdBit (sets x) fd && (socks k).ready txRoom x.want)))
  := by
  unfold scanSet
  by_cases hbit : sbFdBit (sets x) fd = true
  · by_cases hready : (socks k).ready txRoom x.want = true
    · simp only [hbit, hready, if_true, Bool.and_self, Bool.and_true]
      by_cases hy : y = x
      · subst hy
        have hlen : fd / 32 < (acc.out y).length := by
          rw [h y]
          omega
        simp [sbFdBit_sbFdSetbit hlen]
      · simp [hy]
    · simp only [hbit, hready, if_true, Bool.false_eq_true, if_false, Bool.and_false,
        Bool.or_false]
      split <;> rfl
  · simp [hbit]

theorem sized_scanStep
    {acc : Scan κ} (h : acc.Sized) (fd : ℕ) :
  (scanStep tab socks txRoom sets acc fd).Sized
  := by
  unfold scanStep
  split
  · exact h
  · exact sized_scanSet (sized_scanSet (sized_scanSet h _ _ _) _ _ _) _ _ _

theorem sized_foldl
    {fds : List ℕ} {acc : Scan κ} (h : acc.Sized) :
  (fds.foldl (scanStep tab socks txRoom sets) acc).Sized
  := by
  induction fds generalizing acc with
  | nil => exact h
  | cons fd fds ih => exact ih (sized_scanStep h fd)

theorem bit_scanStep
    {acc : Scan κ} {fd : ℕ} (h : acc.Sized) (hfd : fd < 32 * SB_FD_WORDS) (y : FdKind) (i : ℕ) :
  sbFdBit (some ((scanStep tab socks txRoom sets acc fd).out y)) i =
    (sbFdBit (some (acc.out y)) i || (decide (i = fd) && found tab socks txRoom sets fd y))
  := by
  cases htab : tab[fd]?.join with
  | none => simp [scanStep, found, htab]
  | some k =>
    have h₁ : (scanSet socks txRoom sets fd k acc .read).Sized := sized_scanSet h fd k .read
    have h₂ : (scanSet socks txRoom sets fd k
        (scanSet socks txRoom sets fd k acc .read) .write).Sized := sized_scanSet h₁ fd k .write
    simp only [scanStep, htab, FdKind.all, foldl_cons, foldl_nil,
      bit_scanSet h₂ hfd, bit_scanSet h₁ hfd, bit_scanSet h hfd, found_of_some htab]
    cases y <;> simp

theorem bit_foldl
    {fds : List ℕ} {acc : Scan κ} (h : acc.Sized) (hfds : ∀ fd ∈ fds, fd < 32 * SB_FD_WORDS)
    (y : FdKind) (i : ℕ) :
  sbFdBit (some ((fds.foldl (scanStep tab socks txRoom sets) acc).out y)) i =
    (sbFdBit (some (acc.out y)) i ||
      (decide (i ∈ fds) && found tab socks txRoom sets i y))
  := by
  induction fds generalizing acc with
  | nil => simp
  | cons fd fds ih =>
    rw [foldl_cons, ih (sized_scanStep h fd) fun i hi => hfds i (mem_cons_of_mem fd hi),
      bit_scanStep h (hfds fd mem_cons_self)]
    by_cases hi : i = fd
    · subst hi
      cases found tab socks txRoom sets i y <;> simp
    · simp [hi]

/-! ### The sockets enrolled -/

theorem enrol_scanSet (fd : ℕ) (k : κ) (acc : Scan κ) (x : FdKind) :
  acc.enrol ⊆ (scanSet socks txRoom sets fd k acc x).enrol
  := by
  unfold scanSet
  split
  · split
    · exact List.Subset.refl _
    · split
      · exact subset_append_left _ _
      · exact List.Subset.refl _
  · exact List.Subset.refl _

theorem mem_enrol_scanSet
    {fd : ℕ} {k : κ} {acc : Scan κ} (hbit : sbFdBit (sets .write) fd = true)
    (hready : (socks k).ready txRoom .write = false) (htype : (socks k).type ≠ .tcp) :
  k ∈ (scanSet socks txRoom sets fd k acc .write).enrol
  := by
  simp [scanSet, hbit, FdKind.want, hready, htype]

theorem enrol_scanStep (acc : Scan κ) (fd : ℕ) :
  acc.enrol ⊆ (scanStep tab socks txRoom sets acc fd).enrol
  := by
  unfold scanStep
  split
  · exact List.Subset.refl _
  · apply List.Subset.trans (enrol_scanSet _ _ _ _)
    apply List.Subset.trans (enrol_scanSet _ _ _ _)
    apply enrol_scanSet

theorem enrol_foldl (fds : List ℕ) (acc : Scan κ) :
  acc.enrol ⊆ (fds.foldl (scanStep tab socks txRoom sets) acc).enrol
  := by
  induction fds generalizing acc with
  | nil => exact List.Subset.refl _
  | cons fd fds ih =>
    apply List.Subset.trans (enrol_scanStep acc fd)
    apply ih

theorem mem_enrol_foldl
    {fds : List ℕ} {acc : Scan κ} {fd : ℕ} {k : κ} (hfd : fd ∈ fds)
    (htab : tab[fd]?.join = some k) (hbit : sbFdBit (sets .write) fd = true)
    (hready : (socks k).ready txRoom .write = false) (htype : (socks k).type ≠ .tcp) :
  k ∈ (fds.foldl (scanStep tab socks txRoom sets) acc).enrol
  := by
  induction fds generalizing acc with
  | nil => contradiction
  | cons fd' fds ih =>
    rw [foldl_cons]
    obtain rfl | hfd := mem_cons.mp hfd
    · apply enrol_foldl
      simp only [scanStep, htab, FdKind.all, foldl_cons, foldl_nil]
      apply enrol_scanSet
      apply mem_enrol_scanSet hbit hready htype
    · apply ih hfd

end Scan
