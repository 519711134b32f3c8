import LwipAmiga.Lib.Mask
import LwipAmiga.Select.Call

/-!
# The contract of WaitSelect

What a call leaves when it returns: the caller's sets, the signals, and the timer request.
-/

open List TransitionSystem Option

/-! ### Copying sets -/

theorem sbFdBit_workingCopy
    {n fd : ℕ} (h : fd < n) (set : Option FdSet) :
  sbFdBit (set.map (workingCopy n)) fd = sbFdBit set fd
  := by
  cases set with
  | none => rfl
  | some ws =>
    rw [map_some, sbFdBit_some, sbFdBit_some]
    congr 1
    have hlt : fd / 32 < fdWords n := by
      unfold fdWords
      omega
    simp only [workingCopy, getD_eq_getElem?_getD]
    by_cases hws : fd / 32 < ws.length
    · rw [getElem?_append_left (by rw [length_take]; omega), getElem?_take,
        if_pos hlt]
    · rw [getElem?_append_right (by rw [length_take]; omega),
        getElem?_eq_none (Nat.le_of_not_lt hws), getElem?_replicate]
      split <;> rfl

theorem sbFdBit_copyBack
    {n : ℕ} {out : FdSet} (h : fdWords n ≤ out.length) (ws : FdSet) (fd : ℕ) :
  sbFdBit (some (copyBack n out ws)) fd =
    if fd < 32 * fdWords n then sbFdBit (some out) fd else sbFdBit (some ws) fd
  := by
  have hlen : (out.take (fdWords n)).length = fdWords n := by
    rw [length_take]
    omega
  simp only [sbFdBit_some, copyBack, getD_eq_getElem?_getD]
  split
  next hlt =>
    have hword : fd / 32 < fdWords n := by omega
    rw [getElem?_append_left (by omega), getElem?_take, if_pos hword]
  next hge =>
    have hword : fdWords n ≤ fd / 32 := by omega
    rw [getElem?_append_right (by omega), getElem?_drop, hlen]
    congr 3
    omega

namespace SelectState

variable {β κ : Type}

/-! ### The contract -/

def Ordinary (base : SelectBase) (args : SelectArgs) : Prop :=
  Mask.Disjoint (args.userMask ||| base.breakMask) (base.sigMask ||| base.timerMask)

def TimerOwned (base : SelectBase) (_ : SelectState β κ) : SelectLabel β κ → Prop
  | .post m => m &&& base.timerMask = 0
  | _ => True

structure Selected (args : SelectArgs) (n : ℕ) (w : Snapshot β κ) (sets : FdKind → Option FdSet)
    (ret : ℤ) : Prop where
  bits : ∀ x fd, sbFdBit (sets x) fd =
    if fd < 32 * fdWords n then
      decide (fd < n) && found w.tab w.socks w.txRoom args.sets fd x
    else sbFdBit (args.sets x) fd
  null : ∀ x, sets x = none ↔ args.sets x = none
  count : ret = (List.range n).countP (sbFdBit (sets .read)) +
    (List.range n).countP (sbFdBit (sets .write)) +
    (List.range n).countP (sbFdBit (sets .except))

structure Contract (base : SelectBase) (args : SelectArgs) (s : SelectState β κ) (ret : ℤ) :
    Prop where
  ret_eq : ret = -1 ∨ 0 ≤ ret
  sets_kept : ret = -1 → s.sets = args.sets
  sets_written : 0 ≤ ret → ∃ w, s.seen = some w ∧ Selected args (args.limit base) w s.sets ret
  user_kept : ret = -1 → s.signals = args.signals ∧
    s.pending &&& args.userMask = s.posted &&& args.userMask
  user_told : 0 ≤ ret → s.signals = args.signals.map (s.posted &&& ·) ∧
    s.pending &&& args.userMask = 0
  brk_kept : s.pending &&& brkMask base args = s.posted &&& brkMask base args
  brk_eintr : ret = -1 ∧ s.errno = some .eintr ↔ s.took &&& brkMask base args ≠ 0
  timer_home : s.timer = .home
  timer_clear : s.pending &&& base.timerMask = 0

/-! ### The invariant -/

section Invariant

variable (base : SelectBase) (args : SelectArgs)

def tracked : BitVec 32 := args.userMask ||| base.breakMask

structure Steady (s : SelectState β κ) (held : BitVec 32) (armed : Bool) : Prop where
  sets : s.sets = args.sets
  signals : s.signals = args.signals
  errno : s.errno = none
  accounted : Mask.Accounted (tracked base args) s.pending held s.posted
  out : armed = true → s.timer = .replied ∨
    s.timer = .running ∧ s.pending &&& base.timerMask = 0
  home : armed = false → s.timer = .home ∧ s.pending &&& base.timerMask = 0

/-- `Wait` has returned no break. -/
def NoBreak (s : SelectState β κ) : Prop :=
  s.took &&& brkMask base args = 0

structure LocalsOk (l : SelectLocals) : Prop where
  n : l.n = args.limit base
  ins : l.ins = fun x => (args.sets x).map (workingCopy (args.limit base))
  gotUser : Mask.Disjoint l.gotUser (~~~args.userMask)

def Scanned (s : SelectState β κ) (l : SelectLocals) (sc : Scan κ) : Prop :=
  ∃ w, s.seen = some w ∧ sc = w.scan l.n l.ins

def Inv (s : SelectState β κ) : Prop :=
  match s.pc with
  | .entry => s.Steady base args 0 false ∧ s.NoBreak base args
  | .top l => s.Steady base args l.gotUser l.timerArmed ∧ s.NoBreak base args ∧
      LocalsOk base args l
  | .waiting l => s.Steady base args 0 l.timerArmed ∧ s.NoBreak base args ∧
      LocalsOk base args l ∧ l.gotUser = 0
  | .waitIo _ => False
  | .brkReclaim l sigs =>
      s.Steady base args (sigs &&& (base.breakMask ||| args.userMask)) l.timerArmed ∧
        ¬ s.NoBreak base args
  | .brkPost sigs =>
      s.Steady base args (sigs &&& (base.breakMask ||| args.userMask)) false ∧
        ¬ s.NoBreak base args
  | .reclaim l sc => s.Steady base args l.gotUser l.timerArmed ∧ s.NoBreak base args ∧
      LocalsOk base args l ∧ s.Scanned l sc
  | .finish l sc => s.Steady base args l.gotUser false ∧ s.NoBreak base args ∧
      LocalsOk base args l ∧ s.Scanned l sc
  | .done ret => s.Contract base args ret

end Invariant

variable {base : SelectBase} {args : SelectArgs} {s : SelectState β κ} {held : BitVec 32}
  {armed : Bool}

/-! ### Masks -/

theorem Ordinary.sig
    (h : Ordinary base args) :
  Mask.Disjoint (tracked base args) base.sigMask
  := by
  intro i hi
  have hbit := h i hi
  simp only [BitVec.getLsbD_or, Bool.or_eq_false_iff] at hbit
  exact hbit.1

theorem Ordinary.timer
    (h : Ordinary base args) :
  Mask.Disjoint (tracked base args) base.timerMask
  := by
  intro i hi
  have hbit := h i hi
  simp only [BitVec.getLsbD_or, Bool.or_eq_false_iff] at hbit
  exact hbit.2

theorem tracked_of_user
    {i : ℕ} (h : args.userMask.getLsbD i = true) :
  (tracked base args).getLsbD i = true
  := by
  simp [tracked, h]

theorem tracked_of_brk
    {i : ℕ} (h : (brkMask base args).getLsbD i = true) :
  (tracked base args).getLsbD i = true
  := by
  simp only [brkMask, BitVec.getLsbD_and, Bool.and_eq_true] at h
  simp [tracked, h.1]

theorem disjoint_brk
    {m : BitVec 32} (h : Mask.Disjoint m (~~~args.userMask)) :
  Mask.Disjoint m (brkMask base args)
  := by
  intro i hi
  have hbit := h i hi
  rw [brkMask, BitVec.getLsbD_and, hbit, Bool.and_false]

theorem Ordinary.held_clear
    (h : Ordinary base args) {m : BitVec 32}
    (hm : ∀ i, m.getLsbD i = true → (tracked base args).getLsbD i = true) :
  m &&& base.timerMask = 0
  := by
  apply Mask.disjoint_iff.mp
  intro i hi
  exact h.timer i (hm i hi)

theorem tracked_of_gotUser
    {l : SelectLocals} (hl : LocalsOk base args l) {i : ℕ} (h : l.gotUser.getLsbD i = true) :
  (tracked base args).getLsbD i = true
  := by
  have hnot := hl.gotUser i h
  apply tracked_of_user
  rw [BitVec.getLsbD_not, Bool.and_eq_false_imp] at hnot
  simpa using hnot (by simpa using BitVec.lt_of_getLsbD h)

theorem tracked_of_sigs
    {sigs : BitVec 32} {i : ℕ}
    (h : (sigs &&& (base.breakMask ||| args.userMask)).getLsbD i = true) :
  (tracked base args).getLsbD i = true
  := by
  simp only [BitVec.getLsbD_and, BitVec.getLsbD_or, Bool.and_eq_true, Bool.or_eq_true] at h
  simp [tracked, h.2.symm]

/-! ### What happens around the call -/

theorem Steady.post
    (h : s.Steady base args held armed) {m : BitVec 32} (hm : m &&& base.timerMask = 0) :
  Steady base args { s with pending := s.pending ||| m, posted := s.posted ||| m } held armed
  := by
  refine ⟨h.sets, h.signals, h.errno, h.accounted.post m, ?_, ?_⟩
  · intro ha
    exact (h.out ha).imp_right fun hr => ⟨hr.1, Mask.or_and_eq_zero.mpr ⟨hr.2, hm⟩⟩
  · intro ha
    exact ⟨(h.home ha).1, Mask.or_and_eq_zero.mpr ⟨(h.home ha).2, hm⟩⟩

theorem Steady.reply
    (h : s.Steady base args held armed) (hord : Ordinary base args) (hrun : s.timer = .running) :
  Steady base args { s with timer := .replied, pending := s.pending ||| base.timerMask } held armed
  := by
  refine ⟨h.sets, h.signals, h.errno, h.accounted.raise hord.timer, fun _ => Or.inl rfl, ?_⟩
  intro ha
  rw [(h.home ha).1] at hrun
  contradiction

theorem Steady.world
    (h : s.Steady base args held armed) (now : Snapshot β κ) :
  Steady base args { s with now := now } held armed
  := ⟨h.sets, h.signals, h.errno, h.accounted, h.out, h.home⟩

theorem Steady.move
    (h : s.Steady base args held armed) (pc : SelectPoint κ) (seen : Option (Snapshot β κ)) :
  Steady base args { s with pc := pc, seen := seen } held armed
  := ⟨h.sets, h.signals, h.errno, h.accounted, h.out, h.home⟩

theorem Steady.clearSig
    (h : s.Steady base args held armed) (hord : Ordinary base args) :
  Steady base args { s with pending := s.pending &&& ~~~base.sigMask } held armed
  := by
  refine ⟨h.sets, h.signals, h.errno, h.accounted.clear hord.sig, ?_, ?_⟩
  · intro ha
    exact (h.out ha).imp_right fun hr => ⟨hr.1, Mask.clear_and_eq_zero hr.2⟩
  · intro ha
    exact ⟨(h.home ha).1, Mask.clear_and_eq_zero (h.home ha).2⟩

theorem Steady.arm
    (h : s.Steady base args held false) :
  Steady base args { s with timer := .running } held true
  := ⟨h.sets, h.signals, h.errno, h.accounted, fun _ => Or.inr ⟨rfl, (h.home rfl).2⟩, nofun⟩

theorem Steady.takeBack
    {l : SelectLocals} (h : s.Steady base args held l.timerArmed) (hord : Ordinary base args) :
  Steady base args (s.takeBack base l) held false
  := by
  unfold SelectState.takeBack
  split
  next =>
    exact ⟨h.sets, h.signals, h.errno, h.accounted.clear hord.timer, nofun,
      fun _ => ⟨rfl, Mask.clear_self fun _ => id⟩⟩
  next harmed =>
    rw [Bool.not_eq_true] at harmed
    rw [harmed] at h
    exact h

/-! ### The points of the call -/

theorem contract_failed
    (h : s.Steady base args held false)
    (hheld : ∀ i, held.getLsbD i = true → (tracked base args).getLsbD i = true)
    (hord : Ordinary base args) {e : Errno} (he : e = .eintr ↔ ¬ s.NoBreak base args) :
  Contract base args
    { s with pending := s.pending ||| held, errno := some e, pc := .done (-1) } (-1)
  := by
  obtain ⟨htimer, hclear⟩ := h.home rfl
  have hback := h.accounted.restore
  have hnone : ∀ m : BitVec 32, Mask.Disjoint 0 m := fun m i hi => by simp at hi
  constructor
  · exact Or.inl rfl
  · exact fun _ => h.sets
  · exact fun hret => absurd hret (by decide)
  · exact fun _ => ⟨h.signals, hback.pending_eq (hnone _) fun _ => tracked_of_user⟩
  · exact fun hret => absurd hret (by decide)
  · exact hback.pending_eq (hnone _) fun _ => tracked_of_brk
  · simpa [NoBreak] using he
  · exact htimer
  · exact Mask.or_and_eq_zero.mpr ⟨hclear, hord.held_clear hheld⟩

theorem inv_enter
    (h : s.Steady base args 0 false) (hbrk : s.NoBreak base args) (hord : Ordinary base args) :
  (s.enter base args).Inv base args
  := by
  unfold enter
  split
  next =>
    have hfail := contract_failed (e := .einval) h (by simp) hord (by simpa using hbrk)
    simpa [Inv] using hfail
  next =>
    refine ⟨⟨h.sets, h.signals, h.errno, h.accounted, h.out, h.home⟩, hbrk, rfl, rfl, ?_⟩
    intro i hi
    simp at hi

theorem inv_round
    {l : SelectLocals} (h : s.Steady base args l.gotUser l.timerArmed)
    (hbrk : s.NoBreak base args) (hl : LocalsOk base args l) (hord : Ordinary base args) :
  (s.round base args l).Inv base args
  := by
  have hclear := (h.move (.top l) (some s.now)).clearSig hord
  unfold round
  dsimp only
  split
  next => exact ⟨h.move _ _, hbrk, hl, s.now, rfl, rfl⟩
  next hgo =>
    push Not at hgo
    obtain ⟨-, hgot, -, -⟩ := hgo
    rw [hgot] at hclear
    split
    next harm =>
      simp only [Bool.and_eq_true, Bool.not_eq_true'] at harm
      rw [harm.2] at hclear
      exact ⟨hclear.arm.move _ _, hbrk, ⟨hl.n, hl.ins, hl.gotUser⟩, hgot⟩
    next => exact ⟨hclear.move _ _, hbrk, hl, hgot⟩

theorem steady_wait
    {l : SelectLocals} {k : BitVec 32} (h : s.Steady base args 0 l.timerArmed)
    (hk : Mask.Disjoint (tracked base args) (s.pending &&& waitMask base args l &&& ~~~k)) :
  Steady base args
    { s with
      pending := s.pending &&& ~~~waitMask base args l
      took := s.took ||| (s.pending &&& waitMask base args l) }
    (s.pending &&& waitMask base args l &&& k) l.timerArmed
  := by
  refine ⟨h.sets, h.signals, h.errno, (h.accounted.take _).restrict hk, ?_, ?_⟩
  · intro ha
    exact (h.out ha).imp_right fun hr => ⟨hr.1, Mask.clear_and_eq_zero hr.2⟩
  · intro ha
    exact ⟨(h.home ha).1, Mask.clear_and_eq_zero (h.home ha).2⟩

theorem disjoint_of_no_brk
    {sigs : BitVec 32} (h : sigs &&& brkMask base args = 0) :
  Mask.Disjoint (tracked base args) (sigs &&& ~~~args.userMask)
  := by
  intro i hi
  have hlt := BitVec.lt_of_getLsbD hi
  have hnot := Mask.disjoint_iff.mpr h i
  simp only [tracked, BitVec.getLsbD_or, Bool.or_eq_true] at hi
  simp only [brkMask, BitVec.getLsbD_and, BitVec.getLsbD_not, hlt, decide_true,
    Bool.true_and] at hnot ⊢
  cases hu : args.userMask.getLsbD i with
  | true => simp
  | false =>
    have hb : base.breakMask.getLsbD i = true := by simpa [hu] using hi
    rw [hu, hb] at hnot
    cases hs : sigs.getLsbD i with
    | false => rfl
    | true => exact absurd (hnot hs) (by decide)

theorem inv_wait
    {l : SelectLocals} (h : s.Steady base args 0 l.timerArmed) (hbrk : s.NoBreak base args)
    (hl : LocalsOk base args l) (hgot : l.gotUser = 0) :
  (s.wait base args l).Inv base args
  := by
  unfold wait
  dsimp only
  by_cases hsigs : s.pending &&& waitMask base args l &&& brkMask base args = 0
  · rw [if_neg (not_not_intro hsigs)]
    have hsteady := steady_wait (k := args.userMask) h (disjoint_of_no_brk hsigs)
    have hbrk' : (s.took ||| (s.pending &&& waitMask base args l)) &&& brkMask base args = 0 :=
      Mask.or_and_eq_zero.mpr ⟨hbrk, hsigs⟩
    have hgot' : (afterWait args l (s.pending &&& waitMask base args l)).gotUser =
        s.pending &&& waitMask base args l &&& args.userMask := by
      simp [afterWait, hgot]
    have hl' : LocalsOk base args (afterWait args l (s.pending &&& waitMask base args l)) := by
      refine ⟨hl.n, hl.ins, ?_⟩
      rw [hgot']
      intro i hi
      simp only [BitVec.getLsbD_and, Bool.and_eq_true] at hi
      simp [hi.2]
    split
    next hexpired =>
      simp only [Bool.and_eq_true, bne_iff_ne] at hexpired
      obtain ⟨harmed, hbit⟩ := hexpired
      have harmed : l.timerArmed = true := harmed
      have hreplied : s.timer = .replied := by
        obtain hr | ⟨-, hclear⟩ := h.out harmed
        · exact hr
        · exact absurd (by rw [BitVec.and_assoc, BitVec.and_comm (waitMask base args l),
            ← BitVec.and_assoc, hclear]; simp) hbit
      rw [if_pos hreplied]
      refine ⟨?_, hbrk', hl'.n, hl'.ins, hl'.gotUser⟩
      refine ⟨h.sets, h.signals, h.errno, ?_, nofun, ?_⟩
      · exact hgot' ▸ hsteady.accounted
      · refine fun _ => ⟨rfl, Mask.clear_self ?_⟩
        intro i hi
        simp [waitMask, harmed, hi]
    next =>
      refine ⟨?_, hbrk', hl'⟩
      rw [hgot']
      exact hsteady.move _ _
  · rw [if_pos hsigs]
    have hk : Mask.Disjoint (tracked base args)
        (s.pending &&& waitMask base args l &&& ~~~(base.breakMask ||| args.userMask)) := by
      intro i hi
      simp only [tracked, BitVec.getLsbD_or, Bool.or_eq_true] at hi
      simp only [BitVec.getLsbD_and, BitVec.getLsbD_not, BitVec.getLsbD_or]
      obtain hu | hb := hi
      · simp [hu]
      · simp [hb]
    refine ⟨(steady_wait h hk).move _ _, ?_⟩
    exact fun hnone => hsigs (Mask.or_and_eq_zero.mp hnone).2

/-! ### The result -/

theorem limit_le (base : SelectBase) (args : SelectArgs) :
  args.limit base ≤ 32 * SB_FD_WORDS
  := (min_le_right _ _).trans base.fdCount_le

theorem fdWords_le {n : ℕ} (h : n ≤ 32 * SB_FD_WORDS) :
  fdWords n ≤ SB_FD_WORDS
  := by
  unfold fdWords
  omega

theorem found_workingCopy
    {w : Snapshot β κ} {n fd : ℕ} (h : fd < n) (sets : FdKind → Option FdSet) (x : FdKind) :
  found w.tab w.socks w.txRoom (fun x => (sets x).map (workingCopy n)) fd x =
    found w.tab w.socks w.txRoom sets fd x
  := by
  unfold found
  split
  · rfl
  · rw [sbFdBit_workingCopy h]

theorem selected_of_scan
    {w : Snapshot β κ} {l : SelectLocals} (hl : LocalsOk base args l)
    (hhits : 0 ≤ (w.scan l.n l.ins).hits) :
  Selected args (args.limit base) w
    (fun x => (args.sets x).map (copyBack l.n ((w.scan l.n l.ins).out x)))
    (w.scan l.n l.ins).hits
  := by
  have hn := limit_le base args
  rw [hl.n, hl.ins] at hhits ⊢
  generalize args.limit base = n at hn hhits ⊢
  unfold Snapshot.scan at hhits ⊢
  obtain ⟨hbad, -⟩ | ⟨heq, -⟩ := sbSelectScan_eq w.tab w.socks w.txRoom
    (fun x => (args.sets x).map (workingCopy n)) (range n) .start
  · rw [hbad] at hhits
    contradiction
  · rw [heq]
    have hbit : ∀ x fd, sbFdBit (some (((range n).foldl (scanStep w.tab w.socks w.txRoom
        fun x => (args.sets x).map (workingCopy n)) .start).out x)) fd =
          (decide (fd < n) && found w.tab w.socks w.txRoom args.sets fd x) := by
      intro x fd
      rw [bit_foldl sized_start (fun i hi => (mem_range.mp hi).trans_le hn) x fd]
      simp only [Scan.start, sbFdBit_empty, Bool.false_or, mem_range]
      by_cases hfd : fd < n
      · simp [hfd, found_workingCopy hfd]
      · simp [hfd]
    have hwords : ∀ x, fdWords n ≤ (((range n).foldl (scanStep w.tab w.socks w.txRoom
        fun x => (args.sets x).map (workingCopy n)) .start).out x).length := by
      intro x
      rw [sized_foldl sized_start x]
      exact fdWords_le hn
    have hbits : ∀ x fd, sbFdBit ((args.sets x).map (copyBack n (((range n).foldl
        (scanStep w.tab w.socks w.txRoom fun x => (args.sets x).map (workingCopy n))
          .start).out x))) fd =
        if fd < 32 * fdWords n then decide (fd < n) && found w.tab w.socks w.txRoom args.sets fd x
        else sbFdBit (args.sets x) fd := by
      intro x fd
      cases hx : args.sets x with
      | none =>
        have hnone : found w.tab w.socks w.txRoom args.sets fd x = false := by
          unfold found
          split <;> simp [hx, sbFdBit]
        simp [sbFdBit, hnone]
      | some ws => rw [map_some, sbFdBit_copyBack (hwords x), hbit]
    refine ⟨hbits, by simp, ?_⟩
    rw [hits_foldl]
    have hcount : ∀ x, (range n).countP (found w.tab w.socks w.txRoom
        (fun x => (args.sets x).map (workingCopy n)) · x) =
        (range n).countP (sbFdBit ((args.sets x).map (copyBack n (((range n).foldl
          (scanStep w.tab w.socks w.txRoom fun x => (args.sets x).map (workingCopy n))
            .start).out x)))) := by
      intro x
      apply countP_congr
      intro fd hfd
      have hfd := mem_range.mp hfd
      have hword : fd < 32 * fdWords n := by
        unfold fdWords
        omega
      rw [hbits, if_pos hword, found_workingCopy hfd]
      simp [hfd]
    simp only [hcount, Scan.start]
    omega

theorem inv_report
    {l : SelectLocals} {sc : Scan κ} (h : s.Steady base args l.gotUser false)
    (hbrk : s.NoBreak base args) (hl : LocalsOk base args l) (hsc : s.Scanned l sc)
    (hord : Ordinary base args) :
  (s.report args l sc).Inv base args
  := by
  unfold report
  split
  next =>
    exact contract_failed h (fun _ => tracked_of_gotUser hl) hord (by simpa using hbrk)
  next hhits =>
    obtain ⟨w, hseen, rfl⟩ := hsc
    obtain ⟨htimer, hclear⟩ := h.home rfl
    have hret : 0 ≤ (w.scan l.n l.ins).hits := not_lt.mp hhits
    constructor
    · exact Or.inr hret
    · intro heq
      exact absurd heq (by omega)
    · intro _
      refine ⟨w, hseen, ?_⟩
      dsimp only
      rw [h.sets]
      exact selected_of_scan hl hret
    · intro heq
      exact absurd heq (by omega)
    · intro _
      dsimp only
      refine ⟨?_, Mask.clear_self fun _ => id⟩
      rw [h.signals, h.accounted.collect hl.gotUser fun _ => tracked_of_user]
      cases hm : args.signals with
      | none => rfl
      | some m => simp [SelectArgs.userMask, hm]
    · dsimp only
      rw [← h.accounted.pending_eq (disjoint_brk hl.gotUser) fun _ => tracked_of_brk]
      simp only [brkMask]
      apply BitVec.eq_of_getLsbD_eq
      intro i hi
      simp only [BitVec.getLsbD_and, BitVec.getLsbD_not, hi, decide_true, Bool.true_and]
      cases s.pending.getLsbD i <;> cases args.userMask.getLsbD i <;> simp
    · have hnone : s.took &&& brkMask base args = 0 := hbrk
      simp [h.errno, hnone]
    · exact htimer
    · exact Mask.clear_and_eq_zero hclear

/-! ### Every run -/

theorem Inv.around
    {s' : SelectState β κ} (h : s.Inv base args) (hrun : s.result = none) (hpc : s'.pc = s.pc)
    (htook : s'.took = s.took) (hseen : s'.seen = s.seen)
    (hsteady : ∀ held armed, s.Steady base args held armed → s'.Steady base args held armed) :
  s'.Inv base args
  := by
  unfold Inv NoBreak Scanned at h ⊢
  unfold result at hrun
  rw [hpc, htook, hseen]
  cases hs : s.pc with
  | entry | top l | waiting l | brkReclaim l sigs | brkPost sigs | reclaim l sc | finish l sc =>
    rw [hs] at h
    exact ⟨hsteady _ _ h.1, h.2⟩
  | waitIo l =>
    rw [hs] at h
    exact h
  | done ret =>
    rw [hs] at hrun
    contradiction

theorem Inv.advance
    {s' : SelectState β κ} (h : s.Inv base args) (hord : Ordinary base args)
    (hs : s.advance base args = some s') :
  s'.Inv base args
  := by
  unfold Inv at h
  unfold SelectState.advance at hs
  cases hpc : s.pc with
  | entry =>
    simp only [hpc] at h hs
    cases hs
    exact inv_enter h.1 h.2 hord
  | top l =>
    simp only [hpc] at h hs
    cases hs
    exact inv_round h.1 h.2.1 h.2.2 hord
  | waiting l =>
    simp only [hpc, ite_none_left_eq_some, some.injEq] at h hs
    obtain ⟨-, rfl⟩ := hs
    exact inv_wait h.1 h.2.1 h.2.2.1 h.2.2.2
  | waitIo l =>
    simp only [hpc] at h
  | brkReclaim l sigs =>
    simp only [hpc] at h hs
    cases hs
    refine ⟨(h.1.takeBack hord).move _ _, ?_⟩
    unfold NoBreak SelectState.takeBack
    split <;> exact h.2
  | brkPost sigs =>
    simp only [hpc] at h hs
    cases hs
    exact contract_failed h.1 (fun _ => tracked_of_sigs) hord (by simpa using h.2)
  | reclaim l sc =>
    simp only [hpc] at h hs
    cases hs
    obtain ⟨hsteady, hbrk, hl, hsc⟩ := h
    refine ⟨(hsteady.takeBack hord).move _ _, ?_, hl, ?_⟩
    · unfold NoBreak SelectState.takeBack
      split <;> exact hbrk
    · unfold Scanned SelectState.takeBack
      split <;> exact hsc
  | finish l sc =>
    simp only [hpc] at h hs
    cases hs
    exact inv_report h.1 h.2.1 h.2.2.1 h.2.2.2 hord
  | done ret =>
    simp only [hpc] at hs
    contradiction

theorem inv_of_reach
    (hord : Ordinary base args) (r : (system base args).Reach (TimerOwned base) s) :
  s.Inv base args
  := by
  apply r.invariant
  · rintro s ⟨now, pending, hclear, rfl⟩
    refine ⟨⟨rfl, rfl, rfl, .start _ _, nofun, fun _ => ⟨rfl, hclear⟩⟩, ?_⟩
    simp [NoBreak, start]
  · intro s l s' h hl hs
    simp only [system, next] at hs
    split at hs
    · contradiction
    next hrun =>
      rw [Bool.not_eq_true, isSome_eq_false_iff, isNone_iff_eq_none] at hrun
      cases l with
      | call => exact h.advance hord hs
      | post m =>
        cases hs
        exact h.around hrun rfl rfl rfl fun _ _ hsteady => hsteady.post hl
      | reply =>
        obtain ⟨hrunning, ⟨⟩⟩ := ite_none_right_eq_some.mp hs
        exact h.around hrun rfl rfl rfl fun _ _ hsteady => hsteady.reply hord hrunning
      | world now =>
        cases hs
        exact h.around hrun rfl rfl rfl fun _ _ hsteady => hsteady.world now

theorem brkReclaim_returns
    {l : SelectLocals} {sigs : BitVec 32} (hpc : s.pc = .brkReclaim l sigs) :
  ∃ s', (system base args).exec s [.call, .call] = some s' ∧ s'.result = some (-1) ∧
    s'.errno = some .eintr
  := by
  refine ⟨{ s.takeBack base l with
    pending := (s.takeBack base l).pending ||| (sigs &&& (base.breakMask ||| args.userMask))
    errno := some .eintr
    pc := .done (-1) }, ?_, rfl, rfl⟩
  simp [exec, system, next, result, hpc, SelectState.advance]

theorem brk_returns
    {l : SelectLocals} (hpc : s.pc = .waiting l) (hbrk : s.pending &&& brkMask base args ≠ 0) :
  ∃ s', (system base args).exec s [.call, .call, .call] = some s' ∧ s'.result = some (-1) ∧
    s'.errno = some .eintr
  := by
  have hsub : s.pending &&& waitMask base args l &&& brkMask base args =
      s.pending &&& brkMask base args := by
    apply BitVec.eq_of_getLsbD_eq
    intro i hi
    simp only [waitMask, brkMask, BitVec.getLsbD_and, BitVec.getLsbD_or]
    cases base.breakMask.getLsbD i <;> simp
  have hwait : s.pending &&& waitMask base args l ≠ 0 := by
    intro hzero
    rw [hzero] at hsub
    apply hbrk
    rw [← hsub]
    simp
  have hstep : (system base args).next s .call = some (s.wait base args l) := by
    simpa [system, next, result, hpc, SelectState.advance] using hwait
  have htake : (s.wait base args l).pc =
      .brkReclaim l (s.pending &&& waitMask base args l) := by
    unfold wait
    dsimp only
    rw [hsub, if_pos hbrk]
  rw [exec, hstep, bind_some]
  exact brkReclaim_returns htake

theorem contract_of_reach
    (hord : Ordinary base args) (r : (system base args).Reach (TimerOwned base) s) {ret : ℤ}
    (hret : s.result = some ret) :
  s.Contract base args ret
  := by
  have hinv := inv_of_reach hord r
  unfold result at hret
  unfold Inv at hinv
  split at hret
  next hpc =>
    cases hret
    rwa [hpc] at hinv
  next => contradiction

/-- The contract holds whenever the call returns, and a break pending in `Wait` makes it return -1 with
`SB_EINTR`. -/
theorem waitSelect_contract
    (hord : Ordinary base args) (r : (system base args).Reach (TimerOwned base) s) :
  (∀ ret, s.result = some ret → s.Contract base args ret) ∧
  ∀ l, s.pc = .waiting l → s.pending &&& brkMask base args ≠ 0 →
    ∃ s', (system base args).exec s [.call, .call, .call] = some s' ∧ s'.result = some (-1) ∧
      s'.errno = some .eintr ∧ s'.Contract base args (-1)
  := by
  constructor
  · intro ret hret
    exact contract_of_reach hord r hret
  · intro l hpc hbrk
    obtain ⟨s', hexec, hret, herr⟩ := brk_returns hpc hbrk
    have hreach : (system base args).Reach (TimerOwned base) s' := by
      apply r.exec _ hexec
      simp [TransitionSystem.Along, TimerOwned]
    exact ⟨s', hexec, hret, herr, contract_of_reach hord hreach hret⟩

/-! ### Calls on one connection -/

instance (base : SelectBase) (args : SelectArgs) : Decidable (Ordinary base args) :=
  inferInstanceAs (Decidable (Mask.Disjoint _ _))

instance decidableTimerOwned (base : SelectBase) (s : SelectState β κ) :
    (l : SelectLabel β κ) → Decidable (TimerOwned base s l)
  | .post m => inferInstanceAs (Decidable (m &&& base.timerMask = 0))
  | .call | .reply | .world _ => inferInstanceAs (Decidable True)

def opener : SelectBase where
  fdCount := 64
  fdCount_le := by decide
  sigBit := 20
  timerBit := 21
  breakMask := 1#32 <<< 12

def oneConnection (eof : Bool) : Snapshot Unit Unit where
  tab := some () :: List.replicate 63 none
  socks _ :=
    { SbSocket.accepted () { tcpNew 1000 with state := .established } with rxeof := eof }
  txRoom := true

theorem init_start
    {base : SelectBase} {args : SelectArgs} {now : Snapshot β κ} {pending : BitVec 32}
    (h : pending &&& base.timerMask = 0) :
  (system base args).init (start args now pending)
  := ⟨now, pending, h, rfl⟩

def readWithSignal : SelectArgs where
  nfds := 1
  sets
    | .read => some [1]
    | _ => none
  timeout := some { secs := 5, micro := 0 }
  signals := some (1#32 <<< 13)

def signalRun : List (SelectLabel Unit Unit) :=
  [.call, .call, .post (1#32 <<< 13), .call, .call, .call, .call]

theorem signalRun_enabled :
  ((system opener readWithSignal).exec (start readWithSignal (oneConnection false) 0)
    signalRun).isSome = true
  := by
  decide

def signalled : SelectState Unit Unit :=
  (system opener readWithSignal).last _ signalRun signalRun_enabled

/-- The call returns 0, reports the user signal and clears it; the timer request is back. -/
theorem waitSelect_contract_signalled :
  Ordinary opener readWithSignal ∧
    (system opener readWithSignal).Reach (TimerOwned opener) signalled ∧
    signalled.result = some 0 ∧ signalled.signals = some (1#32 <<< 13) ∧
    signalled.timer = .home
  := by
  have hord : Ordinary opener readWithSignal := by decide
  have hreach : (system opener readWithSignal).Reach (TimerOwned opener) signalled := by
    apply reach_last (init_start (by decide))
    decide
  have hresult : signalled.result = some 0 := by decide
  have hcontract := (waitSelect_contract hord hreach).1 0 hresult
  refine ⟨hord, hreach, hresult, ?_, hcontract.timer_home⟩
  rw [(hcontract.user_told (le_refl 0)).1]
  decide

def pollBeyond : SelectArgs where
  nfds := 100
  sets
    | .read => some [0, 0, 1#32 <<< 6, 0]
    | _ => none
  timeout := some { secs := 0, micro := 0 }
  signals := none

def readForEver : SelectArgs where
  nfds := 1
  sets
    | .read => some [1]
    | _ => none
  timeout := none
  signals := none

def readWithSocketSignal : SelectArgs where
  nfds := 1
  sets
    | .read => some [1]
    | _ => none
  timeout := some { secs := 1, micro := 0 }
  signals := some (1#32 <<< 20)

def straightRun : List (SelectLabel Unit Unit) :=
  [.call, .call, .call, .call]

def timeoutRun : List (SelectLabel Unit Unit) :=
  [.call, .call, .reply, .call, .call, .call, .call]

theorem pollBeyond_enabled :
  ((system opener pollBeyond).exec (start pollBeyond (oneConnection false) 0)
    straightRun).isSome = true
  := by
  decide

theorem readForEver_enabled :
  ((system opener readForEver).exec (start readForEver (oneConnection true) (1#32 <<< 12))
    straightRun).isSome = true
  := by
  decide

theorem readWithSocketSignal_enabled :
  ((system opener readWithSocketSignal).exec
    (start readWithSocketSignal (oneConnection false) (1#32 <<< 20)) timeoutRun).isSome = true
  := by
  decide

/-- A set keeps descriptors beyond the table, a break does not hide a ready descriptor, and the
library's own signal is lost to the user. -/
theorem waitSelect_limits :
  (∃ s : SelectState Unit Unit, (system opener pollBeyond).Reach (TimerOwned opener) s ∧
    s.result = some 0 ∧ sbFdBit (s.sets .read) 70 = true ∧
    ∀ w ∈ s.seen, found w.tab w.socks w.txRoom pollBeyond.sets 70 .read = false) ∧
  (∃ s : SelectState Unit Unit, (system opener readForEver).Reach (TimerOwned opener) s ∧
    s.result = some 1 ∧ s.posted &&& brkMask opener readForEver ≠ 0) ∧
  ∃ s : SelectState Unit Unit,
    (system opener readWithSocketSignal).Reach (TimerOwned opener) s ∧ s.result = some 0 ∧
    s.posted &&& readWithSocketSignal.userMask ≠ 0 ∧ s.signals = some 0 ∧
    s.pending &&& readWithSocketSignal.userMask = 0
  := by
  and_intros
  · use (system opener pollBeyond).last _ straightRun pollBeyond_enabled
    constructor
    · apply reach_last (init_start (by decide))
      decide
    · decide
  · use (system opener readForEver).last _ straightRun readForEver_enabled
    constructor
    · apply reach_last (init_start (by decide))
      decide
    · decide
  · use (system opener readWithSocketSignal).last _ timeoutRun readWithSocketSignal_enabled
    constructor
    · apply reach_last (init_start (by decide))
      decide
    · decide

end SelectState
