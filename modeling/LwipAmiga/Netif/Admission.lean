import LwipAmiga.Netdev.Queue
import LwipAmiga.Sana2.Conserve

/-!
# Admission of whole datagrams

What is free only shrinks by a frame for each call of `linkoutput` that takes one, and `linkoutput`
refuses no frame while anything is free.
-/

open Option TransitionSystem

/-! ### The netdev backend -/

namespace NetdevTx

variable {ι : Type}

structure Shrinks (k : ℕ) (s s' : NetdevTx ι) : Prop where
  free : s.nib.txFree ≤ s'.nib.txFree + k
  maxSegs : s'.maxSegs = s.maxSegs

variable {k : ℕ} {s s' : NetdevTx ι}

theorem shrinks_ndifTxPendDrain (s : NetdevTx ι) (n : ℕ) :
  Shrinks 0 s (s.ndifTxPendDrain n)
  := by
  induction n generalizing s with
  | zero => exact ⟨le_rfl, rfl⟩
  | succ n ih =>
    rw [NetdevTx.ndifTxPendDrain]
    split
    · exact ⟨le_rfl, rfl⟩
    · obtain ⟨hfree, hsegs⟩ := ih s.drainOne
      exact ⟨(Nat.le_succ _).trans hfree, hsegs⟩

theorem shrinks_netdevifTxKick (s : NetdevTx ι) :
  Shrinks 0 s s.netdevifTxKick
  := by
  rw [netdevifTxKick]
  split
  · exact ⟨le_rfl, rfl⟩
  · exact ⟨le_rfl, rfl⟩

variable [DecidableEq ι] {p : TxChain ι} {env : OutputEnv ι}

theorem shrinks_netdevifTxReclaim (s : NetdevTx ι) (seen room : ℕ) :
  Shrinks 0 s (s.netdevifTxReclaim seen room)
  := by
  obtain ⟨hfree, hsegs⟩ := shrinks_ndifTxPendDrain (s.freeCompleted seen) room
  exact ⟨hfree, hsegs⟩

theorem shrinks_handOver (s : NetdevTx ι) (frame : TxChain ι) (accepts : Bool) :
  Shrinks 1 s (s.handOver frame accepts).2
  := by
  unfold handOver
  split_ifs
  · exact ⟨Nat.le_succ _, rfl⟩
  · refine ⟨?_, rfl⟩
    change s.nib.txFree ≤ s.nib.txFree - 1 + 1
    omega
  · exact ⟨Nat.le_succ _, rfl⟩

theorem shrinks_sendFrame (s : NetdevTx ι) (p : TxChain ι) (env : OutputEnv ι) :
  Shrinks 1 s (s.sendFrame p env).2
  := by
  unfold sendFrame
  split
  · exact ⟨Nat.le_succ _, rfl⟩
  · split
    next => exact ⟨Nat.le_succ _, rfl⟩
    next frame refs _ =>
      obtain ⟨hfree, hsegs⟩ := shrinks_handOver { s with refs := refs } frame env.accepts
      exact ⟨hfree, hsegs⟩

theorem shrinks_ndifLinkoutput (s : NetdevTx ι) (p : TxChain ι) (env : OutputEnv ι) :
  Shrinks 1 s (s.ndifLinkoutput p env).2
  := by
  unfold ndifLinkoutput
  split
  · obtain ⟨hfree, hsegs⟩ := shrinks_sendFrame
      { s with refs := (pbufCoalesce s.refs p env.coalesced).2 }
      (pbufCoalesce s.refs p env.coalesced).1 env
    exact ⟨hfree, hsegs⟩
  · apply shrinks_sendFrame

def isOutput : TxLabel ι → Bool
  | .output _ _ => true
  | _ => false

theorem shrinks_next
    {l : TxLabel ι} (hstep : s.next l = some s') :
  Shrinks (isOutput l).toNat s s'
  := by
  cases l with
  | lock seen room =>
    cases hstep
    rw [netstackLock]
    split
    · obtain ⟨hfree, hsegs⟩ := shrinks_netdevifTxReclaim { s with nest := 1 } seen room
      exact ⟨hfree, hsegs⟩
    · exact ⟨le_rfl, rfl⟩
  | unlock =>
    obtain ⟨-, ⟨⟩⟩ := ite_none_right_eq_some.mp hstep
    rw [netstackUnlock]
    split
    · obtain ⟨hfree, hsegs⟩ := shrinks_netdevifTxKick s
      exact ⟨hfree, hsegs⟩
    · exact ⟨le_rfl, rfl⟩
  | output p env =>
    obtain ⟨-, ⟨⟩⟩ := ite_none_right_eq_some.mp hstep
    apply shrinks_ndifLinkoutput
  | reclaim seen room =>
    obtain ⟨-, ⟨⟩⟩ := ite_none_right_eq_some.mp hstep
    apply shrinks_netdevifTxReclaim
  | done k =>
    simp only [next, map_eq_some_iff] at hstep
    obtain ⟨frame, -, rfl⟩ := hstep
    exact ⟨le_rfl, rfl⟩
  | doneInline k =>
    simp only [next, ite_none_right_eq_some, map_eq_some_iff] at hstep
    obtain ⟨-, frame, -, rfl⟩ := hstep
    exact ⟨le_rfl, rfl⟩
  | owner op =>
    obtain ⟨⟨refs, owned⟩, -, rfl⟩ := map_eq_some_iff.mp hstep
    exact ⟨le_rfl, rfl⟩

theorem maxSegs_of_reachable
    {caps : NetDevCaps} (r : (system caps).Reachable s) :
  s.maxSegs = caps.maxSegs
  := by
  apply r.invariant
  · rintro s ⟨slots, rfl⟩
    rfl
  · intro s l s' h _ hstep
    rw [(shrinks_next hstep).maxSegs, h]

theorem handOver_ok
    {m : RingMask} (h : QueueInv m s) (hfree : 0 < s.nib.txFree) (frame : TxChain ι) (accepts : Bool) :
  (s.handOver frame accepts).1 = .ok
  := by
  unfold handOver
  split_ifs with _ hfull
  · rw [IndexRing.mask_lt_iff, h.mask] at hfull
    have hcount := h.free
    omega
  · rfl
  · rfl

theorem sendFrame_ok
    {m : RingMask} (h : QueueInv m s) (hfree : 0 < s.nib.txFree) (hsegs : p.clen ≤ s.maxSegs)
    (hmem : env.cloned.isSome = true) :
  (s.sendFrame p env).1 = .ok
  := by
  have hsome : (aliasGuard s.refs p env.cloned).isSome = true := aliasGuard_isSome hmem
  obtain ⟨⟨frame, refs⟩, hguard⟩ := isSome_iff_exists.mp hsome
  rw [sendFrame, if_neg (Nat.not_lt.mpr hsegs), hguard]
  apply handOver_ok (h.setRefs refs) hfree

theorem ndifLinkoutput_ok
    {m : RingMask} (h : QueueInv m s) (hfree : 0 < s.nib.txFree) (hsegs : 0 < s.maxSegs)
    (hcoalesced : env.coalesced.isSome = true) (hcloned : env.cloned.isSome = true) :
  (s.ndifLinkoutput p env).1 = .ok
  := by
  unfold ndifLinkoutput
  split
  next =>
    apply sendFrame_ok (h.setRefs (pbufCoalesce s.refs p env.coalesced).2) hfree _ hcloned
    have hone : (pbufCoalesce s.refs p env.coalesced).1.more = 0 := by
      obtain ⟨i, hi⟩ := isSome_iff_exists.mp hcoalesced
      rw [pbufCoalesce, hi]
      split
      next hmore => apply hmore
      next => rfl
    change (pbufCoalesce s.refs p env.coalesced).1.more + 1 ≤ s.maxSegs
    omega
  next hshort =>
    apply sendFrame_ok h hfree (Nat.not_lt.mp hshort) hcloned

def inHold (s : NetdevTx ι) : TxLabel ι → Prop
  | .unlock => 1 < s.nest
  | .output _ env => 0 < s.nest ∧ env.coalesced.isSome = true ∧ env.cloned.isSome = true
  | _ => 0 < s.nest

instance (s : NetdevTx ι) (l : TxLabel ι) : Decidable (inHold s l) := by
  cases l <;> unfold inHold <;> infer_instance

/-- `ndif_linkoutput` takes the frame of the label. -/
def Accepts (s : NetdevTx ι) : TxLabel ι → Prop
  | .output p env => (s.ndifLinkoutput p env).1 = .ok
  | _ => True

theorem along_accepts
    {caps : NetDevCaps} (r : (system caps).Reachable s) {ls : List (TxLabel ι)}
    (hhold : (system caps).Along inHold s ls) (hle : ls.countP isOutput ≤ s.nib.txFree) :
  (system caps).Along (fun s l => isOutput l = true → Accepts s l) s ls
  := by
  apply TransitionSystem.Along.supply (fun s => s.nib.txFree) (I := (system caps).Reachable) _ _ r hhold
    hle
  · intro s l s' hs _ hstep
    exact ⟨hs.step hstep, (shrinks_next hstep).free⟩
  · intro s l hs hgood hdraws hfree
    cases l with
    | output p env =>
      apply ndifLinkoutput_ok (queueInv_of_reachable hs) hfree _ hgood.2.1 hgood.2.2
      rw [maxSegs_of_reachable hs]
      apply caps.maxSegs_pos
    | _ => trivial

end NetdevTx

/-! ### The SANA-II backend -/

namespace Sana2Tx

variable {ι : Type} [DecidableEq ι] {s s' : Sana2Tx ι} {p : TxChain ι} {env : Sana2Env ι}

def isOutput : TxLabel ι → Bool
  | .output _ _ => true
  | _ => false

def inHold (s : Sana2Tx ι) : TxLabel ι → Prop
  | .unlock _ => 1 < s.nest
  | .output _ env => 0 < s.nest ∧ SIZEOF_ETH_HDR ≤ env.len ∧ env.cloned.isSome = true
  | .netifDown => False
  | _ => 0 < s.nest

instance (s : Sana2Tx ι) (l : TxLabel ι) : Decidable (inHold s l) := by
  cases l <;> unfold inHold <;> infer_instance

/-- `s2if_linkoutput` takes the frame of the label. -/
def Accepts (s : Sana2Tx ι) : TxLabel ι → Prop
  | .output p env => (s.s2ifLinkoutput p env).1 = .ok
  | _ => True

theorem s2ifLinkoutput_ok
    (hfree : s.free ≠ []) (hdown : s.txDown = false) (hlen : SIZEOF_ETH_HDR ≤ env.len)
    (hcloned : env.cloned.isSome = true) :
  (s.s2ifLinkoutput p env).1 = .ok
  := by
  obtain ⟨r, rest, hcons⟩ := List.exists_cons_of_ne_nil hfree
  have hsome : (aliasGuard s.refs p env.cloned).isSome = true := aliasGuard_isSome hcloned
  obtain ⟨⟨frame, refs⟩, hguard⟩ := isSome_iff_exists.mp hsome
  rw [s2ifLinkoutput, hdown, if_neg Bool.false_ne_true, if_neg (Nat.not_lt.mpr hlen), flushIfDry,
    if_neg hfree, takeRequest, hcons, hguard]

theorem txDown_of_up
    {mtu : UInt32} (r : (system mtu).Reachable s) :
  s.up = true → s.txDown = false
  := by
  apply r.invariant_of (fun _ => inv_of_reachable)
  · rintro s rfl
    intros
    contradiction
  · intro s l s' hinv h _ hstep
    by_cases hdown : l = .netifDown
    · subst hdown
      simp only [system, next, ite_none_right_eq_some, some.injEq] at hstep
      obtain ⟨-, rfl⟩ := hstep
      intros
      contradiction
    · by_cases hup : l = .netifUp
      · subst hup
        simp only [system, next, ite_none_right_eq_some, some.injEq] at hstep
        obtain ⟨⟨-, hnot⟩, rfl⟩ := hstep
        exact fun _ => hnot
      · obtain ⟨hsame, hsame'⟩ := (hinv.kept_next hstep).1 hup hdown
        rw [hsame, hsame']
        apply h

theorem free_next
    {l : TxLabel ι} (hhold : inHold s l) (hstep : s.next l = some s') :
  s.free.length ≤ s'.free.length + (isOutput l).toNat
  := by
  cases l with
  | lock pump | reply r | harvest r | netifUp =>
    obtain ⟨-, ⟨⟩⟩ := ite_none_right_eq_some.mp hstep
    apply le_rfl
  | unlock quick =>
    obtain ⟨-, ⟨⟩⟩ := ite_none_right_eq_some.mp hstep
    rw [netstackUnlock, if_neg (Nat.ne_of_gt hhold)]
    apply le_rfl
  | output p env =>
    obtain ⟨⟨-, -, hfresh⟩, ⟨⟩⟩ := ite_none_right_eq_some.mp hstep
    change s.free.length ≤ (s.s2ifLinkoutput p env).2.free.length + 1
    rw [s2ifLinkoutput]
    split_ifs
    · apply Nat.le_succ
    · apply Nat.le_succ
    · obtain hempty | hne := eq_or_ne s.free []
      · rw [hempty]
        apply Nat.zero_le
      · rw [flushIfDry, if_neg hne] at hfresh ⊢
        obtain ⟨-, hsame⟩ | ⟨-, r, rest, frame, hfree, hstage⟩ := takeRequest_cases (p := p) hfresh
        · rw [hsame]
          apply Nat.le_succ
        · rw [hstage, hfree]
          apply le_rfl
  | complete =>
    simp only [next] at hstep
    split at hstep
    · contradiction
    · obtain ⟨-, ⟨⟩⟩ := ite_none_right_eq_some.mp hstep
      apply Nat.le_succ
  | netifDown => contradiction
  | owner op =>
    obtain ⟨⟨refs, owned⟩, -, rfl⟩ := map_eq_some_iff.mp hstep
    apply le_rfl

theorem along_accepts
    {mtu : UInt32} (r : (system mtu).Reachable s) (hup : s.up = true) {ls : List (TxLabel ι)}
    (hhold : (system mtu).Along inHold s ls) (hle : ls.countP isOutput ≤ s.nib.txFree) :
  (system mtu).Along (fun s l => isOutput l = true → Accepts s l) s ls
  := by
  apply TransitionSystem.Along.supply (fun s => s.nib.txFree)
    (I := fun s => (system mtu).Reachable s ∧ s.up = true) _ _ ⟨r, hup⟩ hhold hle
  · rintro s l s' ⟨hs, hup⟩ hgood hstep
    refine ⟨⟨hs.step hstep, ?_⟩, ?_⟩
    · by_cases hl : l = .netifUp
      · subst hl
        simp only [system, next, ite_none_right_eq_some, some.injEq] at hstep
        obtain ⟨-, rfl⟩ := hstep
        rfl
      · have hdown : l ≠ .netifDown := by
          rintro rfl
          exact hgood
        rw [(((inv_of_reachable hs).kept_next hstep).1 hl hdown).1, hup]
    · rw [(inv_of_reachable hs).core.free, (inv_of_reachable (hs.step hstep)).core.free]
      apply free_next hgood hstep
  · rintro s l ⟨hs, hup⟩ hgood hdraws hfree
    cases l with
    | output p env =>
      apply s2ifLinkoutput_ok _ (txDown_of_up hs hup) hgood.2.1 hgood.2.2
      rw [(inv_of_reachable hs).core.free] at hfree
      apply List.ne_nil_of_length_pos hfree
    | _ => trivial

end Sana2Tx

/-! ### Whole datagrams -/

def NetdevTx.holdRun : List (NetdevTx.TxLabel ℕ) :=
  [.lock 0 0, .owner (.alloc 0), .owner (.alloc 1)]

def NetdevTx.twoFragments : List (NetdevTx.TxLabel ℕ) :=
  [.output ⟨0, 1⟩ ⟨some 2, some 3, false⟩, .output ⟨1, 1⟩ ⟨some 4, some 5, true⟩]

def Sana2Tx.holdRun : List (Sana2Tx.TxLabel ℕ) :=
  [.lock false, .netifUp, .owner (.alloc 0), .owner (.alloc 1)]

def Sana2Tx.twoFragments : List (Sana2Tx.TxLabel ℕ) :=
  [.output ⟨0, 1⟩ ⟨34, some 2, fun _ => false⟩, .output ⟨1, 1⟩ ⟨34, some 3, fun _ => false⟩]

theorem NetdevTx.holdRun_enabled :
  ((NetdevTx.system smallRing).exec (create smallRing fun _ => ⟨0, 0⟩) holdRun).isSome = true
  := by
  decide

theorem Sana2Tx.holdRun_enabled :
  ((Sana2Tx.system 1500).exec (create 1500) holdRun).isSome = true
  := by
  decide

def NetdevTx.hold : NetdevTx ℕ :=
  (NetdevTx.system smallRing).last (create smallRing fun _ => ⟨0, 0⟩) holdRun holdRun_enabled

def Sana2Tx.hold : Sana2Tx ℕ :=
  (Sana2Tx.system 1500).last (create 1500) holdRun holdRun_enabled
