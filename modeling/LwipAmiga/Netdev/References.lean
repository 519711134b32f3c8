import LwipAmiga.Netdev.Queue

/-!
# References of the frames in transmission

A call of `ndif_linkoutput` is neutral when it holds exactly one reference more for the frame it takes.
-/

open List Function Option

def OutputEnv.Fresh {ι : Type} (env : OutputEnv ι) (refs : ι → ℕ) : Prop :=
  (∀ i ∈ env.coalesced, refs i = 0) ∧ ∀ i ∈ env.cloned, refs i = 0

namespace NetdevTx

section Frames

variable {ι : Type} {s s' : NetdevTx ι}

def frames (s : NetdevTx ι) : List (TxChain ι) :=
  s.flight ++ s.pend.items

structure Takes (s s' : NetdevTx ι) (frame : TxChain ι) : Prop where
  frames : s'.frames.Perm (frame :: s.frames)
  refs : s'.refs = s.refs
  owned : s'.owned = s.owned
  completed : s'.completed = s.completed

def held (s : NetdevTx ι) : List ι :=
  (s.frames ++ s.completed).map TxChain.id

theorem held_eraseIdx
    {k : ℕ} {frame : TxChain ι} (hk : s.flight[k]? = some frame) :
  s.held.Perm (frame.id :: held { s with flight := s.flight.eraseIdx k })
  := by
  obtain ⟨hlt, rfl⟩ := List.getElem?_eq_some_iff.mp hk
  change ((s.flight ++ s.pend.items ++ s.completed).map TxChain.id).Perm
    (((s.flight[k] :: s.flight.eraseIdx k) ++ s.pend.items ++ s.completed).map TxChain.id)
  apply List.Perm.map
  apply List.Perm.append_right
  apply List.Perm.append_right
  apply (List.getElem_cons_eraseIdx_perm hlt).symm

end Frames

variable {ι : Type} [DecidableEq ι] {s s' : NetdevTx ι} {p : TxChain ι} {env : OutputEnv ι}

def Neutral (s : NetdevTx ι) (p : TxChain ι) (env : OutputEnv ι) : Prop :=
  (s.ndifLinkoutput p env).1 = .ok ∧
    (∃ frame, (frame = p ∨ s.refs frame.id = 0) ∧
      (s.ndifLinkoutput p env).2.frames.Perm (frame :: s.frames) ∧
      (s.ndifLinkoutput p env).2.refs = pbufRef s.refs frame ∧
      pbufFree (s.ndifLinkoutput p env).2.refs frame = s.refs) ∨
  (s.ndifLinkoutput p env).1 ≠ .ok ∧
    (s.ndifLinkoutput p env).2.frames = s.frames ∧ (s.ndifLinkoutput p env).2.refs = s.refs

def Coalesces (s : NetdevTx ι) (p : TxChain ι) (env : OutputEnv ι) : Prop :=
  s.maxSegs < p.clen ∧ p.more ≠ 0 ∧ env.coalesced.isSome = true

/-! ### What a call does -/

theorem handOver_cases (s : NetdevTx ι) (frame : TxChain ι) (accepts : Bool) :
  (s.handOver frame accepts).1 ≠ .ok ∧
      (s.handOver frame accepts).2 = { s with refs := pbufFree s.refs frame } ∨
    (s.handOver frame accepts).1 = .ok ∧ Takes s (s.handOver frame accepts).2 frame
  := by
  unfold handOver
  split
  next =>
    split
    next =>
      left
      exact ⟨by simp, rfl⟩
    next hfull =>
      right
      use rfl
      have hroom : s.pend.count < s.pend.m.size := by
        rw [IndexRing.mask_lt_iff] at hfull
        omega
      refine ⟨?_, rfl, rfl, rfl⟩
      change (s.flight ++ (s.pend.push frame).items).Perm (frame :: (s.flight ++ s.pend.items))
      rw [IndexRing.items_push frame hroom, ← append_assoc]
      apply perm_append_singleton
  next =>
    right
    use rfl
    refine ⟨?_, rfl, rfl, rfl⟩
    change (s.flight ++ [frame] ++ s.pend.items).Perm (frame :: (s.flight ++ s.pend.items))
    rw [append_assoc, singleton_append]
    apply perm_middle

theorem sendFrame_cases
    (hfree : ∀ i ∈ env.cloned, s.refs i = 0) :
  (s.sendFrame p env).1 ≠ .ok ∧ (s.sendFrame p env).2 = s ∨
    (s.sendFrame p env).1 = .ok ∧ ∃ frame, (frame = p ∨ s.refs frame.id = 0) ∧
      Takes { s with refs := pbufRef s.refs frame } (s.sendFrame p env).2 frame
  := by
  unfold sendFrame
  split
  next =>
    left
    exact ⟨by simp, rfl⟩
  next =>
    split
    next =>
      left
      exact ⟨by simp, rfl⟩
    next frame refs hguard =>
      obtain ⟨rfl, hframe⟩ := aliasGuard_some hguard hfree
      have hcopy : frame = p ∨ s.refs frame.id = 0 := by
        apply hframe.imp_right
        rintro ⟨i, hi, rfl⟩
        apply hfree i hi
      obtain ⟨herr, hdrop⟩ | ⟨hok, htakes⟩ :=
        handOver_cases { s with refs := pbufRef s.refs frame } frame env.accepts
      · left
        use herr
        rw [hdrop, pbufFree_pbufRef]
      · right
        use hok, frame, hcopy

theorem ndifLinkoutput_of_not_coalesces
    (h : ¬ s.Coalesces p env) :
  s.ndifLinkoutput p env = s.sendFrame p env
  := by
  unfold ndifLinkoutput
  split
  next hlong =>
    have hsame : pbufCoalesce s.refs p env.coalesced = (p, s.refs) := by
      unfold pbufCoalesce
      split
      next => rfl
      next hmore =>
        have hmem : env.coalesced = none := by
          by_contra hsome
          exact h ⟨hlong, hmore, isSome_iff_ne_none.mpr hsome⟩
        rw [hmem]
        rfl
    rw [hsame]
  next => rfl

theorem refs_sendFrame_of_ne
    {j : ι} (hone : s.refs p.id ≤ 1) (hj : j ≠ p.id) :
  (s.sendFrame p env).2.refs j = s.refs j
  := by
  unfold sendFrame
  split
  next => rfl
  next =>
    have hguard : aliasGuard s.refs p env.cloned = some (p, pbufRef s.refs p) :=
      if_neg (by omega)
    rw [hguard]
    obtain ⟨-, hdrop⟩ | ⟨-, htakes⟩ :=
      handOver_cases { s with refs := pbufRef s.refs p } p env.accepts
    · rw [hdrop, pbufFree_pbufRef]
    · rw [htakes.refs]
      apply RefCount.incr_of_ne _ hj

theorem refs_of_coalesces
    (h : s.Coalesces p env) (hfresh : env.Fresh s.refs) (hp : 0 < s.refs p.id) :
  (s.ndifLinkoutput p env).2.refs p.id = s.refs p.id - 1
  := by
  obtain ⟨hlong, hmore, hsome⟩ := h
  obtain ⟨i, hi⟩ := isSome_iff_exists.mp hsome
  have hzero : s.refs i = 0 := hfresh.1 i hi
  have hne : p.id ≠ i := by
    rintro rfl
    omega
  have hcopy : pbufCoalesce s.refs p env.coalesced =
      (⟨i, 0⟩, pbufFree (update s.refs i 1) p) := by
    rw [pbufCoalesce, if_neg hmore, hi]
    rfl
  have hone : pbufFree (update s.refs i 1) p i ≤ 1 := by
    rw [pbufFree, RefCount.decr, update_of_ne hne.symm, update_self]
  rw [ndifLinkoutput, if_pos hlong, hcopy]
  apply (refs_sendFrame_of_ne (s := { s with refs := pbufFree (update s.refs i 1) p })
    (p := ⟨i, 0⟩) hone hne).trans
  change pbufFree (update s.refs i 1) p p.id = s.refs p.id - 1
  rw [pbufFree, RefCount.decr, update_self, update_of_ne hne]

/-- A call of `ndif_linkoutput` is neutral just when it does not coalesce the chain. -/
theorem linkoutput_neutral_iff
    (hp : 0 < s.refs p.id) (hfresh : env.Fresh s.refs) :
  s.Neutral p env ↔ ¬ s.Coalesces p env
  := by
  constructor
  · intro hneutral hcoalesces
    have hlost := refs_of_coalesces hcoalesces hfresh hp
    obtain ⟨-, frame, -, -, hrefs, -⟩ | ⟨-, -, hrefs⟩ := hneutral
    · rw [hrefs, pbufRef] at hlost
      by_cases hid : p.id = frame.id
      · rw [hid, RefCount.incr_self, ← hid] at hlost
        omega
      · rw [RefCount.incr_of_ne _ hid] at hlost
        omega
    · rw [hrefs] at hlost
      omega
  · intro hnot
    rw [Neutral, ndifLinkoutput_of_not_coalesces hnot]
    obtain ⟨herr, hsame⟩ | ⟨hok, frame, hcopy, htakes⟩ := sendFrame_cases (p := p) hfresh.2
    · right
      rw [hsame]
      exact ⟨herr, rfl, rfl⟩
    · left
      refine ⟨hok, frame, hcopy, htakes.frames, htakes.refs, ?_⟩
      rw [htakes.refs]
      apply pbufFree_pbufRef

/-! ### Runs -/

def Accounted (s : NetdevTx ι) : Prop :=
  RefCount.Accounts s.refs s.owned s.held

def fits (s : NetdevTx ι) : TxLabel ι → Prop
  | .output p env => ¬ s.Coalesces p env
  | _ => True

theorem Accounted.ndifLinkoutput
    (h : s.Accounted) (hfresh : env.Fresh s.refs) (hfits : ¬ s.Coalesces p env) :
  (s.ndifLinkoutput p env).2.Accounted
  := by
  rw [ndifLinkoutput_of_not_coalesces hfits]
  obtain ⟨-, hsame⟩ | ⟨-, frame, -, htakes⟩ := sendFrame_cases (p := p) hfresh.2
  · rw [hsame]
    apply h
  · rw [Accounted, htakes.refs, htakes.owned]
    apply (RefCount.Accounts.incr h frame.id).perm
    rw [held, held, htakes.completed]
    apply ((htakes.frames.append_right _).map TxChain.id).symm

theorem Accounted.ndifTxPendDrain
    (n : ℕ) (h : s.Accounted) :
  (s.ndifTxPendDrain n).Accounted
  := by
  induction n generalizing s with
  | zero => apply h
  | succ n ih =>
    rw [NetdevTx.ndifTxPendDrain]
    split
    next => apply h
    next hpend =>
      apply ih
      apply RefCount.Accounts.perm h
      apply List.Perm.of_eq
      change ((s.flight ++ s.pend.items) ++ s.completed).map TxChain.id =
        ((s.flight ++ [s.pend.front] ++ s.pend.pop.items) ++ s.completed).map TxChain.id
      rw [IndexRing.items_pop hpend, append_cons]

theorem Accounted.netdevifTxReclaim
    (h : s.Accounted) (seen room : ℕ) :
  (s.netdevifTxReclaim seen room).Accounted
  := by
  apply Accounted.ndifTxPendDrain
  change RefCount.Accounts ((s.completed.take seen).foldl pbufFree s.refs) s.owned
    ((s.frames ++ s.completed.drop seen).map TxChain.id)
  have hfold : (s.completed.take seen).foldl pbufFree s.refs =
      ((s.completed.take seen).map TxChain.id).foldl RefCount.decr s.refs := by
    rw [foldl_map]
    rfl
  rw [hfold]
  apply RefCount.Accounts.foldl_decr
  apply RefCount.Accounts.perm h
  rw [held, ← map_append]
  apply List.Perm.map
  rw [← append_assoc]
  nth_rewrite 1 [← take_append_drop seen s.completed]
  rw [← append_assoc]
  apply perm_append_comm.append_right

theorem Accounted.step
    {l : TxLabel ι} (h : s.Accounted) (hfits : s.fits l) (hstep : s.next l = some s') :
  s'.Accounted
  := by
  cases l with
  | lock seen room =>
    cases hstep
    unfold netstackLock
    split
    next =>
      have hheld : Accounted { s with nest := 1 } := h
      apply hheld.netdevifTxReclaim
    next => apply h
  | unlock =>
    obtain ⟨-, ⟨⟩⟩ := ite_none_right_eq_some.mp hstep
    unfold netstackUnlock netdevifTxKick
    split
    next =>
      split
      next => apply h
      next => apply h
    next => apply h
  | output p env =>
    obtain ⟨⟨-, -, hfresh⟩, ⟨⟩⟩ := ite_none_right_eq_some.mp hstep
    apply h.ndifLinkoutput hfresh hfits
  | reclaim seen room =>
    obtain ⟨-, ⟨⟩⟩ := ite_none_right_eq_some.mp hstep
    apply h.netdevifTxReclaim
  | done k =>
    simp only [next, map_eq_some_iff] at hstep
    obtain ⟨frame, hk, rfl⟩ := hstep
    apply RefCount.Accounts.perm h
    apply (held_eraseIdx hk).trans
    change (frame.id :: (s.flight.eraseIdx k ++ s.pend.items ++ s.completed).map TxChain.id).Perm
      ((s.flight.eraseIdx k ++ s.pend.items ++ (s.completed ++ [frame])).map TxChain.id)
    simp only [← append_assoc, map_append, map_singleton]
    apply (perm_append_singleton _ _).symm
  | doneInline k =>
    simp only [next, ite_none_right_eq_some, map_eq_some_iff] at hstep
    obtain ⟨-, frame, hk, rfl⟩ := hstep
    apply RefCount.Accounts.decr
    apply RefCount.Accounts.perm h (held_eraseIdx hk)
  | owner op =>
    obtain ⟨⟨refs, owned⟩, hop, rfl⟩ := map_eq_some_iff.mp hstep
    apply PbufOp.accounts hop h

theorem accounts_of_reach
    {caps : NetDevCaps} (r : (system caps).Reach fits s) :
  s.Accounted
  := by
  apply r.invariant
  · rintro s ⟨slots, rfl⟩ i
    change 0 = 0 + count i (((IndexRing.empty caps.pendMask slots).items ++ []).map TxChain.id)
    rw [IndexRing.items_empty]
    rfl
  · intro s l s' h hfits hstep
    apply h.step hfits hstep

theorem refs_netdevifTxPendFree
    (h : s.Accounted) (hflight : s.flight = []) (hcompleted : s.completed = []) :
  s.netdevifTxPendFree.refs = s.owned
  := by
  have hfold : s.pend.items.foldl pbufFree s.refs =
      (s.pend.items.map TxChain.id).foldl RefCount.decr s.refs := by
    rw [foldl_map]
    rfl
  have hacc : RefCount.Accounts s.refs s.owned (s.pend.items.map TxChain.id ++ []) := by
    rw [Accounted, held, frames, hflight, hcompleted, nil_append, append_nil] at h
    rwa [append_nil]
  funext i
  change s.pend.items.foldl pbufFree s.refs i = s.owned i
  rw [hfold, hacc.foldl_decr i, count_nil, Nat.add_zero]

/-- Along every run in which no call coalesces a chain, a pbuf has the references of its owners and one
for each frame held; once the driver has given back all frames, freeing the queue leaves those of the
owners. -/
theorem references_balanced
    {caps : NetDevCaps} (r : (system caps).Reach fits s) :
  s.Accounted ∧ (s.flight = [] → s.completed = [] → s.netdevifTxPendFree.refs = s.owned)
  := by
  have haccounted := accounts_of_reach r
  exact ⟨haccounted, refs_netdevifTxPendFree haccounted⟩

instance (s : NetdevTx ι) (l : TxLabel ι) : Decidable (s.fits l) := by
  induction l using TxLabel.casesOn <;> dsimp only [fits, Coalesces] <;> infer_instance

def heldRun : List (TxLabel Bool) :=
  [.lock 0 0, .owner (.alloc true), .output ⟨true, 1⟩ ⟨none, none, true⟩, .unlock]

theorem heldRun_enabled :
  ((system smallRing).exec (create smallRing fun _ => ⟨true, 0⟩) heldRun).isSome = true
  := by
  decide

theorem references_balanced_held :
  ∃ s, (system smallRing).exec (create smallRing fun _ => ⟨true, 0⟩) heldRun = some s ∧
    s.refs true = 2 ∧ s.Accounted
  := by
  have hreach : (system smallRing).Reach fits
      ((system smallRing).last (create smallRing fun _ => ⟨true, 0⟩) heldRun heldRun_enabled) :=
    TransitionSystem.reach_last ⟨_, rfl⟩ (by decide)
  exact ⟨_, (some_get heldRun_enabled).symm, by decide, (references_balanced hreach).1⟩

/-! ### A chain of two pbufs -/

def loneFrame : NetdevTx Bool :=
  { create smallRing fun _ => ⟨false, 0⟩ with
    refs := fun b => if b then 1 else 0
    owned := fun b => if b then 1 else 0
    nest := 1 }

theorem linkoutput_neutral_single :
  loneFrame.Neutral ⟨true, 0⟩ ⟨none, none, true⟩
  := by
  apply (linkoutput_neutral_iff (by decide) ⟨nofun, nofun⟩).mpr
  rintro ⟨-, hmore, -⟩
  exact hmore rfl

def oneSegment : NetDevCaps where
  mtu := 1500
  txMaxSegs := 1
  txRingSlots := 64
  txInFlightMax := 0
  txMaxSegs_pos := by decide

def coalescedRun : List (TxLabel Bool) :=
  [.lock 0 0, .owner (.alloc true), .output ⟨true, 1⟩ ⟨some false, none, true⟩, .done 0,
    .reclaim 1 0, .unlock]

theorem coalescedRun_enabled :
  ((system oneSegment).exec (create oneSegment fun _ => ⟨true, 0⟩) coalescedRun).isSome = true
  := by
  decide

def coalesced : NetdevTx Bool :=
  (system oneSegment).last (create oneSegment fun _ => ⟨true, 0⟩) coalescedRun coalescedRun_enabled

/-- The chain the caller counts on is freed, and the copy is left with a reference that nobody has. -/
theorem coalesced_loses_reference :
  (system oneSegment).Reachable coalesced ∧ coalesced.owned true = 1 ∧ coalesced.refs true = 0 ∧
    coalesced.owned false = 0 ∧ coalesced.refs false = 1 ∧ coalesced.held = []
  := by
  refine ⟨TransitionSystem.reachable_last ⟨_, rfl⟩, ?_⟩
  decide

end NetdevTx
