import LwipAmiga.Wake.Invariant

/-!
# Transmit room

`sb_tx_space_avail` wakes all sockets that are enrolled with `sb_tx_want_space`.
-/

open Option List

namespace WakeWorld

variable {β κ : Type}

/-! ### Enrolling -/

structure Enrols (w : WakeWorld β κ) (ks : List κ) (w' : WakeWorld β κ) : Prop where
  fds : w'.fds = w.fds
  act : w'.act = w.act
  sig : w'.sig = w.sig
  activeIf : w'.tx.activeIf = w.tx.activeIf
  waitState : ∀ k, (w'.socks k).waitState = (w.socks k).waitState
  acceptq : ∀ k, (w'.socks k).acceptq = (w.socks k).acceptq
  waiters : w.txWaiters ⊆ w'.txWaiters
  space : w.tx.txWantSpace = true → w'.tx.txWantSpace = true
  waiting : (∀ k, (w.socks k).txWaiting = true → k ∈ w.txWaiters) →
    ∀ k, (w'.socks k).txWaiting = true → k ∈ w'.txWaiters
  enrolled : (∀ k, (w.socks k).txWaiting = true → k ∈ w.txWaiters) → ∀ k ∈ ks, k ∈ w'.txWaiters
  wanted : ks ≠ [] → w.tx.activeIf.isSome = true → w'.tx.txWantSpace = true

variable {w w' : WakeWorld β κ}

theorem Enrols.trans
    {w₁ w₂ w₃ : WakeWorld β κ} {ks js : List κ} (h : Enrols w₁ ks w₂) (h' : Enrols w₂ js w₃) :
  Enrols w₁ (ks ++ js) w₃
  := by
  constructor
  · exact h'.fds.trans h.fds
  · exact h'.act.trans h.act
  · exact h'.sig.trans h.sig
  · exact h'.activeIf.trans h.activeIf
  · exact fun k => (h'.waitState k).trans (h.waitState k)
  · exact fun k => (h'.acceptq k).trans (h.acceptq k)
  · exact List.Subset.trans h.waiters h'.waiters
  · exact fun hs => h'.space (h.space hs)
  · exact fun hw => h'.waiting (h.waiting hw)
  · intro hw k hk
    obtain hk | hk := mem_append.mp hk
    · exact h'.waiters (h.enrolled hw k hk)
    · exact h'.enrolled (h.waiting hw) k hk
  · intro hne hif
    by_cases hks : ks = []
    · subst hks
      apply h'.wanted
      · exact hne
      · rwa [h.activeIf]
    · exact h'.space (h.wanted hks hif)

theorem Enrols.txWritable
    {ks : List κ} (h : Enrols w ks w') :
  w'.tx.txWritable = w.tx.txWritable
  := by
  rw [TxPath.txWritable, TxPath.txWritable, h.activeIf]

theorem Enrols.ready
    {ks : List κ} (h : Enrols w ks w') (k : κ) {x : Want} {room : Bool}
    (hready : (w'.socks k).ready room x = true) :
  (w.socks k).ready room x = true
  := (SbSocket.Calm.of_waitState (h.waitState k)).calmFor x room hready

theorem Enrols.type
    {ks : List κ} (h : Enrols w ks w') (k : κ) :
  (w'.socks k).type = (w.socks k).type
  := (SbSocket.Calm.of_waitState (h.waitState k)).type

theorem Enrols.naccept
    {ks : List κ} (h : Enrols w ks w') (k : κ) :
  (w'.socks k).naccept = (w.socks k).naccept
  := by
  have hstate := h.waitState k
  simp only [SbSocket.waitState, Prod.mk.injEq] at hstate
  exact hstate.2.2.2.2.2.2.2.2.2.2.1

theorem Inv.enrol
    (h : w.Inv) {ks : List κ} (he : Enrols w ks w') :
  w'.Inv
  := by
  apply h.change he.fds he.act
  · exact he.waiting h.waiting
  · intro k
    rw [he.naccept, he.acceptq]
    exact h.counted k
  · rw [he.sig]
    exact fun _ => id
  · intro b hb
    right
    refine hb.mono (wants_congr he.fds he.act b) ?_ he.type he.waiters he.space
    intro p _ hready
    rw [he.txWritable] at hready
    exact he.ready p.1 hready

section

variable [DecidableEq κ]

theorem enrols_one (w : WakeWorld β κ) (k : κ) :
  Enrols w [k] (w.sbTxWantSpace k)
  := by
  have hmem : (∀ j, (w.socks j).txWaiting = true → j ∈ w.txWaiters) →
      k ∈ (w.sbTxWantSpace k).txWaiters := by
    intro hw
    simp only [sbTxWantSpace]
    split
    next hk => exact hw k hk
    next => simp
  have hsub : w.txWaiters ⊆ (w.sbTxWantSpace k).txWaiters := by
    simp only [sbTxWantSpace]
    split
    · exact List.Subset.refl _
    · exact subset_append_left _ _
  refine ⟨rfl, rfl, rfl, rfl, ?_, ?_, hsub, ?_, ?_, ?_, ?_⟩
  · intro j
    by_cases hj : j = k
    · subst hj
      simp [sbTxWantSpace, SbSocket.waitState, SbSocket.txEnrol]
    · simp [sbTxWantSpace, hj]
  · intro j
    by_cases hj : j = k
    · subst hj
      simp [sbTxWantSpace, SbSocket.txEnrol]
    · simp [sbTxWantSpace, hj]
  · intro h
    simp [sbTxWantSpace, h]
  · intro hw j hjw
    by_cases hj : j = k
    · subst hj
      exact hmem hw
    · apply hsub
      apply hw j
      simpa [sbTxWantSpace, hj] using hjw
  · intro hw j hj
    obtain rfl := mem_singleton.mp hj
    exact hmem hw
  · intro _ hif
    simp [sbTxWantSpace, hif]

theorem enrols_foldl (ks : List κ) (w : WakeWorld β κ) :
  Enrols w ks (ks.foldl sbTxWantSpace w)
  := by
  induction ks generalizing w with
  | nil =>
    exact ⟨rfl, rfl, rfl, rfl, fun _ => rfl, fun _ => rfl, List.Subset.refl _, id, id, nofun,
      fun h => absurd rfl h⟩
  | cons k ks ih => exact (enrols_one w k).trans (ih _)

end

/-! ### Waking -/

structure Woken (w : WakeWorld β κ) (ks : List κ) (w' : WakeWorld β κ) : Prop where
  fds : w'.fds = w.fds
  act : w'.act = w.act
  tx : w'.tx = w.tx
  txWaiters : w'.txWaiters = w.txWaiters
  sock : ∀ k, SbSocket.SameKind (w.socks k) (w'.socks k) ∧
    SbSocket.Calm (w.socks k) (w'.socks k) ∧ (w'.socks k).sbWake = (w.socks k).sbWake
  off : ∀ k, (w'.socks k).txWaiting = true → (w.socks k).txWaiting = true ∧ k ∉ ks
  pending : ∀ b, w.sig b = true → w'.sig b = true
  woken : ∀ b, ∀ k ∈ ks, b ∈ (w.socks k).sbWake → w'.sig b = true

theorem Woken.trans
    {w₁ w₂ w₃ : WakeWorld β κ} {ks js : List κ} (h : Woken w₁ ks w₂) (h' : Woken w₂ js w₃) :
  Woken w₁ (ks ++ js) w₃
  := by
  constructor
  · exact h'.fds.trans h.fds
  · exact h'.act.trans h.act
  · exact h'.tx.trans h.tx
  · exact h'.txWaiters.trans h.txWaiters
  · intro k
    obtain ⟨hkind, hcalm, hwake⟩ := h.sock k
    obtain ⟨hkind', hcalm', hwake'⟩ := h'.sock k
    exact ⟨hkind.trans hkind', hcalm.trans hcalm', hwake'.trans hwake⟩
  · intro k hk
    obtain ⟨hk, hjs⟩ := h'.off k hk
    obtain ⟨hk, hks⟩ := h.off k hk
    refine ⟨hk, ?_⟩
    simp [hks, hjs]
  · exact fun b hb => h'.pending b (h.pending b hb)
  · intro b k hk hb
    obtain hk | hk := mem_append.mp hk
    · exact h'.pending b (h.woken b k hk hb)
    · apply h'.woken b k hk
      rwa [(h.sock k).2.2]

theorem Waits.of_calm
    {b : β} (h : w.Waits b) (hwants : w'.wants b = w.wants b)
    (hroom : ∀ p ∈ w.wants b, p.2 = .write → (w.socks p.1).type = .tcp)
    (hcalm : ∀ k, SbSocket.Calm (w.socks k) (w'.socks k)) :
  w'.Waits b
  := by
  intro p hp
  rw [hwants] at hp
  constructor
  · have hnot := (h p hp).1
    rw [Bool.eq_false_iff] at hnot ⊢
    intro hready
    apply hnot
    apply ready_of_room ((hcalm p.1).calmFor p.2 _ hready)
    intro _
    by_cases hx : p.2 = .write
    · exact Or.inr (Or.inr (hroom p hp hx))
    · exact Or.inr (Or.inl hx)
  · intro hx htype
    rw [(hcalm p.1).type] at htype
    exact absurd (hroom p hp hx) htype

theorem Inv.setIf
    (h : w.Inv) {i : Option NetIfBase}
    (hroom : (w.setIf i).tx.txWritable = true → w.tx.txWritable = true) :
  (w.setIf i).Inv
  := by
  apply h.change (rfl : (w.setIf i).fds = w.fds) rfl h.waiting h.counted fun _ => id
  intro b hb
  right
  refine hb.mono rfl ?_ (fun _ => rfl) (fun _ => id) id
  intro p _ hready
  exact ready_of_room hready fun hr => Or.inl (hroom hr)

section

variable [DecidableEq β] [DecidableEq κ]

theorem woken_one (w : WakeWorld β κ) (k : κ) :
  Woken w [k] (w.wakeWaiter k)
  := by
  refine ⟨rfl, rfl, rfl, rfl, ?_, ?_, ?_, ?_⟩
  · intro j
    by_cases hj : j = k
    · subst hj
      simp only [wakeWaiter, WakeWorld.setSock, Function.update_self]
      exact ⟨⟨rfl, (by intros; contradiction), id⟩, .of_waitState rfl, rfl⟩
    · simp only [wakeWaiter, WakeWorld.setSock, Function.update_of_ne hj]
      exact ⟨.refl _, .refl _, trivial⟩
  · intro j hjw
    by_cases hj : j = k
    · subst hj
      simp [wakeWaiter, WakeWorld.setSock, SbSocket.txSpaceAvail, SbSocket.sbEvent] at hjw
    · refine ⟨?_, by simpa using hj⟩
      simpa [wakeWaiter, WakeWorld.setSock, hj] using hjw
  · intro b hb
    exact Wakeup.signal_of_pending hb
  · intro b j hj hb
    obtain rfl := mem_singleton.mp hj
    exact Wakeup.signal_of_mem hb

theorem woken_foldl (ks : List κ) (w : WakeWorld β κ) :
  Woken w ks (ks.foldl wakeWaiter w)
  := by
  induction ks generalizing w with
  | nil =>
    exact ⟨rfl, rfl, rfl, rfl, fun _ => ⟨.refl _, .refl _, rfl⟩,
      fun _ hk => ⟨hk, not_mem_nil⟩, fun _ => id, nofun⟩
  | cons k ks ih => exact (woken_one w k).trans (ih _)

theorem Inv.txWake
    (h : w.Inv) (hcover : w.ownersCover) (i : Option NetIfBase) :
  (w.setIf i).txWake.Inv
  := by
  have hsplit : ∀ b, w.Waits b →
      (w.tx.txWantSpace = true ∧ ∃ k ∈ w.txWaiters, some k ∈ w.fds b) ∨
      ∀ p ∈ w.wants b, p.2 = .write → (w.socks p.1).type = .tcp := by
    intro b hb
    by_cases hno : ∀ p ∈ w.wants b, p.2 = .write → (w.socks p.1).type = .tcp
    · exact Or.inr hno
    · push Not at hno
      obtain ⟨p, hp, hx, htype⟩ := hno
      obtain ⟨hmem, hspace⟩ := (hb p hp).2 hx htype
      exact Or.inl ⟨hspace, p.1, hmem, h.held_of_wants hp⟩
  unfold WakeWorld.txWake
  split
  next hspace =>
    have hw := woken_foldl w.txWaiters
      { w with tx := { activeIf := i, txWantSpace := false }, txWaiters := [] }
    apply h.change hw.fds hw.act
    · intro k hk
      obtain ⟨hk, hnot⟩ := hw.off k hk
      exact absurd (h.waiting k hk) hnot
    · exact fun k => (hw.sock k).1.naccept (h.counted k)
    · exact hw.pending
    · intro b hb
      obtain ⟨-, k, hmem, hk⟩ | hroom := hsplit b hb
      · exact Or.inl (hw.woken b k hmem (hcover b k hk))
      · exact Or.inr (hb.of_calm (wants_congr hw.fds hw.act b) hroom fun k => (hw.sock k).2.1)
  next hspace =>
    apply h.change (rfl : (w.setIf i).fds = w.fds) rfl h.waiting h.counted fun _ => id
    intro b hb
    obtain ⟨hwanted, -⟩ | hroom := hsplit b hb
    · exact absurd hwanted hspace
    · exact Or.inr (hb.of_calm rfl hroom fun k => .refl _)

theorem Inv.afterNet
    (h : w.Inv) (hcover : w.ownersCover) {e : NetEvent} (he : w.afterNet e = some w') :
  w'.Inv
  := by
  cases e with
  | attach i =>
    simp only [WakeWorld.afterNet, ite_none_right_eq_some, some.injEq,
      isNone_iff_eq_none] at he
    obtain ⟨hnone, rfl⟩ := he
    apply h.setIf
    intro _
    simp [TxPath.txWritable, hnone]
  | taken n =>
    simp only [WakeWorld.afterNet, bind_eq_some_iff, ite_none_right_eq_some,
      some.injEq] at he
    obtain ⟨i, hi, -, rfl⟩ := he
    apply h.setIf
    simp only [WakeWorld.setIf, TxPath.txWritable, hi, decide_eq_true_eq]
    omega
  | freed n =>
    simp only [WakeWorld.afterNet, map_eq_some_iff] at he
    obtain ⟨i, hi, rfl⟩ := he
    split
    next => exact h.txWake hcover _
    next hcross =>
      apply h.setIf
      simp only [WakeWorld.setIf, TxPath.txWritable, hi, decide_eq_true_eq]
      omega
  | detach =>
    cases he
    exact h.txWake hcover none

end

end WakeWorld
