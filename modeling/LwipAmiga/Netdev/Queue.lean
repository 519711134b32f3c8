import LwipAmiga.Netdev.Transmit

/-!
# The pending queue of a netdev interface

The frames answered `ERR_OK` are those the driver has accepted, followed by those on the queue.
-/

open Option List

namespace NetdevTx

variable {ι : Type} {m : RingMask} {s : NetdevTx ι}

structure QueueInv (m : RingMask) (s : NetdevTx ι) : Prop where
  mask : s.pend.m = m
  order : s.sent = s.accepted ++ s.pend.items
  free : s.nib.txFree + s.pend.count = m.size
  kick : s.kickPending = false → s.published = s.accepted.length
  rung : s.nest = 0 → s.kickPending = false

theorem QueueInv.setRefs
    (h : QueueInv m s) (refs : ι → ℕ) :
  QueueInv m { s with refs := refs }
  := ⟨h.mask, h.order, h.free, h.kick, h.rung⟩

/-! ### Draining the queue and ringing the doorbell -/

theorem QueueInv.drainOne
    (h : QueueInv m s) (hnest : 0 < s.nest) (hpend : s.pend.head ≠ s.pend.tail) :
  QueueInv m s.drainOne
  := by
  have hlock : s.nest ≠ 0 := by omega
  constructor
  · apply h.mask
  · change s.sent = s.accepted ++ [s.pend.front] ++ s.pend.pop.items
    rw [h.order, IndexRing.items_pop hpend, append_assoc, singleton_append]
  · change s.nib.txFree + 1 + s.pend.pop.count = m.size
    have hfree := h.free
    rw [IndexRing.count_pop hpend] at hfree
    omega
  · nofun
  · exact fun hz => absurd hz hlock

theorem QueueInv.ndifTxPendDrain
    (n : ℕ) (h : QueueInv m s) (hnest : 0 < s.nest) :
  QueueInv m (s.ndifTxPendDrain n)
  := by
  induction n generalizing s with
  | zero => apply h
  | succ n ih =>
    rw [NetdevTx.ndifTxPendDrain]
    split
    next => apply h
    next hpend => apply ih (h.drainOne hnest hpend) hnest

theorem QueueInv.netdevifTxKick
    (h : QueueInv m s) :
  QueueInv m s.netdevifTxKick ∧ s.netdevifTxKick.kickPending = false
  := by
  unfold NetdevTx.netdevifTxKick
  split
  next => exact ⟨⟨h.mask, h.order, h.free, fun _ => rfl, fun _ => rfl⟩, rfl⟩
  next hkick => exact ⟨h, Bool.eq_false_iff.mpr hkick⟩

theorem QueueInv.netstackUnlock
    (h : QueueInv m s) (hnest : 0 < s.nest) :
  QueueInv m s.netstackUnlock
  := by
  unfold NetdevTx.netstackUnlock
  split
  next =>
    obtain ⟨hinv, hkick⟩ := h.netdevifTxKick
    exact ⟨hinv.mask, hinv.order, hinv.free, hinv.kick, fun _ => hkick⟩
  next hne =>
    refine ⟨h.mask, h.order, h.free, h.kick, ?_⟩
    intro hz
    change s.nest - 1 = 0 at hz
    omega

variable [DecidableEq ι]

/-! ### Submitting -/

theorem QueueInv.handOver
    (h : QueueInv m s) (hnest : 0 < s.nest) (frame : TxChain ι) (accepts : Bool) :
  QueueInv m (s.handOver frame accepts).2
  := by
  have hlock : s.nest ≠ 0 := by omega
  unfold NetdevTx.handOver
  split
  next =>
    split
    next => apply h.setRefs
    next hfull =>
      have hroom : s.pend.count < s.pend.m.size := by
        rw [IndexRing.mask_lt_iff] at hfull
        omega
      constructor
      · apply h.mask
      · change s.sent ++ [frame] = s.accepted ++ (s.pend.push frame).items
        rw [IndexRing.items_push frame hroom, h.order, append_assoc]
      · change s.nib.txFree - 1 + (s.pend.push frame).count = m.size
        rw [IndexRing.count_push frame hroom]
        have hfree := h.free
        rw [h.mask] at hroom
        omega
      · apply h.kick
      · apply h.rung
  next hdirect =>
    push Not at hdirect
    have hempty : s.pend.items = [] := IndexRing.head_eq_tail_iff.mp hdirect.1
    constructor
    · apply h.mask
    · change s.sent ++ [frame] = s.accepted ++ [frame] ++ s.pend.items
      rw [h.order, hempty, append_nil, append_nil]
    · apply h.free
    · nofun
    · exact fun hz => absurd hz hlock

theorem QueueInv.sendFrame
    (h : QueueInv m s) (hnest : 0 < s.nest) (p : TxChain ι) (env : OutputEnv ι) :
  QueueInv m (s.sendFrame p env).2
  := by
  unfold NetdevTx.sendFrame
  split
  next => apply h
  next =>
    split
    next => apply h
    next frame refs _ => apply QueueInv.handOver (h.setRefs refs) hnest

theorem QueueInv.ndifLinkoutput
    (h : QueueInv m s) (hnest : 0 < s.nest) (p : TxChain ι) (env : OutputEnv ι) :
  QueueInv m (s.ndifLinkoutput p env).2
  := by
  unfold NetdevTx.ndifLinkoutput
  split
  next => apply QueueInv.sendFrame (h.setRefs (pbufCoalesce s.refs p env.coalesced).2) hnest
  next => apply h.sendFrame hnest

/-! ### Reclaiming and the core lock -/

theorem QueueInv.netdevifTxReclaim
    (h : QueueInv m s) (hnest : 0 < s.nest) (seen room : ℕ) :
  QueueInv m (s.netdevifTxReclaim seen room)
  := by
  have hfreed : QueueInv m (s.freeCompleted seen) := ⟨h.mask, h.order, h.free, h.kick, h.rung⟩
  apply hfreed.ndifTxPendDrain room hnest

theorem QueueInv.netstackLock
    (h : QueueInv m s) (seen room : ℕ) :
  QueueInv m (s.netstackLock seen room)
  := by
  unfold NetdevTx.netstackLock
  split
  next =>
    have hheld : QueueInv m { s with nest := 1 } := ⟨h.mask, h.order, h.free, h.kick, nofun⟩
    apply hheld.netdevifTxReclaim Nat.one_pos
  next => exact ⟨h.mask, h.order, h.free, h.kick, nofun⟩

/-! ### Runs -/

theorem QueueInv.step
    {s' : NetdevTx ι} {l : TxLabel ι} (h : QueueInv m s) (hstep : s.next l = some s') :
  QueueInv m s'
  := by
  cases l with
  | lock seen room =>
    cases hstep
    apply h.netstackLock
  | unlock =>
    obtain ⟨hnest, ⟨⟩⟩ := ite_none_right_eq_some.mp hstep
    apply h.netstackUnlock hnest
  | output p env =>
    obtain ⟨⟨hnest, -⟩, ⟨⟩⟩ := ite_none_right_eq_some.mp hstep
    apply h.ndifLinkoutput hnest
  | reclaim seen room =>
    obtain ⟨hnest, ⟨⟩⟩ := ite_none_right_eq_some.mp hstep
    apply h.netdevifTxReclaim hnest
  | done k =>
    simp only [next, map_eq_some_iff] at hstep
    obtain ⟨frame, -, rfl⟩ := hstep
    exact ⟨h.mask, h.order, h.free, h.kick, h.rung⟩
  | doneInline k =>
    simp only [next, ite_none_right_eq_some, map_eq_some_iff] at hstep
    obtain ⟨-, frame, -, rfl⟩ := hstep
    exact ⟨h.mask, h.order, h.free, h.kick, h.rung⟩
  | owner op =>
    obtain ⟨⟨refs, owned⟩, -, rfl⟩ := map_eq_some_iff.mp hstep
    exact ⟨h.mask, h.order, h.free, h.kick, h.rung⟩

theorem queueInv_of_reachable
    {caps : NetDevCaps} (r : (system caps).Reachable s) :
  QueueInv caps.pendMask s
  := by
  apply r.invariant
  · rintro s ⟨slots, rfl⟩
    constructor
    · rfl
    · change [] = [] ++ (IndexRing.empty caps.pendMask slots).items
      rw [IndexRing.items_empty]
      rfl
    · change caps.pendMask.size + (IndexRing.empty caps.pendMask slots).count = caps.pendMask.size
      rw [← IndexRing.length_items, IndexRing.items_empty]
      rfl
    · exact fun _ => rfl
    · exact fun _ => rfl
  · intro s l s' h _ hstep
    apply h.step hstep

theorem sent_handOver (s : NetdevTx ι) (frame : TxChain ι) (accepts : Bool) :
  (s.handOver frame accepts).1 = .ok ∧ (s.handOver frame accepts).2.sent = s.sent ++ [frame] ∨
    (s.handOver frame accepts).1 ≠ .ok ∧ (s.handOver frame accepts).2.sent = s.sent
  := by
  unfold handOver
  split
  next =>
    split
    next =>
      right
      exact ⟨nofun, rfl⟩
    next =>
      left
      exact ⟨rfl, rfl⟩
  next =>
    left
    exact ⟨rfl, rfl⟩

theorem sent_sendFrame (s : NetdevTx ι) (p : TxChain ι) (env : OutputEnv ι) :
  (s.sendFrame p env).1 = .ok ∧ (∃ frame, (s.sendFrame p env).2.sent = s.sent ++ [frame]) ∨
    (s.sendFrame p env).1 ≠ .ok ∧ (s.sendFrame p env).2.sent = s.sent
  := by
  unfold sendFrame
  split
  next =>
    right
    exact ⟨nofun, rfl⟩
  next =>
    split
    next =>
      right
      exact ⟨nofun, rfl⟩
    next frame refs _ =>
      apply (sent_handOver { s with refs := refs } frame env.accepts).imp_left
      exact fun h => ⟨h.1, frame, h.2⟩

theorem sent_ndifLinkoutput (s : NetdevTx ι) (p : TxChain ι) (env : OutputEnv ι) :
  (s.ndifLinkoutput p env).1 = .ok ∧ (∃ frame, (s.ndifLinkoutput p env).2.sent = s.sent ++ [frame]) ∨
    (s.ndifLinkoutput p env).1 ≠ .ok ∧ (s.ndifLinkoutput p env).2.sent = s.sent
  := by
  unfold ndifLinkoutput
  split
  next =>
    apply sent_sendFrame { s with refs := (pbufCoalesce s.refs p env.coalesced).2 }
  next => apply sent_sendFrame s

def refusedRun : List (TxLabel Unit) :=
  [.lock 0 0, .owner (.alloc ()), .output ⟨(), 0⟩ ⟨none, none, false⟩, .unlock, .lock 0 1, .unlock]

theorem refusedRun_enabled :
  ((system smallRing).exec (create smallRing fun _ => ⟨(), 0⟩) refusedRun).isSome = true
  := by
  decide

def refused : NetdevTx Unit :=
  (system smallRing).last (create smallRing fun _ => ⟨(), 0⟩) refusedRun refusedRun_enabled

end NetdevTx
