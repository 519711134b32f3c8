import LwipAmiga.Sana2.Conserve
import LwipAmiga.Sana2.Pump

/-!
# The pump keeps its requests

Each read is in one place and has a buffer, and the frames go to lwIP in the order of the replies.
-/

open Option List

/-! ### The event request -/

def EvPlace.isTaken : EvPlace → Bool
  | .taken _ => true
  | _ => false

namespace Sana2Link

structure Inv (L : Sana2Link) : Prop where
  home : L.evHome = true ↔ L.ev = .home
  dead : L.evDead = true → L.evHome = true
  rearm : L.rearm.isSome = true → L.evHome = true ∧ L.evDead = false

variable {L : Sana2Link}

theorem Inv.move
    (h : L.Inv) (ev : EvPlace) (hne : L.ev ≠ .home) (hne' : ev ≠ .home) :
  Inv { L with ev := ev }
  := by
  refine ⟨?_, h.dead, h.rearm⟩
  apply iff_of_false _ hne'
  exact fun heq => hne (h.home.mp heq)

theorem Inv.device
    (h : L.Inv) (online : Bool) :
  (L.device online).Inv
  := by
  refine ⟨h.home.trans ?_, h.dead, h.rearm⟩
  cases online with
  | true => rfl
  | false =>
    change L.ev = .home ↔ L.ev.goOffline = .home
    cases L.ev <;> simp only [EvPlace.goOffline, reduceCtorEq]

theorem Inv.event
    (h : L.Inv) (draining : Bool) :
  (L.event draining).1.Inv
  := by
  rw [Sana2Link.event]
  split
  next reply hev =>
    have haway : L.evHome = false := by
      rw [← Bool.not_eq_true, h.home, hev]
      nofun
    have halive : L.evDead = false := by
      rw [← Bool.not_eq_true]
      intro hdead
      rw [h.dead hdead] at haway
      contradiction
    split
    · exact ⟨iff_of_true rfl rfl, fun _ => rfl, fun hsome => ⟨rfl, (h.rearm hsome).2⟩⟩
    · split
      · refine ⟨iff_of_true rfl rfl, fun _ => rfl, fun hsome => ?_⟩
        have hhome := (h.rearm hsome).1
        rw [haway] at hhome
        contradiction
      · exact ⟨iff_of_true rfl rfl, fun _ => rfl, fun _ => ⟨rfl, halive⟩⟩
  next => apply h

theorem isTaken_event (L : Sana2Link) (draining : Bool) :
  (L.event draining).1.ev.isTaken = false
  := by
  rw [Sana2Link.event]
  split
  next =>
    split
    · rfl
    · split <;> rfl
  next hne =>
    cases hev : L.ev with
    | taken reply => exact absurd hev (hne reply)
    | _ => rfl

theorem Inv.rearmEvent
    (h : L.Inv) (draining : Bool) :
  (L.rearmEvent draining).Inv
  := by
  rw [Sana2Link.rearmEvent]
  split
  next mask hrearm =>
    split
    · exact ⟨h.home, h.dead, nofun⟩
    · refine ⟨iff_of_false nofun nofun, ?_, nofun⟩
      intro hdead
      have hsome : L.rearm.isSome = true := by
        rw [hrearm]
        rfl
      rw [(h.rearm hsome).2] at hdead
      contradiction
  next => apply h

theorem rearm_rearmEvent (L : Sana2Link) (draining : Bool) :
  (L.rearmEvent draining).rearm = none
  := by
  rw [Sana2Link.rearmEvent]
  split
  next => split <;> rfl
  next hnone => exact hnone

theorem isTaken_rearmEvent
    (h : L.ev.isTaken = false) (draining : Bool) :
  (L.rearmEvent draining).ev.isTaken = false
  := by
  rw [Sana2Link.rearmEvent]
  split
  next =>
    split
    · apply h
    · rfl
  next => apply h

theorem isTaken_device
    (h : L.ev.isTaken = false) (online : Bool) :
  (L.device online).ev.isTaken = false
  := by
  cases online with
  | true => exact h
  | false =>
    change L.ev.goOffline.isTaken = false
    revert h
    cases L.ev <;> exact id

end Sana2Link

/-! ### The phases -/

namespace PumpPhase

def retires : PumpPhase → Bool
  | .harvest | .retire => true
  | _ => false

def rearms : PumpPhase → Bool
  | .link | .rearm => true
  | _ => false

def unparks : PumpPhase → Bool
  | .link | .rearm | .unpark => true
  | _ => false

def receives : PumpPhase → Bool
  | .waiting | .check | .exited => false
  | _ => true

def reposts : PumpPhase → Bool
  | .requeue | .repost => true
  | _ => false

end PumpPhase

namespace Sana2Pump

variable {ι β : Type}

structure Hands (phase : PumpPhase) (txDone : List ℕ) (L : Sana2Link) (R : Sana2Reads β) : Prop where
  txDone : phase.retires = false → txDone = []
  taken : phase.retires = false → L.ev.isTaken = false
  rearm : phase.rearms = false → L.rearm = none
  unparked : phase.unparks = false → R.unparked = []
  rxDone : phase.receives = false → R.rxDone = []
  repost : phase.reposts = false → R.repost = []

theorem fresh_of_inUse
    [DecidableEq β] {s : Sana2Pump ι β} {b : β} (h : s.inUse b = false) :
  (∀ r < s.reads.num, s.reads.buf r ≠ some b) ∧ b ∉ s.reads.out
  := by
  simp only [inUse, Bool.or_eq_false_iff, decide_eq_false_iff_not, not_exists, not_and] at h
  exact h

variable [DecidableEq ι]

structure Inv (n : ℕ) (s : Sana2Pump ι β) : Prop where
  tx : s.tx.Inv n
  reads : s.reads.Inv
  link : s.link.Inv
  hands : Hands s.phase s.tx.txDone s.link s.reads
  stopped : s.stopSig = true ∨ s.draining = true → s.tx.Stopped
  exited : s.phase = .exited →
    s.draining = true ∧ s.reads.flight = 0 ∧ s.link.ev = .home ∧ s.tx.txInFlight = 0

variable {n : ℕ} {s s' : Sana2Pump ι β}

/-! ### What others do -/

theorem Inv.txStep
    {l : Sana2Tx.TxLabel ι} {phase : PumpPhase} (h : s.Inv n) (hstep : s.txStep l phase = some s')
    (hhands : ∀ tx, s.tx.next l = some tx → Hands phase tx.txDone s.link s.reads)
    (hexited : phase = .exited → s.phase = .exited) :
  s'.Inv n
  := by
  obtain ⟨tx, htx, rfl⟩ := map_eq_some_iff.mp hstep
  refine ⟨h.tx.step htx, h.reads, h.link, hhands tx htx, ?_, ?_⟩
  · intro hstop
    apply ((h.stopped hstop).step htx).1
  · intro heq
    obtain ⟨hdraining, hflight, hev, hwrites⟩ := h.exited (hexited heq)
    refine ⟨hdraining, hflight, hev, ?_⟩
    have hle := ((h.stopped (.inr hdraining)).step htx).2
    rw [hwrites] at hle
    apply Nat.le_zero.mp hle

theorem Inv.txStep_kept
    {l : Sana2Tx.TxLabel ι} {phase : PumpPhase} (h : s.Inv n) (hstep : s.txStep l phase = some s')
    (hharvest : ∀ r, l ≠ .harvest r) (hcomplete : l ≠ .complete)
    (hhands : Hands phase s.tx.txDone s.link s.reads)
    (hexited : phase = .exited → s.phase = .exited) :
  s'.Inv n
  := by
  apply h.txStep hstep _ hexited
  intro tx htx
  rw [(h.tx.kept_next htx).2 hharvest hcomplete]
  apply hhands

theorem Inv.lock
    {phase : PumpPhase} (h : s.Inv n) (hstep : s.lock phase = some s')
    (hhands : Hands phase s.tx.txDone s.link s.reads) (hexited : phase ≠ .exited) :
  s'.Inv n
  := by
  rw [Sana2Pump.lock, ite_none_right_eq_some] at hstep
  apply h.txStep_kept hstep.2 nofun nofun hhands
  exact fun heq => absurd heq hexited

theorem Inv.unlock
    {quick : ℕ → Bool} {phase : PumpPhase} (h : s.Inv n) (hstep : s.unlock quick phase = some s')
    (hhands : Hands phase s.tx.txDone s.link s.reads) (hexited : phase ≠ .exited) :
  s'.Inv n
  := by
  rw [Sana2Pump.unlock, ite_none_right_eq_some] at hstep
  apply h.txStep_kept hstep.2 nofun nofun hhands
  exact fun heq => absurd heq hexited

theorem Inv.others
    {l : Sana2Tx.TxLabel ι} (h : s.Inv n) (hl : s.others l = true)
    (hstep : s.txStep l s.phase = some s') :
  s'.Inv n
  := by
  apply h.txStep_kept hstep _ _ h.hands id
  · rintro r rfl
    contradiction
  · rintro rfl
    contradiction

theorem Inv.setReads
    {R : Sana2Reads β} (h : s.Inv n) (hR : R.Inv) (hhands : Hands s.phase s.tx.txDone s.link R)
    (hexited : s.phase = .exited → R.flight = s.reads.flight) :
  Inv n { s with reads := R }
  := by
  refine ⟨h.tx, hR, h.link, hhands, h.stopped, ?_⟩
  intro heq
  obtain ⟨hdraining, hflight, hev, hwrites⟩ := h.exited heq
  exact ⟨hdraining, (hexited heq).trans hflight, hev, hwrites⟩

theorem Inv.setLink
    {L : Sana2Link} (h : s.Inv n) (hL : L.Inv) (hrearm : L.rearm = s.link.rearm)
    (htaken : s.phase.retires = false → L.ev.isTaken = false)
    (hexited : s.phase = .exited → L.ev = .home) :
  Inv n { s with link := L }
  := by
  refine ⟨h.tx, h.reads, hL, ⟨h.hands.txDone, htaken, ?_, h.hands.unparked, h.hands.rxDone,
    h.hands.repost⟩, h.stopped, ?_⟩
  · change s.phase.rearms = false → L.rearm = none
    rw [hrearm]
    apply h.hands.rearm
  · intro heq
    obtain ⟨hdraining, hflight, -, hwrites⟩ := h.exited heq
    exact ⟨hdraining, hflight, hexited heq, hwrites⟩

theorem Inv.evReply
    {mask : LinkEvents} {owed : Bool} {reply : EvReply} (h : s.Inv n)
    (hev : s.link.ev = .driver mask owed) :
  Inv n { s with link := { s.link with ev := .port reply } }
  := by
  have hne : s.link.ev ≠ .home := by
    rw [hev]
    nofun
  have hlink := h.link.move (.port reply) hne nofun
  apply h.setLink hlink rfl
  · intro _
    rfl
  · intro heq
    exact absurd (h.exited heq).2.2.1 hne

theorem Inv.device
    (h : s.Inv n) (online : Bool) :
  Inv n { s with link := s.link.device online }
  := by
  apply h.setLink (h.link.device online) rfl
  · intro heq
    apply Sana2Link.isTaken_device (h.hands.taken heq)
  · intro heq
    cases online with
    | true => exact (h.exited heq).2.2.1
    | false =>
      change s.link.ev.goOffline = .home
      rw [(h.exited heq).2.2.1]
      rfl

/-! ### What the pump does -/

theorem Inv.wake
    (h : s.Inv n) (hphase : s.phase = .waiting) (hstep : s.wake = some s') :
  s'.Inv n
  := by
  have hhands := h.hands
  rw [hphase] at hhands
  have hnew : Hands .harvest s.tx.txDone s.link s.reads :=
    ⟨nofun, nofun, fun _ => hhands.rearm rfl, fun _ => hhands.unparked rfl, nofun,
      fun _ => hhands.repost rfl⟩
  rw [Sana2Pump.wake] at hstep
  split at hstep
  next hstop =>
    obtain ⟨-, ⟨⟩⟩ := ite_none_right_eq_some.mp hstep
    exact ⟨h.tx, h.reads, h.link, hnew, fun _ => h.stopped (.inl hstop.1), nofun⟩
  next =>
    cases hstep
    refine ⟨h.tx, h.reads, h.link, hnew, ?_, nofun⟩
    intro hstop
    apply h.stopped (hstop.imp nofun id)

theorem Inv.s2ifPumpHarvest
    {get : PumpGet} (h : s.Inv n) (hphase : s.phase = .harvest)
    (hstep : s.s2ifPumpHarvest get = some s') :
  s'.Inv n
  := by
  have hhands := h.hands
  rw [hphase] at hhands
  cases get with
  | read =>
    obtain ⟨R, hR, rfl⟩ := map_eq_some_iff.mp hstep
    apply h.setReads (h.reads.harvest hR)
    · rw [Sana2Reads.harvest] at hR
      split at hR
      · contradiction
      · cases hR
        rw [hphase]
        exact ⟨nofun, nofun, hhands.rearm, hhands.unparked, nofun, hhands.repost⟩
    · rw [hphase]
      nofun
  | event =>
    simp only [Sana2Pump.s2ifPumpHarvest] at hstep
    split at hstep
    next reply hev =>
      cases hstep
      have hne : s.link.ev ≠ .home := by
        rw [hev]
        nofun
      have hlink := h.link.move (.taken reply) hne nofun
      apply h.setLink hlink rfl
      · rw [hphase]
        nofun
      · rw [hphase]
        nofun
    next => contradiction
  | write r =>
    apply h.txStep hstep
    · intro tx _
      exact ⟨nofun, nofun, hhands.rearm, hhands.unparked, nofun, hhands.repost⟩
    · nofun
  | empty =>
    simp only [Sana2Pump.s2ifPumpHarvest, ite_none_right_eq_some] at hstep
    apply h.lock hstep.2 _ nofun
    exact ⟨nofun, nofun, hhands.rearm, hhands.unparked, nofun, hhands.repost⟩

theorem Inv.s2ifPumpTxev
    (h : s.Inv n) (hphase : s.phase = .retire) (hstep : s.s2ifPumpTxev = some s') :
  s'.Inv n
  := by
  have hhands := h.hands
  rw [hphase] at hhands
  rw [Sana2Pump.s2ifPumpTxev] at hstep
  split at hstep
  next =>
    apply h.txStep hstep
    · intro tx _
      exact ⟨nofun, nofun, hhands.rearm, hhands.unparked, nofun, hhands.repost⟩
    · nofun
  next hdone =>
    cases hstep
    refine ⟨h.tx, ?_, h.link.event s.draining, ⟨fun _ => hdone, fun _ => s.link.isTaken_event _, nofun,
      nofun, nofun, fun _ => ?_⟩, h.stopped, nofun⟩
    · rw [linkEvent]
      dsimp only
      split
      · apply h.reads.unparkAll (hhands.unparked rfl)
      · apply h.reads
    · rw [linkEvent]
      dsimp only
      split <;> exact hhands.repost rfl

theorem Inv.unparkOne
    (h : s.Inv n) (hphase : s.phase = .unpark) :
  s.unparkOne.Inv n
  := by
  have hhands := h.hands
  rw [hphase] at hhands
  rw [Sana2Pump.unparkOne]
  split
  next hnil =>
    exact ⟨h.tx, h.reads, h.link, ⟨hhands.txDone, hhands.taken, hhands.rearm, fun _ => hnil, nofun,
      hhands.repost⟩, h.stopped, nofun⟩
  next r rest hcons =>
    apply h.setReads (h.reads.unparkOne hcons)
    · rw [hphase]
      exact ⟨hhands.txDone, hhands.taken, hhands.rearm, nofun, nofun, hhands.repost⟩
    · rw [hphase]
      nofun

theorem Inv.repostOne
    (h : s.Inv n) (hphase : s.phase = .repost) :
  s.repostOne.Inv n
  := by
  have hhands := h.hands
  rw [hphase] at hhands
  rw [Sana2Pump.repostOne]
  split
  next hnil =>
    exact ⟨h.tx, h.reads, h.link, ⟨hhands.txDone, hhands.taken, hhands.rearm, hhands.unparked, nofun,
      fun _ => hnil⟩, h.stopped, nofun⟩
  next r rest hcons =>
    apply h.setReads (h.reads.repostOne hcons)
    · rw [hphase]
      exact ⟨hhands.txDone, hhands.taken, hhands.rearm, hhands.unparked, nofun, nofun⟩
    · rw [hphase]
      nofun

theorem Inv.deliverOne
    {env : PumpEnv β} (h : s.Inv n) (hphase : s.phase = .input)
    (hstep : s.deliverOne env = some s') :
  s'.Inv n
  := by
  have hhands := h.hands
  rw [hphase] at hhands
  rw [Sana2Pump.deliverOne] at hstep
  split at hstep
  next =>
    apply h.unlock hstep _ nofun
    exact ⟨hhands.txDone, hhands.taken, hhands.rearm, hhands.unparked, nofun, hhands.repost⟩
  next serial b rest hcons =>
    split_ifs at hstep
    · apply h.unlock hstep _ nofun
      exact ⟨hhands.txDone, hhands.taken, hhands.rearm, hhands.unparked, nofun, hhands.repost⟩
    · cases hstep
      apply h.setReads (h.reads.drop hcons) _ fun _ => rfl
      exact ⟨h.hands.txDone, h.hands.taken, h.hands.rearm, h.hands.unparked, h.hands.rxDone,
        h.hands.repost⟩
    · cases hstep
      apply h.setReads (h.reads.pass hcons) _ fun _ => rfl
      exact ⟨h.hands.txDone, h.hands.taken, h.hands.rearm, h.hands.unparked, h.hands.rxDone,
        h.hands.repost⟩

theorem Inv.roundEnd
    (h : s.Inv n) (hphase : s.phase = .check) (hstep : s.roundEnd = some s') :
  s'.Inv n
  := by
  have hhands := h.hands
  rw [hphase] at hhands
  have hwaiting : Hands .waiting s.tx.txDone s.link s.reads :=
    ⟨hhands.txDone, hhands.taken, hhands.rearm, hhands.unparked, hhands.rxDone, hhands.repost⟩
  rw [Sana2Pump.roundEnd] at hstep
  split at hstep
  next hdraining =>
    obtain ⟨-, ⟨⟩⟩ := ite_none_right_eq_some.mp hstep
    split
    next hdrained =>
      simp only [s2ifPumpDrained, Bool.and_eq_true, Bool.or_eq_true, beq_iff_eq] at hdrained
      obtain ⟨⟨hflight, hhome⟩, hwrites⟩ := hdrained
      refine ⟨h.tx, h.reads, h.link, ⟨hhands.txDone, hhands.taken, hhands.rearm, hhands.unparked,
        hhands.rxDone, hhands.repost⟩, h.stopped, fun _ => ⟨hdraining, hflight, ?_, hwrites⟩⟩
      apply h.link.home.mp (hhome.elim id h.link.dead)
    next => exact ⟨h.tx, h.reads, h.link, hwaiting, h.stopped, nofun⟩
  next =>
    cases hstep
    exact ⟨h.tx, h.reads, h.link, hwaiting, h.stopped, nofun⟩

theorem inv_create
    {mtu : UInt32} {numReads cap : ℕ} {buf : ℕ → Option β} (h : Armed numReads buf) :
  (create mtu numReads cap buf : Sana2Pump ι β).Inv (Sana2Tx.txReqs mtu)
  := by
  refine ⟨Sana2Tx.inv_create mtu, ⟨⟨?_, ?_, fun _ _ => rfl, nofun, nofun⟩,
    ⟨h.1, h.2, nofun, nodup_nil⟩, List.Pairwise.nil, nofun⟩,
    ⟨iff_of_false nofun nofun, nofun, nofun⟩,
    ⟨fun _ => rfl, fun _ => rfl, fun _ => rfl, fun _ => rfl, fun _ => rfl, fun _ => rfl⟩, nofun, nofun⟩
  · change (range numReads ++ [] ++ [] ++ [] ++ []).Perm (range numReads)
    simp only [append_nil, List.Perm.refl]
  · change numReads = (range numReads ++ [] ++ [] ++ []).length
    simp only [append_nil, length_range]

variable [DecidableEq β]

theorem Inv.s2ifPumpRxRequeue
    {env : PumpEnv β} (h : s.Inv n) (hphase : s.phase = .requeue)
    (hstep : s.s2ifPumpRxRequeue env = some s') :
  s'.Inv n
  := by
  have hhands := h.hands
  rw [hphase] at hhands
  have hnew : Hands .repost s.tx.txDone s.link s.reads :=
    ⟨hhands.txDone, hhands.taken, hhands.rearm, hhands.unparked, nofun, nofun⟩
  rw [Sana2Pump.s2ifPumpRxRequeue] at hstep
  split at hstep
  next r reply rest hcons =>
    split at hstep
    next =>
      obtain ⟨hfresh, ⟨⟩⟩ := ite_none_right_eq_some.mp hstep
      have hprocess := h.reads.process hcons s.draining fun b hb => fresh_of_inUse (hfresh b hb)
      refine ⟨h.tx, hprocess, h.link, ?_, h.stopped, ?_⟩
      · dsimp only
        rw [hphase]
        refine ⟨hhands.txDone, hhands.taken, hhands.rearm, fun _ => ?_, nofun, nofun⟩
        rw [Sana2Reads.unparked_process]
        apply hhands.unparked rfl
      · intro heq
        rw [hphase] at heq
        contradiction
    next => apply h.unlock hstep hnew nofun
  next => apply h.unlock hstep hnew nofun

theorem Inv.pumpNext
    {env : PumpEnv β} (h : s.Inv n) (hstep : s.pumpNext env = some s') :
  s'.Inv n
  := by
  have hhands := h.hands
  rw [Sana2Pump.pumpNext] at hstep
  split at hstep
  next hphase => apply h.wake hphase hstep
  next hphase => apply h.s2ifPumpHarvest hphase hstep
  next hphase => apply h.s2ifPumpTxev hphase hstep
  next hphase =>
    rw [hphase] at hhands
    apply h.unlock hstep _ nofun
    exact ⟨hhands.txDone, hhands.taken, nofun, nofun, nofun, hhands.repost⟩
  next hphase =>
    rw [hphase] at hhands
    cases hstep
    exact ⟨h.tx, h.reads, h.link.rearmEvent s.draining, ⟨hhands.txDone,
      fun _ => Sana2Link.isTaken_rearmEvent (hhands.taken rfl) _, fun _ => s.link.rearm_rearmEvent _,
      nofun, nofun, hhands.repost⟩, h.stopped, nofun⟩
  next hphase =>
    cases hstep
    apply h.unparkOne hphase
  next hphase =>
    rw [hphase] at hhands
    split at hstep
    next hnil =>
      cases hstep
      exact ⟨h.tx, h.reads, h.link, ⟨hhands.txDone, hhands.taken, hhands.rearm, hhands.unparked,
        fun _ => hnil, hhands.repost⟩, h.stopped, nofun⟩
    next =>
      have hbatch : Inv n { s with batch := 0 } :=
        ⟨h.tx, h.reads, h.link, h.hands, h.stopped, h.exited⟩
      apply hbatch.lock hstep _ nofun
      exact ⟨hhands.txDone, hhands.taken, hhands.rearm, hhands.unparked, nofun, nofun⟩
  next hphase => apply h.s2ifPumpRxRequeue hphase hstep
  next hphase =>
    cases hstep
    apply h.repostOne hphase
  next hphase =>
    rw [hphase] at hhands
    split at hstep
    next =>
      cases hstep
      exact ⟨h.tx, h.reads, h.link, ⟨hhands.txDone, hhands.taken, hhands.rearm, hhands.unparked, nofun,
        hhands.repost⟩, h.stopped, nofun⟩
    next =>
      apply h.lock hstep _ nofun
      exact ⟨hhands.txDone, hhands.taken, hhands.rearm, hhands.unparked, nofun, hhands.repost⟩
  next hphase => apply h.deliverOne hphase hstep
  next hphase => apply h.roundEnd hphase hstep
  next => contradiction

/-! ### Runs -/

theorem Inv.step
    {l : Label ι β} (h : s.Inv n) (hstep : s.next l = some s') :
  s'.Inv n
  := by
  cases l with
  | tx l =>
    simp only [next, ite_none_right_eq_some] at hstep
    apply h.others hstep.1 hstep.2
  | readReply r error dataLength =>
    obtain ⟨hr, ⟨⟩⟩ := ite_none_right_eq_some.mp hstep
    apply h.setReads (h.reads.reply hr error dataLength) _ fun _ => rfl
    exact ⟨h.hands.txDone, h.hands.taken, h.hands.rearm, h.hands.unparked, h.hands.rxDone,
      h.hands.repost⟩
  | evReply reply =>
    simp only [next] at hstep
    split at hstep
    next mask owed hev =>
      cases hstep
      apply h.evReply hev
    next => contradiction
  | device online =>
    cases hstep
    apply h.device
  | seedLink =>
    obtain ⟨-, ⟨⟩⟩ := ite_none_right_eq_some.mp hstep
    have hlink : Sana2Link.Inv { s.link with up := true } :=
      ⟨h.link.home, h.link.dead, h.link.rearm⟩
    apply h.setLink hlink rfl h.hands.taken
    exact fun heq => (h.exited heq).2.2.1
  | stop =>
    obtain ⟨⟨hdown, hstaged⟩, ⟨⟩⟩ := ite_none_right_eq_some.mp hstep
    exact ⟨h.tx, h.reads, h.link, h.hands, fun _ => ⟨hdown, hstaged⟩, h.exited⟩
  | freeRx b =>
    obtain ⟨-, ⟨⟩⟩ := ite_none_right_eq_some.mp hstep
    apply h.setReads (h.reads.freeRx b) _ fun _ => rfl
    exact ⟨h.hands.txDone, h.hands.taken, h.hands.rearm, h.hands.unparked, h.hands.rxDone,
      h.hands.repost⟩
  | pump env => apply h.pumpNext hstep

theorem inv_of_reachable
    {mtu : UInt32} (r : (system mtu).Reachable s) :
  s.Inv (Sana2Tx.txReqs mtu)
  := by
  apply r.invariant
  · rintro s ⟨numReads, cap, buf, harmed, rfl⟩
    apply inv_create harmed
  · intro s l s' h _ hstep
    apply h.step hstep

def wakeSteps (gets : List PumpGet) : List (Label Bool ℕ) :=
  (.empty :: gets).map fun get => .pump ⟨get, none, false, false, fun _ => false⟩

def pumpSteps (n : ℕ) (alloc : Option ℕ) : List (Label Bool ℕ) :=
  List.replicate n (.pump ⟨.empty, alloc, false, false, fun _ => false⟩)

def drainRun : List (Label Bool ℕ) :=
  [.readReply 0 .none 60, .readReply 1 .outOfService 0] ++ wakeSteps [.read, .read] ++
    pumpSteps 6 none ++ pumpSteps 1 (some 10) ++ pumpSteps 9 none ++
    [.tx (.lock false), .tx .netifDown, .tx (.unlock fun _ => false), .stop, .readReply 2 .other 0,
      .readReply 0 .other 0, .evReply .failed] ++
    wakeSteps [.read, .read, .event] ++ pumpSteps 13 none

def threeReads : Sana2Pump Bool ℕ :=
  create 1500 3 1600 fun r => some r

theorem threeReads_init :
  (system 1500).init threeReads
  := ⟨3, 1600, _, ⟨fun _ _ => rfl, fun _ _ _ _ heq => some.inj heq⟩, rfl⟩

theorem drainRun_enabled :
  ((system 1500).exec threeReads drainRun).isSome = true
  := by
  decide

def drained : Sana2Pump Bool ℕ :=
  (system 1500).last threeReads drainRun drainRun_enabled

end Sana2Pump
