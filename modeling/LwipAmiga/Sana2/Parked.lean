import LwipAmiga.Sana2.Drain

/-!
# Parked reads

A read that comes back out of service is parked, and the reads are sent again when the device is
reported online.
-/

open Option TransitionSystem

/-! ### Events ahead -/

def EvReply.offline : EvReply → Bool
  | .failed => false
  | .fired events => events.offline

def EvPlace.owes : EvPlace → Bool
  | .driver _ owed => owed
  | _ => false

def EvPlace.offlineAhead : EvPlace → Bool
  | .driver _ owed => owed
  | .port reply | .taken reply => reply.offline
  | .home => false

theorem EvPlace.offlineAhead_goOffline
    {ev : EvPlace} (h : ev.offlineAhead = true) :
  ev.goOffline.offlineAhead = true
  := by
  cases ev with
  | driver mask owed =>
    change (owed || mask.offline) = true
    rw [Bool.or_eq_true]
    left
    exact h
  | _ => exact h

theorem Sana2Link.event_up
    (L : Sana2Link) (hstay : (L.event false).2 = false) (hup : (L.event false).1.up = true)
    (hahead : (L.event false).1.ev.offlineAhead = false) :
  L.up = true ∧ L.ev.offlineAhead = false
  := by
  unfold event at hstay hup hahead
  split at hup
  next reply hev =>
    rw [hev] at hstay ⊢
    cases reply with
    | failed => exact ⟨hup, rfl⟩
    | fired events =>
      have honline : events.online = false := hstay
      simp only [follow, honline, Bool.false_eq_true, if_false] at hup
      split at hup
      next => contradiction
      next hoffline => exact ⟨hup, Bool.not_eq_true _ ▸ hoffline⟩
  next hne =>
    split at hahead
    next reply hev => exact absurd hev (hne reply)
    next => exact ⟨hup, hahead⟩

namespace Sana2Pump

variable {ι β : Type}

def parksNext (s : Sana2Pump ι β) : Bool :=
  match s.reads.rxDone with
  | (_, reply) :: _ =>
      s.phase = .requeue ∧ s.batch < S2IF_RX_BATCH ∧ s.draining = false ∧
        reply.error = .outOfService
  | [] => false

def honest (s : Sana2Pump ι β) : Label ι β → Bool
  | .evReply reply => !s.link.ev.owes || reply.offline
  | .readReply _ error _ => decide (error ≠ .outOfService) || !s.link.online
  | _ => true

def timely (s : Sana2Pump ι β) : Label ι β → Bool
  | .pump _ => !s.parksNext || !s.link.up || s.link.ev.offlineAhead
  | .seedLink => decide (s.reads.parked = []) || s.link.ev.offlineAhead
  | _ => true

def settled (s : Sana2Pump ι β) : Bool :=
  s.reads.port.isEmpty && s.reads.rxDone.isEmpty && !s.link.ev.onPort && !s.link.ev.isTaken &&
    !s.link.ev.owes

theorem offlineAhead_of_settled
    {s : Sana2Pump ι β} (h : s.settled = true) :
  s.link.ev.offlineAhead = false
  := by
  simp only [settled, Bool.and_eq_true, Bool.not_eq_true'] at h
  obtain ⟨⟨⟨-, hport⟩, htaken⟩, howes⟩ := h
  cases hev : s.link.ev with
  | driver mask owed =>
    rw [hev] at howes
    exact howes
  | port reply =>
    rw [hev] at hport
    contradiction
  | taken reply =>
    rw [hev] at htaken
    contradiction
  | home => rfl

/-! ### The invariant -/

structure Recalled (s : Sana2Pump ι β) : Prop where
  home : s.draining = false → s.reads.home = []
  parked : s.draining = false → s.link.up = true → s.link.ev.offlineAhead = false → s.reads.parked = []

variable {s s' : Sana2Pump ι β}

theorem Recalled.moveEv
    {ev : EvPlace} (h : s.Recalled) (hahead : s.link.ev.offlineAhead = true → ev.offlineAhead = true)
    (online : Bool) :
  Recalled { s with link := { s.link with ev := ev, online := online } }
  := by
  refine ⟨h.home, fun hnot hup hnone => ?_⟩
  apply h.parked hnot hup
  rw [← Bool.not_eq_true] at hnone ⊢
  exact fun htrue => hnone (hahead htrue)

theorem Recalled.linkEvent
    (h : s.Recalled) :
  s.linkEvent.Recalled
  := by
  rw [Sana2Pump.linkEvent]
  constructor
  · intro hnot
    dsimp only
    split <;> exact h.home hnot
  · intro hnot hup hahead
    have hnot : s.draining = false := hnot
    dsimp only at hup hahead ⊢
    rw [hnot] at hup hahead ⊢
    split
    next => rfl
    next hstay =>
      obtain ⟨hup', hahead'⟩ := s.link.event_up (Bool.not_eq_true _ ▸ hstay) hup hahead
      apply h.parked hnot hup' hahead'

theorem Recalled.rearmEvent
    (h : s.Recalled) (hlink : s.link.Inv) {phase : PumpPhase} :
  Recalled { s with link := s.link.rearmEvent s.draining, phase := phase }
  := by
  rw [Sana2Link.rearmEvent]
  split
  next mask hrearm =>
    split
    · exact ⟨h.home, h.parked⟩
    · refine ⟨h.home, fun hnot hup _ => ?_⟩
      apply h.parked hnot hup
      have hsome : s.link.rearm.isSome = true := by
        rw [hrearm]
        rfl
      rw [hlink.home.mp (hlink.rearm hsome).1]
      rfl
  next => exact ⟨h.home, h.parked⟩

theorem home_parked_process (R : Sana2Reads β) (r : ℕ) (reply : RxReply) (rest : List (ℕ × RxReply))
    (alloc : Option β) :
  (R.process false r reply rest alloc).home = R.home ∧
    (reply.error ≠ .outOfService → (R.process false r reply rest alloc).parked = R.parked)
  := by
  simp only [Sana2Reads.process, Bool.false_eq_true, if_false]
  split
  next hoos => exact ⟨rfl, fun hne => absurd hoos hne⟩
  next =>
    split
    · obtain ⟨-, hparked, hhome⟩ :=
        Sana2Reads.lists_detach { R with rxDone := rest, flight := R.flight - 1 } r reply.serial alloc
      exact ⟨hhome, fun _ => hparked⟩
    · exact ⟨rfl, fun _ => rfl⟩

theorem Recalled.wake
    (h : s.Recalled) (hstep : s.wake = some s') :
  s'.Recalled
  := by
  rw [Sana2Pump.wake] at hstep
  split at hstep
  · obtain ⟨-, ⟨⟩⟩ := ite_none_right_eq_some.mp hstep
    exact ⟨(by intros; contradiction), (by intros; contradiction)⟩
  · cases hstep
    exact ⟨h.home, h.parked⟩

theorem Recalled.roundEnd
    (h : s.Recalled) (hstep : s.roundEnd = some s') :
  s'.Recalled
  := by
  rw [Sana2Pump.roundEnd] at hstep
  split at hstep
  · obtain ⟨-, ⟨⟩⟩ := ite_none_right_eq_some.mp hstep
    exact ⟨h.home, h.parked⟩
  · cases hstep
    exact ⟨h.home, h.parked⟩

/-! ### Runs -/

variable [DecidableEq ι]

theorem Recalled.txStep
    {l : Sana2Tx.TxLabel ι} {phase : PumpPhase} (h : s.Recalled) (hstep : s.txStep l phase = some s') :
  s'.Recalled
  := by
  obtain ⟨tx, -, rfl⟩ := map_eq_some_iff.mp hstep
  exact ⟨h.home, h.parked⟩

theorem Recalled.lock
    {phase : PumpPhase} (h : s.Recalled) (hstep : s.lock phase = some s') :
  s'.Recalled
  := by
  rw [Sana2Pump.lock, ite_none_right_eq_some] at hstep
  apply h.txStep hstep.2

theorem Recalled.unlock
    {quick : ℕ → Bool} {phase : PumpPhase} (h : s.Recalled) (hstep : s.unlock quick phase = some s') :
  s'.Recalled
  := by
  rw [Sana2Pump.unlock, ite_none_right_eq_some] at hstep
  apply h.txStep hstep.2

theorem Recalled.s2ifPumpHarvest
    {get : PumpGet} (h : s.Recalled) (hstep : s.s2ifPumpHarvest get = some s') :
  s'.Recalled
  := by
  cases get with
  | read =>
    obtain ⟨R, hR, rfl⟩ := map_eq_some_iff.mp hstep
    rw [Sana2Reads.harvest] at hR
    split at hR
    · contradiction
    · cases hR
      exact ⟨h.home, h.parked⟩
  | event =>
    simp only [Sana2Pump.s2ifPumpHarvest] at hstep
    split at hstep
    next reply hev =>
      cases hstep
      apply h.moveEv _ s.link.online
      rw [hev]
      exact id
    next => contradiction
  | write r => apply h.txStep hstep
  | empty =>
    simp only [Sana2Pump.s2ifPumpHarvest, ite_none_right_eq_some] at hstep
    apply h.lock hstep.2

theorem Recalled.deliverOne
    {env : PumpEnv β} (h : s.Recalled) (hstep : s.deliverOne env = some s') :
  s'.Recalled
  := by
  rw [Sana2Pump.deliverOne] at hstep
  split at hstep
  next => apply h.unlock hstep
  next =>
    split_ifs at hstep
    · apply h.unlock hstep
    · cases hstep
      exact ⟨h.home, h.parked⟩
    · cases hstep
      exact ⟨h.home, h.parked⟩

variable [DecidableEq β]

theorem Recalled.s2ifPumpRxRequeue
    {env : PumpEnv β} (h : s.Recalled) (hphase : s.phase = .requeue)
    (htimely : s.timely (.pump env : Label ι β) = true) (hstep : s.s2ifPumpRxRequeue env = some s') :
  s'.Recalled
  := by
  rw [Sana2Pump.s2ifPumpRxRequeue] at hstep
  split at hstep
  next r reply rest hcons =>
    split at hstep
    next hbatch =>
      obtain ⟨-, ⟨⟩⟩ := ite_none_right_eq_some.mp hstep
      cases hdraining : s.draining with
      | true => exact ⟨(by intros; contradiction), (by intros; contradiction)⟩
      | false =>
        obtain ⟨hhome, hparked⟩ := home_parked_process s.reads r reply rest env.alloc
        constructor
        · intro _
          exact hhome.trans (h.home hdraining)
        · intro _ hup hahead
          by_cases hoos : reply.error = .outOfService
          · have hparks : s.parksNext = true := by
              simp only [parksNext, hcons, decide_eq_true_eq]
              exact ⟨hphase, hbatch, hdraining, hoos⟩
            have hup : s.link.up = true := hup
            have hahead : s.link.ev.offlineAhead = false := hahead
            simp only [timely, hparks, hup, hahead, Bool.not_true, Bool.or_self] at htimely
            contradiction
          · exact (hparked hoos).trans (h.parked hdraining hup hahead)
    next => apply h.unlock hstep
  next => apply h.unlock hstep

theorem Recalled.pumpNext
    {env : PumpEnv β} (h : s.Recalled) (hlink : s.link.Inv)
    (htimely : s.timely (.pump env : Label ι β) = true) (hstep : s.pumpNext env = some s') :
  s'.Recalled
  := by
  rw [Sana2Pump.pumpNext] at hstep
  split at hstep
  next => apply h.wake hstep
  next => apply h.s2ifPumpHarvest hstep
  next =>
    rw [s2ifPumpTxev] at hstep
    split at hstep
    · apply h.txStep hstep
    · cases hstep
      apply h.linkEvent
  next => apply h.unlock hstep
  next =>
    cases hstep
    apply h.rearmEvent hlink
  next =>
    cases hstep
    rw [unparkOne]
    split <;> exact ⟨h.home, h.parked⟩
  next =>
    split at hstep
    · cases hstep
      exact ⟨h.home, h.parked⟩
    · have hbatch : Recalled { s with batch := 0 } := ⟨h.home, h.parked⟩
      apply hbatch.lock hstep
  next hphase => apply h.s2ifPumpRxRequeue hphase htimely hstep
  next =>
    cases hstep
    rw [repostOne]
    split <;> exact ⟨h.home, h.parked⟩
  next =>
    split at hstep
    · cases hstep
      exact ⟨h.home, h.parked⟩
    · apply h.lock hstep
  next => apply h.deliverOne hstep
  next => apply h.roundEnd hstep
  next => contradiction

theorem Recalled.step
    {l : Label ι β} (h : s.Recalled) (hlink : s.link.Inv) (hhonest : s.honest l = true)
    (htimely : s.timely l = true) (hstep : s.next l = some s') :
  s'.Recalled
  := by
  cases l with
  | tx l =>
    simp only [next, ite_none_right_eq_some] at hstep
    apply h.txStep hstep.2
  | readReply r error dataLength | stop | freeRx b =>
    obtain ⟨-, ⟨⟩⟩ := ite_none_right_eq_some.mp hstep
    exact ⟨h.home, h.parked⟩
  | evReply reply =>
    simp only [next] at hstep
    split at hstep
    next mask owed hev =>
      cases hstep
      apply h.moveEv _ s.link.online
      intro hahead
      simp only [honest, Bool.or_eq_true, Bool.not_eq_true'] at hhonest
      apply hhonest.resolve_left
      rw [hev] at hahead ⊢
      rw [Bool.not_eq_false]
      exact hahead
    next => contradiction
  | device online =>
    cases hstep
    apply h.moveEv _ online
    intro hahead
    cases online with
    | true => exact hahead
    | false => apply EvPlace.offlineAhead_goOffline hahead
  | seedLink =>
    obtain ⟨-, ⟨⟩⟩ := ite_none_right_eq_some.mp hstep
    refine ⟨h.home, fun _ _ hahead => ?_⟩
    simp only [timely, Bool.or_eq_true, decide_eq_true_eq] at htimely
    apply htimely.resolve_right
    rw [Bool.not_eq_true]
    exact hahead
  | pump env => apply h.pumpNext hlink htimely hstep

theorem recalled_of_reach
    {mtu : UInt32} (r : (system mtu).Reach (fun s l => s.honest l = true ∧ s.timely l = true) s) :
  s.Recalled
  := by
  apply r.invariant_of fun _ hs => inv_of_reachable hs.reachable
  · rintro s ⟨numReads, cap, buf, -, rfl⟩
    exact ⟨fun _ => rfl, fun _ _ _ => rfl⟩
  · intro s l s' hinv h hgood hstep
    apply h.step hinv.link hgood.1 hgood.2 hstep

/-- Once the replies of an honest driver are processed and the link is up, no read is parked. -/
theorem parked_reads_return
    {mtu : UInt32} (h : (system mtu).Reach (fun s l => s.honest l = true ∧ s.timely l = true) s)
    (hdraining : s.draining = false) (hup : s.link.up = true) (hsettled : s.settled = true) :
  s.reads.parked = [] ∧ (s.phase = .waiting → s.reads.driver.Perm (List.range s.reads.num))
  := by
  have hrecalled := recalled_of_reach h
  have hparked := hrecalled.parked hdraining hup (offlineAhead_of_settled hsettled)
  use hparked
  intro hwaiting
  have hinv := inv_of_reachable h.reachable
  have hhands := hinv.hands
  rw [hwaiting] at hhands
  have hport : s.reads.port = [] := by
    simp only [settled, Bool.and_eq_true, List.isEmpty_iff] at hsettled
    apply hsettled.1.1.1.1
  have hpool := hinv.reads.places.pool
  simpa only [Sana2Reads.flying, hport, hhands.rxDone rfl, hhands.repost rfl, hhands.unparked rfl,
    hparked, hrecalled.home hdraining, List.map_nil, List.append_nil] using hpool

/-- `sb_sana_up` sets the link up. -/
def seedSteps : List (Label Bool ℕ) :=
  [.tx (.lock false), .seedLink, .tx (.unlock fun _ => false)]

def outOfServiceSteps : List (Label Bool ℕ) :=
  [.readReply 0 .outOfService 0, .readReply 1 .outOfService 0, .readReply 2 .outOfService 0]

def returnRun : List (Label Bool ℕ) :=
  seedSteps ++ [.device false, .evReply (.fired ⟨false, true⟩)] ++ outOfServiceSteps ++
    wakeSteps [.event, .read, .read, .read] ++ pumpSteps 14 none ++
    [.device true, .evReply (.fired ⟨true, false⟩)] ++ wakeSteps [.event] ++ pumpSteps 10 none

theorem returnRun_enabled :
  ((system 1500).exec threeReads returnRun).isSome = true
  := by
  decide

def returned : Sana2Pump Bool ℕ :=
  (system 1500).last threeReads returnRun returnRun_enabled

theorem parked_reads_return_returned :
  (system 1500).Reach (fun s l => s.honest l = true ∧ s.timely l = true) returned ∧
    returned.link.up = true ∧ returned.reads.parked = [] ∧
    returned.reads.driver.Perm (List.range returned.reads.num)
  := by
  have hreach : (system 1500).Reach (fun s l => s.honest l = true ∧ s.timely l = true) returned := by
    apply reach_last threeReads_init
    decide
  have hup : returned.link.up = true := by decide
  obtain ⟨hparked, hdriver⟩ :=
    parked_reads_return hreach (by decide) hup (by decide)
  exact ⟨hreach, hup, hparked, hdriver (by decide)⟩

def lateRun : List (Label Bool ℕ) :=
  seedSteps ++ [.device false, .evReply (.fired ⟨false, true⟩)] ++ wakeSteps [.event] ++
    pumpSteps 7 none ++ outOfServiceSteps ++ [.device true, .evReply (.fired ⟨true, false⟩)] ++
    wakeSteps [.read, .read, .read, .event] ++ pumpSteps 14 none

theorem lateRun_enabled :
  ((system 1500).exec threeReads lateRun).isSome = true
  := by
  decide

def late : Sana2Pump Bool ℕ :=
  (system 1500).last threeReads lateRun lateRun_enabled

/-- The device is online and the link is up, but all reads are parked, and the event request waits for
the device to go offline. -/
theorem parked_while_online :
  (system 1500).Reach (fun s l => s.honest l = true) late ∧ late.draining = false ∧
    late.phase = .waiting ∧ late.settled = true ∧ late.link.online = true ∧ late.link.up = true ∧
    late.link.ev = .driver ⟨false, true⟩ false ∧ late.reads.parked = [2, 1, 0] ∧ late.reads.driver = []
  := by
  have hreach : (system 1500).Reach (fun s l => s.honest l = true) late := by
    apply reach_last threeReads_init
    decide
  exact ⟨hreach, by decide, by decide, by decide, by decide,
    by decide, by decide, by decide, by decide⟩

end Sana2Pump
