import LwipAmiga.Lib.Transition

/-!
# The receive profile

The receive profile is latency while some task waits for a reply, and throughput while the receive side
is busy.
-/

inductive Ndrp where
  | unstated
  | throughput
  | latency
  deriving DecidableEq

inductive ProfileRequest where
  | idle
  | withDriver
  | replied
  deriving DecidableEq

def NETSTACK_TICK_MS : UInt32 := 50

def SB_RX_BUSY_FRAMES : UInt32 := 100

def SB_RX_AWAIT_TICKS : UInt32 := 300 / NETSTACK_TICK_MS

structure RxProfile where
  devOpen : Bool
  sana2 : Bool
  started : Bool
  capable : Bool
  rxAwaitSigOwned : Bool
  rxAwaitSig : Bool
  rxProfileStated : Ndrp
  rxProfileSent : Ndrp
  rxProfileInFlight : Bool
  rxWasBusy : Bool
  rxFramesPrev : UInt32
  stackTicks : UInt32
  rxAwaitTick : UInt32
  request : ProfileRequest
  lastSent : Option Ndrp
  clash : Bool

namespace RxProfile

/-! ### The handlers -/

/-- `SendIO` of the request with a profile. -/
def sendRequest (c : RxProfile) (want : Ndrp) : RxProfile :=
  { c with
    request := .withDriver, lastSent := some want, clash := c.clash || decide (c.request ≠ .idle) }

def sbNetdevProfileSync (c : RxProfile) : RxProfile :=
  if !c.started || !c.rxAwaitSig || c.rxProfileInFlight ||
      decide (c.rxProfileSent = c.rxProfileStated) then c
  else
    sendRequest { c with rxProfileSent := c.rxProfileStated, rxProfileInFlight := true }
      c.rxProfileStated

def sbNetdevProfileDecide (c : RxProfile) : RxProfile :=
  if !c.rxAwaitSig then c
  else
    let awaiting := decide (c.stackTicks - c.rxAwaitTick < SB_RX_AWAIT_TICKS)
    sbNetdevProfileSync
      { c with rxProfileStated := if c.rxWasBusy && !awaiting then .throughput else .latency }

/-- `sb_netdev_profile_tick`, `frames` being the frame count of the interface. -/
def sbNetdevProfileTick (c : RxProfile) (frames : UInt32) : RxProfile :=
  if !c.rxAwaitSig then c
  else
    sbNetdevProfileDecide
      { c with
        rxWasBusy := decide (SB_RX_BUSY_FRAMES ≤ frames - c.rxFramesPrev), rxFramesPrev := frames }

/-- `sb_netdev_profile_reply`: the request is taken off the reply port if it is there, whatever the
driver says of it. -/
def sbNetdevProfileReply (c : RxProfile) : RxProfile :=
  if !c.rxProfileInFlight || decide (c.request = .withDriver) then c
  else sbNetdevProfileSync { c with request := .idle, rxProfileInFlight := false }

def sbNetdevProfileDrain (c : RxProfile) : RxProfile :=
  let c := { c with rxAwaitSig := false }
  if c.rxProfileInFlight then { c with request := .idle, rxProfileInFlight := false } else c

def sbNetdevProfileStart (c : RxProfile) (frames : UInt32) : RxProfile :=
  let c := { c with
    rxProfileInFlight := false, rxProfileSent := .unstated, lastSent := none, rxWasBusy := false
    rxFramesPrev := frames, rxProfileStated := .latency
    rxAwaitTick := c.stackTicks - SB_RX_AWAIT_TICKS }
  if !c.capable || !c.rxAwaitSigOwned then c
  else sbNetdevProfileSync { c with rxAwaitSig := true }

def sbIfUp (c : RxProfile) (sana2 capable : Bool) (frames : UInt32) : RxProfile :=
  let c := { c with devOpen := true, started := true, sana2 := sana2, capable := capable && !sana2 }
  if sana2 then c else c.sbNetdevProfileStart frames

/-- `sb_if_down`, with the part of `sb_netdev_down` or `sb_sana_down` that stops the driver. -/
def sbIfDown (c : RxProfile) : RxProfile :=
  let c := if c.started && !c.sana2 then c.sbNetdevProfileDrain else c
  { c with started := false, capable := false, devOpen := false, sana2 := false }

/-! ### The system -/

inductive Label where
  | up (starts sana2 capable : Bool) (frames : UInt32)
  | down
  | decide
  | tick (frames : UInt32)
  | reply
  | awaiting
  | driver

def next (c : RxProfile) : Label → Option RxProfile
  | .up starts sana2 capable frames =>
      if c.devOpen then none else some (if starts then c.sbIfUp sana2 capable frames else c)
  | .down => some c.sbIfDown
  | .decide => some c.sbNetdevProfileDecide
  | .tick frames =>
      some (({ c with stackTicks := c.stackTicks + 1 }).sbNetdevProfileReply.sbNetdevProfileTick
        frames)
  | .reply => some c.sbNetdevProfileReply
  | .awaiting => some { c with rxAwaitTick := c.stackTicks }
  | .driver => if c.request = .withDriver then some { c with request := .replied } else none

def start (owned : Bool) : RxProfile where
  devOpen := false
  sana2 := false
  started := false
  capable := false
  rxAwaitSigOwned := owned
  rxAwaitSig := false
  rxProfileStated := .unstated
  rxProfileSent := .unstated
  rxProfileInFlight := false
  rxWasBusy := false
  rxFramesPrev := 0
  stackTicks := 0
  rxAwaitTick := 0
  request := .idle
  lastSent := none
  clash := false

def system : TransitionSystem RxProfile Label where
  init c := ∃ owned, c = start owned
  next := next

def signalled (c : RxProfile) : Label → Bool
  | .up _ sana2 capable _ => sana2 || !capable || c.rxAwaitSigOwned
  | _ => true

/-! ### The invariant -/

structure Held (c : RxProfile) : Prop where
  inFlight_iff : c.rxProfileInFlight = true ↔ c.request ≠ .idle
  listening : c.rxAwaitSig = true → c.devOpen = true ∧ c.started = true ∧ c.sana2 = false
  inFlight_listening : c.rxProfileInFlight = true → c.rxAwaitSig = true
  open_of_started : c.started = true → c.devOpen = true
  sent_eq : c.rxAwaitSig = true → c.rxProfileSent = c.lastSent.getD .unstated
  stated_ne : c.rxAwaitSig = true → c.rxProfileStated ≠ .unstated
  listens : c.started = true → c.capable = true → c.rxAwaitSig = true
  no_clash : c.clash = false

def Settled (c : RxProfile) : Prop :=
  c.rxAwaitSig = true → c.rxProfileInFlight = false → c.rxProfileSent = c.rxProfileStated

variable {c c' : RxProfile}

theorem Held.sync (h : c.Held) :
  c.sbNetdevProfileSync.Held ∧ c.sbNetdevProfileSync.Settled
  := by
  unfold sbNetdevProfileSync
  split
  next hquiet =>
    refine ⟨h, ?_⟩
    intro hsig hidle
    have hstarted := (h.listening hsig).2.1
    simpa [hsig, hidle, hstarted] using hquiet
  next hsend =>
    simp only [Bool.or_eq_true, Bool.not_eq_true', decide_eq_true_eq, not_or, Bool.not_eq_false,
      Bool.not_eq_true] at hsend
    obtain ⟨⟨⟨hstarted, hsig⟩, hidle⟩, -⟩ := hsend
    have hrequest : c.request = .idle := by
      by_contra hout
      rw [h.inFlight_iff.mpr hout] at hidle
      contradiction
    refine ⟨⟨?_, h.listening, fun _ => hsig, h.open_of_started, fun _ => rfl, h.stated_ne,
      h.listens, ?_⟩, fun _ _ => rfl⟩
    · exact ⟨nofun, fun _ => rfl⟩
    · simp [sendRequest, hrequest, h.no_clash]

theorem Held.decide (h : c.Held) :
  c.sbNetdevProfileDecide.Held ∧ (c.Settled → c.sbNetdevProfileDecide.Settled)
  := by
  unfold sbNetdevProfileDecide
  split
  · exact ⟨h, id⟩
  · have hsync := Held.sync (c := { c with rxProfileStated :=
        if c.rxWasBusy && !(Decidable.decide (c.stackTicks - c.rxAwaitTick < SB_RX_AWAIT_TICKS))
        then .throughput else .latency })
      ⟨h.inFlight_iff, h.listening, h.inFlight_listening, h.open_of_started, h.sent_eq,
        fun _ => by dsimp only; split <;> nofun, h.listens, h.no_clash⟩
    exact ⟨hsync.1, fun _ => hsync.2⟩

theorem Held.tick (h : c.Held) (frames : UInt32) :
  (c.sbNetdevProfileTick frames).Held ∧ (c.Settled → (c.sbNetdevProfileTick frames).Settled)
  := by
  unfold sbNetdevProfileTick
  split
  · exact ⟨h, id⟩
  · exact Held.decide ⟨h.inFlight_iff, h.listening, h.inFlight_listening, h.open_of_started,
      h.sent_eq, h.stated_ne, h.listens, h.no_clash⟩

theorem Held.reply (h : c.Held) :
  c.sbNetdevProfileReply.Held ∧ (c.Settled → c.sbNetdevProfileReply.Settled)
  := by
  unfold sbNetdevProfileReply
  split
  · exact ⟨h, id⟩
  · have hsync := Held.sync (c := { c with request := .idle, rxProfileInFlight := false })
      ⟨⟨nofun, fun hne => absurd rfl hne⟩, h.listening, nofun, h.open_of_started, h.sent_eq,
        h.stated_ne, h.listens, h.no_clash⟩
    exact ⟨hsync.1, fun _ => hsync.2⟩

theorem Held.request_drain (h : c.Held) :
  c.sbNetdevProfileDrain.request = .idle ∧ c.sbNetdevProfileDrain.rxProfileInFlight = false
  := by
  unfold sbNetdevProfileDrain
  cases hflight : c.rxProfileInFlight with
  | true => exact ⟨rfl, rfl⟩
  | false =>
    refine ⟨?_, by simp⟩
    by_contra hout
    have htrue := h.inFlight_iff.mpr (by simpa [hflight] using hout)
    rw [hflight] at htrue
    contradiction

theorem Held.closed
    (h : c.Held) (hopen : c.devOpen = false) :
  c.rxAwaitSig = false ∧ c.rxProfileInFlight = false ∧ c.request = .idle
  := by
  have hsig : c.rxAwaitSig = false := by
    by_contra hsig
    have hopen' := (h.listening (Bool.not_eq_false _ ▸ hsig)).1
    rw [hopen] at hopen'
    contradiction
  have hflight : c.rxProfileInFlight = false := by
    by_contra hflight
    rw [h.inFlight_listening (Bool.not_eq_false _ ▸ hflight)] at hsig
    contradiction
  refine ⟨hsig, hflight, ?_⟩
  by_contra hout
  rw [h.inFlight_iff.mpr hout] at hflight
  contradiction

theorem held_of_mute
    (hsig : c.rxAwaitSig = false) (hflight : c.rxProfileInFlight = false)
    (hrequest : c.request = .idle) (hopen : c.started = true → c.devOpen = true)
    (hdeaf : c.capable = false) (hclash : c.clash = false) :
  c.Held ∧ c.Settled
  := by
  have hmute : ∀ {P : Prop}, c.rxAwaitSig = true → P := by
    intro P hsig'
    rw [hsig] at hsig'
    contradiction
  refine ⟨⟨?_, hmute, ?_, hopen, hmute, hmute, ?_, hclash⟩, hmute⟩
  · rw [hflight, hrequest]
    simp
  · rw [hflight]
    nofun
  · rw [hdeaf]
    nofun

theorem Held.up
    (h : c.Held) (hopen : c.devOpen = false) {sana2 capable : Bool} {frames : UInt32}
    (howned : sana2 = false → capable = true → c.rxAwaitSigOwned = true) :
  (c.sbIfUp sana2 capable frames).Held ∧ (c.sbIfUp sana2 capable frames).Settled
  := by
  obtain ⟨hsig, hflight, hrequest⟩ := h.closed hopen
  cases sana2 with
  | true => exact held_of_mute hsig hflight hrequest (fun _ => rfl) (Bool.and_false _) h.no_clash
  | false =>
    simp only [sbIfUp, sbNetdevProfileStart, Bool.not_false, Bool.and_true, Bool.false_eq_true,
      if_false]
    split
    next hmute =>
      have hdeaf : capable = false := by
        cases capable with
        | false => rfl
        | true => simp [howned rfl rfl] at hmute
      exact held_of_mute hsig rfl hrequest (fun _ => rfl) hdeaf h.no_clash
    next =>
      apply Held.sync
      exact ⟨⟨nofun, fun hout => absurd hrequest hout⟩, fun _ => ⟨rfl, rfl, rfl⟩, nofun,
        fun _ => rfl, fun _ => rfl, fun _ => nofun, fun _ _ => rfl, h.no_clash⟩

theorem clash_drain (c : RxProfile) :
  c.sbNetdevProfileDrain.rxAwaitSig = false ∧ c.sbNetdevProfileDrain.clash = c.clash
  := by
  unfold sbNetdevProfileDrain
  dsimp only
  split <;> exact ⟨rfl, rfl⟩

theorem Held.down (h : c.Held) :
  c.sbIfDown.Held ∧ c.sbIfDown.Settled
  := by
  unfold sbIfDown
  dsimp only
  split
  next =>
    obtain ⟨hrequest, hflight⟩ := h.request_drain
    obtain ⟨hsig, hclash⟩ := c.clash_drain
    exact held_of_mute hsig hflight hrequest nofun rfl (hclash.trans h.no_clash)
  next hstopped =>
    -- an interface that is not a started netdev interface has no request out
    have hsig : c.rxAwaitSig = false := by
      by_contra hsig
      obtain ⟨-, hstarted, hsana2⟩ := h.listening (Bool.not_eq_false _ ▸ hsig)
      simp [hstarted, hsana2] at hstopped
    have hflight : c.rxProfileInFlight = false := by
      by_contra hflight
      rw [h.inFlight_listening (Bool.not_eq_false _ ▸ hflight)] at hsig
      contradiction
    have hrequest : c.request = .idle := by
      by_contra hout
      rw [h.inFlight_iff.mpr hout] at hflight
      contradiction
    exact held_of_mute hsig hflight hrequest nofun rfl h.no_clash

theorem Held.step
    (h : c.Held) (hsettled : c.Settled) {l : Label} (hl : c.signalled l = true)
    (hnext : next c l = some c') :
  c'.Held ∧ c'.Settled
  := by
  cases l with
  | up starts sana2 capable frames =>
    obtain ⟨hopen, ⟨⟩⟩ := Option.ite_none_left_eq_some.mp hnext
    rw [Bool.not_eq_true] at hopen
    cases starts with
    | false => exact ⟨h, hsettled⟩
    | true =>
      apply h.up hopen
      rintro rfl rfl
      simpa [signalled] using hl
  | down =>
    cases hnext
    apply h.down
  | decide =>
    cases hnext
    exact ⟨h.decide.1, h.decide.2 hsettled⟩
  | tick frames =>
    cases hnext
    have hreply := Held.reply (c := { c with stackTicks := c.stackTicks + 1 })
      ⟨h.inFlight_iff, h.listening, h.inFlight_listening, h.open_of_started, h.sent_eq,
        h.stated_ne, h.listens, h.no_clash⟩
    exact ⟨(hreply.1.tick frames).1, (hreply.1.tick frames).2 (hreply.2 hsettled)⟩
  | reply =>
    cases hnext
    exact ⟨h.reply.1, h.reply.2 hsettled⟩
  | awaiting =>
    cases hnext
    exact ⟨⟨h.inFlight_iff, h.listening, h.inFlight_listening, h.open_of_started, h.sent_eq,
      h.stated_ne, h.listens, h.no_clash⟩, hsettled⟩
  | driver =>
    obtain ⟨hout, ⟨⟩⟩ := Option.ite_none_right_eq_some.mp hnext
    have hflight := h.inFlight_iff.mpr (by rw [hout]; nofun)
    exact ⟨⟨⟨fun _ => nofun, fun _ => hflight⟩, h.listening, h.inFlight_listening,
      h.open_of_started, h.sent_eq, h.stated_ne, h.listens, h.no_clash⟩, hsettled⟩

/-- The request is never sent while the driver has it, it is at home when the interface is stopped, and
the last profile sent settles at the last one decided on. -/
theorem profile_settles
    (hc : system.Reach (fun c l => c.signalled l = true) c) :
  c.clash = false ∧ (c.started = false ∨ c.devOpen = false → c.request = .idle) ∧
  (c.started = true → c.capable = true → c.rxProfileInFlight = false →
    c.lastSent = some c.rxProfileStated)
  := by
  have hinv : c.Held ∧ c.Settled := by
    apply hc.invariant
    · rintro _ ⟨owned, rfl⟩
      exact held_of_mute rfl rfl rfl nofun rfl rfl
    · intro c l c' ih hl hnext
      apply ih.1.step ih.2 hl hnext
  obtain ⟨h, hsettled⟩ := hinv
  refine ⟨h.no_clash, ?_, ?_⟩
  · intro hstopped
    by_contra hout
    obtain ⟨hopen, hstarted, -⟩ := h.listening (h.inFlight_listening (h.inFlight_iff.mpr hout))
    simp [hopen, hstarted] at hstopped
  · intro hstarted hcapable hflight
    have hsig := h.listens hstarted hcapable
    have hsent : c.lastSent.getD .unstated = c.rxProfileStated := by
      rw [← h.sent_eq hsig, hsettled hsig hflight]
    cases hlast : c.lastSent with
    | none =>
      rw [hlast] at hsent
      exact absurd hsent.symm (h.stated_ne hsig)
    | some profile =>
      rw [hlast] at hsent
      rw [← hsent, Option.getD_some]

/-! ### Runs -/

def busyRun : List Label :=
  [.up true false true 0, .driver, .reply, .tick 100, .driver, .tick 200]

theorem init_start (owned : Bool) :
  system.init (start owned)
  := ⟨owned, rfl⟩

theorem busyRun_enabled :
  (system.exec (start true) busyRun).isSome = true
  := by
  decide

def busy : RxProfile :=
  system.last (start true) busyRun busyRun_enabled

theorem profile_settles_busy :
  busy.started = true ∧ busy.capable = true ∧ busy.rxProfileInFlight = false ∧
    busy.rxProfileStated = .throughput ∧ busy.lastSent = some busy.rxProfileStated
  := by
  have hreach : system.Reach (fun c l => c.signalled l = true) busy := by
    apply TransitionSystem.reach_last (init_start true)
    decide
  have hstarted : busy.started = true := by decide
  have hcapable : busy.capable = true := by decide
  have hflight : busy.rxProfileInFlight = false := by decide
  exact ⟨hstarted, hcapable, hflight, by decide,
    (profile_settles hreach).2.2 hstarted hcapable hflight⟩

def unsignalledRun : List Label :=
  [.up true false true 0, .tick 100, .tick 200]

theorem unsignalledRun_enabled :
  (system.exec (start false) unsignalledRun).isSome = true
  := by
  decide

def unsignalled : RxProfile :=
  system.last (start false) unsignalledRun unsignalledRun_enabled

/-- The profile decided on at the start is never sent, and no tick decides on another. -/
theorem unsignalled_never_sent :
  system.Reachable unsignalled ∧ unsignalled.started = true ∧ unsignalled.capable = true ∧
    unsignalled.rxProfileInFlight = false ∧ unsignalled.rxProfileStated = .latency ∧
    unsignalled.lastSent = none
  := ⟨TransitionSystem.reachable_last (init_start false), by decide, by decide,
    by decide, by decide, by decide⟩

end RxProfile
