import LwipAmiga.Rx.Frame
import LwipAmiga.Wake.Spares

/-!
# Senders of datagrams

A sender of a datagram sleeps until the interface has room for all its frames (`sb_dgram_room`).
-/

open Option Function TransitionSystem

def UDP_HLEN : ℕ := 8

inductive DgramPcb where
  | none
  | udp
  | raw (hdrincl : Bool)

def DgramPcb.l3len (len : UInt32) : DgramPcb → Option UInt32
  | .none => Option.none
  | .udp => some (len + .ofNat UDP_HLEN)
  | .raw hdrincl =>
      some (if hdrincl = true ∧ .ofNat IP_HLEN ≤ len then len - .ofNat IP_HLEN else len)

structure DgramSend (κ : Type) where
  sock : κ
  len : UInt32
  dontwait : Bool
  asleep : Bool
deriving DecidableEq

structure DgramPass where
  pcb : DgramPcb
  loopback : Bool
  expired : Bool

structure SendWorld (β κ : Type) where
  world : WakeWorld β κ
  mtu : UInt32
  sender : β → Option (DgramSend κ)

inductive SendLabel (β κ : Type) where
  | base (l : WakeLabel β κ)
  | attach (capacity : ℕ) (mtu : UInt32)
  | send (b : β) (k : κ) (total : UInt32) (dontwait : Bool)
  | pass (b : β) (env : DgramPass)
  | wake (b : β) (we : Option Errno)

/-- `netifbase_tx_admit`. -/
def TxPath.txAdmit (t : TxPath) (mtu l3len : UInt32) (loopback : Bool) : Bool :=
  match t.activeIf with
  | none => true
  | some i => loopback || i.txAdmit mtu l3len

namespace SendWorld

variable {β κ : Type}

def others (s : SendWorld β κ) : WakeLabel β κ → Bool
  | .net (.attach _) | .enrol _ => false
  | l => (WakeWorld.actor l).all fun b => (s.sender b).isNone

section Model

variable [DecidableEq β]

def setSender (s : SendWorld β κ) (b : β) (d : Option (DgramSend κ)) : SendWorld β κ :=
  { s with sender := Function.update s.sender b d }

def takeSignal (s : SendWorld β κ) (b : β) : SendWorld β κ :=
  { s with world := { s.world with sig := Function.update s.world.sig b false } }

variable [DecidableEq κ]

def enrol (s : SendWorld β κ) (k : κ) : SendWorld β κ :=
  { s with world := s.world.sbTxWantSpace k }

def sbDgramRoom (s : SendWorld β κ) (b : β) (d : DgramSend κ) (env : DgramPass) : SendWorld β κ :=
  match env.pcb.l3len d.len with
  | none => s.setSender b none
  | some l3len =>
      if s.world.tx.txAdmit s.mtu l3len env.loopback then s.setSender b none
      else if d.dontwait then s.setSender b none
      else if env.expired then (s.enrol d.sock).setSender b none
      else ((s.enrol d.sock).takeSignal b).setSender b (some { d with asleep := true })

variable [Fintype β] [Fintype κ]

def next (L : Lwip) (s : SendWorld β κ) : SendLabel β κ → Option (SendWorld β κ)
  | .base l =>
      if s.others l then (WakeWorld.next L s.world l).map fun w => { s with world := w } else none
  | .attach capacity mtu =>
      if s.world.lock.isNone = true ∧ s.world.tx.activeIf.isNone = true then
        some { s with world := s.world.setIf (some (.txSetup capacity mtu)), mtu := mtu }
      else none
  | .send b k total dontwait =>
      if s.world.isOutside b = true ∧ (s.sender b).isNone = true ∧ some k ∈ s.world.fds b ∧
          (s.world.socks k).type ≠ .tcp then
        if 0xFFFF < total then some s
        else some (s.setSender b (some ⟨k, total, dontwait || (s.world.socks k).nonblock, false⟩))
      else none
  | .pass b env =>
      match s.sender b with
      | some d =>
          if s.world.lock.isNone = true ∧ d.asleep = false then some (s.sbDgramRoom b d env) else none
      | none => none
  | .wake b we =>
      match s.sender b with
      | some d =>
          if s.world.lock.isNone = true ∧ d.asleep = true then
            some ((s.takeSignal b).setSender b
              (if we.isNone then some { d with asleep := false } else none))
          else none
      | none => none

def system (L : Lwip) : TransitionSystem (SendWorld β κ) (SendLabel β κ) where
  init s := (WakeWorld.system L).init s.world ∧ s.world.tx.activeIf = none ∧ ∀ b, s.sender b = none
  next := next L

end Model

/-! ### The invariant -/

def SleepsFor (s : SendWorld β κ) (b : β) (k : κ) : Prop :=
  (∃ d ∈ s.sender b, d.asleep = true ∧ d.sock = k) ∨
    (k, Want.write) ∈ s.world.wants b ∧ (s.world.socks k).type ≠ .tcp

def fits (s : SendWorld β κ) : SendLabel β κ → Bool
  | .pass b env =>
      ((s.sender b).bind fun d => env.pcb.l3len d.len).all fun l3len =>
        decide (netifbaseTxFrames l3len s.mtu ≤ netifbaseTxFrames NIB_MAX_L3 s.mtu)
  | _ => true

structure Inv (s : SendWorld β κ) : Prop where
  listed : s.world.Listed
  maxFrames : ∀ i ∈ s.world.tx.activeIf, i.txMaxFrames = (netifbaseTxFrames NIB_MAX_L3 s.mtu).toNat
  sender : ∀ b, ∀ d ∈ s.sender b, s.world.act b = .outside ∧ some d.sock ∈ s.world.fds b ∧
    (s.world.socks d.sock).type ≠ .tcp
  wake : ∀ b k, s.SleepsFor b k → s.world.sig b = true ∨ s.world.EdgeAhead k

variable {s s' : SendWorld β κ} {who : Option β} {b : β} {k : κ}

theorem Inv.change
    (h : s.Inv) (hspares : WakeWorld.Spares who s.world s'.world) (hmtu : s'.mtu = s.mtu)
    (hsender : ∀ c, some c ≠ who → s'.sender c = s.sender c)
    (hself : ∀ b, who = some b →
      (∀ d ∈ s'.sender b, s'.world.act b = .outside ∧ some d.sock ∈ s'.world.fds b ∧
        (s'.world.socks d.sock).type ≠ .tcp) ∧
      ∀ k, s'.SleepsFor b k → s'.world.EdgeAhead k) :
  s'.Inv
  := by
  constructor
  · apply hspares.listed h.listed
  · intro i' hi'
    obtain ⟨i, hi, heq⟩ := hspares.maxFrames i' hi'
    rw [heq, hmtu, h.maxFrames i hi]
  · intro b d hd
    by_cases hb : some b = who
    · apply (hself b hb.symm).1 d hd
    · rw [hsender b hb] at hd
      obtain ⟨hact, hfds, htype⟩ := h.sender b d hd
      rw [hspares.act b hb, hspares.fds b hb, hspares.type b d.sock hb hfds]
      exact ⟨hact, hfds, htype⟩
  · intro b k hsleeps
    by_cases hb : some b = who
    · right
      apply (hself b hb.symm).2 k hsleeps
    · -- an opener that takes no part slept before, and on a socket it holds
      have hbefore : s.SleepsFor b k ∧ some k ∈ s.world.fds b := by
        obtain ⟨d, hd, hasleep, rfl⟩ | ⟨hwant, htype⟩ := hsleeps
        · rw [hsender b hb] at hd
          exact ⟨.inl ⟨d, hd, hasleep, rfl⟩, (h.sender b d hd).2.1⟩
        · rw [WakeWorld.wants, hspares.act b hb, hspares.fds b hb] at hwant
          have hheld := WakeWorld.held_of_write hwant
          rw [hspares.type b k hb hheld] at htype
          exact ⟨.inr ⟨hwant, htype⟩, hheld⟩
      obtain hsig | hedge := h.wake b k hbefore.1
      · left
        apply hspares.sig b hb hsig
      · apply hspares.edge b k hb hbefore.2 hedge

theorem not_sleepsFor
    (hact : s.world.act b = .outside) (hsender : ∀ d ∈ s.sender b, d.asleep = false) :
  ¬ s.SleepsFor b k
  := by
  rintro (⟨d, hd, hasleep, -⟩ | ⟨hwant, -⟩)
  · rw [hsender d hd] at hasleep
    contradiction
  · rw [WakeWorld.wants, hact] at hwant
    contradiction

theorem Inv.attach
    (h : s.Inv) (hnone : s.world.tx.activeIf = none) (capacity : ℕ) (mtu : UInt32) :
  Inv { s with world := s.world.setIf (some (.txSetup capacity mtu)), mtu := mtu }
  := by
  refine ⟨h.listed, ?_, h.sender, ?_⟩
  · rintro i ⟨⟩
    rfl
  · intro b k hsleeps
    left
    apply (h.wake b k hsleeps).resolve_right
    rintro ⟨-, -, i, hi, -⟩
    rw [hnone] at hi
    contradiction

theorem Inv.edgeAhead_enrol
    [DecidableEq κ] (h : s.Inv) {l3len : UInt32} {loopback : Bool}
    (hadmitted : s.world.tx.txAdmit s.mtu l3len loopback = false)
    (hfits : netifbaseTxFrames l3len s.mtu ≤ netifbaseTxFrames NIB_MAX_L3 s.mtu) (k : κ) :
  (s.world.sbTxWantSpace k).EdgeAhead k
  := by
  have he := WakeWorld.enrols_one s.world k
  rw [TxPath.txAdmit] at hadmitted
  split at hadmitted
  next => contradiction
  next i hi =>
    simp only [Bool.or_eq_false_iff, NetIfBase.txAdmit, decide_eq_false_iff_not, not_le] at hadmitted
    refine ⟨he.wanted nofun ?_, he.enrolled h.listed k List.mem_cons_self, i, ?_, ?_⟩
    · rw [hi]
      rfl
    · rw [he.activeIf]
      exact hi
    · rw [h.maxFrames i hi]
      apply hadmitted.2.trans_le hfits

section Steps

variable [DecidableEq β]

theorem Inv.setSender
    (h : s.Inv) {w : WakeWorld β κ} {o : Option (DgramSend κ)}
    (hspares : WakeWorld.Spares (some b) s.world w) (hact : w.act b = .outside)
    (hheld : ∀ d ∈ o, some d.sock ∈ w.fds b ∧ (w.socks d.sock).type ≠ .tcp)
    (hwake : ∀ d ∈ o, d.asleep = true → w.EdgeAhead d.sock) :
  Inv { s with world := w, sender := update s.sender b o }
  := by
  refine h.change hspares rfl ?_ ?_
  · intro c hc
    apply update_of_ne
    rintro rfl
    contradiction
  · rintro c ⟨⟩
    constructor
    · intro d hd
      simp only [update_self] at hd
      exact ⟨hact, hheld d hd⟩
    · rintro k (⟨d, hd, hasleep, rfl⟩ | ⟨hwant, -⟩)
      · simp only [update_self] at hd
        apply hwake d hd hasleep
      · rw [WakeWorld.wants, hact] at hwant
        contradiction

variable [DecidableEq κ]

theorem Inv.sbDgramRoom
    (h : s.Inv) {d : DgramSend κ} {env : DgramPass} (hd : s.sender b = some d)
    (hfits : s.fits (.pass b env) = true) :
  (s.sbDgramRoom b d env).Inv
  := by
  obtain ⟨hact, hfds, htype⟩ := h.sender b d hd
  have hover : (s.setSender b none).Inv :=
    h.setSender (WakeWorld.spares_refl _ _) hact nofun nofun
  have he := WakeWorld.enrols_one s.world d.sock
  have hact' : (s.world.sbTxWantSpace d.sock).act b = .outside := by
    rw [he.act, hact]
  unfold SendWorld.sbDgramRoom
  split
  next => exact hover
  next l3len hl =>
    split_ifs with hadmitted hdont hexpired
    · exact hover
    · exact hover
    · exact h.setSender he.spares hact' nofun nofun
    · have hspares := he.spares.trans (WakeWorld.spares_takeSignal _ b)
      apply h.setSender hspares hact'
      · rintro _ ⟨⟩
        rw [he.fds, he.type]
        exact ⟨hfds, htype⟩
      · rintro _ ⟨⟩ -
        simp only [fits, hd, bind_some, hl, all_some, decide_eq_true_eq] at hfits
        apply h.edgeAhead_enrol (Bool.not_eq_true _ ▸ hadmitted) hfits

variable [Fintype β] [Fintype κ] {L : Lwip}

theorem Inv.base
    (h : s.Inv) (hcover : s.world.ownersCover) {l : WakeLabel β κ} (hothers : s.others l = true)
    {w : WakeWorld β κ} (hstep : WakeWorld.next L s.world l = some w) :
  Inv { s with world := w }
  := by
  have hattach : ∀ i, l ≠ .net (.attach i) := by
    rintro i rfl
    contradiction
  have hfree : ∀ b, WakeWorld.actor l = some b → s.sender b = none := by
    intro b hb
    unfold others at hothers
    split at hothers
    · contradiction
    · contradiction
    · rwa [hb, all_some, isNone_iff_eq_none] at hothers
  obtain ⟨hspares, hroomy⟩ := WakeWorld.spares_next h.listed hcover hattach hstep
  refine h.change hspares rfl (fun _ _ => rfl) ?_
  intro b hb
  constructor
  · intro d hd
    rw [hfree b hb] at hd
    contradiction
  · rintro k (⟨d, hd, -⟩ | ⟨hwant, htype⟩)
    · rw [hfree b hb] at hd
      contradiction
    · apply hroomy b hb k hwant htype

theorem Inv.step
    (h : s.Inv) (hcover : s.world.ownersCover) {l : SendLabel β κ} (hfits : s.fits l = true)
    (hstep : next L s l = some s') :
  s'.Inv
  := by
  cases l with
  | base l =>
    simp only [next, ite_none_right_eq_some, map_eq_some_iff] at hstep
    obtain ⟨hothers, w, hw, rfl⟩ := hstep
    apply h.base hcover hothers hw
  | attach capacity mtu =>
    simp only [next, ite_none_right_eq_some, some.injEq,
      isNone_iff_eq_none] at hstep
    obtain ⟨⟨-, hnone⟩, rfl⟩ := hstep
    apply h.attach hnone
  | send b k total dontwait =>
    simp only [next, ite_none_right_eq_some] at hstep
    obtain ⟨⟨hout, -, hfds, htype⟩, hstep⟩ := hstep
    split at hstep
    next =>
      cases hstep
      exact h
    next =>
      cases hstep
      apply h.setSender (WakeWorld.spares_refl _ _) (WakeWorld.isOutside_iff.mp hout)
      · rintro _ ⟨⟩
        exact ⟨hfds, htype⟩
      · rintro _ ⟨⟩ hasleep
        contradiction
  | pass b env =>
    simp only [next] at hstep
    split at hstep
    next d hd =>
      obtain ⟨-, ⟨⟩⟩ := ite_none_right_eq_some.mp hstep
      apply h.sbDgramRoom hd hfits
    next => contradiction
  | wake b we =>
    simp only [next] at hstep
    split at hstep
    next d hd =>
      obtain ⟨-, ⟨⟩⟩ := ite_none_right_eq_some.mp hstep
      obtain ⟨hact, hfds, htype⟩ := h.sender b d hd
      apply h.setSender (WakeWorld.spares_takeSignal _ b) hact
      · intro d' hd'
        split at hd'
        · obtain rfl := some.inj hd'
          exact ⟨hfds, htype⟩
        · contradiction
      · intro d' hd' hasleep
        split at hd'
        · obtain rfl := some.inj hd'
          contradiction
        · contradiction
    next => contradiction

theorem inv_of_reach
    (r : (system L).Reach (fun s l => s.world.ownersCover ∧ s.fits l = true) s) :
  s.Inv
  := by
  apply r.invariant
  · rintro s ⟨⟨hfresh, hact, -, -⟩, hnone, hsender⟩
    constructor
    · intro k hk
      obtain ⟨b, f, hf⟩ := hfresh k
      rw [hf, (WakeWorld.fresh_spec b f).1] at hk
      contradiction
    · rw [hnone]
      nofun
    · intro b d hd
      rw [hsender b] at hd
      contradiction
    · intro b k hsleeps
      apply absurd hsleeps (not_sleepsFor (hact b) _)
      rw [hsender b]
      nofun
  · rintro s l s' h ⟨hcover, hfits⟩ hstep
    apply h.step hcover hfits hstep

/-- An opener that sleeps for transmit room has its signal pending, or its socket is enrolled and some
frames of the interface are out. -/
theorem dgram_sender_wakes
    (h : (system L).Reach (fun s l => s.world.ownersCover ∧ s.fits l = true) s)
    (hsleeps : s.SleepsFor b k) :
  s.world.sig b = true ∨
    s.world.tx.txWantSpace = true ∧ k ∈ s.world.txWaiters ∧
      ∃ i ∈ s.world.tx.activeIf, i.txFree < i.txMaxFrames
  := (inv_of_reach h).wake b k hsleeps

end Steps

/-! ### A large datagram -/

def udpSocket : SendWorld Unit Unit where
  world :=
    { socks := fun _ => Fresh.sock () (.socket .udp 0)
      fds := fun _ => [some ()]
      act := fun _ => .outside
      sig := fun _ => false
      lock := none
      tx := ⟨none, false⟩
      txWaiters := [] }
  mtu := 0
  sender _ := none

theorem udpSocket_init :
  (system Lwip.reference).init udpSocket
  := ⟨⟨fun _ => ⟨(), .socket .udp 0, rfl⟩, fun _ => rfl, rfl, rfl⟩, rfl, fun _ => rfl⟩

def sendRun (mtu : UInt32) (taken : ℕ) (total : UInt32) : List (SendLabel Unit Unit) :=
  [.attach 128 mtu, .base (.net (.taken taken)), .send () () total false,
    .pass () ⟨.udp, false, false⟩]

theorem sendRun_enabled :
  ((system Lwip.reference).exec udpSocket (sendRun 1500 100 65507)).isSome = true
  := by
  decide

def waiting : SendWorld Unit Unit :=
  (system Lwip.reference).last udpSocket (sendRun 1500 100 65507) sendRun_enabled

theorem dgram_sender_wakes_waiting :
  (system Lwip.reference).Reach (fun s l => s.world.ownersCover ∧ s.fits l = true) waiting ∧
    waiting.SleepsFor () () ∧ waiting.world.tx.activeIf = some ⟨28, 45⟩ ∧
    waiting.world.tx.txWantSpace = true ∧ () ∈ waiting.world.txWaiters
  := by
  have hreach : (system Lwip.reference).Reach (fun s l => s.world.ownersCover ∧ s.fits l = true)
      waiting := by
    apply reach_last udpSocket_init
    decide
  have hsleeps : waiting.SleepsFor () () := by
    left
    use ⟨(), 65507, false, true⟩
    decide
  have hsig : waiting.world.sig () = false := by decide
  obtain hpending | ⟨hspace, hmem, -⟩ := dgram_sender_wakes hreach hsleeps
  · rw [hsig] at hpending
    contradiction
  · exact ⟨hreach, hsleeps, by decide, hspace, hmem⟩

def largeRun : List (SendLabel Unit Unit) :=
  sendRun 1480 83 65535 ++ [.base (.net (.freed 83))]

theorem largeRun_enabled :
  ((system Lwip.reference).exec udpSocket largeRun).isSome = true
  := by
  decide

def large : SendWorld Unit Unit :=
  (system Lwip.reference).last udpSocket largeRun largeRun_enabled

/-- The datagram takes one frame more than the largest one the interface knows of: its sender sleeps
while all frames are free. -/
theorem large_datagram_sleeps :
  (system Lwip.reference).Reach (fun s _ => s.world.ownersCover) large ∧ large.SleepsFor () () ∧
    large.world.sig () = false ∧ large.mtu = 1480 ∧ large.world.tx.activeIf = some ⟨128, 45⟩ ∧
    netifbaseTxFrames (65535 + 8) 1480 = 46
  := by
  have hreach : (system Lwip.reference).Reach (fun s _ => s.world.ownersCover) large := by
    apply reach_last udpSocket_init
    decide
  have hsleeps : large.SleepsFor () () := by
    left
    use ⟨(), 65535, false, true⟩
    decide
  exact ⟨hreach, hsleeps, by decide, by decide, by decide, by decide⟩

end SendWorld
