import LwipAmiga.Wake.System

/-!
# The invariant of sleeping openers

An opener that is asleep in a blocking call waits for something that has not happened, or its signal
is pending.
-/

open List Function

namespace WakeWorld

variable {β κ : Type}

def asleep (w : WakeWorld β κ) (b : β) : Bool :=
  (w.act b).asleep

def wants (w : WakeWorld β κ) (b : β) : List (κ × Want) :=
  (w.act b).wants (w.fds b)

def blocked (w : WakeWorld β κ) (b : β) : Prop :=
  ∀ p ∈ w.wants b, (w.socks p.1).ready w.tx.txWritable p.2 = false

def ownersCover (w : WakeWorld β κ) : Prop :=
  ∀ b k, some k ∈ w.fds b → b ∈ (w.socks k).sbWake

def undisturbed (w : WakeWorld β κ) : WakeLabel β κ → Prop
  | .event k e => ∀ b, ∀ p ∈ w.wants b, p.1 = k → e.stirs p.2 = false
  | _ => True

def Waits (w : WakeWorld β κ) (b : β) : Prop :=
  ∀ p ∈ w.wants b, (w.socks p.1).ready w.tx.txWritable p.2 = false ∧
    (p.2 = .write → (w.socks p.1).type ≠ .tcp → p.1 ∈ w.txWaiters ∧ w.tx.txWantSpace = true)

theorem Waits.blocked
    {w : WakeWorld β κ} {b : β} (h : w.Waits b) :
  w.blocked b
  := fun p hp => (h p hp).1

structure Inv (w : WakeWorld β κ) : Prop where
  held : ∀ b k, (w.act b).on = some k → some k ∈ w.fds b
  waiting : ∀ k, (w.socks k).txWaiting = true → k ∈ w.txWaiters
  counted : ∀ k, (w.socks k).naccept = (w.socks k).acceptq.length
  noLost : Wakeup.NoLost (w.asleep · = true) w.Waits w.sig

/-! ### What a call waits for -/

theorem asleep_of_mem_wants
    {tab : List (Option κ)} {a : Activity κ} {p : κ × Want} (h : p ∈ a.wants tab) :
  a.asleep = true
  := by
  cases a with
  | outside => contradiction
  | recv k c =>
    cases hc : c.want with
    | none => simp [Activity.wants, hc] at h
    | some x => simp [Activity.asleep, hc]
  | dgram k peek dontwait a | accept k a | connect k a | send k left dontwait a
  | select nfds sets poll a =>
    cases a with
    | true => rfl
    | false => contradiction

theorem mem_selectWants
    {tab : List (Option κ)} {nfds : ℕ} {sets : FdKind → Option FdSet} {p : κ × Want} :
  p ∈ selectWants tab nfds sets ↔
    ∃ fd < nfds, tab[fd]?.join = some p.1 ∧ ∃ x, sbFdBit (sets x) fd = true ∧ x.want = p.2
  := by
  simp only [selectWants, mem_flatMap, mem_range]
  constructor
  · rintro ⟨fd, hfd, hp⟩
    refine ⟨fd, hfd, ?_⟩
    split at hp
    next => contradiction
    next k htab =>
      simp only [mem_map, mem_filter] at hp
      obtain ⟨x, ⟨-, hbit⟩, rfl⟩ := hp
      exact ⟨htab, x, hbit, rfl⟩
  · rintro ⟨fd, hfd, htab, x, hbit, hx⟩
    refine ⟨fd, hfd, ?_⟩
    simp only [htab, mem_map, mem_filter]
    exact ⟨x, ⟨x.mem_all, hbit⟩, by rw [hx]⟩

theorem held_of_mem_wants
    {tab : List (Option κ)} {a : Activity κ} {p : κ × Want} (h : p ∈ a.wants tab)
    (hon : ∀ k, a.on = some k → some k ∈ tab) :
  some p.1 ∈ tab
  := by
  cases a with
  | outside => contradiction
  | recv k c =>
    simp only [Activity.wants, mem_map] at h
    obtain ⟨x, -, rfl⟩ := h
    exact hon k rfl
  | dgram k peek dontwait a | accept k a | connect k a | send k left dontwait a =>
    cases a with
    | false => contradiction
    | true =>
      obtain rfl := mem_singleton.mp h
      exact hon k rfl
  | select nfds sets poll a =>
    cases a with
    | false => contradiction
    | true =>
      obtain ⟨fd, -, htab, -⟩ := mem_selectWants.mp h
      exact mem_of_getElem? (Option.join_eq_some_iff.mp htab)

theorem Inv.held_of_wants
    {w : WakeWorld β κ} (h : w.Inv) {b : β} {p : κ × Want} (hp : p ∈ w.wants b) :
  some p.1 ∈ w.fds b
  := held_of_mem_wants hp (h.held b)

/-! ### Transmit room and readiness -/

theorem ready_of_room
    {s : SbSocket β κ} {x : Want} {room room' : Bool} (h : s.ready room' x = true)
    (hx : room' = true → room = true ∨ x ≠ .write ∨ s.type = .tcp) :
  s.ready room x = true
  := by
  by_cases hw : x = .write ∧ s.type ≠ .tcp
  · obtain ⟨rfl, htype⟩ := hw
    simp only [SbSocket.ready, SbSocket.sbSockWritable, ne_eq, htype, not_false_eq_true,
      if_true] at h ⊢
    split at h
    next herr => simp [herr]
    next herr =>
      obtain hroom | hne | htcp := hx h
      · simp [hroom]
      · contradiction
      · contradiction
  · cases x with
    | write =>
      have htype : s.type = .tcp := by
        by_contra htype
        exact hw ⟨rfl, htype⟩
      simpa [SbSocket.ready, SbSocket.sbSockWritable, htype] using h
    | _ => exact h

/-! ### Steps that leave the calls alone -/

section Change

variable {w w' : WakeWorld β κ}

theorem wants_congr
    (hfds : w'.fds = w.fds) (hact : w'.act = w.act) (b : β) :
  w'.wants b = w.wants b
  := by
  rw [wants, wants, hfds, hact]

theorem Waits.mono
    {b : β} (h : w.Waits b) (hwants : w'.wants b = w.wants b)
    (hready : ∀ p ∈ w.wants b, (w'.socks p.1).ready w'.tx.txWritable p.2 = true →
      (w.socks p.1).ready w.tx.txWritable p.2 = true)
    (htype : ∀ k, (w'.socks k).type = (w.socks k).type) (hwaiters : w.txWaiters ⊆ w'.txWaiters)
    (hspace : w.tx.txWantSpace = true → w'.tx.txWantSpace = true) :
  w'.Waits b
  := by
  intro p hp
  rw [hwants] at hp
  obtain ⟨hnot, henrolled⟩ := h p hp
  constructor
  · rw [Bool.eq_false_iff] at hnot ⊢
    exact fun hr => hnot (hready p hp hr)
  · intro hx ht
    rw [htype] at ht
    obtain ⟨hmem, hs⟩ := henrolled hx ht
    exact ⟨hwaiters hmem, hspace hs⟩

theorem Inv.change
    (h : w.Inv) (hfds : w'.fds = w.fds) (hact : w'.act = w.act)
    (hwaiting : ∀ k, (w'.socks k).txWaiting = true → k ∈ w'.txWaiters)
    (hcounted : ∀ k, (w'.socks k).naccept = (w'.socks k).acceptq.length)
    (hsig : ∀ b, w.sig b = true → w'.sig b = true)
    (hwaits : ∀ b, w.Waits b → w'.sig b = true ∨ w'.Waits b) :
  w'.Inv
  := by
  constructor
  · rw [hact, hfds]
    exact h.held
  · exact hwaiting
  · exact hcounted
  · apply h.noLost.change
    · intro b hb
      rwa [asleep, hact] at hb
    · exact fun b _ => hsig b
    · exact fun b _ => hwaits b

theorem Inv.setLock
    (h : w.Inv) (o : Option β) :
  Inv { w with lock := o }
  := h.change rfl rfl h.waiting h.counted (fun _ => id) fun _ hb => Or.inr hb

end Change

section Steps

variable [DecidableEq β] {w w' : WakeWorld β κ}

theorem Inv.settle
    (h : w.Inv) {b : β} {a : Activity κ} (hon : ∀ k, a.on = some k → some k ∈ w.fds b)
    (hwaits : ∀ p ∈ a.wants (w.fds b), (w.socks p.1).ready w.tx.txWritable p.2 = false ∧
      (p.2 = .write → (w.socks p.1).type ≠ .tcp →
        p.1 ∈ w.txWaiters ∧ w.tx.txWantSpace = true)) :
  (w.settle b a).Inv
  := by
  constructor
  · intro c k hk
    by_cases hc : c = b
    · subst hc
      simp only [WakeWorld.settle, update_self] at hk
      exact hon k hk
    · simp only [WakeWorld.settle, update_of_ne hc] at hk
      exact h.held c k hk
  · exact h.waiting
  · exact h.counted
  · apply h.noLost.act b
    · intro c hc hcs
      simpa [asleep, WakeWorld.settle, hc] using hcs
    · intro c hc hcs
      simp only [WakeWorld.settle]
      split
      · simpa [hc] using hcs
      · exact hcs
    · intro c hc _ hcw
      right
      intro p hp
      apply hcw p
      simpa [wants, WakeWorld.settle, hc] using hp
    · intro _ p hp
      apply hwaits p
      simpa [wants, WakeWorld.settle] using hp

theorem Inv.finish
    (h : w.Inv) (b : β) :
  (w.settle b .outside).Inv
  := h.settle nofun nofun

theorem Inv.setTable
    (h : w.Inv) {b : β} (hb : w.act b = .outside) (tab : List (Option κ)) :
  (w.setTable b tab).Inv
  := by
  have hne : ∀ c, w.act c ≠ .outside → (w.setTable b tab).fds c = w.fds c := by
    intro c hc
    apply update_of_ne
    rintro rfl
    exact hc hb
  constructor
  · intro c k hk
    rw [hne c]
    · exact h.held c k hk
    · intro hout
      rw [WakeWorld.setTable, hout] at hk
      contradiction
  · exact h.waiting
  · exact h.counted
  · apply h.noLost.change
    · exact fun _ => id
    · exact fun _ _ => id
    · intro c hc hcw
      right
      intro p hp
      apply hcw p
      have hout : w.act c ≠ .outside := by
        intro hout
        rw [asleep, WakeWorld.setTable, hout] at hc
        contradiction
      rwa [wants, hne c hout] at hp

variable [DecidableEq κ]

theorem Inv.setSock
    (h : w.Inv) {k : κ} {s : SbSocket β κ} {n : Notices}
    (hkind : SbSocket.SameKind (w.socks k) s)
    (heffect : n.wake = true ∧ (∀ b, some k ∈ w.fds b → b ∈ s.sbWake) ∨
      ∀ b, ∀ p ∈ w.wants b, p.1 = k → SbSocket.CalmFor (w.socks k) s p.2) :
  (w.setSock k s n).Inv
  := by
  have hkinds : ∀ j, SbSocket.SameKind (w.socks j) ((w.setSock k s n).socks j) := by
    intro j
    by_cases hj : j = k
    · subst hj
      simpa [WakeWorld.setSock] using hkind
    · simpa [WakeWorld.setSock, hj] using SbSocket.SameKind.refl _
  have hsig : ∀ b, w.sig b = true → (w.setSock k s n).sig b = true := by
    intro b hb
    simp only [WakeWorld.setSock]
    split
    · exact Wakeup.signal_of_pending hb
    · exact hb
  apply h.change (rfl : (w.setSock k s n).fds = w.fds) rfl
  · intro j hj
    exact h.waiting j ((hkinds j).txWaiting hj)
  · intro j
    exact (hkinds j).naccept (h.counted j)
  · exact hsig
  · intro b hb
    have hstay : (∀ p ∈ w.wants b, p.1 = k → SbSocket.CalmFor (w.socks k) s p.2) →
        (w.setSock k s n).Waits b := by
      intro hcalm
      refine hb.mono rfl ?_ (fun j => (hkinds j).type) (fun _ => id) id
      intro p hp hready
      by_cases hpk : p.1 = k
      · have hready' : s.ready w.tx.txWritable p.2 = true := by
          simpa [WakeWorld.setSock, hpk] using hready
        rw [hpk]
        exact hcalm p hp hpk _ hready'
      · simpa [WakeWorld.setSock, hpk] using hready
    obtain ⟨hwake, howners⟩ | hcalm := heffect
    · by_cases hex : ∃ p ∈ w.wants b, p.1 = k
      · obtain ⟨p, hp, rfl⟩ := hex
        left
        simp only [WakeWorld.setSock, hwake, if_true]
        exact Wakeup.signal_of_mem (howners b (h.held_of_wants hp))
      · right
        apply hstay
        intro p hp hpk
        exact absurd ⟨p, hp, hpk⟩ hex
    · right
      exact hstay (hcalm b)

theorem Inv.setSock_calm
    (h : w.Inv) {k : κ} {s : SbSocket β κ}
    (hs : SbSocket.SameKind (w.socks k) s ∧ SbSocket.Calm (w.socks k) s) :
  (w.setSock k s SbSocket.quiet).Inv
  := h.setSock hs.1 (Or.inr fun _ p _ _ => hs.2.calmFor p.2)

end Steps

end WakeWorld
