import LwipAmiga.Lib.Transition
import LwipAmiga.Socket.Api
import LwipAmiga.Socket.Delivery

/-!
# The event queue

`sb_event` records events as bits, and `GetSocketEvents` reports those of the lowest descriptor that
has some.
-/

open List TransitionSystem Option Function

def UInt32.bit (x : UInt32) (i : ℕ) : Bool :=
  x.toBitVec.getLsbD i

@[simp] theorem UInt32.bit_or (x y : UInt32) (i : ℕ) :
  (x ||| y).bit i = (x.bit i || y.bit i)
  := by
  simp [bit]

@[simp] theorem UInt32.bit_and (x y : UInt32) (i : ℕ) :
  (x &&& y).bit i = (x.bit i && y.bit i)
  := by
  simp [bit]

@[simp] theorem UInt32.bit_zero (i : ℕ) :
  (0 : UInt32).bit i = false
  := by
  simp [bit]

theorem SB_FD_ACCEPT_bit (i : ℕ) :
  SB_FD_ACCEPT.bit i = decide (i = 0)
  := by
  cases i with
  | zero => rfl
  | succ i => simp [SB_FD_ACCEPT, UInt32.bit]

/-! ### Recording and reporting -/

inductive SockCallback (κ : Type) where
  | recv (p : Option PbufChain)
  | sent
  | err (e : Err)
  | connected (pcb : TcpPcb) (e : Err)
  | accept (new : κ)
  | dgramQueue (d : SbDgram) (alloc : Bool)
  | txSpaceAvail

namespace SockCallback

variable {β κ : Type}

def run (s : SbSocket β κ) : SockCallback κ → SbSocket β κ
  | .recv p => (s.sbTcpRecvCb p).1
  | .sent => s.sbTcpSentCb.1
  | .err e => (s.sbTcpErrCb e).1
  | .connected pcb e => (s.sbTcpConnectedCb pcb e).1
  | .accept new => (s.acceptLink new).1
  | .dgramQueue d alloc => (s.sbDgramQueue d alloc).1
  | .txSpaceAvail => s.txSpaceAvail.1

def events (s : SbSocket β κ) : SockCallback κ → UInt32
  | .recv none => SB_FD_CLOSE
  | .recv (some p) =>
      (if (s.mapUrgent p).dlen = 0 then 0 else SB_FD_READ) |||
        if (s.mapUrgent p).newoob then SB_FD_OOB else 0
  | .sent => SB_FD_WRITE
  | .err _ => SB_FD_ERROR ||| SB_FD_CLOSE
  | .connected _ e => if e = .ok then SB_FD_CONNECT else SB_FD_ERROR
  | .accept _ => SB_FD_ACCEPT
  | .dgramQueue _ alloc => if SB_DGRAM_QMAX ≤ s.ndgrams || !alloc then 0 else SB_FD_READ
  | .txSpaceAvail => SB_FD_WRITE

def queues : SockCallback κ → List κ
  | .accept new => [new]
  | _ => []

theorem run_spec (s : SbSocket β κ) (c : SockCallback κ) :
  (c.run s).eventMask = s.eventMask ∧
    (c.run s).eventsPending = s.eventsPending ||| (c.events s &&& s.eventMask) ∧
    (c.run s).acceptq = s.acceptq ++ c.queues ∧ (c.run s).naccept = s.naccept + c.queues.length
  := by
  cases c with
  | recv p =>
    cases p with
    | none => exact ⟨rfl, rfl, (append_nil _).symm, rfl⟩
    | some p =>
      have hsock := (SbSocket.mapUrgent_spec s p).sock_eq
      have hmask : (s.mapUrgent p).sock.eventMask = s.eventMask := by rw [hsock]
      have hpending : (s.mapUrgent p).sock.eventsPending = s.eventsPending := by rw [hsock]
      have hacceptq : (s.mapUrgent p).sock.acceptq = s.acceptq := by rw [hsock]
      have hnaccept : (s.mapUrgent p).sock.naccept = s.naccept := by rw [hsock]
      simp only [run, events, queues, SbSocket.sbTcpRecvCb, SbSocket.sbEvent, SbSocket.enqueue]
      refine ⟨?_, ?_, ?_, ?_⟩
      · split <;> apply hmask
      · split <;> cases (s.mapUrgent p).newoob <;> simp [hmask, hpending]
      · rw [append_nil]
        split <;> apply hacceptq
      · split <;> apply hnaccept
  | connected pcb e =>
    simp only [run, events, queues, SbSocket.sbTcpConnectedCb, SbSocket.sbEvent]
    grind
  | dgramQueue d alloc =>
    simp only [run, events, queues, SbSocket.sbDgramQueue, SbSocket.sbEvent]
    split <;> simp
  | accept new => exact ⟨rfl, rfl, rfl, rfl⟩
  | sent | err e | txSpaceAvail => exact ⟨rfl, rfl, (append_nil _).symm, rfl⟩

end SockCallback

namespace SbSocket

variable {β κ : Type}

def stateEvents (s : SbSocket β κ) : UInt32 :=
  (if (if s.type = .tcp then s.rxq ≠ [] else s.ndgrams ≠ 0) then SB_FD_READ else 0) |||
  (if s.naccept ≠ 0 then SB_FD_ACCEPT else 0) |||
  (if s.rxeof then SB_FD_CLOSE else 0) |||
  (if s.err.isSome then SB_FD_ERROR else 0) |||
  (if s.type = .tcp ∧ s.connected ∧ (s.pcb.any fun pcb => 0 < pcb.sndBuf) then SB_FD_WRITE else 0) |||
  (if s.oobState = .oobMarked ∨ s.oobState = .oobHave then SB_FD_OOB else 0)

/-- `bsd_setsockopt` of `SO_EVENTMASK`. -/
def setSoEventMask (s : SbSocket β κ) (val : UInt32) : SbSocket β κ :=
  sbEvent { s with eventMask := val } s.stateEvents

def rearms (s : SbSocket β κ) : Bool :=
  1 < s.naccept && s.eventMask &&& SB_FD_ACCEPT != 0

def reported (s : SbSocket β κ) : SbSocket β κ :=
  { s with eventsPending := if s.rearms then SB_FD_ACCEPT else 0 }

theorem acceptTest_eventsPending (s : SbSocket β κ) :
  s.acceptTest.2.eventsPending = s.eventsPending
  := by
  unfold acceptTest
  grind

/-! ### The events of a socket -/

structure EventInv (s : SbSocket β κ) (due : UInt32) (owed : ℕ) : Prop where
  pending_of_due : ∀ i, due.bit i = true → s.eventsPending.bit i = true
  due_of_pending : ∀ i, s.eventsPending.bit i = true → due.bit i = true ∨ i = 0
  naccept_eq : s.naccept = s.acceptq.length
  accepts : s.eventMask.bit 0 = true → s.eventsPending.bit 0 = false → s.naccept ≤ owed

theorem EventInv.callback
    {s : SbSocket β κ} {due : UInt32} {owed : ℕ} (h : EventInv s due owed) (c : SockCallback κ) :
  EventInv (c.run s) (due ||| (c.events s &&& s.eventMask)) owed
  := by
  obtain ⟨hmask, hpending, hq, hn⟩ := SockCallback.run_spec s c
  refine ⟨?_, ?_, ?_, ?_⟩
  · intro i
    have := h.pending_of_due i
    rw [hpending]
    grind [UInt32.bit_or]
  · intro i
    have := h.due_of_pending i
    rw [hpending]
    grind [UInt32.bit_or]
  · rw [hn, hq, length_append, h.naccept_eq]
  · rw [hmask, hpending, hn]
    intro hm hp
    rw [UInt32.bit_or, Bool.or_eq_false_iff] at hp
    have hle := h.accepts hm hp.1
    cases c with
    | accept new =>
      -- the new connection is announced
      rw [UInt32.bit_and, hm, SockCallback.events, SB_FD_ACCEPT_bit] at hp
      cases hp.2
    | _ => exact hle

theorem EventInv.setEventMask
    {s : SbSocket β κ} {due : UInt32} {owed : ℕ} (h : EventInv s due owed) (val : UInt32) :
  EventInv (s.setSoEventMask val) (due ||| (s.stateEvents &&& val)) owed
  := by
  refine ⟨?_, ?_, h.naccept_eq, ?_⟩
  · intro i
    have := h.pending_of_due i
    simp only [SbSocket.setSoEventMask, SbSocket.sbEvent]
    grind [UInt32.bit_or]
  · intro i
    have := h.due_of_pending i
    simp only [SbSocket.setSoEventMask, SbSocket.sbEvent]
    grind [UInt32.bit_or]
  · intro hm hp
    simp only [SbSocket.setSoEventMask, SbSocket.sbEvent] at hm hp ⊢
    rw [UInt32.bit_or, UInt32.bit_and, hm, Bool.and_true, Bool.or_eq_false_iff] at hp
    have hzero : s.naccept = 0 := by
      by_contra hne
      simp [SbSocket.stateEvents, hne, SB_FD_ACCEPT_bit] at hp
    omega

theorem EventInv.reported
    {s : SbSocket β κ} {due : UInt32} {owed : ℕ} (h : EventInv s due owed) :
  EventInv s.reported 0 (owed + (s.eventsPending.bit 0).toNat)
  := by
  refine ⟨by simp, ?_, h.naccept_eq, ?_⟩
  · intro i hi
    right
    simp only [SbSocket.reported] at hi
    split at hi
    next => simpa [SB_FD_ACCEPT_bit] using hi
    next => simp at hi
  · intro hm hp
    simp only [SbSocket.reported] at hm hp ⊢
    split at hp
    next => cases hp
    next hrearms =>
      have hone : s.naccept ≤ 1 := by
        by_contra hlt
        apply hrearms
        rw [SbSocket.rearms, Bool.and_eq_true, decide_eq_true_eq, bne_iff_ne]
        refine ⟨by omega, fun hzero => ?_⟩
        have hbit := congrArg (UInt32.bit · 0) hzero
        simp [hm, SB_FD_ACCEPT_bit] at hbit
      cases hbit : s.eventsPending.bit 0 with
      | true => simp; omega
      | false => simpa using h.accepts hm hbit

theorem EventInv.acceptTest
    {s : SbSocket β κ} {due : UInt32} {owed : ℕ} (h : EventInv s due owed) :
  EventInv s.acceptTest.2 due (owed - 1)
  := by
  have hn := h.naccept_eq
  have := h.accepts
  unfold SbSocket.acceptTest
  by_cases hzero : s.naccept = 0
  · rw [if_pos hzero]
    have hkeep : EventInv s due (owed - 1) :=
      ⟨h.pending_of_due, h.due_of_pending, hn, by omega⟩
    cases s.err with
    | some e => apply hkeep
    | none => cases s.nonblock <;> apply hkeep
  · rw [if_neg hzero]
    cases hq : s.acceptq with
    | nil =>
      rw [hq] at hn
      apply absurd hn hzero
    | cons new q =>
      rw [hq, length_cons] at hn
      refine ⟨h.pending_of_due, h.due_of_pending, ?_, ?_⟩
      · simp [hn]
      · intro hm hp
        have := h.accepts hm hp
        dsimp only
        omega

theorem eventInv_alloc (b : β) (type : SbSockType) :
  EventInv (SbSocket.sbSockAlloc b type : SbSocket β κ) 0 0
  := by
  refine ⟨by simp, ?_, rfl, ?_⟩
  · intro i hi
    simp [SbSocket.sbSockAlloc] at hi
  · intro _ _
    apply Nat.le_refl

end SbSocket

def scanEvents {β κ : Type} (socks : κ → SbSocket β κ) : List (Option κ) → ℕ → Option (ℕ × κ)
  | [], _ => none
  | none :: tab, fd => scanEvents socks tab (fd + 1)
  | some k :: tab, fd =>
      if (socks k).eventsPending = 0 then scanEvents socks tab (fd + 1) else some (fd, k)

theorem scanEvents_spec
    {β κ : Type} {socks : κ → SbSocket β κ} {tab : List (Option κ)} {n fd : ℕ} {k : κ}
    (h : scanEvents socks tab n = some (fd, k)) :
  ∃ j, fd = n + j ∧ tab[j]? = some (some k) ∧ (socks k).eventsPending ≠ 0 ∧
    ∀ k', some k' ∈ tab.take j → (socks k').eventsPending = 0
  := by
  induction tab generalizing n with
  | nil => cases h
  | cons o tab ih =>
    cases o with
    | none =>
      obtain ⟨j, rfl, hj, hk, hlow⟩ := ih h
      refine ⟨j + 1, by omega, hj, hk, ?_⟩
      intro k' hk'
      rw [take_succ_cons] at hk'
      apply hlow k'
      simpa using hk'
    | some k₀ =>
      rw [scanEvents] at h
      split at h
      next hzero =>
        obtain ⟨j, rfl, hj, hk, hlow⟩ := ih h
        refine ⟨j + 1, by omega, hj, hk, ?_⟩
        intro k' hk'
        rw [take_succ_cons, mem_cons] at hk'
        rcases hk' with ⟨⟨⟩⟩ | hk'
        · apply hzero
        · apply hlow k' hk'
      next hne =>
        cases h
        exact ⟨0, rfl, rfl, hne, by simp⟩

theorem exists_scanEvents
    {β κ : Type} {socks : κ → SbSocket β κ} {tab : List (Option κ)} {n j : ℕ} {k : κ}
    (hj : tab[j]? = some (some k)) (hk : (socks k).eventsPending ≠ 0) :
  ∃ j' k', j' ≤ j ∧ scanEvents socks tab n = some (n + j', k')
  := by
  induction tab generalizing n j with
  | nil => simp at hj
  | cons o tab ih =>
    have htail : o ≠ some k → ∃ j' k', j' + 1 ≤ j ∧ scanEvents socks tab (n + 1) = some (n + 1 + j', k') := by
      intro ho
      cases j with
      | zero =>
        rw [getElem?_cons_zero, some_inj] at hj
        apply absurd hj ho
      | succ j =>
        obtain ⟨j', k', hle, h⟩ := ih (n := n + 1) hj
        exact ⟨j', k', by omega, h⟩
    cases o with
    | none =>
      obtain ⟨j', k', hle, h⟩ := htail nofun
      exact ⟨j' + 1, k', hle, by rw [scanEvents, h, Nat.add_assoc, Nat.add_comm 1]⟩
    | some k₀ =>
      rw [scanEvents]
      split
      next hzero =>
        obtain ⟨j', k', hle, h⟩ := htail (by rintro ⟨⟩; apply hk hzero)
        exact ⟨j' + 1, k', hle, by rw [h, Nat.add_assoc, Nat.add_comm 1]⟩
      next => exact ⟨0, k₀, by omega, rfl⟩

/-! ### The system -/

structure EventWorld (β κ : Type) where
  fds : β → List (Option κ)
  socks : κ → SbSocket β κ
  due : κ → UInt32
  owed : κ → ℕ

inductive EventLabel (β κ : Type) where
  | callback (k : κ) (c : SockCallback κ)
  | setEventMask (k : κ) (val : UInt32)
  | getSocketEvents (b : β)
  | accept (k : κ)
  | setFds (b : β) (tab : List (Option κ))
  | reuse (k : κ) (b : β) (type : SbSockType)
  | other (k : κ) (f : SbSocket β κ → SbSocket β κ)

namespace EventWorld

variable {β κ : Type} [DecidableEq β] [DecidableEq κ]

def setSock (w : EventWorld β κ) (k : κ) (s : SbSocket β κ) (due : UInt32) (owed : ℕ) :
    EventWorld β κ :=
  { w with
    socks := Function.update w.socks k s
    due := Function.update w.due k due
    owed := Function.update w.owed k owed }

def found (w : EventWorld β κ) (b : β) : Option (ℕ × κ) :=
  scanEvents w.socks (w.fds b) 0

/-- `bsd_GetSocketEvents`: the descriptor and its events, or none. -/
def bsdGetSocketEvents (w : EventWorld β κ) (b : β) : EventWorld β κ × Option (ℕ × UInt32) :=
  match w.found b with
  | none => (w, none)
  | some (fd, k) =>
      let ev := (w.socks k).eventsPending
      (w.setSock k (w.socks k).reported 0 (w.owed k + (ev.bit 0).toNat), some (fd, ev))

def Keeps (s s' : SbSocket β κ) : Prop :=
  s'.eventMask = s.eventMask ∧ s'.eventsPending = s.eventsPending ∧ s'.acceptq = s.acceptq ∧
    s'.naccept = s.naccept

instance (s s' : SbSocket β κ) : Decidable (Keeps s s') :=
  inferInstanceAs (Decidable (_ ∧ _ ∧ _ ∧ _))

def next (w : EventWorld β κ) : EventLabel β κ → Option (EventWorld β κ)
  | .callback k c =>
      let s := w.socks k
      some (w.setSock k (c.run s) (w.due k ||| (c.events s &&& s.eventMask)) (w.owed k))
  | .setEventMask k val =>
      let s := w.socks k
      some (w.setSock k (s.setSoEventMask val) (w.due k ||| (s.stateEvents &&& val)) (w.owed k))
  | .getSocketEvents b => some (w.bsdGetSocketEvents b).1
  | .accept k => some (w.setSock k (w.socks k).acceptTest.2 (w.due k) (w.owed k - 1))
  | .setFds b tab => some { w with fds := Function.update w.fds b tab }
  | .reuse k b type => some (w.setSock k (SbSocket.sbSockAlloc b type) 0 0)
  | .other k f =>
      if Keeps (w.socks k) (f (w.socks k)) then
        some (w.setSock k (f (w.socks k)) (w.due k) (w.owed k))
      else none

def system : TransitionSystem (EventWorld β κ) (EventLabel β κ) where
  init w := (∀ k, ∃ b type, w.socks k = SbSocket.sbSockAlloc b type) ∧ (∀ k, w.due k = 0) ∧
    ∀ k, w.owed k = 0
  next := next

/-! ### The invariant -/

def Inv (w : EventWorld β κ) : Prop :=
  ∀ k, SbSocket.EventInv (w.socks k) (w.due k) (w.owed k)

omit [DecidableEq β] in
theorem Inv.setSock
    {w : EventWorld β κ} (hw : w.Inv) {k : κ} {s : SbSocket β κ} {due : UInt32} {owed : ℕ}
    (h : SbSocket.EventInv s due owed) :
  (w.setSock k s due owed).Inv
  := by
  intro k'
  by_cases hk : k' = k
  · subst hk
    simpa only [EventWorld.setSock, update_self] using h
  · simpa only [EventWorld.setSock, update_of_ne hk] using hw k'

theorem Inv.next
    {w w' : EventWorld β κ} {l : EventLabel β κ} (hw : w.Inv) (h : w.next l = some w') :
  w'.Inv
  := by
  cases l with
  | callback k c =>
    cases h
    apply hw.setSock ((hw k).callback c)
  | setEventMask k val =>
    cases h
    apply hw.setSock ((hw k).setEventMask val)
  | getSocketEvents b =>
    cases h
    unfold bsdGetSocketEvents
    split
    next => apply hw
    next fd k _ => apply hw.setSock (hw k).reported
  | accept k =>
    cases h
    apply hw.setSock (hw k).acceptTest
  | setFds b tab =>
    cases h
    apply hw
  | reuse k b type =>
    cases h
    apply hw.setSock (SbSocket.eventInv_alloc b type)
  | other k f =>
    simp only [EventWorld.next, ite_none_right_eq_some] at h
    obtain ⟨⟨hm, hp, hq, hn⟩, ⟨⟩⟩ := h
    apply hw.setSock
    obtain ⟨h₁, h₂, h₃, h₄⟩ := hw k
    refine ⟨?_, ?_, ?_, ?_⟩
    · rwa [hp]
    · rwa [hp]
    · rwa [hn, hq]
    · rwa [hm, hp, hn]

theorem inv_of_reachable
    {w : EventWorld β κ} (hw : system.Reachable w) :
  w.Inv
  := by
  apply hw.invariant
  · rintro w ⟨hsocks, hdue, howed⟩ k
    obtain ⟨b, type, hk⟩ := hsocks k
    rw [hk, hdue, howed]
    apply SbSocket.eventInv_alloc
  · intro w l w' h _ hnext
    apply h.next hnext

/-! ### Delivery -/

def Clean (w : EventWorld β κ) (b : β) (n : ℕ) : Prop :=
  ∀ k, some k ∈ (w.fds b).take n → (w.socks k).eventsPending = 0

def Calm (b : β) (fd : ℕ) (w : EventWorld β κ) : EventLabel β κ → Prop
  | .callback k c =>
      some k ∈ (w.fds b).take fd → c.events (w.socks k) &&& (w.socks k).eventMask = 0
  | .setEventMask k _ => some k ∉ (w.fds b).take fd
  | .getSocketEvents _ => ∀ k, some k ∈ (w.fds b).take fd → (w.socks k).rearms = false
  | .setFds b' _ => b' ≠ b
  | .reuse k _ _ => some k ∉ w.fds b
  | _ => True

def Reports (k : κ) (i : ℕ) : EventWorld β κ → List (EventLabel β κ) → Prop
  | _, [] => False
  | w, l :: ls =>
      (∃ b fd, l = .getSocketEvents b ∧ w.found b = some (fd, k) ∧
        (w.socks k).eventsPending.bit i = true) ∨
      ∃ w', w.next l = some w' ∧ Reports k i w' ls

def isGet (b : β) : EventLabel β κ → Bool
  | .getSocketEvents b' => b' = b
  | _ => false

omit [DecidableEq β] in
@[simp] theorem setSock_fds
    (w : EventWorld β κ) (k : κ) (s : SbSocket β κ) (due : UInt32) (owed : ℕ) :
  (w.setSock k s due owed).fds = w.fds
  := rfl

omit [DecidableEq β] in
theorem setSock_socks
    (w : EventWorld β κ) (k : κ) (s : SbSocket β κ) (due : UInt32) (owed : ℕ) (k' : κ) :
  (w.setSock k s due owed).socks k' = if k' = k then s else w.socks k'
  := update_apply ..

omit [DecidableEq β] in
theorem setSock_due
    (w : EventWorld β κ) (k : κ) (s : SbSocket β κ) (due : UInt32) (owed : ℕ) (k' : κ) :
  (w.setSock k s due owed).due k' = if k' = k then due else w.due k'
  := update_apply ..

theorem Calm.fds_eq
    {b : β} {fd : ℕ} {w w' : EventWorld β κ} {l : EventLabel β κ} (hl : Calm b fd w l)
    (h : w.next l = some w') :
  w'.fds b = w.fds b
  := by
  cases l with
  | setFds b' tab =>
    cases h
    apply update_of_ne (Ne.symm hl)
  | getSocketEvents b' =>
    cases h
    unfold bsdGetSocketEvents
    split <;> rfl
  | other k f =>
    simp only [next, ite_none_right_eq_some] at h
    obtain ⟨-, ⟨⟩⟩ := h
    rfl
  | _ =>
    cases h
    rfl

theorem Calm.clean
    {b : β} {fd n : ℕ} {w w' : EventWorld β κ} {l : EventLabel β κ} (hl : Calm b fd w l)
    (h : w.next l = some w') (hn : n ≤ fd) (hclean : w.Clean b n) :
  w'.Clean b n
  := by
  intro k hk
  rw [hl.fds_eq h] at hk
  have hmem : some k ∈ (w.fds b).take fd := take_subset_take_left _ hn hk
  have hzero := hclean k hk
  cases l with
  | callback k₀ c =>
    cases h
    rw [setSock_socks]
    split
    next heq =>
      subst heq
      rw [(SockCallback.run_spec _ c).2.1, hzero, hl hmem, UInt32.or_zero]
    next => apply hzero
  | setEventMask k₀ val =>
    cases h
    rw [setSock_socks, if_neg]
    · apply hzero
    · rintro rfl
      apply hl hmem
  | getSocketEvents b' =>
    cases h
    unfold bsdGetSocketEvents
    split
    next => apply hzero
    next fd' k₀ _ =>
      rw [setSock_socks]
      split
      next heq =>
        subst heq
        rw [SbSocket.reported, hl k hmem]
        rfl
      next => apply hzero
  | accept k₀ =>
    cases h
    rw [setSock_socks]
    split
    next heq =>
      subst heq
      rw [SbSocket.acceptTest_eventsPending, hzero]
    next => apply hzero
  | setFds b' tab =>
    cases h
    apply hzero
  | reuse k₀ b' type =>
    cases h
    rw [setSock_socks]
    split
    next => rfl
    next => apply hzero
  | other k₀ f =>
    simp only [next, ite_none_right_eq_some] at h
    obtain ⟨hkeeps, ⟨⟩⟩ := h
    rw [setSock_socks]
    split
    next heq =>
      subst heq
      rw [hkeeps.2.1, hzero]
    next => apply hzero

theorem Calm.due
    {b : β} {fd i : ℕ} {k : κ} {w w' : EventWorld β κ} {l : EventLabel β κ} (hl : Calm b fd w l)
    (h : w.next l = some w') (hk : (w.fds b)[fd]? = some (some k)) (hdue : (w.due k).bit i = true)
    (hnot : ∀ b' fd', l = .getSocketEvents b' → w.found b' ≠ some (fd', k)) :
  (w'.due k).bit i = true
  := by
  cases l with
  | callback k₀ c | setEventMask k₀ val =>
    cases h
    rw [setSock_due]
    split
    next heq =>
      subst heq
      rw [UInt32.bit_or, hdue, Bool.true_or]
    next => apply hdue
  | getSocketEvents b' =>
    cases h
    unfold bsdGetSocketEvents
    split
    next => apply hdue
    next fd' k₀ hfound =>
      rw [setSock_due, if_neg]
      · apply hdue
      · rintro rfl
        apply hnot b' fd' rfl hfound
  | reuse k₀ b' type =>
    cases h
    rw [setSock_due, if_neg]
    · apply hdue
    · rintro rfl
      apply hl (mem_of_getElem? hk)
  | setFds b' tab =>
    cases h
    apply hdue
  | accept k₀ =>
    cases h
    grind [setSock_due]
  | other k₀ f =>
    simp only [next, ite_none_right_eq_some] at h
    obtain ⟨-, ⟨⟩⟩ := h
    grind [setSock_due]

theorem Clean.getSocketEvents
    {b : β} {fd n : ℕ} {k : κ} {w w' : EventWorld β κ} (hclean : w.Clean b n)
    (hl : Calm b fd w (.getSocketEvents b)) (h : w.next (.getSocketEvents b) = some w')
    (hk : (w.fds b)[fd]? = some (some k)) (hpending : (w.socks k).eventsPending ≠ 0)
    (hnot : ∀ fd', w.found b ≠ some (fd', k)) :
  w'.Clean b (n + 1)
  := by
  obtain ⟨j, k₀, hj, hfound⟩ := exists_scanEvents (n := 0) hk hpending
  rw [Nat.zero_add] at hfound
  obtain ⟨j', hj', hat, hk₀, hlow⟩ := scanEvents_spec hfound
  obtain rfl : j = j' := by omega
  have hne : k₀ ≠ k := by
    rintro rfl
    apply hnot j hfound
  have hlt : j < fd := by
    apply Nat.lt_of_le_of_ne hj
    rintro rfl
    rw [hk] at hat
    cases hat
    apply hne rfl
  -- the descriptors that are clean come before the one that was found
  have hnj : n ≤ j := by
    by_contra hjn
    apply hk₀ (hclean k₀ _)
    apply mem_of_getElem? (i := j)
    rw [getElem?_take_of_lt (by omega), hat]
  intro k' hk'
  rw [hl.fds_eq h] at hk'
  have hmem : some k' ∈ (w.fds b).take (j + 1) := take_subset_take_left _ (by omega) hk'
  have hnext : w' = w.setSock k₀ (w.socks k₀).reported 0
      (w.owed k₀ + ((w.socks k₀).eventsPending.bit 0).toNat) := by
    cases h
    rw [bsdGetSocketEvents, show w.found b = some (j, k₀) from hfound]
  rw [hnext, setSock_socks]
  split
  next heq =>
    subst heq
    have hrearms : (w.socks k').rearms = false := by
      apply hl k'
      apply mem_of_getElem? (i := j)
      rw [getElem?_take_of_lt hlt, hat]
    rw [SbSocket.reported, hrearms]
    rfl
  next hne' =>
    apply hlow k'
    rw [take_add_one, hat, toList_some, mem_append, mem_singleton] at hmem
    rcases hmem with hmem | ⟨⟨⟩⟩
    · apply hmem
    · apply absurd rfl hne'

theorem reports_of_calm
    {b : β} {fd i n : ℕ} {k : κ} {w : EventWorld β κ} {ls : List (EventLabel β κ)} (hw : w.Inv)
    (hclean : w.Clean b n) (hk : (w.fds b)[fd]? = some (some k)) (hdue : (w.due k).bit i = true)
    (hcalm : system.Along (Calm b fd) w ls) (hexec : (system.exec w ls).isSome = true)
    (hcount : fd < n + ls.countP (isGet b)) :
  Reports k i w ls
  := by
  induction ls generalizing w n with
  | nil =>
    have hmem : some k ∈ (w.fds b).take n := by
      apply mem_of_getElem? (i := fd)
      rw [getElem?_take_of_lt (by simpa using hcount), hk]
    have hbit := (hw k).pending_of_due i hdue
    rw [hclean k hmem, UInt32.bit_zero] at hbit
    cases hbit
  | cons l ls ih =>
    have hbit := (hw k).pending_of_due i hdue
    have hpending : (w.socks k).eventsPending ≠ 0 := by
      intro hzero
      rw [hzero, UInt32.bit_zero] at hbit
      cases hbit
    have hn : n ≤ fd := by
      by_contra hlt
      apply hpending (hclean k _)
      apply mem_of_getElem? (i := fd)
      rw [getElem?_take_of_lt (by omega), hk]
    by_cases hreport : ∃ b' fd', l = .getSocketEvents b' ∧ w.found b' = some (fd', k)
    · left
      obtain ⟨b', fd', hl, hfound⟩ := hreport
      exact ⟨b', fd', hl, hfound, hbit⟩
    · right
      obtain ⟨w', hnext⟩ : ∃ w', w.next l = some w' := by
        apply isSome_iff_exists.mp
        cases hnext : w.next l with
        | some w' => rfl
        | none =>
          rw [exec, show system.next w l = none from hnext] at hexec
          cases hexec
      have hl : Calm b fd w l := hcalm.1
      have hnot : ∀ b' fd', l = .getSocketEvents b' → w.found b' ≠ some (fd', k) :=
        fun b' fd' hb hfound => hreport ⟨b', fd', hb, hfound⟩
      refine ⟨w', hnext, ?_⟩
      have hexec' : (system.exec w' ls).isSome = true := by
        rw [exec, show system.next w l = some w' from hnext] at hexec
        apply hexec
      have hk' : (w'.fds b)[fd]? = some (some k) := by
        rw [hl.fds_eq hnext, hk]
      have hdue' := hl.due hnext hk hdue hnot
      by_cases hget : l = .getSocketEvents b
      · subst hget
        apply ih (hw.next hnext) (hclean.getSocketEvents hl hnext hk hpending (hnot b · rfl)) hk' hdue'
          (hcalm.2 w' hnext) hexec'
        rw [countP_cons_of_pos (by simp [isGet])] at hcount
        omega
      · apply ih (hw.next hnext) (hl.clean hnext hn hclean) hk' hdue' (hcalm.2 w' hnext) hexec'
        rw [countP_cons_of_neg] at hcount
        · apply hcount
        · cases l <;> grind [isGet]

/-- Every event recorded is pending until it is reported, and nothing else is but repeats of
`FD_ACCEPT`; an event that is due is reported by one of `fd + 1` calls. -/
theorem events_delivered
    {w : EventWorld β κ} (hw : system.Reachable w) :
  (∀ k i, (w.due k).bit i = true → (w.socks k).eventsPending.bit i = true) ∧
    (∀ k i, (w.socks k).eventsPending.bit i = true → (w.due k).bit i = true ∨ i = 0) ∧
    (∀ b fd ev, (w.bsdGetSocketEvents b).2 = some (fd, ev) →
      ∃ k, (w.fds b)[fd]? = some (some k) ∧ ev = (w.socks k).eventsPending ∧ ev ≠ 0) ∧
    (∀ b k, (w.bsdGetSocketEvents b).2 = none → some k ∈ w.fds b → (w.socks k).eventsPending = 0) ∧
    (∀ k, (w.socks k).eventMask.bit 0 = true → (w.socks k).eventsPending.bit 0 = false →
      (w.socks k).acceptq.length ≤ w.owed k) ∧
    ∀ b fd k i ls, (w.fds b)[fd]? = some (some k) → (w.due k).bit i = true →
      system.Along (Calm b fd) w ls → (system.exec w ls).isSome = true →
      fd < ls.countP (isGet b) → Reports k i w ls
  := by
  have hinv := inv_of_reachable hw
  refine ⟨fun k => (hinv k).pending_of_due, fun k => (hinv k).due_of_pending, ?_, ?_, ?_, ?_⟩
  · intro b fd ev h
    cases hfound : w.found b with
    | none =>
      rw [bsdGetSocketEvents, hfound] at h
      cases h
    | some r =>
      rw [bsdGetSocketEvents, hfound] at h
      cases h
      obtain ⟨j, hj, hat, hne, -⟩ := scanEvents_spec hfound
      rw [Nat.zero_add] at hj
      exact ⟨r.2, hj ▸ hat, rfl, hne⟩
  · intro b k h hk
    by_contra hne
    obtain ⟨j, hj⟩ := getElem?_of_mem hk
    obtain ⟨j', k', -, hfound⟩ := exists_scanEvents (n := 0) hj hne
    rw [bsdGetSocketEvents, show w.found b = some (0 + j', k') from hfound] at h
    cases h
  · intro k hm hp
    rw [← (hinv k).naccept_eq]
    apply (hinv k).accepts hm hp
  · intro b fd k i ls hk hdue hcalm hexec hcount
    apply reports_of_calm (n := 0) hinv _ hk hdue hcalm hexec (by omega)
    intro k' hk'
    simp at hk'

def start : EventWorld Unit ℕ where
  fds _ := [some 0, some 1]
  socks k := SbSocket.sbSockAlloc () (if k = 0 then .tcp else .udp)
  due _ := 0
  owed _ := 0

def oneRun : List (EventLabel Unit ℕ) :=
  [.setEventMask 0 SB_FD_ACCEPT, .setEventMask 1 SB_FD_READ, .callback 0 (.accept 2),
    .callback 1 (.dgramQueue ⟨[], 0, 0⟩ true)]

def twoRun : List (EventLabel Unit ℕ) :=
  oneRun ++ [.callback 0 (.accept 3)]

theorem init_start :
  system.init start
  := ⟨fun _ => ⟨(), _, rfl⟩, fun _ => rfl, fun _ => rfl⟩

theorem events_delivered_one :
  ∃ w, system.exec start oneRun = some w ∧
    Reports 1 3 w [.getSocketEvents (), .getSocketEvents ()]
  := by
  refine ⟨system.last start oneRun rfl, rfl, ?_⟩
  apply (events_delivered (reachable_last init_start)).2.2.2.2.2 () 1 1 3 _ rfl rfl
  · constructor
    · rintro k hk
      cases mem_singleton.mp hk
      rfl
    · rintro _ ⟨⟩
      constructor
      · rintro k hk
        cases mem_singleton.mp hk
        rfl
      · rintro _ ⟨⟩
        trivial
  · rfl
  · decide

structure Starved (w : EventWorld Unit ℕ) : Prop where
  fds : w.fds () = [some 0, some 1]
  rearms : (w.socks 0).rearms = true
  pending : (w.socks 0).eventsPending ≠ 0
  due : (w.due 1).bit 3 = true

theorem Starved.found {w : EventWorld Unit ℕ} (h : w.Starved) :
  w.found () = some (0, 0)
  := by
  rw [EventWorld.found, h.fds, scanEvents, if_neg h.pending]

theorem Starved.next {w : EventWorld Unit ℕ} (h : w.Starved) :
  ∃ w', w.next (.getSocketEvents ()) = some w' ∧ w'.Starved
  := by
  refine ⟨_, rfl, ?_⟩
  rw [bsdGetSocketEvents, h.found]
  refine ⟨h.fds, ?_, ?_, h.due⟩
  · apply h.rearms
  · change (w.socks 0).reported.eventsPending ≠ 0
    rw [SbSocket.reported, h.rearms]
    apply (by decide : SB_FD_ACCEPT ≠ 0)

/-- While nobody accepts, every call reports the listener, and the datagram is due for ever. -/
theorem listener_starves :
  ∃ w, system.exec start twoRun = some w ∧
    ∀ n, ∃ w', system.exec w (List.replicate n (.getSocketEvents ())) = some w' ∧
      (w'.bsdGetSocketEvents ()).2.map Prod.fst = some 0 ∧ (w'.due 1).bit 3 = true
  := by
  refine ⟨system.last start twoRun rfl, rfl, fun n => ?_⟩
  have hrun : ∀ w : EventWorld Unit ℕ, w.Starved →
      ∃ w', system.exec w (replicate n (.getSocketEvents ())) = some w' ∧ w'.Starved := by
    induction n with
    | zero => exact fun w hw => ⟨w, rfl, hw⟩
    | succ n ih =>
      intro w hw
      obtain ⟨w₁, hnext, hw₁⟩ := hw.next
      obtain ⟨w', hexec, hw'⟩ := ih w₁ hw₁
      refine ⟨w', ?_, hw'⟩
      rw [replicate_succ, exec, show system.next w (.getSocketEvents ()) = some w₁ from hnext]
      apply hexec
  obtain ⟨w', hexec, hw'⟩ := hrun (system.last start twoRun rfl) ⟨rfl, rfl, by decide, rfl⟩
  refine ⟨w', hexec, ?_, hw'.due⟩
  rw [bsdGetSocketEvents, hw'.found]
  rfl

end EventWorld
