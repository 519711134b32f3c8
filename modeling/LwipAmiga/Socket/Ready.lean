import LwipAmiga.Socket.Api
import LwipAmiga.Socket.Recv

/-!
# What sleeping calls wait for

`recv` waits for bytes, the end or an error, `accept` for a connection, `WaitSelect` for any of many
things.
-/

inductive Want where
  | recv
  | recvOob
  | recvDgram
  | accept
  | connect
  | send
  | read
  | write
  | except
  deriving DecidableEq

namespace SbSocket

variable {β κ : Type}

/-- `sb_tcp_send` would not sleep: the call fails, or `tcp_write` takes a byte. -/
def sendReady (s : SbSocket β κ) : Bool :=
  s.err.isSome || s.shutWr ||
    match s.pcb with
    | none => true
    | some pcb => !s.connecting && (!s.connected || (decide (0 < pcb.sndBuf) && !pcb.memFull))

def ready (s : SbSocket β κ) (txRoom : Bool) : Want → Bool
  | .recv =>
      !s.rxq.isEmpty || s.rxeof || s.shutRd || s.err.isSome || s.pcb.isNone ||
        (!s.connected && !s.connecting)
  | .recvOob =>
      s.oobState != .oobMarked || s.err.isSome || s.rxeof || s.shutRd || s.pcb.isNone
  | .recvDgram => s.ndgrams != 0 || s.err.isSome
  | .accept => s.naccept != 0 || s.err.isSome
  | .connect => !s.connecting || s.err.isSome
  | .send => s.sendReady
  | .read => s.sbSockReadable
  | .write => s.sbSockWritable txRoom
  | .except => s.sbSockExceptable

def CalmFor (s s' : SbSocket β κ) (x : Want) : Prop :=
  ∀ txRoom, s'.ready txRoom x = true → s.ready txRoom x = true

def PcbCalm : Option TcpPcb → Option TcpPcb → Prop
  | none, none => True
  | some pcb, some pcb' =>
      pcb'.sndBuf ≤ pcb.sndBuf ∧ (pcb.memFull = true → pcb'.memFull = true)
  | _, _ => False

theorem PcbCalm.refl (o : Option TcpPcb) :
  PcbCalm o o
  := by
  cases o with
  | none => trivial
  | some pcb => exact ⟨le_refl _, id⟩

structure Calm (s s' : SbSocket β κ) : Prop where
  type : s'.type = s.type
  connected : s'.connected = s.connected
  connecting : s'.connecting = s.connecting
  rxeof : s'.rxeof = s.rxeof
  shutRd : s'.shutRd = s.shutRd
  shutWr : s'.shutWr = s.shutWr
  err : s'.err.isSome = true → s.err.isSome = true
  rxq : s.rxq = [] → s'.rxq = []
  oobState : s'.oobState = s.oobState ∨
    s.oobState ≠ .oobMarked ∧ s'.oobState ≠ .oobMarked ∧ s'.oobState ≠ .oobHave
  ndgrams : s.ndgrams = 0 → s'.ndgrams = 0
  naccept : s.naccept = 0 → s'.naccept = 0
  pcb : PcbCalm s.pcb s'.pcb

variable {s s' : SbSocket β κ}

theorem PcbCalm.isNone
    {o o' : Option TcpPcb} (h : PcbCalm o o') :
  o'.isNone = o.isNone
  := by
  cases o <;> cases o' <;> first | rfl | contradiction

theorem Calm.sendReady
    (h : Calm s s') (hs : s'.sendReady = true) :
  s.sendReady = true
  := by
  unfold SbSocket.sendReady at hs ⊢
  rw [Bool.or_eq_true, Bool.or_eq_true, h.shutWr] at hs
  rw [Bool.or_eq_true, Bool.or_eq_true]
  obtain (herr | hshut) | hpcb := hs
  · exact Or.inl (Or.inl (h.err herr))
  · exact Or.inl (Or.inr hshut)
  · right
    have hcalm := h.pcb
    cases hp : s.pcb with
    | none => rfl
    | some pcb =>
      cases hp' : s'.pcb with
      | none =>
        rw [hp, hp'] at hcalm
        contradiction
      | some pcb' =>
        rw [hp, hp'] at hcalm
        obtain ⟨hle, hfull⟩ := hcalm
        simp only [hp', h.connecting, h.connected, Bool.and_eq_true, Bool.not_eq_true',
          Bool.or_eq_true, decide_eq_true_eq] at hpcb
        simp only [Bool.and_eq_true, Bool.not_eq_true', Bool.or_eq_true, decide_eq_true_eq]
        obtain ⟨hconnecting, hrest⟩ := hpcb
        refine ⟨hconnecting, hrest.imp_right ?_⟩
        rintro ⟨hpos, hmem⟩
        refine ⟨by omega, ?_⟩
        rw [Bool.eq_false_iff]
        intro hm
        rw [hfull hm] at hmem
        contradiction

theorem Calm.calmFor
    (h : Calm s s') (x : Want) :
  CalmFor s s' x
  := by
  have hnone := h.pcb.isNone
  have hrxq : s'.rxq.isEmpty = false → s.rxq.isEmpty = false := by
    intro hne
    rw [List.isEmpty_eq_false_iff] at hne ⊢
    exact fun hq => hne (h.rxq hq)
  have hdgrams : (s'.ndgrams != 0) = true → (s.ndgrams != 0) = true := by
    simp only [bne_iff_ne]
    exact fun hne hn => hne (h.ndgrams hn)
  have hqueued : (s'.naccept != 0) = true → (s.naccept != 0) = true := by
    simp only [bne_iff_ne]
    exact fun hne hn => hne (h.naccept hn)
  intro txRoom hready
  cases x with
  | recv =>
    simp only [ready, Bool.or_eq_true, Bool.not_eq_true', h.rxeof, h.shutRd, hnone,
      h.connected, h.connecting] at hready ⊢
    obtain ((((hq | hq) | hq) | hq) | hq) | hq := hready
    · simp [hrxq hq]
    · simp [hq]
    · simp [hq]
    · simp [h.err hq]
    · simp [hq]
    · simp [hq]
  | recvOob =>
    simp only [ready, Bool.or_eq_true, bne_iff_ne, h.rxeof, h.shutRd, hnone] at hready ⊢
    obtain (((hq | hq) | hq) | hq) | hq := hready
    · obtain heq | ⟨hne, -, -⟩ := h.oobState
      · simp [heq ▸ hq]
      · simp [hne]
    · simp [h.err hq]
    · simp [hq]
    · simp [hq]
    · simp [hq]
  | recvDgram =>
    simp only [ready, Bool.or_eq_true] at hready ⊢
    exact hready.imp hdgrams h.err
  | accept =>
    simp only [ready, Bool.or_eq_true] at hready ⊢
    exact hready.imp hqueued h.err
  | connect =>
    simp only [ready, Bool.or_eq_true, h.connecting] at hready ⊢
    exact hready.imp_right h.err
  | send => exact h.sendReady hready
  | read =>
    simp only [ready, sbSockReadable, h.rxeof, h.type] at hready ⊢
    cases htype : s.type <;>
      simp only [htype, Bool.or_eq_true, Bool.not_eq_true'] at hready ⊢
    · obtain (hq | hq) | hq := hready
      · simp [h.err hq]
      · simp [hq]
      · exact Or.inr (hq.imp hrxq hqueued)
    · obtain (hq | hq) | hq := hready
      · simp [h.err hq]
      · simp [hq]
      · exact Or.inr (hdgrams hq)
    · obtain (hq | hq) | hq := hready
      · simp [h.err hq]
      · simp [hq]
      · exact Or.inr (hdgrams hq)
  | write =>
    have hcalm := h.pcb
    simp only [ready, sbSockWritable, h.type, h.connecting, h.shutWr, h.connected] at hready ⊢
    by_cases herr : s.err.isSome = true
    · simp [herr]
    · have herr' : ¬s'.err.isSome = true := fun he => herr (h.err he)
      simp only [herr, herr', Bool.false_eq_true, if_false] at hready ⊢
      cases hp : s.pcb with
      | none =>
        cases hp' : s'.pcb with
        | none => simpa [hp'] using hready
        | some pcb' =>
          rw [hp, hp'] at hcalm
          contradiction
      | some pcb =>
        cases hp' : s'.pcb with
        | none =>
          rw [hp, hp'] at hcalm
          contradiction
        | some pcb' =>
          rw [hp, hp'] at hcalm
          simp only [hp'] at hready
          have hbuf : decide (0 < pcb'.sndBuf) = true → decide (0 < pcb.sndBuf) = true := by
            simp only [decide_eq_true_eq]
            exact fun hpos => Nat.lt_of_lt_of_le hpos hcalm.1
          dsimp only
          split_ifs at hready ⊢ with h₁ h₂ h₃ h₄
          all_goals first | exact hready | exact hbuf hready
  | except =>
    simp only [ready, sbSockExceptable, h.type, Bool.and_eq_true, Bool.or_eq_true,
      beq_iff_eq] at hready ⊢
    obtain heq | ⟨-, hmarked, hhave⟩ := h.oobState
    · rwa [heq] at hready
    · obtain hq | hq := hready.2
      · contradiction
      · contradiction

/-! ### Calm changes -/

def waitState (s : SbSocket β κ) :=
  (s.type, s.connected, s.connecting, s.rxeof, s.shutRd, s.shutWr, s.err, s.rxq, s.oobState,
    s.ndgrams, s.naccept, s.pcb)

theorem Calm.of_waitState
    (h : s'.waitState = s.waitState) :
  Calm s s'
  := by
  simp only [waitState, Prod.mk.injEq] at h
  obtain ⟨h₁, h₂, h₃, h₄, h₅, h₆, h₇, h₈, h₉, h₁₀, h₁₁, h₁₂⟩ := h
  constructor
  · exact h₁
  · exact h₂
  · exact h₃
  · exact h₄
  · exact h₅
  · exact h₆
  · rw [h₇]
    exact id
  · rw [h₈]
    exact id
  · exact Or.inl h₉
  · rw [h₁₀]
    exact id
  · rw [h₁₁]
    exact id
  · rw [h₁₂]
    exact .refl _

theorem Calm.refl (s : SbSocket β κ) :
  Calm s s
  := .of_waitState rfl

theorem PcbCalm.trans
    {o o' o'' : Option TcpPcb} (h : PcbCalm o o') (h' : PcbCalm o' o'') :
  PcbCalm o o''
  := by
  cases o <;> cases o' <;> cases o'' <;> first | trivial | contradiction | skip
  exact ⟨h'.1.trans h.1, fun hm => h'.2 (h.2 hm)⟩

theorem Calm.trans
    {t : SbSocket β κ} (h : Calm s s') (h' : Calm s' t) :
  Calm s t
  := by
  constructor
  · exact h'.type.trans h.type
  · exact h'.connected.trans h.connected
  · exact h'.connecting.trans h.connecting
  · exact h'.rxeof.trans h.rxeof
  · exact h'.shutRd.trans h.shutRd
  · exact h'.shutWr.trans h.shutWr
  · exact fun he => h.err (h'.err he)
  · exact fun hq => h'.rxq (h.rxq hq)
  · obtain heq | ⟨hs, hmarked, hhave⟩ := h.oobState
    · rw [← heq]
      exact h'.oobState
    · right
      obtain heq' | ⟨-, hmarked', hhave'⟩ := h'.oobState
      · rw [heq']
        exact ⟨hs, hmarked, hhave⟩
      · exact ⟨hs, hmarked', hhave'⟩
  · exact fun hn => h'.ndgrams (h.ndgrams hn)
  · exact fun hn => h'.naccept (h.naccept hn)
  · exact h.pcb.trans h'.pcb

theorem calm_clearErr (s : SbSocket β κ) :
  Calm s { s with err := none }
  := ⟨rfl, rfl, rfl, rfl, rfl, rfl, nofun, id, Or.inl rfl, id, id, .refl _⟩

theorem calm_pcb
    {o : Option TcpPcb} (h : PcbCalm s.pcb o) :
  Calm s { s with pcb := o }
  := ⟨rfl, rfl, rfl, rfl, rfl, rfl, id, id, Or.inl rfl, id, id, h⟩

theorem calm_oobState
    {o : OobState} (hs : s.oobState ≠ .oobMarked) (hmarked : o ≠ .oobMarked)
    (hhave : o ≠ .oobHave) :
  Calm s { s with oobState := o }
  := ⟨rfl, rfl, rfl, rfl, rfl, rfl, id, id, Or.inr ⟨hs, hmarked, hhave⟩, id, id, .refl _⟩

theorem calm_passMark (s : SbSocket β κ) (r : RecvReq) :
  Calm s (s.passMark r)
  := by
  unfold passMark
  split
  next hstart =>
    simp only [startsAtMark, Bool.and_eq_true, markUp_iff] at hstart
    obtain ⟨-, hup⟩ := hstart
    refine calm_oobState ?_ nofun nofun
    obtain hup | hup := hup <;> simp [hup]
  next => exact .refl s

theorem calm_flushCredit (s : SbSocket β κ) (acked : ℕ) :
  Calm s (s.flushCredit acked)
  := by
  apply calm_pcb
  cases s.pcb with
  | none => trivial
  | some pcb =>
    rw [Option.map_some, ackFlush_eq pcb (le_refl acked)]
    exact ⟨le_refl _, id⟩

theorem calm_of_step
    {pos : ℕ} {c : Call} {sec : Section β κ} (h : Call.Step s pos c sec) :
  Calm s sec.sock
  := by
  cases h with
  | enter r => exact calm_passMark s r
  | consume r p d h t hq hlt hn =>
    refine ⟨rfl, rfl, rfl, rfl, rfl, rfl, id, ?_, Or.inl rfl, id, id, .refl _⟩
    simp [hq]
  | detach r p d run rest hlt hrun hne =>
    refine ⟨rfl, rfl, rfl, rfl, rfl, rfl, id, ?_, Or.inl rfl, id, id, .refl _⟩
    intro hq
    rw [hq] at hrun
    simp only [Pbuf.takeRun, Prod.mk.injEq] at hrun
    exact hrun.2.symm
  | finish r p d h | again r p d hmark hlen hall => exact calm_flushCredit s d.acked
  | oob hc h =>
    obtain heq | ⟨hhave, heq⟩ | heq := h.sock_eq
    · rw [heq]
      exact .refl s
    · rw [heq]
      refine calm_oobState ?_ (by simp) (by simp)
      simp [hhave]
    · rw [heq]
      exact calm_clearErr s
  | _ => exact .refl s

end SbSocket

/-! ### Falling asleep -/

def Call.want : Call → Option Want
  | .asleep .. => some .recv
  | .oobAsleep .. => some .recvOob
  | _ => none

namespace SbSocket

variable {β κ : Type} {s : SbSocket β κ}

theorem not_ready_of_recvEmpty
    {r : RecvReq} {copied : ℕ} (hq : s.rxq = []) (h : s.recvEmpty r copied = .sleep)
    (txRoom : Bool) :
  s.ready txRoom .recv = false
  := by
  unfold recvEmpty at h
  by_cases hend : (s.rxeof || s.shutRd) = true
  · simp [hend] at h
  · cases herr : s.err with
    | some e =>
      simp only [hend, herr, Bool.false_eq_true, if_false] at h
      split_ifs at h
    | none =>
      simp only [hend, herr, Bool.false_eq_true, if_false] at h
      split_ifs at h
      simp only [Bool.or_eq_true, not_or, Bool.not_eq_true] at hend
      simp_all [ready, Option.isSome_iff_ne_none]

theorem not_ready_of_locked
    {pos : ℕ} {c : Call} {sec : Section β κ} {x : Want} (h : Call.locked s pos c = some sec)
    (hx : sec.call.want = some x) (txRoom : Bool) :
  sec.sock = s ∧ s.ready txRoom x = false
  := by
  cases c with
  | top r p =>
    cases h
    have hstep := Call.step_atTop s pos r p
    generalize Call.atTop s r p = sec at hstep hx
    cases hstep with
    | sleep _ _ hq hempty =>
      cases hx
      exact ⟨rfl, not_ready_of_recvEmpty hq hempty txRoom⟩
    | oob hc _ => contradiction
    | _ => contradiction
  | drain r p d =>
    cases h
    have hstep := Call.step_atDrain s pos r p d
    generalize Call.atDrain s pos r p d = sec at hstep hx
    cases hstep with
    | oob hc _ => contradiction
    | _ => contradiction
  | after r p d =>
    cases h
    have hstep := Call.step_atAfter s pos r p d
    generalize Call.atAfter s r p d = sec at hstep hx
    cases hstep with
    | oob hc _ => contradiction
    | _ => contradiction
  | oobTop r =>
    cases h
    unfold Call.atOobTop at hx ⊢
    by_cases hhave : s.oobState = .oobHave
    · rw [if_pos hhave] at hx
      contradiction
    · rw [if_neg hhave] at hx ⊢
      by_cases hmarked : s.oobState = .oobMarked
      · cases herr : s.err with
        | some e =>
          simp only [hmarked, herr] at hx
          contradiction
        | none =>
          simp only [hmarked, herr, ne_eq, not_true_eq_false, if_false] at hx ⊢
          split_ifs at hx ⊢ with hend hwait
          · contradiction
          · contradiction
          · cases hx
            simp only [Bool.or_eq_true, not_or, Bool.not_eq_true] at hend
            simp_all [ready]
      · rw [if_pos hmarked] at hx
        contradiction
  | _ => contradiction

theorem want_of_enter
    {c : Call} {sec : Section β κ} (h : Call.enter s c = some sec) :
  sec.call.want = none
  := by
  cases c <;> first | contradiction | (obtain rfl := Option.some.inj h; rfl)

theorem not_ready_of_acceptTest
    (h : s.acceptTest.1 = .sleep) (hq : s.naccept = s.acceptq.length) (txRoom : Bool) :
  s.ready txRoom .accept = false
  := by
  unfold acceptTest at h
  split at h
  next hn =>
    split at h
    · contradiction
    next herr => simp [ready, hn, herr]
  next hn =>
    split at h
    next hnil =>
      rw [hnil] at hq
      contradiction
    next => contradiction

theorem not_ready_of_sendTest
    {left : ℕ} (h : s.sendTest left = .block ∨
      ∃ chunk, s.sendTest left = .write chunk ∧ (s.tcpWrite chunk).2 = .mem) :
  s.sendReady = false
  := by
  unfold sendTest tcpWrite at h
  unfold sendReady
  cases hp : s.pcb with
  | none => simp [hp] at h
  | some pcb =>
    cases he : s.err with
    | some e => simp [hp, he] at h
    | none =>
      simp only [hp, he] at h ⊢
      split_ifs at h with h₁ h₂ h₃ h₄ h₅
      all_goals simp_all

end SbSocket
