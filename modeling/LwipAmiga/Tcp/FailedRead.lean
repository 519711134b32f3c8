import LwipAmiga.Tcp.EndOfStream
import LwipAmiga.Tcp.Queue

/-!
# Reads that fail

A read that ends with `SB_EWOULDBLOCK` or `SB_EINTR`, or that asks for no byte, should leave the
socket as it was.
-/

open Function TransitionSystem

namespace SbSocket

variable {β κ : Type} {s s' : SbSocket β κ}

structure Untouched (s s' : SbSocket β κ) : Prop where
  bytes_eq : Pbuf.bytes s'.rxq = Pbuf.bytes s.rxq
  others_eq : s' = { s with rxq := s'.rxq, rxqTail := s'.rxqTail }

theorem Untouched.refl (s : SbSocket β κ) :
  Untouched s s
  := ⟨rfl, rfl⟩

def oobAnswer (s : SbSocket β κ) (r : RecvReq) : Call :=
  match Call.begin s r true with
  | .oobEntry r => (Call.atOobTop s r).call
  | c => c

theorem call_atOobTop_eq (s : SbSocket β κ) (q : List Pbuf) (tail : Option ℕ) (r : RecvReq) :
  (Call.atOobTop { s with rxq := q, rxqTail := tail } r).call = (Call.atOobTop s r).call
  := by
  simp only [Call.atOobTop]
  cases s.err <;> split_ifs <;> rfl

theorem Untouched.oobAnswer_eq
    (h : Untouched s s') (r : RecvReq) :
  s'.oobAnswer r = s.oobAnswer r
  := by
  have hbegin : Call.begin s' r true = Call.begin s r true := by
    rw [h.others_eq]
    rfl
  have htop (r : RecvReq) : (Call.atOobTop s' r).call = (Call.atOobTop s r).call := by
    rw [h.others_eq]
    apply call_atOobTop_eq
  simp only [oobAnswer, hbegin, htop]

theorem untouched_unlinkRun
    {room : ℕ} {run rest : List Pbuf} (hrun : Pbuf.takeRun room 0 s.rxq = (run, rest))
    (hsize : Pbuf.size run = 0) :
  Untouched s (s.unlinkRun rest (Pbuf.size run))
  := by
  have happend := Pbuf.takeRun_append room 0 s.rxq
  rw [hrun] at happend
  have hbytes : Pbuf.bytes run = [] := by
    rw [← List.length_eq_zero_iff, Pbuf.length_bytes, hsize]
  constructor
  · rw [← happend, Pbuf.bytes_append, hbytes]
    rfl
  · rw [hsize]
    simp [unlinkRun, markDistAfter]

theorem untouched_flushCredit (s : SbSocket β κ) :
  Untouched s (s.flushCredit 0)
  := by
  constructor
  · rfl
  · rw [flushCredit]
    cases s.pcb <;> rfl

def headBytes (s : SbSocket β κ) : Bool :=
  match s.rxq with
  | [] => false
  | h :: _ => decide (0 < h.len)

def finds (s : SbSocket β κ) : Bool :=
  s.headBytes || s.rxq.isEmpty && (s.rxeof || s.shutRd)

end SbSocket

namespace Call

variable {β κ : Type} {s s' : SbSocket β κ} {pos : ℕ} {c : Call} {sec : Section β κ}

/-! ### The counts of a call -/

def Within : Call → Prop
  | .top r p | .asleep r p => p.copied ≤ r.len
  | .drain r p d | .after r p d => d.lim ≤ r.len ∧ p.copied ≤ r.len ∧ d.acked ≤ p.copied
  | .copy r p d run => d.lim ≤ r.len ∧ p.copied + Pbuf.size run ≤ r.len ∧ d.acked ≤ p.copied
  | _ => True

theorem within_of_isOob (h : c.isOob = true) :
  c.Within
  := by
  cases c <;> trivial

theorem recvClamp_le
    (s : SbSocket β κ) {r : RecvReq} {copied : ℕ} (h : copied ≤ r.len) :
  (s.recvClamp r copied).1 ≤ r.len
  := by
  unfold SbSocket.recvClamp
  split
  · rename_i hclamp
    simp only [Bool.and_eq_true, decide_eq_true_eq] at hclamp
    omega
  · apply Nat.le_refl

theorem Step.within
    (h : Step s pos c sec) (hc : c.Within) :
  sec.call.Within
  := by
  cases h with
  | enter r => exact Nat.zero_le _
  | sleep r p hq h | leave r p d h | wake r p => exact hc
  | clamp r p hq hp => exact ⟨recvClamp_le s hc, hc, Nat.zero_le _⟩
  | consume r p d h t hq hlt hn =>
    obtain ⟨hlim, hcopied, hacked⟩ := hc
    simp only [Within, copied_append, length_consumed hn]
    omega
  | detach r p d run rest hlt hrun hne =>
    obtain ⟨hlim, hcopied, hacked⟩ := hc
    have hsize := Pbuf.size_takeRun_le s.rxq (Nat.zero_le (d.lim - p.copied))
    rw [hrun] at hsize
    refine ⟨hlim, ?_, hacked⟩
    change p.copied + Pbuf.size run ≤ r.len
    change 0 + Pbuf.size run ≤ d.lim - p.copied at hsize
    omega
  | again r p d hmark hlen hall => exact Nat.le_of_lt hlen
  | relock r p d run =>
    obtain ⟨hlim, hcopied, hacked⟩ := hc
    simp only [Within, copied_append, Pbuf.length_bytes]
    omega
  | oob hc h =>
    obtain hoob | ⟨r, p, res, hdone, -, -⟩ := h.call_eq
    · apply within_of_isOob hoob
    · rw [hdone]
      trivial
  | stop | fail | report | look | finish | interrupt => trivial

/-! ### Calls that will not fail -/

def failure (res : Except Errno ℕ) : Prop :=
  res = .error .ewouldblock ∨ res = .error .eintr

def Sure (s : SbSocket β κ) : Call → Prop
  | .top r p => 0 < r.len ∧ (0 < p.copied ∨ s.markUp = false ∧ s.finds = true)
  | .asleep r p => 0 < r.len ∧ 0 < p.copied
  | .drain r p d => 0 < r.len ∧ (0 < p.copied ∨ p.copied < d.lim ∧ s.headBytes = true)
  | .copy r p _ run => 0 < r.len ∧ (0 < p.copied ∨ 0 < Pbuf.size run)
  | .after r p _ => 0 < r.len ∧ 0 < p.copied
  | .done r _ res => 0 < r.len ∧ ¬ failure res
  | _ => False

theorem Sure.of_not_holds
    (h : Sure s c) (hc : c.holds = false) :
  Sure s' c
  := by
  cases c <;> first | exact h | contradiction

theorem Sure.clear
    (h : Sure s c) :
  Sure { s with err := none } c
  := by
  cases c <;> exact h

theorem not_failure_ok (n : ℕ) :
  ¬ failure (.ok n)
  := by
  rintro (h | h) <;> cases h

theorem recvEmpty_of_copied
    {r : RecvReq} {copied : ℕ} (h : 0 < copied) :
  s.recvEmpty r copied = .ret copied ∨ s.recvEmpty r copied = .sleep
  := by
  unfold SbSocket.recvEmpty
  split
  · exact Or.inl rfl
  · split
    · exact Or.inl rfl
    · split_ifs <;> simp_all

theorem recvEmpty_of_finds
    {r : RecvReq} {copied : ℕ} (hq : s.rxq = []) (h : s.finds = true) :
  s.recvEmpty r copied = .ret copied
  := by
  have hend : (s.rxeof || s.shutRd) = true := by
    simpa [SbSocket.finds, SbSocket.headBytes, hq] using h
  exact if_pos hend

theorem Sure.recvEmpty
    {r : RecvReq} {p : Progress} (h : Sure s (.top r p)) (hq : s.rxq = []) :
  s.recvEmpty r p.copied = .ret p.copied ∨ 0 < p.copied ∧ s.recvEmpty r p.copied = .sleep
  := by
  obtain ⟨-, hcopied | ⟨-, hfinds⟩⟩ := h
  · obtain hret | hsleep := recvEmpty_of_copied (s := s) (r := r) hcopied
    · exact Or.inl hret
    · exact Or.inr ⟨hcopied, hsleep⟩
  · exact Or.inl (recvEmpty_of_finds hq hfinds)

theorem size_run_pos
    {room : ℕ} {run rest : List Pbuf} (hrun : Pbuf.takeRun room 0 s.rxq = (run, rest))
    (hne : run ≠ []) (h : s.headBytes = true) :
  0 < Pbuf.size run
  := by
  have happend := Pbuf.takeRun_append room 0 s.rxq
  rw [hrun] at happend
  cases run with
  | nil => contradiction
  | cons b run =>
    have hq : s.rxq = b :: (run ++ rest) := happend.symm
    rw [SbSocket.headBytes, hq] at h
    have hb : 0 < b.len := of_decide_eq_true h
    rw [Pbuf.size_cons]
    omega

theorem Sure.step
    (hc : Sure s c) (h : Step s pos c sec) :
  Sure sec.sock sec.call
  := by
  cases h with
  | enter r => exact hc.elim
  | stop r p n hq h | look r p hq hp buf n => exact ⟨hc.1, not_failure_ok n⟩
  | fail r p e hq h | report r p e hq h =>
    obtain hret | ⟨-, hsleep⟩ := hc.recvEmpty hq
    · cases hret.symm.trans h
    · cases hsleep.symm.trans h
  | sleep r p hq h =>
    obtain hret | ⟨hcopied, -⟩ := hc.recvEmpty hq
    · cases hret.symm.trans h
    · exact ⟨hc.1, hcopied⟩
  | clamp r p hq hp =>
    refine ⟨hc.1, ?_⟩
    obtain hcopied | ⟨hmark, hfinds⟩ := hc.2
    · exact Or.inl hcopied
    · by_cases hcopied : 0 < p.copied
      · exact Or.inl hcopied
      · right
        have hlim : (s.recvClamp r p.copied).1 = r.len := by
          simp [SbSocket.recvClamp, hmark]
        constructor
        · change p.copied < (s.recvClamp r p.copied).1
          have := hc.1
          omega
        · simpa [SbSocket.finds, hq] using hfinds
  | leave r p d h =>
    refine ⟨hc.1, ?_⟩
    obtain hcopied | ⟨hlt, hhead⟩ := hc.2
    · exact hcopied
    · obtain hle | hq := h
      · omega
      · rw [SbSocket.headBytes, hq] at hhead
        contradiction
  | consume r p d h t hq hlt hn =>
    refine ⟨hc.1, Or.inl ?_⟩
    rw [copied_append, length_consumed hn]
    omega
  | detach r p d run rest hlt hrun hne =>
    refine ⟨hc.1, ?_⟩
    obtain hcopied | ⟨-, hhead⟩ := hc.2
    · exact Or.inl hcopied
    · exact Or.inr (size_run_pos hrun hne hhead)
  | finish r p d h => exact ⟨hc.1, not_failure_ok _⟩
  | again r p d hmark hlen hall | wake r p => exact ⟨hc.1, Or.inl hc.2⟩
  | interrupt r p e =>
    refine ⟨hc.1, ?_⟩
    rw [if_pos hc.2]
    apply not_failure_ok
  | relock r p d run =>
    refine ⟨hc.1, Or.inl ?_⟩
    rw [copied_append, Pbuf.length_bytes]
    obtain hcopied | hsize := hc.2
    · omega
    · omega
  | oob hoob h => cases c <;> first | exact hc.elim | contradiction

theorem Step.untouched_or_sure
    (h : Step s pos c sec) (hplain : c.isOob = false) (hc : c.Within)
    (henter : ∀ r, c = .entry r → s.startsAtMark r = true → 0 < r.len ∧ s.finds = true) :
  SbSocket.Untouched s sec.sock ∨ Sure sec.sock sec.call
  := by
  cases h with
  | enter r =>
    cases hmark : s.startsAtMark r with
    | false =>
      left
      simp only [SbSocket.passMark, hmark]
      apply SbSocket.Untouched.refl
    | true =>
      right
      obtain ⟨hlen, hfinds⟩ := henter r rfl hmark
      simp only [SbSocket.passMark, hmark]
      exact ⟨hlen, Or.inr ⟨rfl, hfinds⟩⟩
  | consume r p d h t hq hlt hn =>
    right
    refine ⟨by have := hc.1; omega, Or.inl ?_⟩
    rw [copied_append, length_consumed hn]
    omega
  | detach r p d run rest hlt hrun hne =>
    by_cases hsize : Pbuf.size run = 0
    · left
      apply SbSocket.untouched_unlinkRun hrun hsize
    · right
      exact ⟨by have := hc.1; omega, Or.inr (Nat.pos_of_ne_zero hsize)⟩
  | finish r p d h =>
    by_cases hlen : 0 < r.len
    · exact Or.inr ⟨hlen, not_failure_ok _⟩
    · left
      obtain ⟨-, hcopied, hacked⟩ := hc
      obtain hzero : d.acked = 0 := by omega
      rw [hzero]
      apply SbSocket.untouched_flushCredit
  | again r p d hmark hlen hall =>
    by_cases hcopied : 0 < p.copied
    · exact Or.inr ⟨by omega, Or.inl hcopied⟩
    · left
      obtain ⟨-, -, hacked⟩ := hc
      obtain hzero : d.acked = 0 := by omega
      rw [hzero]
      apply SbSocket.untouched_flushCredit
  | oob hoob h =>
    rw [hplain] at hoob
    contradiction
  | stop | fail | report | sleep | look | clamp | leave | wake | interrupt | relock =>
    left
    apply SbSocket.Untouched.refl

theorem Step.isOob_eq
    (h : Step s pos c sec) (hplain : c.isOob = false) :
  sec.call.isOob = false
  := by
  cases h with
  | oob hoob h =>
    rw [hplain] at hoob
    contradiction
  | _ => rfl

end Call

/-! ### The record of the calls -/

structure ReadWorld (β κ : Type) where
  world : TcpWorld β κ
  oob : β → Bool
  trace : β → List (SbSocket β κ × SbSocket β κ)

namespace ReadWorld

variable {β κ : Type} [DecidableEq β] {L : Lwip} {w w' : ReadWorld β κ}

def record (w : ReadWorld β κ) (l : TcpLabel β κ) (world' : TcpWorld β κ) : ReadWorld β κ :=
  match l with
  | .begin i _ oob =>
      { world := world'
        oob := Function.update w.oob i oob
        trace := Function.update w.trace i [] }
  | .enter i | .run i | .wake i _ | .relock i | .clear i =>
      { w with
        world := world'
        trace := Function.update w.trace i ((w.world.sock, world'.sock) :: w.trace i) }
  | .event _ | .close => { w with world := world' }

theorem world_record (w : ReadWorld β κ) (l : TcpLabel β κ) (world' : TcpWorld β κ) :
  (w.record l world').world = world'
  := by
  cases l <;> rfl

variable [Fintype β]

def next (L : Lwip) (w : ReadWorld β κ) (l : TcpLabel β κ) : Option (ReadWorld β κ) :=
  (w.world.next L l).map (w.record l)

def start (world : TcpWorld β κ) : ReadWorld β κ where
  world := world
  oob _ := false
  trace _ := []

def system (L : Lwip) : TransitionSystem (ReadWorld β κ) (TcpLabel β κ) where
  init w := ∃ world, (TcpWorld.system L).init world ∧ w = start world
  next := next L

def careful (w : ReadWorld β κ) : TcpLabel β κ → Bool
  | .enter i =>
      match w.world.call i with
      | .entry r => !w.world.sock.startsAtMark r || (decide (0 < r.len) && w.world.sock.finds)
      | _ => true
  | .clear i =>
      match w.world.call i with
      | .clearErr r _ e => decide (0 < r.len) && e != .ewouldblock && e != .eintr
      | _ => true
  | _ => true

def Clean (w : ReadWorld β κ) (i : β) : Prop :=
  ∀ x ∈ w.trace i, x.1.Untouched x.2

structure ReadOk (w : ReadWorld β κ) (i : β) : Prop where
  plain : (w.world.call i).isOob = false
  within : (w.world.call i).Within
  settled : w.Clean i ∨ (w.world.call i).Sure w.world.sock

def Inv (w : ReadWorld β κ) : Prop :=
  ∀ i, w.oob i = false → w.ReadOk i

omit [DecidableEq β] [Fintype β] in
theorem ReadOk.frame
    {i : β} (h : w.ReadOk i) (hcall : w'.world.call i = w.world.call i)
    (htrace : w'.trace i = w.trace i)
    (hsure : (w.world.call i).Sure w.world.sock → (w.world.call i).Sure w'.world.sock) :
  w'.ReadOk i
  := by
  constructor
  · rw [hcall]
    apply h.plain
  · rw [hcall]
    apply h.within
  · rcases h.settled with hclean | hs
    · left
      rw [Clean, htrace]
      apply hclean
    · right
      rw [hcall]
      apply hsure hs

omit [DecidableEq β] [Fintype β] in
theorem readOk_of_nil
    {i : β} (hplain : (w.world.call i).isOob = false) (hwithin : (w.world.call i).Within)
    (htrace : w.trace i = []) :
  w.ReadOk i
  := by
  use hplain, hwithin
  left
  intro x hx
  rw [htrace] at hx
  exact absurd hx List.not_mem_nil

omit [DecidableEq β] [Fintype β] in
theorem clean_cons
    {i : β} {s s' : SbSocket β κ} (htrace : w'.trace i = (s, s') :: w.trace i) (hclean : w.Clean i)
    (h : s.Untouched s') :
  w'.Clean i
  := by
  rw [Clean, htrace]
  intro x hx
  rcases List.mem_cons.mp hx with rfl | hx
  · apply h
  · apply hclean x hx

theorem enter_of_entry
    {world world' : TcpWorld β κ} {l : TcpLabel β κ} {i : β} {r : RecvReq}
    (h : world.next L l = some world') (hl : l.caller = some i) (hc : world.call i = .entry r) :
  l = .enter i
  := by
  cases l with
  | enter j =>
    cases hl
    rfl
  | run j | wake j | relock j | clear j =>
    cases hl
    simp [TcpWorld.next, hc, Call.locked, Call.wake, Call.relock, Call.clear] at h
  | event | close | begin => cases hl

omit [Fintype β] in
theorem record_of_caller
    {l : TcpLabel β κ} {i : β} (hl : l.caller = some i) (world' : TcpWorld β κ) :
  w.record l world' =
    { w with
      world := world'
      trace := update w.trace i ((w.world.sock, world'.sock) :: w.trace i) }
  := by
  cases l with
  | enter | run | wake | relock | clear =>
    cases hl
    rfl
  | event | close | begin => cases hl

omit [DecidableEq β] [Fintype β] in
theorem ReadOk.own
    {i : β} {sec : Section β κ} {pos : ℕ} (h : w.ReadOk i)
    (hstep : Call.Step w.world.sock pos (w.world.call i) sec)
    (henter : ∀ r, w.world.call i = .entry r → w.world.sock.startsAtMark r = true →
      0 < r.len ∧ w.world.sock.finds = true)
    (hcall : w'.world.call i = sec.call) (hsock : w'.world.sock = sec.sock)
    (htrace : w'.trace i = (w.world.sock, sec.sock) :: w.trace i) :
  w'.ReadOk i
  := by
  constructor
  · rw [hcall]
    apply hstep.isOob_eq h.plain
  · rw [hcall]
    apply hstep.within h.within
  · rw [hcall, hsock]
    rcases h.settled with hclean | hsure
    · rcases hstep.untouched_or_sure h.plain h.within henter with huntouched | hsure
      · left
        apply clean_cons htrace hclean huntouched
      · right
        apply hsure
    · right
      apply hsure.step hstep

theorem Inv.step
    {l : TcpLabel β κ} {world' : TcpWorld β κ} (hinv : w.Inv) (hlocks : w.world.LockOk)
    (hgood : w.careful l = true) (hnext : w.world.next L l = some world') :
  (w.record l world').Inv
  := by
  intro j hj
  cases TcpWorld.step_of_next hnext with
  | event e s' hlock h =>
    refine (hinv j hj).frame rfl rfl ?_
    intro hsure
    apply hsure.of_not_holds (hlocks.not_holds_of_free hlock j)
  | close hrest => exact (hinv j hj).frame rfl rfl id
  | begin i r oob hrest =>
    by_cases hji : j = i
    · subst hji
      have hoob : oob = false := by
        simpa only [record, update_self] using hj
      subst hoob
      apply readOk_of_nil
      · simp only [record, update_self]
        rfl
      · simp only [record, update_self]
        trivial
      · simp only [record, update_self]
    · have hoob : w.oob j = false := by
        simpa only [record, update_of_ne hji] using hj
      apply (hinv j hoob).frame
      · simp only [record, update_of_ne hji]
      · simp only [record, update_of_ne hji]
      · exact id
  | call i sec hl hlock hstep =>
    rw [record_of_caller hl] at hj ⊢
    by_cases hji : j = i
    · subst hji
      apply (hinv j hj).own hstep
      · intro r hc hmark
        rw [enter_of_entry hnext hl hc, careful, hc] at hgood
        simpa [hmark] using hgood
      · simp only [TcpWorld.afterCall, update_self]
      · rfl
      · simp only [TcpWorld.afterCall, update_self]
    · apply (hinv j hj).frame
      · simp only [TcpWorld.afterCall, update_of_ne hji]
      · simp only [update_of_ne hji]
      · intro hsure
        apply hsure.of_not_holds (hlocks.not_holds_of_ne hlock hji)
  | clear i r p e hc =>
    by_cases hji : j = i
    · subst hji
      rw [careful, hc] at hgood
      simp only [Bool.and_eq_true, decide_eq_true_eq, bne_iff_ne] at hgood
      obtain ⟨⟨hlen, hblock⟩, hintr⟩ := hgood
      constructor
      · simp only [record, update_self]
        rfl
      · simp only [record, update_self]
        trivial
      · right
        simp only [record, update_self]
        use hlen
        rintro (herr | herr)
        · exact hblock (Except.error.inj herr)
        · exact hintr (Except.error.inj herr)
    · apply (hinv j hj).frame
      · simp only [record, update_of_ne hji]
      · simp only [record, update_of_ne hji]
      · exact Call.Sure.clear

theorem reachable_world
    {good : ReadWorld β κ → TcpLabel β κ → Prop} (h : (system L).Reach good w) :
  (TcpWorld.system L).Reachable w.world
  := by
  induction h with
  | init h =>
    obtain ⟨world, hinit, rfl⟩ := h
    exact .init hinit
  | step _ _ hnext ih =>
    obtain ⟨world', hworld, rfl⟩ := Option.map_eq_some_iff.mp hnext
    rw [world_record]
    exact ih.step hworld

theorem inv_of_reach
    (h : (system L).Reach (fun w l => w.careful l = true) w) :
  w.Inv
  := by
  apply h.invariant_of (fun w r => TcpWorld.lockOk_of_reach (reachable_world r))
  · rintro _ ⟨world, ⟨b, s, -, rfl⟩, rfl⟩ i _
    exact readOk_of_nil rfl trivial rfl
  · intro w l w' hlocks hinv hgood hnext
    obtain ⟨world', hworld, rfl⟩ := Option.map_eq_some_iff.mp hnext
    apply hinv.step hlocks hgood hworld

/-- A read that fails, or that asked for no byte, has left the bytes queued, the urgent mark and the
urgent byte as they were. -/
theorem failed_read_untouched
    (h : (system L).Reach (fun w l => w.careful l = true) w) (i : β) (hplain : w.oob i = false)
    {r : RecvReq} {p : Progress} {res : Except Errno ℕ}
    (hdone : w.world.call i = .done r p res)
    (hfail : res = .error .ewouldblock ∨ res = .error .eintr ∨ r.len = 0) :
  ∀ x ∈ w.trace i, x.1.Untouched x.2 ∧ ∀ q, x.2.oobAnswer q = x.1.oobAnswer q
  := by
  have hclean : w.Clean i := by
    rcases (inv_of_reach h i hplain).settled with hclean | hsure
    · apply hclean
    · rw [hdone] at hsure
      obtain ⟨hlen, hres⟩ := hsure
      rcases hfail with hblock | hintr | hzero
      · exact absurd (Or.inl hblock) hres
      · exact absurd (Or.inr hintr) hres
      · omega
  intro x hx
  use hclean x hx
  apply (hclean x hx).oobAnswer_eq

/-! ### A mark that a failed read passes -/

def connection : ReadWorld Bool Unit :=
  start TcpWorld.connection

theorem init_connection (L : Lwip) :
  (system L).init connection
  := ⟨_, TcpWorld.init_connection L, rfl⟩

def nowait (len : ℕ) (h : len < 2 ^ 31) : RecvReq :=
  { RecvReq.plain len h with dontwait := true }

theorem one_lt_range :
  1 < 2 ^ 31
  := by
  decide

theorem mark_fits :
  [(33 : UInt8)].length < 65536
  := by
  decide

theorem seven_fits :
  [(7 : UInt8)].length < 65536
  := by
  decide

def urgentByte : RecvReq :=
  nowait 1 one_lt_range

def passedMarkRun : List (TcpLabel Bool Unit) :=
  [.event (.urgent 0), .event (.deliver (.single 1 [33] mark_fits)),
   .begin true (nowait 1 one_lt_range) false, .enter true, .run true]

theorem passedMarkRun_enabled :
  ((system Lwip.reference).exec connection passedMarkRun).isSome = true
  := by
  decide

def passedMark : ReadWorld Bool Unit :=
  (system Lwip.reference).last connection passedMarkRun passedMarkRun_enabled

def readByte : List (TcpLabel Bool Unit) :=
  [.begin true (.plain 1 one_lt_range) false, .enter true, .run true, .run true, .relock true,
   .run true, .run true]

def reportedResetRun : List (TcpLabel Bool Unit) :=
  [.event (.urgent 5), .event (.deliver (.single 1 [7] seven_fits))] ++ readByte ++
    [.event (.err .rst), .begin true (.plain 0 (by decide)) false, .enter true, .run true,
     .clear true]

theorem reportedResetRun_enabled :
  ((system Lwip.reference).exec connection reportedResetRun).isSome = true
  := by
  decide

def reportedReset : ReadWorld Bool Unit :=
  (system Lwip.reference).last connection reportedResetRun reportedResetRun_enabled

/-- A read that fails with `SB_EWOULDBLOCK` passes the urgent mark, and a read of no byte takes the
pending error. -/
theorem failed_read_drops_urgent :
  ((system Lwip.reference).Reachable passedMark ∧ passedMark.oob true = false ∧
    passedMark.world.result true matches some (.error .ewouldblock) ∧
    ∃ x ∈ passedMark.trace true, x.1.oobState = .oobHave ∧ x.2.oobState = .oobNone ∧
      x.1.oobAnswer urgentByte matches .done _ _ (.ok 1) ∧
      x.2.oobAnswer urgentByte matches .done _ _ (.error .einval)) ∧
  ((system Lwip.reference).Reachable reportedReset ∧ reportedReset.oob true = false ∧
    (reportedReset.world.call true matches .done ⟨0, _, false, _, _⟩ _ _) ∧
    ∃ x ∈ reportedReset.trace true,
      x.1.oobAnswer urgentByte matches .done _ _ (.error .econnreset) ∧
      x.2.oobAnswer urgentByte matches .done _ _ (.error .einval))
  := by
  refine ⟨⟨reachable_last (init_connection _), ?_⟩,
    ⟨reachable_last (init_connection _), ?_⟩⟩
  · decide
  · decide

def awaitedRun : List (TcpLabel Bool Unit) :=
  [.event (.urgent 5), .event (.deliver (.single 1 [7] seven_fits))] ++ readByte ++
    [.begin true (nowait 1 one_lt_range) false, .enter true, .run true]

theorem awaitedRun_enabled :
  ((system Lwip.reference).exec connection awaitedRun).isSome = true
  := by
  decide

def awaited : ReadWorld Bool Unit :=
  (system Lwip.reference).last connection awaitedRun awaitedRun_enabled

theorem failed_read_untouched_awaited :
  awaited.world.result true matches some (.error .ewouldblock) ∧
    awaited.world.sock.oobState = .oobMarked ∧
    ∀ x ∈ awaited.trace true, x.1.Untouched x.2 ∧ ∀ q, x.2.oobAnswer q = x.1.oobAnswer q
  := by
  have hreach : (system Lwip.reference).Reach (fun w l => w.careful l = true) awaited := by
    apply reach_last (init_connection _)
    decide
  refine ⟨by decide, by decide, ?_⟩
  exact failed_read_untouched hreach true (by decide) rfl (Or.inl rfl)

end ReadWorld
