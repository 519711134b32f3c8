import LwipAmiga.Tcp.Queue

/-!
# The urgent mark

No call returns bytes from both sides of one mark, and the mark lies within the bytes queued.
-/

open Function List TransitionSystem

namespace Call

def taken : Call → List ℕ
  | .top _ p | .asleep _ p | .drain _ p _ | .copy _ p _ _ | .after _ p _ | .clearErr _ p _
  | .done _ p _ => p.taken
  | _ => []

def unfinished : Call → Bool
  | .top .. | .asleep .. => true
  | .drain _ p d | .after _ p d => decide (p.copied < d.lim)
  | .copy _ p d run => decide (p.copied + Pbuf.size run < d.lim)
  | _ => false

def room : Call → ℕ
  | .drain _ p d => d.lim - p.copied
  | _ => 0

def LimitOk : Call → Prop
  | .drain r _ d | .copy r _ d _ | .after r _ d => d.hitmark = false → d.lim = r.len
  | _ => True

structure MarkOk (pos : ℕ) (passed : List ℕ) (c : Call) : Prop where
  taken_lt : ∀ q ∈ c.taken, q < pos
  limitOk : c.LimitOk
  late : c.unfinished = true → ∀ x ∈ passed, ∀ q ∈ c.taken, x ≤ q
  sides : ∀ x ∈ passed, (∀ q ∈ c.taken, q < x) ∨ (∀ q ∈ c.taken, x ≤ q)

variable {β κ : Type} {s : SbSocket β κ} {pos pos' : ℕ} {passed passed' : List ℕ} {c c' : Call}
  {sec : Section β κ}

theorem MarkOk.of_taken_nil
    (htaken : c.taken = []) (hlimit : c.LimitOk) :
  MarkOk pos passed c
  := by
  constructor
  · simp [htaken]
  · exact hlimit
  · simp [htaken]
  · simp [htaken]

theorem MarkOk.mono
    (hc : MarkOk pos passed c) (h : pos ≤ pos') :
  MarkOk pos' passed c
  := ⟨fun q hq => Nat.lt_of_lt_of_le (hc.taken_lt q hq) h, hc.limitOk, hc.late, hc.sides⟩

theorem MarkOk.congr
    (hc : MarkOk pos passed c) (htaken : c'.taken = c.taken) (hlimit : c'.LimitOk)
    (hunf : c'.unfinished = true → c.unfinished = true) :
  MarkOk pos passed c'
  := by
  obtain ⟨hlt, -, hlate, hsides⟩ := hc
  rw [← htaken] at hlt hlate hsides
  exact ⟨hlt, hlimit, fun h => hlate (hunf h), hsides⟩

theorem MarkOk.take
    {n : ℕ} (hc : MarkOk pos passed c) (hpassed : ∀ x ∈ passed, x ≤ pos)
    (hunf : c.unfinished = true) (htaken : c'.taken = c.taken ++ range' pos n)
    (hlimit : c'.LimitOk) :
  MarkOk (pos + n) passed c'
  := by
  have hlate : ∀ x ∈ passed, ∀ q ∈ c'.taken, x ≤ q := by
    intro x hx q hq
    rw [htaken, mem_append, mem_range'_1] at hq
    obtain hq | ⟨hle, -⟩ := hq
    · exact hc.late hunf x hx q hq
    · exact Nat.le_trans (hpassed x hx) hle
  refine ⟨?_, hlimit, fun _ => hlate, fun x hx => Or.inr (hlate x hx)⟩
  intro q hq
  rw [htaken, mem_append, mem_range'_1] at hq
  obtain hq | ⟨-, hlt⟩ := hq
  · have := hc.taken_lt q hq
    omega
  · exact hlt

theorem MarkOk.pass
    (hc : MarkOk pos passed c) (hunf : c.unfinished = true → c.taken = []) :
  MarkOk pos (pos :: passed) c
  := by
  obtain ⟨hlt, hlimit, hlate, hsides⟩ := hc
  refine ⟨hlt, hlimit, ?_, ?_⟩
  · intro h x _ q hq
    rw [hunf h] at hq
    contradiction
  · intro x hx
    obtain rfl | hx := mem_cons.mp hx
    · exact Or.inl hlt
    · exact hsides x hx

theorem taken_of_isOob (h : c.isOob = true) :
  c.taken = []
  := by
  cases c <;> first | rfl | contradiction

theorem limitOk_of_isOob (h : c.isOob = true) :
  c.LimitOk
  := by
  cases c <;> first | exact trivial | contradiction

theorem OobStep.taken_eq (h : OobStep s sec) :
  sec.call.taken = [] ∧ sec.call.LimitOk ∧ sec.call.room = 0
  := by
  obtain hoob | ⟨r, p, res, hdone, hp, -⟩ := h.call_eq
  · refine ⟨taken_of_isOob hoob, limitOk_of_isOob hoob, ?_⟩
    cases hcall : sec.call <;> first | rfl | simp [hcall, isOob] at hoob
  · rw [hdone]
    exact ⟨hp, trivial, rfl⟩

theorem Step.out_le_room (h : Step s pos c sec) :
  sec.out.length ≤ c.room
  := by
  cases h with
  | consume r p d head t hq hlt hn => exact length_take_le ..
  | detach r p d run rest hlt hrun hne =>
    have hle := Pbuf.size_takeRun_le s.rxq (Nat.zero_le (d.lim - p.copied))
    simp only [hrun] at hle
    simp only [Pbuf.length_bytes, room]
    omega
  | oob hc h => simp [h.out_eq]
  | _ => exact Nat.zero_le _

theorem Step.markOk
    (h : Step s pos c sec) (hc : MarkOk pos passed c) (hpassed : ∀ x ∈ passed, x ≤ pos) :
  MarkOk (pos + sec.out.length) passed sec.call
  := by
  cases h with
  | consume r p d head t hq hlt hn =>
    have hlen : (head.payload.take (d.lim - p.copied)).length = d.lim - p.copied :=
      length_take_of_le (Nat.le_of_lt hn)
    rw [hlen]
    exact hc.take hpassed (decide_eq_true hlt) rfl hc.limitOk
  | detach r p d run rest hlt hrun hne =>
    rw [Pbuf.length_bytes]
    exact hc.take hpassed (decide_eq_true hlt) rfl hc.limitOk
  | clamp r p hq hp =>
    refine hc.congr rfl ?_ (fun _ => rfl)
    intro hmark
    simp only [SbSocket.recvClamp] at hmark ⊢
    split
    · rename_i hclamp
      rw [if_pos hclamp] at hmark
      contradiction
    · rfl
  | again r p d hmark hlen hall =>
    refine hc.congr rfl trivial ?_
    intro _
    apply decide_eq_true
    cases hhit : d.hitmark with
    | true => exact hmark hhit
    | false =>
      rw [hc.limitOk hhit]
      exact hlen
  | relock r p d run =>
    refine hc.congr rfl hc.limitOk ?_
    intro h
    have hlt := of_decide_eq_true h
    simp only [Progress.copied, length_append, Pbuf.length_bytes] at hlt
    exact decide_eq_true hlt
  | oob hoob h =>
    obtain ⟨htaken, hlimit, -⟩ := h.taken_eq
    exact .of_taken_nil htaken hlimit
  | enter r => exact .of_taken_nil rfl trivial
  | leave r p d h => exact hc.congr rfl hc.limitOk id
  | sleep r p hq h | wake r p => exact hc.congr rfl trivial fun _ => rfl
  | _ => exact hc.congr rfl trivial nofun

theorem Step.mark_eq
    (h : Step s pos c sec) (hentry : ∀ r, c ≠ .entry r) :
  sec.sock.markUp = s.markUp ∧ sec.sock.oobMarkDist = s.markDistAfter sec.out.length
  := by
  have hsame : s.markUp = s.markUp ∧ s.oobMarkDist = s.markDistAfter 0 := by
    simp [SbSocket.markDistAfter]
  cases h with
  | enter r => exact absurd rfl (hentry r)
  | consume r p d head t hq hlt hn =>
    have hlen : (head.payload.take (d.lim - p.copied)).length = d.lim - p.copied :=
      length_take_of_le (Nat.le_of_lt hn)
    rw [hlen]
    exact ⟨rfl, rfl⟩
  | detach r p d run rest hlt hrun hne =>
    rw [Pbuf.length_bytes]
    exact ⟨rfl, rfl⟩
  | oob hc h =>
    rw [h.out_eq]
    obtain hs | ⟨hhave, hs⟩ | hs := h.sock_eq
    · rw [hs]
      exact hsame
    · rw [hs]
      refine ⟨?_, hsame.2⟩
      simp [SbSocket.markUp, hhave]
    · rw [hs]
      exact hsame
  | _ => exact hsame

theorem Step.room_add_out_le
    (h : Step s pos c sec) (hroom : c.room ≤ s.oobMarkDist.toNat) (hup : s.markUp = true)
    (hrelock : ∀ r p d run, c = .copy r p d run →
      d.lim - (p.copied + Pbuf.size run) ≤ s.oobMarkDist.toNat) :
  sec.call.room + sec.out.length ≤ s.oobMarkDist.toNat
  := by
  have hout := h.out_le_room
  cases h with
  | clamp r p hq hp =>
    simp only [room, SbSocket.recvClamp, hup, hp, Bool.not_false, Bool.or_true,
      Bool.and_true, Bool.true_and, decide_eq_true_eq]
    split
    · simp
    · simp
      omega
  | consume r p d head t hq hlt hn =>
    have hlen : (head.payload.take (d.lim - p.copied)).length = d.lim - p.copied :=
      length_take_of_le (Nat.le_of_lt hn)
    simp only [room, Progress.copied, length_append] at hout hroom hlen ⊢
    omega
  | relock r p d run =>
    have := hrelock r p d run rfl
    simp only [room, Progress.copied, length_append, Pbuf.length_bytes,
      length_nil] at this ⊢
    omega
  | oob hc h =>
    obtain ⟨-, -, hzero⟩ := h.taken_eq
    rw [hzero]
    omega
  | _ =>
    simp only [room] at hout hroom ⊢
    omega

theorem room_of_not_holds (h : c.holds = false) :
  c.room = 0
  := by
  cases c <;> first | rfl | contradiction

end Call

namespace TcpWorld

variable {β κ : Type} {L : Lwip} {w w' : TcpWorld β κ}

def CallCareful (w : TcpWorld β κ) : Call → Prop
  | .copy _ p d run =>
      w.sock.markUp = true → d.lim - (p.copied + Pbuf.size run) ≤ w.sock.oobMarkDist.toNat
  | .entry r =>
      w.sock.startsAtMark r = true →
        ∀ j, (w.call j).unfinished = true → (w.call j).taken = []
  | _ => True

def Careful (w : TcpWorld β κ) (l : TcpLabel β κ) : Prop :=
  ∀ i ∈ l.caller, w.CallCareful (w.call i)

instance decidableCallCareful [Fintype β] (w : TcpWorld β κ) : DecidablePred w.CallCareful
  | .copy _ p d run =>
      inferInstanceAs (Decidable (w.sock.markUp = true →
        d.lim - (p.copied + Pbuf.size run) ≤ w.sock.oobMarkDist.toNat))
  | .entry r =>
      inferInstanceAs (Decidable (w.sock.startsAtMark r = true →
        ∀ j, (w.call j).unfinished = true → (w.call j).taken = []))
  | .idle | .top .. | .asleep .. | .drain .. | .after .. | .clearErr .. | .oobEntry .. | .oobTop ..
  | .oobAsleep .. | .done .. => inferInstanceAs (Decidable True)

instance decidableCareful [Fintype β] (w : TcpWorld β κ) (l : TcpLabel β κ) :
    Decidable (w.Careful l) :=
  inferInstanceAs (Decidable (∀ i ∈ l.caller, w.CallCareful (w.call i)))

structure MarkInv (w : TcpWorld β κ) : Prop where
  up : w.sock.markUp = true →
    (∃ old, w.marks = (w.detached.length + w.sock.oobMarkDist.toNat) :: old) ∧
      w.sock.oobMarkDist.toNat ≤ Pbuf.size w.sock.rxq
  passed_le : ∀ x ∈ w.passedMarks, x ≤ w.detached.length
  calls : ∀ i, (w.call i).MarkOk w.detached.length w.passedMarks
  room : ∀ i, w.sock.markUp = true → (w.call i).room ≤ w.sock.oobMarkDist.toNat

theorem passedMarks_deliver
    {p : PbufChain} {s' : SbSocket β κ} (h : SbSocket.RecvCbSpec (w.sock.handOver p.totLen) p s') :
  (w.afterEvent (.deliver p) s').passedMarks = w.passedMarks
  := by
  cases hl : w.sock.latchOffset p.totLen with
  | some d =>
    have hup : s'.markUp = true := by
      rw [← SbSocket.latchOffset_handOver w.sock p.totLen] at hl
      simp [SbSocket.markUp, (h.latch d hl).2]
    simp only [passedMarks, afterEvent, marksAfter, hl, hup, if_true, tail_cons]
  | none =>
    rw [← SbSocket.latchOffset_handOver w.sock p.totLen] at hl
    obtain ⟨-, hst⟩ := h.keep hl
    rw [SbSocket.latchOffset_handOver] at hl
    by_cases hmarked : s'.oobState = .oobMarked
    · have hdown : s'.markUp = false := by simp [SbSocket.markUp, hmarked]
      simp only [passedMarks, afterEvent, marksAfter, hl, hmarked, hdown, if_true,
        Bool.false_eq_true, if_false]
    · have hsame : s'.oobState = w.sock.oobState := hst.resolve_right hmarked
      have hup : s'.markUp = w.sock.markUp := by simp only [SbSocket.markUp, hsame]
      simp only [passedMarks, afterEvent, marksAfter, hl, hmarked, if_false, hup]

theorem MarkInv.deliver
    (hw : w.MarkInv) (hs : w.sock.RxqOk) {p : PbufChain} {s' : SbSocket β κ}
    (hfit : Pbuf.size w.sock.rxq + p.totLen < 2 ^ 32)
    (h : SbSocket.RecvCbSpec (w.sock.handOver p.totLen) p s')
    (hroom : ∀ i, (w.call i).room = 0) :
  MarkInv (w.afterEvent (.deliver p) s')
  := by
  have hpassed := passedMarks_deliver h
  have hsize : Pbuf.size s'.rxq = Pbuf.size w.sock.rxq + (w.sock.delivery p).inband.length := by
    have hbytes := h.bytes_eq (hs.congr ⟨rfl, rfl, rfl⟩)
    rw [SbSocket.delivery_handOver] at hbytes
    rw [← Pbuf.length_bytes, hbytes, length_append, Pbuf.length_bytes]
    rfl
  have hlen := SbSocket.length_inband_delivery w.sock p
  refine ⟨?_, ?_, ?_, ?_⟩
  · intro hup
    change s'.markUp = true at hup
    cases hl : w.sock.latchOffset p.totLen with
    | some d =>
      have hd := SbSocket.lt_of_latchOffset hl
      have hdist : s'.oobMarkDist.toNat = Pbuf.size w.sock.rxq + d := by
        rw [← SbSocket.latchOffset_handOver w.sock p.totLen] at hl
        rw [(h.latch d hl).1]
        change (w.sock.rxBytes + UInt32.ofNat d).toNat = _
        have := hs.rxBytes_eq
        rw [UInt32.toNat_add_ofNat (by omega), this]
      refine ⟨⟨w.passedMarks, ?_⟩, ?_⟩
      · simp only [afterEvent, marksAfter, hl, hdist, Nat.add_assoc]
      · change s'.oobMarkDist.toNat ≤ Pbuf.size s'.rxq
        have : (w.sock.delivery p).excisedCount ≤ 1 := by
          unfold Delivery.excisedCount
          split <;> omega
        omega
    | none =>
      rw [← SbSocket.latchOffset_handOver w.sock p.totLen] at hl
      obtain ⟨hdist, hst⟩ := h.keep hl
      rw [SbSocket.latchOffset_handOver] at hl
      have hmarked : s'.oobState ≠ .oobMarked := by
        intro hm
        simp [SbSocket.markUp, hm] at hup
      have hup' : w.sock.markUp = true := by
        rw [SbSocket.markUp_iff] at hup ⊢
        rwa [hst.resolve_right hmarked] at hup
      obtain ⟨hmarks, hle⟩ := hw.up hup'
      change s'.oobMarkDist = w.sock.oobMarkDist at hdist
      refine ⟨?_, ?_⟩
      · simp only [afterEvent, marksAfter, hl, hmarked, if_false, hdist]
        exact hmarks
      · change s'.oobMarkDist.toNat ≤ Pbuf.size s'.rxq
        rw [hdist]
        omega
  · rw [hpassed]
    exact hw.passed_le
  · rw [hpassed]
    exact hw.calls
  · intro i _
    change (w.call i).room ≤ _
    rw [hroom i]
    exact Nat.zero_le _

theorem MarkInv.quiet
    (hw : w.MarkInv) {s' : SbSocket β κ} (hs : SbSocket.SameRx w.sock s') {call : β → Call}
    (hcall : ∀ i, (call i).MarkOk w.detached.length w.passedMarks ∧
      (call i).room ≤ (w.call i).room)
    {lock : Option β} {closed : Bool} {log : List Delivery} :
  MarkInv { w with sock := s', call, lock, closed, log }
  := by
  obtain ⟨hq, hdist, hst, -⟩ := hs
  have hup : s'.markUp = w.sock.markUp := by simp [SbSocket.markUp, hst]
  refine ⟨?_, ?_, ?_, ?_⟩
  · intro h
    simp only [hup, hdist, hq.rxq_eq] at h ⊢
    exact hw.up h
  · simp only [passedMarks, hup]
    exact hw.passed_le
  · intro i
    simp only [passedMarks, hup]
    exact (hcall i).1
  · intro i h
    simp only [hup, hdist] at h ⊢
    exact Nat.le_trans (hcall i).2 (hw.room i h)

variable [DecidableEq β]

theorem MarkInv.update
    (hw : w.MarkInv) {i : β} {c : Call} (hc : c.MarkOk w.detached.length w.passedMarks)
    (hroom : c.room = 0) (j : β) :
  (update w.call i c j).MarkOk w.detached.length w.passedMarks ∧
    (update w.call i c j).room ≤ (w.call j).room
  := by
  by_cases hj : j = i
  · subst hj
    rw [update_self, hroom]
    exact ⟨hc, Nat.zero_le _⟩
  · rw [update_of_ne hj]
    exact ⟨hw.calls j, Nat.le_refl _⟩

theorem MarkInv.pass
    (hw : w.MarkInv) {i : β} {r : RecvReq} (hcall : w.call i = .entry r)
    (hpass : w.sock.startsAtMark r = true) (hcare : w.CallCareful (w.call i)) :
  MarkInv (w.afterCall i ⟨w.sock.passMark r, .top r ⟨[], []⟩, []⟩)
  := by
  rw [hcall] at hcare
  have hparts : (r.peek = false ∧ w.sock.oobMarkDist = 0) ∧ w.sock.markUp = true := by
    simpa [SbSocket.startsAtMark] using hpass
  obtain ⟨⟨-, hzero⟩, hup⟩ := hparts
  obtain ⟨⟨old, hmarks⟩, -⟩ := hw.up hup
  have hmarks' : w.marks = w.detached.length :: w.passedMarks := by
    simp [passedMarks, hup, hmarks, hzero]
  have hdown : (w.sock.passMark r).markUp = false := by
    simp [SbSocket.passMark, hpass, SbSocket.markUp]
  have hpassed : (w.afterCall i ⟨w.sock.passMark r, .top r ⟨[], []⟩, []⟩).passedMarks
      = w.detached.length :: w.passedMarks := by
    simp only [passedMarks, afterCall, hdown, Bool.false_eq_true, if_false]
    exact hmarks'
  have hlen : (w.afterCall i ⟨w.sock.passMark r, .top r ⟨[], []⟩, []⟩).detached.length
      = w.detached.length := by
    simp [afterCall]
  refine ⟨?_, ?_, ?_, ?_⟩
  · intro h
    simp [afterCall, hdown] at h
  · rw [hpassed, hlen]
    intro x hx
    obtain rfl | hx := mem_cons.mp hx
    · exact Nat.le_refl _
    · exact hw.passed_le x hx
  · rw [hpassed, hlen]
    intro j
    by_cases hj : j = i
    · subst hj
      simp only [afterCall, update_self]
      exact .of_taken_nil rfl trivial
    · simp only [afterCall, update_of_ne hj]
      exact (hw.calls j).pass (hcare hpass j)
  · intro j h
    simp [afterCall, hdown] at h

theorem MarkInv.call
    (hw : w.MarkInv) (hlocks : w.LockOk) {i : β} {sec : Section β κ}
    (hlock : w.lock = none ∨ w.lock = some i)
    (h : Call.Step w.sock w.detached.length (w.call i) sec)
    (hmark : sec.sock.markUp = w.sock.markUp ∧
      sec.sock.oobMarkDist = w.sock.markDistAfter sec.out.length)
    (hroom : w.sock.markUp = true → sec.call.room + sec.out.length ≤ w.sock.oobMarkDist.toNat) :
  MarkInv (w.afterCall i sec)
  := by
  obtain ⟨hup, hdist⟩ := hmark
  have hpassed : (w.afterCall i sec).passedMarks = w.passedMarks := by
    simp only [passedMarks, afterCall, hup]
  have hlen : (w.afterCall i sec).detached.length = w.detached.length + sec.out.length := by
    simp [afterCall]
  have hdist' : w.sock.markUp = true →
      sec.sock.oobMarkDist.toNat = w.sock.oobMarkDist.toNat - sec.out.length := by
    intro hu
    have := hroom hu
    rw [hdist, SbSocket.markDistAfter, if_pos hu, UInt32.toNat_sub_ofNat (by omega)]
  have hsize : sec.out.length + Pbuf.size sec.sock.rxq = Pbuf.size w.sock.rxq := by
    rw [← Pbuf.length_bytes, ← Pbuf.length_bytes, ← h.bytes_eq, List.length_append]
  refine ⟨?_, ?_, ?_, ?_⟩
  · intro hu
    change sec.sock.markUp = true at hu
    rw [hup] at hu
    obtain ⟨⟨old, hmarks⟩, hle⟩ := hw.up hu
    have := hroom hu
    refine ⟨⟨old, ?_⟩, ?_⟩
    · rw [hlen]
      simp only [afterCall, hdist' hu, hmarks]
      congr 1
      omega
    · change sec.sock.oobMarkDist.toNat ≤ Pbuf.size sec.sock.rxq
      rw [hdist' hu]
      omega
  · rw [hpassed, hlen]
    intro x hx
    exact Nat.le_add_right_of_le (hw.passed_le x hx)
  · rw [hpassed, hlen]
    intro j
    by_cases hj : j = i
    · subst hj
      simp only [afterCall, Function.update_self]
      exact h.markOk (hw.calls j) hw.passed_le
    · simp only [afterCall, Function.update_of_ne hj]
      exact (hw.calls j).mono (Nat.le_add_right ..)
  · intro j hu
    change sec.sock.markUp = true at hu
    rw [hup] at hu
    have := hroom hu
    change (Function.update w.call i sec.call j).room ≤ sec.sock.oobMarkDist.toNat
    rw [hdist' hu]
    by_cases hj : j = i
    · subst hj
      rw [Function.update_self]
      omega
    · rw [Function.update_of_ne hj]
      rw [Call.room_of_not_holds (hlocks.not_holds_of_ne hlock hj)]
      exact Nat.zero_le _

theorem MarkInv.step
    {l : TcpLabel β κ} (hlocks : w.LockOk) (hs : w.sock.RxqOk)
    (hfit : ∀ p pcb, w.sock.pcb = some pcb → L.deliver pcb p = true →
      Pbuf.size w.sock.rxq + p < 2 ^ 32)
    (hw : w.MarkInv) (hcare : w.Careful l) (h : Step L w l w') :
  w'.MarkInv
  := by
  cases h with
  | event e s' hlock h =>
    obtain ⟨p, pcb, rfl, hpcb, hdel, hfresh, rfl⟩ | ⟨hne, hsame⟩ := SbSocket.event_cases h
    · apply hw.deliver hs (hfit _ pcb hpcb hdel) (SbSocket.sbTcpRecvCb_spec _ p)
      intro i
      exact Call.room_of_not_holds (hlocks.not_holds_of_free hlock i)
    · have hmarks : w.marksAfter s' e = w.marks := by
        cases e with
        | deliver p => exact absurd rfl (hne p)
        | _ => rfl
      simp only [afterEvent, hmarks]
      exact hw.quiet hsame fun i => ⟨hw.calls i, Nat.le_refl _⟩
  | close hrest =>
    exact hw.quiet (.of_pcb ⟨rfl, rfl, rfl⟩ rfl rfl rfl) fun i => ⟨hw.calls i, Nat.le_refl _⟩
  | begin i r oob hrest =>
    apply hw.quiet (.of_pcb ⟨rfl, rfl, rfl⟩ rfl rfl rfl)
    apply hw.update
    · simp only [Call.begin]
      split
      · split <;> exact .of_taken_nil rfl trivial
      · exact .of_taken_nil rfl trivial
    · apply Call.room_of_not_holds
      apply Call.holds_begin
  | clear i r p e hc =>
    have hsame : SbSocket.SameRx w.sock { w.sock with err := none } :=
      .of_pcb ⟨rfl, rfl, rfl⟩ rfl rfl rfl
    apply hw.quiet hsame
    apply hw.update
    · have hi := hw.calls i
      rw [hc] at hi
      exact hi.congr rfl trivial (by intros; contradiction)
    · rfl
  | call i sec hl hlock h =>
    have hci := hcare i hl
    by_cases hentry : ∃ r, w.call i = .entry r ∧ w.sock.startsAtMark r = true
    · obtain ⟨r, hcall, hpass⟩ := hentry
      rw [hcall] at h
      cases h with
      | enter r => exact hw.pass hcall hpass hci
      | oob hc h => contradiction
    · have hmark : sec.sock.markUp = w.sock.markUp ∧
          sec.sock.oobMarkDist = w.sock.markDistAfter sec.out.length := by
        by_cases hent : ∃ r, w.call i = .entry r
        · obtain ⟨r, hcall⟩ := hent
          have hno : w.sock.passMark r = w.sock := by
            rw [SbSocket.passMark, if_neg]
            exact fun hpass => hentry ⟨r, hcall, hpass⟩
          rw [hcall] at h
          cases h with
          | enter r =>
            rw [hno]
            simp [SbSocket.markDistAfter]
          | oob hc h => contradiction
        · exact h.mark_eq fun r hr => hent ⟨r, hr⟩
      apply hw.call hlocks hlock h hmark
      intro hup
      apply h.room_add_out_le (hw.room i hup) hup
      intro r p d run hcopy
      rw [hcopy] at hci
      exact hci hup

variable [Fintype β]

theorem markInv_of_reach
    (hL : L.Documented) (r : (system L).Reach Careful w) :
  w.MarkInv
  := by
  apply r.invariant_of (fun w r => (⟨streamInv_of_reach hL r, lockOk_of_reach r⟩ :
    w.StreamInv ∧ w.LockOk))
  · rintro _ ⟨b, s, hs, rfl⟩
    have hdown : s.markUp = false := by
      cases hs <;> rfl
    refine ⟨?_, ?_, ?_, ?_⟩
    · intro h
      rw [start, hdown] at h
      contradiction
    · simp [passedMarks, start, hdown]
    · intro i
      exact .of_taken_nil rfl trivial
    · intro i _
      exact Nat.zero_le _
  · rintro w l w' ⟨hstream, hlocks⟩ hw hcare h
    apply hw.step hlocks hstream.rxqOk _ hcare (step_of_next h)
    intro n pcb hpcb hdel
    have hwin := hL.deliver_window pcb n hdel
    have hd := hstream.delivered_eq pcb hpcb
    have hr := hstream.recved_eq pcb hpcb
    have : TCP_WND < 2 ^ 31 := by decide
    omega

/-- The distance to a mark that is up does not exceed the bytes queued, and no receive call takes bytes
from both sides of a mark. -/
theorem mark_respected
    (hL : L.Documented) (r : (system L).Reach Careful w) :
  (w.sock.markUp = true → w.sock.oobMarkDist.toNat ≤ w.sock.rxBytes.toNat) ∧
  ∀ i, ∀ x ∈ w.marks, ¬ ∃ p ∈ (w.call i).taken, ∃ q ∈ (w.call i).taken, p < x ∧ x ≤ q
  := by
  have hw := markInv_of_reach hL r
  constructor
  · intro hup
    rw [(streamInv_of_reach hL r).rxqOk.rxBytes_eq]
    exact (hw.up hup).2
  · rintro i x hx ⟨p, hp, q, hq, hpx, hxq⟩
    have hside : (∀ q ∈ (w.call i).taken, q < x) ∨ (∀ q ∈ (w.call i).taken, x ≤ q) := by
      by_cases hup : w.sock.markUp = true
      · obtain ⟨⟨old, hmarks⟩, -⟩ := hw.up hup
        have hpassed : w.passedMarks = old := by simp [passedMarks, hup, hmarks]
        rw [hmarks] at hx
        obtain rfl | hx := mem_cons.mp hx
        · left
          intro q hq
          have := (hw.calls i).taken_lt q hq
          omega
        · exact (hw.calls i).sides x (hpassed ▸ hx)
      · have hpassed : w.passedMarks = w.marks := by simp [passedMarks, hup]
        exact (hw.calls i).sides x (hpassed ▸ hx)
    obtain h | h := hside
    · have := h q hq
      omega
    · have := h p hp
      omega

/-! ### A mark crossed in the copy window -/

theorem hundred_lt_range :
  100 < 2 ^ 31
  := by
  decide

def staleLimitRun : List (TcpLabel Bool Unit) :=
  [.event (.deliver (.single 1 [0, 1, 2, 3, 4, 5, 6, 7, 8, 9] (by decide))),
   .begin true (.plain 100 hundred_lt_range) false, .enter true, .run true, .run true,
   .event (.urgent 13),
   .event (.deliver (.single 2 [10, 11, 12, 33, 13, 14, 15, 16] (by decide))),
   .relock true, .run true, .relock true, .run true, .run true]

theorem staleLimitRun_enabled :
  ((system Lwip.reference).exec connection staleLimitRun).isSome = true
  := by
  decide

def staleLimit : TcpWorld Bool Unit :=
  (system Lwip.reference).last connection staleLimitRun staleLimitRun_enabled

/-- The reader goes on with the limit it had before the copy and returns 17 bytes from both sides of
the mark. -/
theorem staleLimit_crosses_mark :
  (system Lwip.reference).Reachable staleLimit ∧
  staleLimit.sock.markUp = true ∧ staleLimit.sock.oobMarkDist = 0xFFFFFFFC ∧
  staleLimit.sock.rxBytes = 0 ∧ staleLimit.marks = [13] ∧
  12 ∈ (staleLimit.call true).taken ∧ 13 ∈ (staleLimit.call true).taken ∧
  (staleLimit.call true).resting = true
  := by
  refine ⟨reachable_last (init_connection _), ?_⟩
  decide

theorem mark_respected_urgentFirst :
  (system Lwip.reference).Reach Careful urgentFirst ∧ urgentFirst.marks = [0] ∧
  (urgentFirst.call true).taken = [0] ∧
  ∀ i, ∀ x ∈ urgentFirst.marks,
    ¬ ∃ p ∈ (urgentFirst.call i).taken, ∃ q ∈ (urgentFirst.call i).taken, p < x ∧ x ≤ q
  := by
  have hreach : (system Lwip.reference).Reach Careful urgentFirst := by
    apply reach_last (init_connection _)
    decide
  refine ⟨hreach, by decide, by decide, ?_⟩
  exact (mark_respected Lwip.reference_documented hreach).2

end TcpWorld
