import LwipAmiga.Socket.Callbacks

/-!
# Deliveries and the receive queue

What `sb_tcp_recv_cb` does to the byte stream.
-/

open List

structure Delivery where
  bytes : List UInt8
  excised : Option ℕ
  deriving DecidableEq

namespace Delivery

def inband (d : Delivery) : List UInt8 :=
  match d.excised with
  | none => d.bytes
  | some off => d.bytes.eraseIdx off

def excisedCount (d : Delivery) : ℕ :=
  if d.excised.isSome then 1 else 0

end Delivery

namespace SbSocket

variable {β κ : Type}

def latchOffset (s : SbSocket β κ) (n : ℕ) : Option ℕ :=
  match s.pcb with
  | none => none
  | some pcb =>
      if pcb.urgRcv ∧ 0 ≤ s.urgOffset pcb ∧ (s.urgOffset pcb).toNat < n then
        some (s.urgOffset pcb).toNat
      else none

theorem lt_of_latchOffset
    {s : SbSocket β κ} {n d : ℕ} (h : s.latchOffset n = some d) :
  d < n
  := by
  unfold latchOffset at h
  split at h
  · contradiction
  · split at h
    · cases h
      rename_i hd
      exact hd.2.2
    · contradiction

def delivery (s : SbSocket β κ) (p : PbufChain) : Delivery where
  bytes := p.bytes
  excised := if s.oobInline then none else s.latchOffset p.totLen

theorem length_inband_delivery (s : SbSocket β κ) (p : PbufChain) :
  (s.delivery p).inband.length + (s.delivery p).excisedCount = p.totLen
  := by
  by_cases hin : s.oobInline
  · simp [delivery, Delivery.inband, Delivery.excisedCount, hin, p.length_bytes]
  · cases hl : s.latchOffset p.totLen with
    | none =>
      simp [delivery, Delivery.inband, Delivery.excisedCount, hin, hl, p.length_bytes]
    | some d =>
      have hd := lt_of_latchOffset hl
      simp only [delivery, Delivery.inband, Delivery.excisedCount, hin, hl, if_false,
        Option.isSome_some, if_true, length_eraseIdx, p.length_bytes, if_pos hd,
        Bool.false_eq_true]
      omega

/-! ### The mapping of an urgent mark -/

structure MapUrgentSpec (s : SbSocket β κ) (p : PbufChain) (m : Mapped β κ) : Prop where
  sock_eq : m.sock = { s with
    pcb := m.sock.pcb, oobMarkDist := m.sock.oobMarkDist, oobState := m.sock.oobState,
    oobByte := m.sock.oobByte }
  bytes_eq : Pbuf.bytes m.bufs = (s.delivery p).inband
  dlen_eq : m.dlen = (s.delivery p).inband.length
  addr_eq : m.bufs.map Pbuf.addr = p.bufs.map Pbuf.addr
  latch : ∀ d, s.latchOffset p.totLen = some d →
    m.sock.oobMarkDist = s.rxBytes + UInt32.ofNat d ∧ m.sock.oobState = .oobHave
  keep : s.latchOffset p.totLen = none →
    m.sock.oobMarkDist = s.oobMarkDist ∧
      (m.sock.oobState = s.oobState ∨ m.sock.oobState = .oobMarked)
  pcb_eq : ∃ urg : TcpPcb → Bool, m.sock.pcb = s.pcb.map fun pcb =>
    { pcb with urgRcv := urg pcb, recved := pcb.recved + (s.delivery p).excisedCount }

theorem mapUrgentSpec_of_none
    {s : SbSocket β κ} {p : PbufChain} (hl : s.latchOffset p.totLen = none)
    {pcb : Option TcpPcb} {st : OobState} {newoob : Bool} (hst : st = s.oobState ∨ st = .oobMarked)
    (hpcb : ∃ urg : TcpPcb → Bool, pcb = s.pcb.map fun pcb => { pcb with urgRcv := urg pcb }) :
  MapUrgentSpec s p
    { sock := { s with pcb := pcb, oobState := st }
      bufs := p.bufs, dlen := p.totLen, newoob := newoob }
  := by
  have hd : s.delivery p = { bytes := p.bytes, excised := none } := by
    simp [delivery, hl]
  refine ⟨rfl, ?_, ?_, rfl, ?_, ?_, ?_⟩
  · rw [hd]
    rfl
  · rw [hd]
    exact p.length_bytes.symm
  · intro d h
    rw [hl] at h
    contradiction
  · intro _
    exact ⟨rfl, hst⟩
  · rw [hd]
    exact hpcb

theorem mapUrgent_spec (s : SbSocket β κ) (p : PbufChain) :
  MapUrgentSpec s p (s.mapUrgent p)
  := by
  have hsame : ∃ urg : TcpPcb → Bool,
      s.pcb = s.pcb.map fun pcb => { pcb with urgRcv := urg pcb } :=
    ⟨TcpPcb.urgRcv, by cases s.pcb <;> rfl⟩
  unfold mapUrgent
  split
  next hpcb =>
    have hl : s.latchOffset p.totLen = none := by simp [latchOffset, hpcb]
    exact mapUrgentSpec_of_none hl (Or.inl rfl) hsame
  next pcb hpcb =>
    split
    next hurg =>
      dsimp only
      split
      next hneg =>
        have hl : s.latchOffset p.totLen = none := by
          simp only [latchOffset, hpcb]
          rw [if_neg]
          omega
        apply mapUrgentSpec_of_none hl (Or.inl rfl)
        use fun _ => false
        rw [hpcb]
        rfl
      next hneg =>
        split
        next hlt =>
          have hl : s.latchOffset p.totLen = some (s.urgOffset pcb).toNat := by
            simp only [latchOffset, hpcb]
            rw [if_pos ⟨hurg, by omega, hlt⟩]
          split
          next hin =>
            have hd : s.delivery p = { bytes := p.bytes, excised := none } := by
              simp [delivery, hin]
            refine ⟨rfl, ?_, ?_, rfl, ?_, ?_, ?_⟩
            · rw [hd]
              rfl
            · rw [hd]
              exact p.length_bytes.symm
            · intro d h
              cases hl.symm.trans h
              exact ⟨rfl, rfl⟩
            · intro h
              rw [hl] at h
              contradiction
            · rw [hd, hpcb]
              use fun _ => false
              rfl
          next hin =>
            have hd : s.delivery p =
                { bytes := p.bytes, excised := some (s.urgOffset pcb).toNat } := by
              simp [delivery, hin, hl]
            have hsize : (s.urgOffset pcb).toNat < Pbuf.size p.bufs := p.totLen_eq_size ▸ hlt
            obtain ⟨b, bufs, hex, -, hbytes, haddr⟩ := Pbuf.excise_spec hsize
            simp only [hex]
            refine ⟨rfl, ?_, ?_, haddr, ?_, ?_, ?_⟩
            · rw [hd]
              exact hbytes
            · rw [hd]
              simp only [Delivery.inband, length_eraseIdx, p.length_bytes, if_pos hlt]
            · intro d h
              cases hl.symm.trans h
              exact ⟨rfl, rfl⟩
            · intro h
              rw [hl] at h
              contradiction
            · rw [hd, hpcb]
              use fun _ => false
              rfl
        next hlt =>
          have hl : s.latchOffset p.totLen = none := by
            simp only [latchOffset, hpcb]
            rw [if_neg]
            omega
          split
          next hst => exact mapUrgentSpec_of_none hl (Or.inr rfl) hsame
          next hst => exact mapUrgentSpec_of_none hl (Or.inl rfl) hsame
    next hurg =>
      have hl : s.latchOffset p.totLen = none := by
        simp [latchOffset, hpcb, hurg]
      exact mapUrgentSpec_of_none hl (Or.inl rfl) hsame

/-! ### The receive queue -/

structure RxqOk (s : SbSocket β κ) : Prop where
  rxBytes_eq : s.rxBytes.toNat = Pbuf.size s.rxq
  rxqTail_eq : s.rxqTail = s.rxq.getLast?.map Pbuf.addr
  size_pos : s.rxq ≠ [] → 0 < Pbuf.size s.rxq
  nodup : (s.rxq.map Pbuf.addr).Nodup

theorem enqueue_rxq
    {s : SbSocket β κ} (hs : s.RxqOk) (bufs : List Pbuf) (dlen : ℕ) :
  (s.enqueue bufs dlen).rxq = s.rxq ++ bufs
  := by
  by_cases hq : s.rxq = []
  · simp [enqueue, hq]
  · have hlast : s.rxq.getLast? = some (s.rxq.getLast hq) := getLast?_eq_some_getLast hq
    simp only [enqueue, if_neg hq, hs.rxqTail_eq, hlast, Option.map_some]
    exact Pbuf.linkAfter_getLast bufs hlast hs.nodup

theorem enqueue_rxqOk
    {s : SbSocket β κ} (hs : s.RxqOk) {bufs : List Pbuf} {dlen : ℕ}
    (hdlen : dlen = Pbuf.size bufs) (hpos : 0 < dlen)
    (hfresh : ((s.rxq ++ bufs).map Pbuf.addr).Nodup)
    (hfit : Pbuf.size s.rxq + dlen < 2 ^ 32) :
  (s.enqueue bufs dlen).RxqOk
  := by
  have hrxq := enqueue_rxq hs bufs dlen
  have hne : bufs ≠ [] := by
    rintro rfl
    simp at hdlen
    omega
  refine ⟨?_, ?_, ?_, ?_⟩
  · have hcount := hs.rxBytes_eq
    rw [hrxq, Pbuf.size_append, ← hdlen]
    simp only [enqueue]
    rw [UInt32.toNat_add_ofNat (by omega), hcount]
  · rw [hrxq, getLast?_append_of_ne_nil _ hne]
    rfl
  · intro _
    rw [hrxq, Pbuf.size_append]
    omega
  · rw [hrxq]
    exact hfresh

structure SameRxq (s s' : SbSocket β κ) : Prop where
  rxq_eq : s'.rxq = s.rxq
  rxqTail_eq : s'.rxqTail = s.rxqTail
  rxBytes_eq : s'.rxBytes = s.rxBytes

theorem RxqOk.congr
    {s s' : SbSocket β κ} (hs : s.RxqOk) (h : SameRxq s s') :
  s'.RxqOk
  := by
  obtain ⟨hq, ht, hb⟩ := h
  refine ⟨?_, ?_, ?_, ?_⟩
  · rw [hb, hq, hs.rxBytes_eq]
  · rw [ht, hq, hs.rxqTail_eq]
  · rw [hq]
    exact hs.size_pos
  · rw [hq]
    exact hs.nodup

/-! ### The receive callback as a whole -/

structure RecvCbSpec (s : SbSocket β κ) (p : PbufChain) (s' : SbSocket β κ) : Prop where
  frame : s' = { s with
    pcb := s'.pcb, oobMarkDist := s'.oobMarkDist, oobState := s'.oobState, oobByte := s'.oobByte,
    rxq := s'.rxq, rxqTail := s'.rxqTail, rxBytes := s'.rxBytes, rxNextSeq := s'.rxNextSeq,
    eventsPending := s'.eventsPending }
  bytes_eq : s.RxqOk → Pbuf.bytes s'.rxq = Pbuf.bytes s.rxq ++ (s.delivery p).inband
  rxqOk : s.RxqOk → ((s.rxq ++ p.bufs).map Pbuf.addr).Nodup →
    Pbuf.size s.rxq + p.totLen < 2 ^ 32 → s'.RxqOk
  latch : ∀ d, s.latchOffset p.totLen = some d →
    s'.oobMarkDist = s.rxBytes + UInt32.ofNat d ∧ s'.oobState = .oobHave
  keep : s.latchOffset p.totLen = none →
    s'.oobMarkDist = s.oobMarkDist ∧ (s'.oobState = s.oobState ∨ s'.oobState = .oobMarked)
  pcb_eq : ∃ urg : TcpPcb → Bool, s'.pcb = s.pcb.map fun pcb =>
    { pcb with urgRcv := urg pcb, recved := pcb.recved + (s.delivery p).excisedCount }

theorem sbTcpRecvCb_spec (s : SbSocket β κ) (p : PbufChain) :
  RecvCbSpec s p (s.sbTcpRecvCb (some p)).1
  := by
  obtain ⟨hsock, hbytes, hdlen, haddr, hlatch, hkeep, hpcb⟩ := mapUrgent_spec s p
  have hsize : (s.mapUrgent p).dlen = Pbuf.size (s.mapUrgent p).bufs := by
    rw [hdlen, ← hbytes, Pbuf.length_bytes]
  have hsame : SameRxq s (s.mapUrgent p).sock := by
    rw [hsock]
    exact ⟨rfl, rfl, rfl⟩
  by_cases hzero : (s.mapUrgent p).dlen = 0
  · have hnil : (s.delivery p).inband = [] := by
      rw [hdlen] at hzero
      exact eq_nil_of_length_eq_zero hzero
    simp only [sbTcpRecvCb, hzero, if_true]
    refine ⟨?_, ?_, ?_, hlatch, hkeep, hpcb⟩
    · simp only [sbEvent]
      rw [hsock]
    · intro _
      rw [hnil, append_nil]
      exact congrArg Pbuf.bytes hsame.rxq_eq
    · intro hs _ _
      exact hs.congr ⟨hsame.rxq_eq, hsame.rxqTail_eq, hsame.rxBytes_eq⟩
  · simp only [sbTcpRecvCb, hzero, if_false]
    set m := s.mapUrgent p
    set s₁ := { m.sock with rxNextSeq := m.sock.rxNextSeq + UInt32.ofNat p.totLen } with hs₁
    have hsame₁ : SameRxq s s₁ := ⟨hsame.rxq_eq, hsame.rxqTail_eq, hsame.rxBytes_eq⟩
    refine ⟨?_, ?_, ?_, hlatch, hkeep, hpcb⟩
    · simp only [sbEvent, enqueue, hs₁]
      rw [hsock]
    · intro hs
      change Pbuf.bytes (s₁.enqueue m.bufs m.dlen).rxq = _
      rw [enqueue_rxq (hs.congr hsame₁), Pbuf.bytes_append, hbytes, hsame₁.rxq_eq]
    · intro hs hfresh hfit
      have hle : m.dlen ≤ p.totLen := by
        have := length_inband_delivery s p
        omega
      have hok : (s₁.enqueue m.bufs m.dlen).RxqOk := by
        apply enqueue_rxqOk (hs.congr hsame₁) hsize (Nat.pos_of_ne_zero hzero)
        · rw [hsame₁.rxq_eq, map_append, haddr, ← map_append]
          exact hfresh
        · rw [hsame₁.rxq_eq]
          omega
      exact hok.congr ⟨rfl, rfl, rfl⟩

end SbSocket
