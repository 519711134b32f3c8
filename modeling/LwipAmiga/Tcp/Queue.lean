import LwipAmiga.Tcp.System
import LwipAmiga.Lib.Family

/-!
# The receive queue and its window

The receive queue is well formed, and what was taken off it and what is on it make up the delivered
stream.
-/

open List Option

open scoped BigOperators

namespace SbSocket

variable {β κ : Type} {s : SbSocket β κ}

theorem consumeHead_rxqOk
    {h : Pbuf} {t : List Pbuf} {n : ℕ} (hs : s.RxqOk) (hq : s.rxq = h :: t) (hn : n < h.len) :
  (s.consumeHead h t n).RxqOk
  := by
  obtain ⟨hcount, htail, -, hnodup⟩ := hs
  rw [hq] at hcount htail hnodup
  refine ⟨?_, ?_, ?_, hnodup⟩
  · simp only [consumeHead, Pbuf.size_cons, Pbuf.len_removeHeader] at hcount ⊢
    rw [UInt32.toNat_sub_ofNat (by omega)]
    omega
  · simp only [consumeHead, htail]
    cases t with
    | nil => rfl
    | cons x t => simp
  · intro _
    simp only [consumeHead, Pbuf.size_cons, Pbuf.len_removeHeader]
    omega

theorem unlinkRun_rxqOk
    {room : ℕ} {run rest : List Pbuf} (hs : s.RxqOk)
    (hrun : Pbuf.takeRun room 0 s.rxq = (run, rest)) :
  (s.unlinkRun rest (Pbuf.size run)).RxqOk
  := by
  have happ : run ++ rest = s.rxq := by
    have := Pbuf.takeRun_append room 0 s.rxq
    rwa [hrun] at this
  obtain ⟨hcount, htail, -, hnodup⟩ := hs
  rw [← happ] at hcount htail hnodup
  refine ⟨?_, ?_, ?_, ?_⟩
  · simp only [unlinkRun]
    rw [Pbuf.size_append] at hcount
    rw [UInt32.toNat_sub_ofNat (by omega)]
    omega
  · by_cases hrest : rest = []
    · simp [unlinkRun, hrest]
    · simp only [unlinkRun, if_neg hrest, htail, getLast?_append_of_ne_nil _ hrest]
  · intro hrest
    have hsnd : (Pbuf.takeRun room 0 s.rxq).2 = rest := by rw [hrun]
    rw [← hsnd] at hrest
    have hpos := Pbuf.size_takeRun_snd_pos (Nat.zero_le room) (Nat.zero_le _) hrest
    rwa [hsnd] at hpos
  · rw [map_append] at hnodup
    exact List.Nodup.of_append_right hnodup

end SbSocket

namespace Call

variable {β κ : Type} {s : SbSocket β κ} {pos : ℕ} {c : Call} {sec : Section β κ}

theorem Step.queue_cases (h : Step s pos c sec) :
  (sec.out = [] ∧ SbSocket.SameRxq s sec.sock) ∨
  (∃ head t n, s.rxq = head :: t ∧ n < head.len ∧ sec.sock = s.consumeHead head t n ∧
    sec.out = head.payload.take n) ∨
  (∃ room run rest, Pbuf.takeRun room 0 s.rxq = (run, rest) ∧
    sec.sock = s.unlinkRun rest (Pbuf.size run) ∧ sec.out = Pbuf.bytes run)
  := by
  cases h with
  | enter r =>
    left
    refine ⟨rfl, ?_⟩
    simp only [SbSocket.passMark]
    split
    · exact ⟨rfl, rfl, rfl⟩
    · exact ⟨rfl, rfl, rfl⟩
  | consume r p d head t hq hlt hn => exact .inr (.inl ⟨head, t, _, hq, hn, rfl, rfl⟩)
  | detach r p d run rest hlt hrun hne => exact .inr (.inr ⟨_, run, rest, hrun, rfl, rfl⟩)
  | oob hc h =>
    left
    refine ⟨h.out_eq, ?_⟩
    obtain hs | ⟨-, hs⟩ | hs := h.sock_eq
    all_goals
      rw [hs]
      exact ⟨rfl, rfl, rfl⟩
  | _ => exact .inl ⟨rfl, rfl, rfl, rfl⟩

theorem Step.bytes_eq (h : Step s pos c sec) :
  sec.out ++ Pbuf.bytes sec.sock.rxq = Pbuf.bytes s.rxq
  := by
  obtain ⟨hout, hsame⟩ | ⟨head, t, n, hq, -, hsock, hout⟩ | ⟨room, run, rest, hrun, hsock, hout⟩ :=
    h.queue_cases
  · rw [hout, hsame.rxq_eq, nil_append]
  · simp only [hout, hsock, hq, SbSocket.consumeHead, Pbuf.bytes_cons, Pbuf.removeHeader,
      ← append_assoc, take_append_drop]
  · have happ := Pbuf.takeRun_append room 0 s.rxq
    rw [hrun] at happ
    rw [hout, hsock, ← happ, Pbuf.bytes_append]
    rfl

theorem Step.rxqOk
    (h : Step s pos c sec) (hs : s.RxqOk) :
  sec.sock.RxqOk
  := by
  obtain ⟨-, hsame⟩ | ⟨head, t, n, hq, hn, hsock, -⟩ | ⟨room, run, rest, hrun, hsock, -⟩ :=
    h.queue_cases
  · exact hs.congr hsame
  · rw [hsock]
    exact SbSocket.consumeHead_rxqOk hs hq hn
  · rw [hsock]
    exact SbSocket.unlinkRun_rxqOk hs hrun

def owed : Call → ℕ
  | .drain _ _ d | .after _ _ d => d.acked
  | .copy _ _ d run => d.acked + Pbuf.size run
  | _ => 0

theorem owed_of_isOob (h : c.isOob = true) :
  c.owed = 0
  := by
  cases c <;> first | rfl | contradiction

theorem owed_of_resting (h : c.resting = true) :
  c.owed = 0
  := by
  cases c <;> first | rfl | contradiction

theorem owed_begin (s : SbSocket β κ) (r : RecvReq) (oob : Bool) :
  (begin s r oob).owed = 0
  := by
  simp only [begin]
  split
  · split <;> rfl
  · rfl

theorem owed_of_not_holds
    (hholds : c.holds = false) (hcopy : ∀ r p d run, c ≠ .copy r p d run) :
  c.owed = 0
  := by
  cases c with
  | copy r p d run => exact absurd rfl (hcopy r p d run)
  | _ => first | rfl | contradiction

theorem Step.recved_add_owed
    {pcb' : TcpPcb} (h : Step s pos c sec) (hpcb' : sec.sock.pcb = some pcb') :
  ∃ pcb, s.pcb = some pcb ∧ pcb'.delivered = pcb.delivered ∧
    pcb'.recved + sec.call.owed = pcb.recved + c.owed + sec.out.length
  := by
  have hflush : ∀ acked, (s.flushCredit acked).pcb = some pcb' →
      ∃ pcb, s.pcb = some pcb ∧ pcb'.delivered = pcb.delivered ∧
        pcb'.recved = pcb.recved + acked := by
    intro acked hp
    obtain ⟨pcb, hpcb, rfl⟩ := map_eq_some_iff.mp hp
    refine ⟨pcb, hpcb, ?_⟩
    rw [ackFlush_eq pcb (Nat.le_refl acked)]
    exact ⟨rfl, rfl⟩
  cases h with
  | enter r =>
    refine ⟨pcb', ?_, rfl, rfl⟩
    simp only [SbSocket.passMark] at hpcb'
    split at hpcb' <;> exact hpcb'
  | consume r p d head t hq hlt hn =>
    refine ⟨pcb', hpcb', rfl, ?_⟩
    have hlen : (head.payload.take (d.lim - p.copied)).length = d.lim - p.copied :=
      length_take_of_le (Nat.le_of_lt hn)
    simp only [owed, hlen]
    omega
  | detach r p d run rest hlt hrun hne =>
    refine ⟨pcb', hpcb', rfl, ?_⟩
    simp only [owed, Pbuf.length_bytes]
    omega
  | finish r p d h | again r p d hmark hlen hall => exact hflush _ hpcb'
  | oob hc h =>
    obtain ⟨hout, hsock, hcall⟩ := h
    have howed : sec.call.owed = 0 := by
      obtain hoob | ⟨r, p, res, hdone, -, -⟩ := hcall
      · exact owed_of_isOob hoob
      · rw [hdone]
        rfl
    refine ⟨pcb', ?_, rfl, ?_⟩
    · obtain hs | ⟨-, hs⟩ | hs := hsock
      all_goals
        rw [hs] at hpcb'
        exact hpcb'
    · rw [howed, owed_of_isOob hc, hout]
      rfl
  | _ => exact ⟨pcb', hpcb', rfl, rfl⟩

end Call

namespace SbSocket

variable {β κ : Type}

theorem latchOffset_handOver (s : SbSocket β κ) (m n : ℕ) :
  (s.handOver m).latchOffset n = s.latchOffset n
  := by
  unfold handOver latchOffset
  cases s.pcb <;> rfl

theorem delivery_handOver (s : SbSocket β κ) (n : ℕ) (p : PbufChain) :
  (s.handOver n).delivery p = s.delivery p
  := by
  simp only [delivery, latchOffset_handOver]
  rfl

end SbSocket

def excisedTotal (log : List Delivery) : ℕ :=
  (log.map Delivery.excisedCount).sum

def inbandStream (log : List Delivery) : List UInt8 :=
  (log.map Delivery.inband).flatten

@[simp]
theorem excisedTotal_append (log : List Delivery) (d : Delivery) :
  excisedTotal (log ++ [d]) = excisedTotal log + d.excisedCount
  := by
  simp [excisedTotal]

@[simp]
theorem inbandStream_append (log : List Delivery) (d : Delivery) :
  inbandStream (log ++ [d]) = inbandStream log ++ d.inband
  := by
  simp [inbandStream]

namespace TcpWorld

variable {β κ : Type} [Fintype β] {L : Lwip} {w w' : TcpWorld β κ}

structure StreamInv (w : TcpWorld β κ) : Prop where
  rxqOk : w.sock.RxqOk
  window : Pbuf.size w.sock.rxq ≤ TCP_WND
  stream : w.detached ++ Pbuf.bytes w.sock.rxq = inbandStream w.log
  delivered_eq : ∀ pcb, w.sock.pcb = some pcb →
    pcb.delivered = w.detached.length + Pbuf.size w.sock.rxq + excisedTotal w.log
  recved_eq : ∀ pcb, w.sock.pcb = some pcb →
    pcb.recved + ∑ i, (w.call i).owed = w.detached.length + excisedTotal w.log

theorem streamInv_start
    {b : β} {s : SbSocket β κ} (h : Created b s) :
  StreamInv (start s)
  := by
  cases h with
  | socket sndBuf =>
    refine ⟨⟨rfl, rfl, (by intros; contradiction), nodup_nil⟩, Nat.zero_le _, rfl, ?_, ?_⟩
    · rintro _ ⟨⟩
      rfl
    · rintro _ ⟨⟩
      simp [start, tcpNew, Call.owed, excisedTotal]
  | accepted pcb hstate hdel hrecv =>
    refine ⟨⟨rfl, rfl, (by intros; contradiction), nodup_nil⟩, Nat.zero_le _, rfl, ?_, ?_⟩
    · rintro _ ⟨⟩
      exact hdel
    · rintro _ ⟨⟩
      simp [start, hrecv, Call.owed, excisedTotal]

theorem StreamInv.deliver
    (hL : L.Documented) (hw : w.StreamInv) {p : PbufChain} {pcb : TcpPcb}
    (hpcb : w.sock.pcb = some pcb) (hdel : L.deliver pcb p.totLen = true)
    (hfresh : ((w.sock.rxq ++ p.bufs).map Pbuf.addr).Nodup) :
  StreamInv (w.afterEvent (.deliver p) ((w.sock.handOver p.totLen).sbTcpRecvCb (some p)).1)
  := by
  have hspec := SbSocket.sbTcpRecvCb_spec (w.sock.handOver p.totLen) p
  have hlen := SbSocket.length_inband_delivery w.sock p
  have hwin := hL.deliver_window pcb p.totLen hdel
  have hd := hw.delivered_eq pcb hpcb
  have hr := hw.recved_eq pcb hpcb
  have hok : (w.sock.handOver p.totLen).RxqOk := hw.rxqOk.congr ⟨rfl, rfl, rfl⟩
  generalize hs' : ((w.sock.handOver p.totLen).sbTcpRecvCb (some p)).1 = s' at hspec ⊢
  have hbytes := hspec.bytes_eq hok
  rw [SbSocket.delivery_handOver] at hbytes
  change Pbuf.bytes s'.rxq = Pbuf.bytes w.sock.rxq ++ (w.sock.delivery p).inband at hbytes
  have hsize : Pbuf.size s'.rxq = Pbuf.size w.sock.rxq + (w.sock.delivery p).inband.length := by
    rw [← Pbuf.length_bytes, hbytes, length_append, Pbuf.length_bytes]
  have hpcb' : ∀ pcb', s'.pcb = some pcb' → pcb'.delivered = pcb.delivered + p.totLen ∧
      pcb'.recved = pcb.recved + (w.sock.delivery p).excisedCount := by
    intro pcb' h'
    obtain ⟨urg, hurg⟩ := hspec.pcb_eq
    rw [h', SbSocket.delivery_handOver] at hurg
    simp only [SbSocket.handOver, hpcb, map_some, some.injEq] at hurg
    rw [hurg]
    exact ⟨rfl, rfl⟩
  refine ⟨?_, ?_, ?_, ?_, ?_⟩
  · apply hspec.rxqOk hok hfresh
    change Pbuf.size w.sock.rxq + p.totLen < 2 ^ 32
    have : TCP_WND < 2 ^ 31 := by decide
    omega
  · change Pbuf.size s'.rxq ≤ TCP_WND
    omega
  · change w.detached ++ Pbuf.bytes s'.rxq = inbandStream (w.log ++ [w.sock.delivery p])
    rw [hbytes, ← append_assoc, hw.stream, inbandStream_append]
  · intro pcb' h'
    obtain ⟨hdel', -⟩ := hpcb' pcb' h'
    change pcb'.delivered = w.detached.length + Pbuf.size s'.rxq +
      excisedTotal (w.log ++ [w.sock.delivery p])
    rw [excisedTotal_append]
    omega
  · intro pcb' h'
    obtain ⟨-, hrecv'⟩ := hpcb' pcb' h'
    change pcb'.recved + ∑ i, (w.call i).owed = w.detached.length +
      excisedTotal (w.log ++ [w.sock.delivery p])
    rw [excisedTotal_append]
    omega

theorem StreamInv.quiet
    (hw : w.StreamInv) {s' : SbSocket β κ} (hs : SbSocket.SameRx w.sock s') {call : β → Call}
    (hcall : ∑ i, (call i).owed = ∑ i, (w.call i).owed) {lock : Option β} {closed : Bool}
    {marks : List ℕ} :
  StreamInv { w with sock := s', call, lock, closed, marks }
  := by
  obtain ⟨hq, -, -, hpcb⟩ := hs
  refine ⟨hw.rxqOk.congr hq, ?_, ?_, ?_, ?_⟩
  · simp only [hq.rxq_eq]
    exact hw.window
  · simp only [hq.rxq_eq]
    exact hw.stream
  · intro pcb' h'
    obtain ⟨pcb, h, hdel, -⟩ := hpcb pcb' h'
    simp only [hq.rxq_eq, hdel]
    exact hw.delivered_eq pcb h
  · intro pcb' h'
    obtain ⟨pcb, h, -, hrecv⟩ := hpcb pcb' h'
    simp only [hrecv, hcall]
    exact hw.recved_eq pcb h

variable [DecidableEq β]

theorem sum_owed_update
    {i : β} {c : Call} (h : c.owed = (w.call i).owed) :
  ∑ j, (Function.update w.call i c j).owed = ∑ j, (w.call j).owed
  := by
  have := Finset.sum_comp_update Call.owed w.call i c
  omega

theorem StreamInv.call
    (hw : w.StreamInv) {i : β} {sec : Section β κ}
    (h : Call.Step w.sock w.detached.length (w.call i) sec) :
  StreamInv (w.afterCall i sec)
  := by
  have hbytes := h.bytes_eq
  have hsize : sec.out.length + Pbuf.size sec.sock.rxq = Pbuf.size w.sock.rxq := by
    rw [← Pbuf.length_bytes, ← Pbuf.length_bytes, ← hbytes, length_append]
  have hsum := Finset.sum_comp_update Call.owed w.call i sec.call
  refine ⟨h.rxqOk hw.rxqOk, ?_, ?_, ?_, ?_⟩
  · have := hw.window
    change Pbuf.size sec.sock.rxq ≤ TCP_WND
    omega
  · change (w.detached ++ sec.out) ++ Pbuf.bytes sec.sock.rxq = inbandStream w.log
    rw [append_assoc, hbytes, hw.stream]
  · intro pcb' h'
    obtain ⟨pcb, hpcb, hdel, -⟩ := h.recved_add_owed h'
    have := hw.delivered_eq pcb hpcb
    change pcb'.delivered = (w.detached ++ sec.out).length + Pbuf.size sec.sock.rxq +
      excisedTotal w.log
    rw [length_append]
    omega
  · intro pcb' h'
    obtain ⟨pcb, hpcb, -, hrecv⟩ := h.recved_add_owed h'
    have := hw.recved_eq pcb hpcb
    change pcb'.recved + ∑ j, (Function.update w.call i sec.call j).owed =
      (w.detached ++ sec.out).length + excisedTotal w.log
    rw [length_append]
    omega

theorem StreamInv.step
    (hL : L.Documented) {l : TcpLabel β κ} (hw : w.StreamInv) (h : Step L w l w') :
  w'.StreamInv
  := by
  cases h with
  | event e s' hlock h =>
    obtain ⟨p, pcb, rfl, hpcb, hdel, hfresh, rfl⟩ | ⟨hne, hsame⟩ := SbSocket.event_cases h
    · exact hw.deliver hL hpcb hdel hfresh
    · have hlog : logged w.sock e = [] := by
        cases e with
        | deliver p => exact absurd rfl (hne p)
        | _ => rfl
      simp only [afterEvent, hlog, append_nil]
      exact hw.quiet hsame rfl
  | close hrest => exact hw.quiet (.of_pcb ⟨rfl, rfl, rfl⟩ rfl rfl rfl) rfl
  | begin i r oob hrest =>
    apply hw.quiet (.of_pcb ⟨rfl, rfl, rfl⟩ rfl rfl rfl)
    apply sum_owed_update
    rw [Call.owed_of_resting hrest, Call.owed_begin]
  | call i sec hl hlock h => exact hw.call h
  | clear i r p e hc =>
    have hs : SbSocket.SameRx w.sock { w.sock with err := none } :=
      .of_pcb ⟨rfl, rfl, rfl⟩ rfl rfl rfl
    apply hw.quiet hs
    apply sum_owed_update
    rw [hc]
    rfl

theorem streamInv_of_reach
    (hL : L.Documented) {good : TcpWorld β κ → TcpLabel β κ → Prop}
    (r : (system L).Reach good w) :
  w.StreamInv
  := by
  apply r.invariant
  · rintro _ ⟨b, s, hs, rfl⟩
    exact streamInv_start hs
  · intro w l w' hw _ h
    exact hw.step hL (step_of_next h)

/-! ### The receive queue -/

/-- `rxBytes` and `rxqTail` agree with the queue, and the bytes taken off it followed by those queued
are the delivered bytes without the excised ones. -/
theorem rxq_wellFormed
    (hL : L.Documented) (h : (system L).Reachable w) :
  w.sock.rxBytes.toNat = Pbuf.size w.sock.rxq ∧
  (w.sock.rxq = [] ↔ w.sock.rxBytes = 0) ∧
  (w.sock.rxBytes = 0 ↔ w.sock.rxqTail = none) ∧
  w.sock.rxqTail = w.sock.rxq.getLast?.map Pbuf.addr ∧
  w.detached ++ Pbuf.bytes w.sock.rxq = inbandStream w.log
  := by
  have hw := streamInv_of_reach hL h
  obtain ⟨hcount, htail, hpos, -⟩ := hw.rxqOk
  have hempty : w.sock.rxq = [] ↔ w.sock.rxBytes = 0 := by
    rw [← UInt32.toNat_inj, hcount]
    constructor
    · intro hq
      rw [hq]
      rfl
    · intro hzero
      by_contra hne
      have := hpos hne
      change Pbuf.size w.sock.rxq = 0 at hzero
      omega
  refine ⟨hcount, hempty, ?_, htail, hw.stream⟩
  rw [← hempty, htail]
  simp

def urgentFirstRun : List (TcpLabel Bool Unit) :=
  [.event (.urgent 0),
   .event (.deliver
    { bufs := [⟨1, [7], 3, by decide⟩, ⟨2, [8, 9], 2, by decide⟩]
      ne_nil := by decide, totLens := by decide, size_lt := by decide, nodup := by decide }),
   .begin true (.plain 1 (by decide)) false, .enter true, .run true, .run true,
   .event (.deliver (.single 3 [10, 11] (by decide))),
   .relock true, .run true, .run true, .run true]

theorem urgentFirstRun_enabled :
  ((system Lwip.reference).exec connection urgentFirstRun).isSome = true
  := by
  decide

def urgentFirst : TcpWorld Bool Unit :=
  (system Lwip.reference).last connection urgentFirstRun urgentFirstRun_enabled

theorem reachable_urgentFirst :
  (system Lwip.reference).Reachable urgentFirst
  := TransitionSystem.reachable_last (init_connection _)

theorem rxq_wellFormed_urgentFirst :
  urgentFirst.detached = [8] ∧ Pbuf.bytes urgentFirst.sock.rxq = [9, 10, 11] ∧
  urgentFirst.log.map Delivery.excised = [some 0, none] ∧
  urgentFirst.detached ++ Pbuf.bytes urgentFirst.sock.rxq = inbandStream urgentFirst.log
  := by
  refine ⟨by decide, by decide, by decide, ?_⟩
  exact (rxq_wellFormed Lwip.reference_documented reachable_urgentFirst).2.2.2.2

/-! ### The receive window -/

/-- The credit passed to `tcp_recved` is the bytes taken off the queue plus one for each excised urgent
byte. -/
theorem recved_eq_taken_add_excised
    (hL : L.Documented) (h : (system L).Reachable w) {pcb : TcpPcb}
    (hpcb : w.sock.pcb = some pcb) (hlock : w.lock = none)
    (hcopy : ∀ i r p d run, w.call i ≠ .copy r p d run) :
  pcb.recved = w.detached.length + excisedTotal w.log
  := by
  have hw := (streamInv_of_reach hL h).recved_eq pcb hpcb
  have howed : ∑ i, (w.call i).owed = 0 := by
    apply Finset.sum_eq_zero
    intro i _
    exact Call.owed_of_not_holds ((lockOk_of_reach h).not_holds_of_free hlock i) (hcopy i)
  omega

theorem recved_eq_urgentFirst :
  ∃ pcb, urgentFirst.sock.pcb = some pcb ∧ urgentFirst.detached.length = 1 ∧
    excisedTotal urgentFirst.log = 1 ∧
    pcb.recved = urgentFirst.detached.length + excisedTotal urgentFirst.log
  := by
  have hpcb : urgentFirst.sock.pcb.isSome = true := by decide
  have hrest : ∀ i, (urgentFirst.call i).resting = true := by decide
  refine ⟨_, (some_get hpcb).symm, by decide, by decide, ?_⟩
  apply recved_eq_taken_add_excised Lwip.reference_documented reachable_urgentFirst
    (some_get hpcb).symm
  · decide
  · intro i r p d run hc
    have := hrest i
    rw [hc] at this
    contradiction

end TcpWorld
