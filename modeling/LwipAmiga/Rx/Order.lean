import LwipAmiga.Rx.Merge

/-!
# Merging is invisible to TCP

Of each flow lwIP is handed the frames in order, if every merged segment is taken apart.
-/

open List

open Bytes Hold

def ofFlow (k : FlowKey) (chain : List RxPbuf) : Bool :=
  chain.any fun p => p.frame.flow = some k

def frames (ops : List RxOp) : List (ℕ × RxFrame) :=
  items (ops.map RxGro.item)

theorem mem_frames {ops : List RxOp} {x : ℕ × RxFrame} :
  x ∈ frames ops ↔ .frame x.1 x.2 ∈ ops
  := by
  simp only [frames, items, mem_filterMap, mem_map, exists_exists_and_eq_and]
  constructor
  · rintro ⟨op, hop, hx⟩
    cases op with
    | frame addr f =>
      obtain rfl : (addr, f) = x := by
        simpa [RxGro.item] using hx
      apply hop
    | flush => simp [RxGro.item] at hx
  · intro hx
    exact ⟨_, hx, rfl⟩

theorem frames_append_flush (ops : List RxOp) :
  frames (ops ++ [.flush]) = frames ops
  := by
  rw [frames, map_append, items_append]
  apply append_nil

theorem RxFrame.ip_ne_zero_of_flow {f : RxFrame} (h : f.flow ≠ none) :
  inetfrmIpOffset f.mem f.len ≠ 0
  := by
  intro hip
  apply h
  simp [flow, groMeta, rxgroClassify, hip]

theorem Handed.wellFormed
    {chain : List RxPbuf} (h : Handed chain) (hv : ∀ q ∈ chain, q.frame.ValidIp)
    (hflow : ∀ q ∈ chain, q.frame.flow ≠ none) :
  (∀ p rest, chain = p :: rest → WellFormed p rest ∧ (rest = [] → p.payload = p.frame.data)) ∧
    split chain = chain.map fun q => tcpPiece q.frame.data
  := by
  cases h with
  | @single p hp =>
    simp only [mem_singleton, forall_eq] at hv hflow
    obtain ⟨hwf, hpayload⟩ := wellFormed_single hp hv (RxFrame.ip_ne_zero_of_flow hflow)
    constructor
    · rintro p rest ⟨⟩
      exact ⟨hwf, fun _ => hpayload⟩
    · simp [split, pieces, hpayload]
  | @merged key ip add head rest nextSeq hrun hrest hframes =>
    rw [forall_mem_setTotLens (P := RxFrame.ValidIp), forall_mem_cons] at hv
    obtain ⟨hwf, hsplit⟩ := hrun.wellFormed_merged hframes (forall_mem_cons.mpr hv)
    constructor
    · intro p rest' hchain
      refine ⟨hwf p rest' hchain, ?_⟩
      rintro rfl
      rw [setTotLens, cons.injEq] at hchain
      obtain ⟨q, rest, rfl⟩ := exists_cons_of_ne_nil hrest
      have hnil := hchain.2
      contradiction
    · apply hsplit


def RxFrame.sample (tci : Option ℕ) (vhl : UInt8) (chksum tcpChksum seq : ℕ)
    (payload : List UInt8) : RxFrame :=
  let tag := match tci with
    | none => []
    | some tci => word16 ETHTYPE_VLAN ++ word16 tci
  let link := [2, 0, 0, 0, 0, 1, 2, 0, 0, 0, 0, 2] ++ tag ++ word16 ETHTYPE_IP
  let ip := [vhl, 0] ++ word16 (40 + payload.length) ++ [0, 0, 0, 0, 64, 6] ++ word16 chksum ++
    [10, 0, 0, 2, 10, 0, 0, 1]
  let tcp := word16 80 ++ word16 4096 ++ word16 (seq / 0x10000) ++ word16 (seq % 0x10000) ++
    [0, 0, 0, 1, 0x50, 0x10, 0x20, 0] ++ word16 tcpChksum ++ [0, 0]
  let data := link ++ ip ++ tcp ++ payload
  ⟨Bytes.mem data, data.length⟩

namespace RxGro

theorem delivered_frames
    {gro : Bool} {ops : List RxOp} {chain : List RxPbuf} {q : RxPbuf}
    (hchain : chain ∈ delivered (run gro ops).2) (hq : q ∈ chain) :
  q.id ∈ frames ops
  := by
  apply (run_hold gro ops).mem
  exact mem_flatten_of_mem (mem_map_of_mem hchain) (mem_map_of_mem hq)

theorem delivered_uniform
    {gro : Bool} {ops : List RxOp} {chain : List RxPbuf}
    (hchain : chain ∈ delivered (run gro ops).2) :
  ∀ p ∈ chain, ∀ q ∈ chain, p.frame.flow = q.frame.flow
  := by
  intro p hp q hq
  have hout := (run_hold gro ops).emitted _ (mem_map_of_mem hchain)
  apply hout.2 p.id (mem_map_of_mem hp) q.id (mem_map_of_mem hq)

theorem delivered_ofFlow (gro : Bool) (ops : List RxOp) (k : FlowKey) :
  ((delivered (run gro ops).2).filter (ofFlow k)).flatMap (map RxPbuf.id) =
    ofKey flowOf (some k) ((delivered (run gro ops).2).map (map RxPbuf.id)).flatten
  := by
  rw [← flatten_filter_any fun ys hys => ((run_hold gro ops).emitted ys hys).2, filter_map,
    flatMap_def]
  congr 3
  funext chain
  simp only [ofFlow, Function.comp_def, any_map, flowOf, RxPbuf.id]
  congr!

section Valid

variable {gro : Bool} {ops : List RxOp}
  (hvalid : ∀ addr f, .frame addr f ∈ ops → f.flow ≠ none → f.ValidIp)

include hvalid

theorem delivered_wellFormed
    {chain : List RxPbuf} {p : RxPbuf} (hchain : chain ∈ delivered (run gro ops).2) (hp : p ∈ chain)
    (hflow : p.frame.flow ≠ none) :
  (∀ p rest, chain = p :: rest → WellFormed p rest ∧ (rest = [] → p.payload = p.frame.data)) ∧
    split chain = chain.map fun q => tcpPiece q.frame.data
  := by
  have hflows : ∀ q ∈ chain, q.frame.flow ≠ none := by
    intro q hq
    rw [delivered_uniform hchain q hq p hp]
    apply hflow
  apply (handed_run gro ops chain hchain).wellFormed _ hflows
  intro q hq
  apply hvalid q.addr q.frame _ (hflows q hq)
  apply mem_frames.mp (delivered_frames hchain hq)

theorem split_delivered (k : FlowKey) :
  ((delivered (run gro ops).2).filter (ofFlow k)).flatMap split =
    (ofKey flowOf (some k) ((delivered (run gro ops).2).map (map RxPbuf.id)).flatten).map
      fun x => tcpPiece x.2.data
  := by
  rw [← delivered_ofFlow, map_flatMap]
  apply flatMap_congr
  intro chain hmem
  obtain ⟨hchain, hof⟩ := mem_filter.mp hmem
  obtain ⟨p, hp, hflow⟩ := any_eq_true.mp hof
  have hsome : p.frame.flow = some k := by
    simpa using hflow
  rw [(delivered_wellFormed hvalid hchain hp (by simp [hsome])).2, map_map]
  rfl

end Valid

/-- Of each flow the pieces that are delivered are those of the frames in order, except for ACKs
replaced by newer ones, and every chain is right. -/
theorem merging_invisible
    (gro : Bool) (ops : List RxOp)
    (hvalid : ∀ addr f, .frame addr f ∈ ops → f.flow ≠ none → f.ValidIp) :
  (∀ k, ∃ segments, Coalesced NewerAck (ofKey flowOf (some k) (frames ops)) segments ∧
    ((delivered (run gro (ops ++ [.flush])).2).filter (ofFlow k)).flatMap split =
      segments.map fun x => tcpPiece x.2.data) ∧
    ∀ p rest, p :: rest ∈ delivered (run gro (ops ++ [.flush])).2 → p.frame.flow ≠ none →
      WellFormed p rest ∧ (rest = [] → p.payload = p.frame.data)
  := by
  have hvalid' : ∀ addr f, .frame addr f ∈ ops ++ [.flush] → f.flow ≠ none → f.ValidIp := by
    intro addr f hmem
    apply hvalid addr f
    simpa using hmem
  constructor
  · intro k
    have hcoalesced := (run_hold gro (ops ++ [.flush])).coalesced (some k)
    change Coalesced _ (ofKey _ _ (frames _)) _ at hcoalesced
    have hempty : held (run gro (ops ++ [.flush])).1 = fun _ => [] := by
      funext i
      apply congrArg (map _) (idle_of_flush ops i)
    rw [frames_append_flush, hempty] at hcoalesced
    refine ⟨_, hcoalesced, ?_⟩
    rw [split_delivered hvalid']
    congr 1
    symm
    apply append_nil
  · intro p rest hmem hflow
    exact (delivered_wellFormed hvalid' hmem mem_cons_self hflow).1 p rest rfl

def twoSegments : List RxOp :=
  [.frame 0 (.sample none 0x45 0x66CD 0x2A7F 1 [65]), .frame 1 (.sample none 0x45 0x66CD 0x297E 2 [66])]

theorem validIp_twoSegments :
  ∀ addr f, .frame addr f ∈ twoSegments → f.flow ≠ none → f.ValidIp
  := by
  intro addr f hmem _
  obtain ⟨_, rfl⟩ | ⟨_, rfl⟩ : addr = 0 ∧ f = .sample none 0x45 0x66CD 0x2A7F 1 [65] ∨
      addr = 1 ∧ f = .sample none 0x45 0x66CD 0x297E 2 [66] := by
    simpa [twoSegments] using hmem
  · constructor <;> decide
  · constructor <;> decide

theorem merging_invisible_twoSegments :
  ∃ segments, Coalesced NewerAck
      (ofKey flowOf (some ⟨0x0A000002, 0x0A000001, 0x00501000⟩) (frames twoSegments)) segments ∧
    ((delivered (run true (twoSegments ++ [.flush])).2).filter
      (ofFlow ⟨0x0A000002, 0x0A000001, 0x00501000⟩)).flatMap split =
        segments.map fun x => tcpPiece x.2.data
  := (merging_invisible true twoSegments validIp_twoSegments).1 _

/-! ### Duplicate ACKs -/

theorem not_newerAck {a b : ℕ × RxFrame} (h : b.2 = a.2) :
  ¬ NewerAck b a
  := by
  rintro ⟨k, n, n', hb, ha, hgt⟩
  rw [h, ha] at hb
  obtain ⟨-, rfl⟩ : k = k ∧ n' = n := by
    simpa using hb
  simp [rxgroSeqGt] at hgt

/-- An ACK that the next frame of its flow does not supersede is delivered, behind what came before it
and before what came after it.  So TCP gets to see duplicate ACKs. -/
theorem duplicate_acks_survive
    (gro : Bool) {ops : List RxOp} {k : FlowKey} {before after : List (ℕ × RxFrame)}
    {a b : ℕ × RxFrame}
    (hflow : ofKey flowOf (some k) (frames ops) = before ++ [a] ++ b :: after)
    (hdup : ¬ NewerAck b a) :
  ∃ us vs, ((delivered (run gro (ops ++ [.flush])).2).filter (ofFlow k)).flatMap (map RxPbuf.id) =
      us ++ [a] ++ vs ∧
    Coalesced NewerAck (before ++ [a]) (us ++ [a]) ∧ Coalesced NewerAck (b :: after) vs
  := by
  have hcoalesced := (run_hold gro (ops ++ [.flush])).coalesced (some k)
  have hempty : held (run gro (ops ++ [.flush])).1 = fun _ => [] := by
    funext i
    apply congrArg (map _) (idle_of_flush ops i)
  change Coalesced _ (ofKey _ _ (frames _)) (_ ++ ofKey _ _ (held _ _)) at hcoalesced
  rw [frames_append_flush, hempty, hflow, ← delivered_ofFlow] at hcoalesced
  obtain ⟨us, vs, hout, hbefore, hafter⟩ := hcoalesced.cut (by simpa using hdup)
  have hlast := hbefore.getLast?_eq
  rw [getLast?_concat] at hlast
  obtain ⟨us, rfl⟩ := getLast?_eq_some_iff.mp hlast
  exact ⟨us, vs, (append_nil _).symm.trans hout, hbefore, hafter⟩

def pureAck : RxFrame := .sample none 0x45 0x66CE 0x6B80 1 []

def threeAcks : List RxOp := [.frame 0 pureAck, .frame 1 pureAck, .frame 2 pureAck]

theorem duplicate_acks_survive_threeAcks :
  ∃ us vs, ((delivered (run true (threeAcks ++ [.flush])).2).filter
      (ofFlow ⟨0x0A000002, 0x0A000001, 0x00501000⟩)).flatMap (map RxPbuf.id) =
        us ++ [(1, pureAck)] ++ vs
  := by
  have hflow : pureAck.flow = some ⟨0x0A000002, 0x0A000001, 0x00501000⟩ := by decide
  have hframes : ofKey flowOf (some ⟨0x0A000002, 0x0A000001, 0x00501000⟩) (frames threeAcks) =
      [(0, pureAck)] ++ [(1, pureAck)] ++ (2, pureAck) :: [] := by
    simp [threeAcks, frames, items, item, ofKey, flowOf, hflow]
  obtain ⟨us, vs, hout, -, -⟩ := duplicate_acks_survive true hframes (not_newerAck rfl)
  exact ⟨us, vs, hout⟩

end RxGro
