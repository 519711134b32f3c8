import LwipAmiga.Rx.Taint

/-!
# Frames that lwIP would drop

An absorbed frame loses its IPv4 header before lwIP sees it.
-/

open Bytes Hold

/-- `ip4_input` does not drop the packet for its version or its header checksum. -/
def Ip4Accepts (data : List UInt8) : Prop :=
  packetIp data ≠ 0 ∧ iphV (mem data) (packetIp data) = 4 ∧ headerChksum data = 0

instance (data : List UInt8) : Decidable (Ip4Accepts data) :=
  inferInstanceAs (Decidable (_ ∧ _ ∧ _))

theorem not_ip4Accepts_of_length_lt {l : List UInt8} (h : l.length < 34) :
  ¬ Ip4Accepts l
  := by
  rintro ⟨hip, -⟩
  have hlen := (inetfrmIpOffset_cases hip).2
  have hcases := (inetfrmIpOffset_cases hip).1
  omega

theorem ip4Accepts_congr
    {l l' : List UInt8} {ip : ℕ} (hip : packetIp l = ip) (hip' : packetIp l' = ip)
    (hfirst : mem l ip = mem l' ip) (hihl : iphHlBytes (mem l') ip = 20)
    (hchk : inetChksum (mem l) ip 20 = 0 ↔ inetChksum (mem l') ip 20 = 0) :
  Ip4Accepts l ↔ Ip4Accepts l'
  := by
  have hv : iphV (mem l) ip = iphV (mem l') ip := by
    rw [iphV, iphV, hfirst]
  have hihl₀ : iphHlBytes (mem l) ip = 20 := by
    rw [← hihl, iphHlBytes, iphHlBytes, hfirst]
  rw [Ip4Accepts, Ip4Accepts, headerChksum, headerChksum, hip, hip', hv, hihl, hihl₀, hchk]

namespace RunOf

variable {key : FlowKey} {ip add : ℕ} {head : RxPbuf} {rest : List RxPbuf} {nextSeq : UInt32}

theorem accepts_iff
    {l : List UInt8} (h : RunOf key ip head rest nextSeq add) (hlen : l.length = head.len)
    (hsame : Agree (ip + 2) (mem l) (mem head.frame.bytes))
    (hchk : ip + 20 ≤ head.len → mem head.frame.bytes ip ≠ 0 →
      (inetChksum (mem l) ip 20 = 0 ↔ inetChksum (mem head.frame.bytes) ip 20 = 0)) :
  Ip4Accepts l ↔ Ip4Accepts head.frame.bytes
  := by
  obtain ⟨seq, payLen, hseg⟩ := h.head_segment
  have hbytes := h.mem_head.1
  have hsize := hseg.len_eq
  have hoff := hseg.ip_cases
  by_cases hfull : head.frame.len < 0x10000
  · rw [RxFrame.bytes_eq_data hfull] at hbytes hsame hchk ⊢
    rw [RxFrame.length_data] at hbytes
    have hhead := head.frame.agree_data.header (by omega : ip + 20 ≤ head.frame.len)
    have hihl : iphHlBytes (mem head.frame.data) ip = 20 := by
      rw [hhead.ihl, ← hseg.offset]
      apply hseg.headers.ihl
    have hip' : packetIp head.frame.data = ip := by
      rw [packetIp, RxFrame.length_data, head.frame.agree_data.ipOffset]
      apply hseg.offset
    have hip : packetIp l = ip := by
      rw [packetIp, hlen, hbytes, ← head.frame.length_data]
      apply hsame.ipOffset_eq hip'
      omega
    have hfirst : mem head.frame.data ip ≠ 0 := by
      intro hzero
      rw [iphHlBytes, hzero] at hihl
      contradiction
    apply ip4Accepts_congr hip hip' (hsame ip (by omega)) hihl
    apply hchk (by omega) hfirst
  · have hlt : iphLen head.frame.mem ip < 0x10000 := be16_lt ..
    have hiplen := hseg.iplen
    rw [hseg.offset] at hiplen
    have hshort : head.frame.bytes.length < 34 := by
      rw [RxFrame.bytes, List.length_take]
      omega
    have hshort' : l.length < 34 := by
      rw [hlen, hbytes]
      apply hshort
    simp [not_ip4Accepts_of_length_lt hshort, not_ip4Accepts_of_length_lt hshort']

theorem accepts_payload (h : RunOf key ip head rest nextSeq add) :
  Ip4Accepts head.payload ↔ Ip4Accepts head.frame.bytes
  := by
  have hmem := h.mem_head.2
  apply h.accepts_iff rfl
  · intro j hj
    apply hmem
    omega
  · intro _ _
    have hagree : Agree (ip + 20) (mem head.payload) (mem head.frame.bytes) := by
      intro j hj
      apply hmem
      omega
    rw [hagree.chksum le_rfl]

theorem accepts_fixed (h : RunOf key ip head rest nextSeq add) :
  Ip4Accepts (head.fixed ip add).payload ↔ Ip4Accepts head.frame.bytes
  := by
  apply h.accepts_iff
  · apply Pbuf.len_fixLen
  · intro j hj
    have hfixed : mem (head.fixed ip add).payload j = mem head.payload j := by
      apply Pbuf.mem_fixLen
      omega
    rw [hfixed]
    apply h.mem_head.2
    omega
  · intro hlen hfirst
    apply h.chksum_fixed hlen hfirst

end RunOf

def ip4Verdict : HeaderVerdict where
  ok := Ip4Accepts
  decidable := fun data => inferInstanceAs (Decidable (Ip4Accepts data))
  payload := RunOf.accepts_payload
  fixed := RunOf.accepts_fixed

namespace RxGro

/-- All frames of every merged packet that `ip4_input` accepts would have been accepted alone, exactly
if no step absorbs a bad frame into a run with a good header. -/
theorem launders_nothing_iff (gro : Bool) (ops : List RxOp) :
  (∀ p rest, p :: rest ∈ delivered (run gro (ops ++ [.flush])).2 → rest ≠ [] →
    Ip4Accepts p.payload → ∀ q ∈ p :: rest, Ip4Accepts q.frame.bytes) ↔
      ∀ ops' op, ops' ++ [op] <+: ops → ¬ Launders ip4Verdict gro (run gro ops').1 op
  := clean_iff ip4Verdict gro ops

def goodSegment : RxFrame :=
  .sample none 0x45 0x66CD 0x2A7F 1 [65]

def wrongSegment : RxFrame :=
  .sample none 0x65 0x66CD 0x297E 2 [66]

/-- On a SANA-II device, the payload of a segment with a wrong version is delivered in a packet that
`ip4_input` accepts. -/
theorem wrongSegment_laundered :
  ¬ Ip4Accepts wrongSegment.bytes ∧
    ∃ p rest, p :: rest ∈ delivered (run (S2Pump.gro ⟨1500, -1⟩)
        (s2ifPumpRxDeliver (fun _ => false) 0 0 [(0, goodSegment), (1, wrongSegment)])).2 ∧
      Ip4Accepts p.payload ∧ ∃ q ∈ rest, ¬ Ip4Accepts q.frame.bytes
  := by
  have hgro : S2Pump.gro ⟨1500, -1⟩ = true := by
    decide
  have hfirst : goodSegment.groMeta =
      some ⟨⟨0x0A000002, 0x0A000001, 0x00501000⟩, .merge 1 54 1 16⟩ := by
    decide
  have hsecond : wrongSegment.groMeta =
      some ⟨⟨0x0A000002, 0x0A000001, 0x00501000⟩, .merge (1 + UInt32.ofNat 1) 54 1 16⟩ := by
    decide
  have haccepts : Ip4Accepts goodSegment.bytes := by
    decide
  have hdropped : ¬ Ip4Accepts wrongSegment.bytes := by
    decide
  use hdropped
  rw [hgro]
  apply laundered_of_consecutive ip4Verdict hfirst hsecond (by decide) (by decide)
    haccepts hdropped

end RxGro
