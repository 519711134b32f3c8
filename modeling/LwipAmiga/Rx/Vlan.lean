import LwipAmiga.Rx.Shadow

/-!
# VLANs on receive

lwIP asks `netifbase_vlan_check` for the tag of a packet, and of a merged run for the tag of its first
frame.
-/

open Bytes

def vlanId (b : ℕ → UInt8) : ℕ :=
  be16 b SIZEOF_ETH_HDR % 0x1000

/-- `netifbase_vlan_check`, for an interface with `nib_VlanTci`. -/
def netifbaseVlanCheck (tci : ℤ) (vid : ℕ) : Bool :=
  if tci < 0 then false else vid == tci.toNat % 0x1000

def VlanAccepts (tci : ℤ) (data : List UInt8) : Prop :=
  be16 (mem data) 12 = ETHTYPE_VLAN → netifbaseVlanCheck tci (vlanId (mem data)) = true

instance (tci : ℤ) (data : List UInt8) : Decidable (VlanAccepts tci data) :=
  inferInstanceAs (Decidable (_ → _))

theorem vlanAccepts_congr {tci : ℤ} {l l' : List UInt8} (h : Agree 16 (mem l) (mem l')) :
  VlanAccepts tci l ↔ VlanAccepts tci l'
  := by
  rw [VlanAccepts, VlanAccepts, vlanId, vlanId, SIZEOF_ETH_HDR,
    h.word16 (by omega : 12 + 2 ≤ 16), h.word16 (by omega : 14 + 2 ≤ 16)]

section Runs

variable {key : FlowKey} {ip add : ℕ} {head : RxPbuf} {rest : List RxPbuf} {nextSeq : UInt32}

theorem RunOf.link_payload (h : RunOf key ip head rest nextSeq add) :
  Agree 16 (mem head.payload) (mem head.frame.bytes)
  := by
  obtain ⟨_, _, hseg⟩ := h.head_segment
  have hip := hseg.ip_cases
  intro j hj
  apply h.mem_head.2
  omega

theorem RunOf.link_fixed (h : RunOf key ip head rest nextSeq add) :
  Agree 16 (mem (head.fixed ip add).payload) (mem head.frame.bytes)
  := by
  obtain ⟨_, _, hseg⟩ := h.head_segment
  have hip := hseg.ip_cases
  intro j hj
  rw [← h.link_payload j hj]
  apply Pbuf.mem_fixLen
  omega

end Runs

def vlanVerdict (tci : ℤ) : HeaderVerdict where
  ok := VlanAccepts tci
  decidable := fun data => inferInstanceAs (Decidable (VlanAccepts tci data))
  payload := fun h => vlanAccepts_congr h.link_payload
  fixed := fun h => vlanAccepts_congr h.link_fixed

namespace RxGro

/-- If rejected frames never meet accepted ones in a context, what is accepted is determined by the
accepted frames alone. -/
theorem vlan_isolated
    {tci : ℤ} {gro : Bool} {ins ins' : List RxIn} (h : NeverMeet (vlanVerdict tci) gro ins)
    (h' : NeverMeet (vlanVerdict tci) gro ins')
    (hsame : ins.filter (RxIn.visible (vlanVerdict tci)) =
      ins'.filter (RxIn.visible (vlanVerdict tci))) :
  (∀ chain ∈ accepted (vlanVerdict tci) (delivered (run gro (ins.map RxIn.op)).2),
    ∀ q ∈ chain, VlanAccepts tci q.frame.bytes) ∧
    accepted (vlanVerdict tci) (delivered (run gro (ins.map RxIn.op)).2) =
      accepted (vlanVerdict tci) (delivered (run gro (ins'.map RxIn.op)).2)
  := by
  rw [(accepted_run h).2, (accepted_run h').2, hsame]
  refine ⟨?_, rfl⟩
  intro chain hchain q hq
  have hmem := mem_frames.mp (delivered_frames hchain hq)
  obtain ⟨x, hx, hop⟩ := List.mem_map.mp hmem
  have hvisible := (List.mem_filter.mp hx).2
  cases x with
  | frame addr f =>
    obtain ⟨-, rfl⟩ := RxOp.frame.inj hop
    exact of_decide_eq_true hvisible
  | bad f | flush => cases hop

def vlan5Segment : RxFrame :=
  .sample (some 5) 0x45 0x66CD 0x2A7F 1 [65]

def vlan6Segment : RxFrame :=
  .sample (some 6) 0x45 0x66CD 0x297E 2 [66]

/-- A segment of the other VLAN after a flush: it does not matter which. -/
theorem vlan_isolated_flushed :
  accepted (vlanVerdict 5) (delivered (run true ((List.flatMap (fun x => [x, .flush])
      [.frame 0 vlan5Segment, .frame 1 vlan6Segment]).map RxIn.op)).2) =
    accepted (vlanVerdict 5) (delivered (run true ((List.flatMap (fun x => [x, .flush])
      [.frame 0 vlan5Segment, .frame 1 (.sample (some 7) 0x45 0 0 0 [])]).map RxIn.op)).2)
  := by
  have hno : ¬ (vlanVerdict 5).ok vlan6Segment.bytes := by
    decide
  have hno' : ¬ (vlanVerdict 5).ok (RxFrame.sample (some 7) 0x45 0 0 0 []).bytes := by
    decide
  apply (vlan_isolated (neverMeet_flushed _) (neverMeet_flushed _) _).2
  simp [RxIn.visible, List.filter_cons, hno, hno']

/-- On a SANA-II device with VLAN 5, the payload of a segment of VLAN 6 is delivered in a packet that
`netifbase_vlan_check` accepts. -/
theorem vlan6Segment_accepted :
  ¬ VlanAccepts 5 vlan6Segment.bytes ∧
    ∃ p rest, p :: rest ∈ delivered (run (S2Pump.gro ⟨1500, 5⟩)
        (s2ifPumpRxDeliver (fun _ => false) 0 0 [(0, vlan5Segment), (1, vlan6Segment)])).2 ∧
      VlanAccepts 5 p.payload ∧ ∃ q ∈ rest, ¬ VlanAccepts 5 q.frame.bytes
  := by
  have hgro : S2Pump.gro ⟨1500, 5⟩ = true := by
    decide
  have hfirst : vlan5Segment.groMeta =
      some ⟨⟨0x0A000002, 0x0A000001, 0x00501000⟩, .merge 1 58 1 16⟩ := by
    decide
  have hsecond : vlan6Segment.groMeta =
      some ⟨⟨0x0A000002, 0x0A000001, 0x00501000⟩, .merge (1 + UInt32.ofNat 1) 58 1 16⟩ := by
    decide
  have haccepts : VlanAccepts 5 vlan5Segment.bytes := by
    decide
  have hrejects : ¬ VlanAccepts 5 vlan6Segment.bytes := by
    decide
  use hrejects
  rw [hgro]
  apply laundered_of_consecutive (vlanVerdict 5) hfirst hsecond (by decide)
    (by decide) haccepts hrejects

end RxGro
