import LwipAmiga.Rx.Frame

/-!
# Who verifies a transport checksum

A driver that verifies receive checksums or reports raw sums turns lwIP's own checks of TCP and UDP
off.
-/

open Bytes Ones

/-! ### Capabilities and flags -/

def NDCF_TX_L4CSUM : UInt32 := 0x1

def NDCF_RX_CSUM_VALID : UInt32 := 0x2

def NDCF_RX_CSUM_RAW : UInt32 := 0x4

def NDRF_CSUM_VALID : UInt16 := 0x1

def NDRF_CSUM_RAW : UInt16 := 0x2

def NETIF_CHECKSUM_ENABLE_ALL : UInt32 := 0xFFFF

def NETIF_CHECKSUM_GEN_UDP : UInt32 := 0x0002

def NETIF_CHECKSUM_GEN_TCP : UInt32 := 0x0004

def NETIF_CHECKSUM_CHECK_UDP : UInt32 := 0x0200

def NETIF_CHECKSUM_CHECK_TCP : UInt32 := 0x0400

structure NetDevRxDesc (χ : Type) where
  frame : RxFrame
  flags : UInt16
  csumRaw : UInt16
  cookie : χ

namespace NetDevRxDesc

variable {χ : Type}

def csumValid (d : NetDevRxDesc χ) : Bool :=
  d.flags &&& NDRF_CSUM_VALID != 0

def hasCsumRaw (d : NetDevRxDesc χ) : Bool :=
  d.flags &&& NDRF_CSUM_RAW != 0

end NetDevRxDesc

/-! ### The policy at attach -/

/-- `ndi_RxOffload` -/
def rxOffload (features : UInt32) : Bool :=
  features &&& (NDCF_RX_CSUM_VALID ||| NDCF_RX_CSUM_RAW) != 0

def netifChecksumCtrl (features : UInt32) : UInt32 :=
  let csum := NETIF_CHECKSUM_ENABLE_ALL
  let csum :=
    if features &&& NDCF_TX_L4CSUM != 0 then
      csum &&& ~~~ (NETIF_CHECKSUM_GEN_TCP ||| NETIF_CHECKSUM_GEN_UDP)
    else csum
  if rxOffload features then csum &&& ~~~ (NETIF_CHECKSUM_CHECK_TCP ||| NETIF_CHECKSUM_CHECK_UDP)
  else csum

def lwipChecks (features : UInt32) (proto : ℕ) : Bool :=
  if proto = IP_PROTO_TCP then netifChecksumCtrl features &&& NETIF_CHECKSUM_CHECK_TCP != 0
  else netifChecksumCtrl features &&& NETIF_CHECKSUM_CHECK_UDP != 0

/-! ### The verdict on a frame -/

variable {χ : Type}

def ndifDrop (offload : Bool) (d : NetDevRxDesc χ) : Bool :=
  offload && !d.csumValid && d.hasCsumRaw &&
    !ndifRxCsumOk d.frame.mem d.frame.len d.csumRaw.toNat

def HasTransportChecksum (f : RxFrame) : Prop :=
  let ip := inetfrmIpOffset f.mem f.len
  ip ≠ 0 ∧ isFragment f.mem ip = false ∧
    (iphProto f.mem ip = IP_PROTO_TCP ∨
      iphProto f.mem ip = IP_PROTO_UDP ∧ be16 f.mem (ip + iphHlBytes f.mem ip + 6) ≠ 0)

def RawFolds (d : NetDevRxDesc χ) : Prop :=
  let ip := inetfrmIpOffset d.frame.mem d.frame.len
  inetfrmPseudoSum d.frame.mem ip (untaggedRaw d.frame.mem ip d.csumRaw.toNat) = 0xFFFF

def Checked (features : UInt32) (d : NetDevRxDesc χ) : Prop :=
  HasTransportChecksum d.frame → ndifDrop (rxOffload features) d = false →
    d.csumValid = true ∨ d.hasCsumRaw = true ∧ RawFolds d ∨
      lwipChecks features (iphProto d.frame.mem (inetfrmIpOffset d.frame.mem d.frame.len)) = true

theorem lwipChecks_eq (features : UInt32) (proto : ℕ) :
  lwipChecks features proto = !rxOffload features
  := by
  unfold lwipChecks netifChecksumCtrl
  cases rxOffload features with
  | true =>
    simp only [if_true]
    split_ifs <;> decide
  | false =>
    simp only [Bool.false_eq_true, if_false]
    split_ifs <;> decide

theorem ndifRxCsumOk_iff_rawFolds {d : NetDevRxDesc χ} (h : HasTransportChecksum d.frame) :
  ndifRxCsumOk d.frame.mem d.frame.len d.csumRaw.toNat = true ↔ RawFolds d
  := by
  obtain ⟨hip, hfrag, hproto⟩ := h
  have hknown : ¬ (iphProto d.frame.mem (inetfrmIpOffset d.frame.mem d.frame.len) ≠ IP_PROTO_TCP ∧
      iphProto d.frame.mem (inetfrmIpOffset d.frame.mem d.frame.len) ≠ IP_PROTO_UDP) := by
    tauto
  have hsum : ¬ (iphProto d.frame.mem (inetfrmIpOffset d.frame.mem d.frame.len) = IP_PROTO_UDP ∧
      be16 d.frame.mem (inetfrmIpOffset d.frame.mem d.frame.len +
        iphHlBytes d.frame.mem (inetfrmIpOffset d.frame.mem d.frame.len) + 6) = 0) := by
    rintro ⟨hudp, hzero⟩
    obtain htcp | ⟨-, hne⟩ := hproto
    · rw [htcp] at hudp
      contradiction
    · contradiction
  simp only [ndifRxCsumOk, if_neg hip, hfrag, if_neg hknown, if_neg hsum, Bool.false_eq_true,
    if_false, beq_iff_eq, RawFolds]

/-- The transport checksum of a frame is checked unless the driver offloads checksums and says
nothing about this one. -/
theorem checked_iff (features : UInt32) (d : NetDevRxDesc χ) :
  Checked features d ↔
    ¬ (HasTransportChecksum d.frame ∧ rxOffload features = true ∧ d.csumValid = false ∧
      d.hasCsumRaw = false)
  := by
  unfold Checked
  rw [lwipChecks_eq]
  constructor
  · rintro h ⟨hsum, hoffload, hvalid, hraw⟩
    have hkept : ndifDrop (rxOffload features) d = false := by
      simp [ndifDrop, hraw]
    simpa [hoffload, hvalid, hraw] using h hsum hkept
  · intro h hsum hkept
    by_cases hoffload : rxOffload features = true
    · cases hvalid : d.csumValid with
      | true => exact .inl rfl
      | false =>
        cases hraw : d.hasCsumRaw with
        | false => cases h ⟨hsum, hoffload, hvalid, hraw⟩
        | true =>
          right
          left
          constructor
          · rfl
          · apply (ndifRxCsumOk_iff_rawFolds hsum).mp
            simpa [ndifDrop, hoffload, hvalid, hraw] using hkept
    · simp [hoffload]

def uncheckedFrame : RxFrame where
  mem := mem
    [2, 0, 0, 0, 0, 1, 2, 0, 0, 0, 0, 2, 8, 0, 0x45, 0, 0, 40, 0, 0, 0, 0, 64, 6, 0x66, 0xCE,
      10, 0, 0, 2, 10, 0, 0, 1, 0, 80, 0x10, 0, 0, 0, 0, 1, 0, 0, 0, 2, 0x50, 0x10, 0x20, 0, 0, 0,
      0, 0]
  len := 54

/-- A frame the driver could not verify is delivered, its checksum is wrong and lwIP does not check it.
-/
theorem unflagged_unchecked :
  HasTransportChecksum uncheckedFrame ∧
    ndifDrop (rxOffload NDCF_RX_CSUM_VALID) (⟨uncheckedFrame, 0, 0, ()⟩ : NetDevRxDesc Unit) = false ∧
    s2ifRxCsumOk uncheckedFrame.mem uncheckedFrame.len = false ∧
    lwipChecks NDCF_RX_CSUM_VALID IP_PROTO_TCP = false ∧
    ¬ Checked NDCF_RX_CSUM_VALID (⟨uncheckedFrame, 0, 0, ()⟩ : NetDevRxDesc Unit)
  := by
  have hsum : HasTransportChecksum uncheckedFrame := by
    unfold HasTransportChecksum
    decide
  refine ⟨hsum, by decide, by decide, by decide, ?_⟩
  rw [checked_iff]
  intro h
  apply h ⟨hsum, by decide, by decide, by decide⟩
