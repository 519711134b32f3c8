import LwipAmiga.Netdev.Checksum

/-!
# The transmit checksum offload

`ndif_l4_offsets` says where the checksum of a frame begins and where it goes.
-/

open Bytes

def NDTF_L4CSUM : UInt16 := 0x1

def NDTF_L4_UDP : UInt16 := 0x2

structure TxFrame where
  first : List UInt8
  rest : List (List UInt8)

def TxFrame.segs (p : TxFrame) : List (List UInt8) :=
  p.first :: p.rest

def totLen (segs : List (List UInt8)) : ℕ :=
  (segs.map List.length).sum

def l4Field (proto : ℕ) : Option ℕ :=
  if proto = IP_PROTO_TCP then some 16
  else if proto = IP_PROTO_UDP then some 6
  else none

structure L4Offsets where
  proto : ℕ
  csumStart : UInt16
  csumOffset : UInt16
  seedAt : ℕ
  seed : ℕ

def l4OffsetsAt (b : ℕ → UInt8) (l3 field : ℕ) : L4Offsets where
  proto := iphProto b l3
  csumStart := UInt16.ofNat (l3 + iphHlBytes b l3)
  csumOffset := UInt16.ofNat (l3 + iphHlBytes b l3 + field)
  seedAt := l3 + iphHlBytes b l3 + field
  seed := inetfrmPseudoSum b l3 0

/-- `ndif_l4_offsets`, `none` for `0xFFFF`. -/
def ndifL4Offsets (b : ℕ → UInt8) (len : ℕ) : Option L4Offsets :=
  if inetfrmIpOffset b len = 0 then none
  else if isFragment b (inetfrmIpOffset b len) then none
  else
    (l4Field (iphProto b (inetfrmIpOffset b len))).map (l4OffsetsAt b (inetfrmIpOffset b len))

structure NetDevTxDesc where
  segs : List (List UInt8)
  flags : UInt16
  csumStart : UInt16
  csumOffset : UInt16

def txOffsets (features : UInt32) (p : TxFrame) : Option L4Offsets :=
  if features &&& NDCF_TX_L4CSUM ≠ 0 then ndifL4Offsets (mem p.first) p.first.length
  else none

/-- `ndif_tx_desc`; the seed is in the first segment as far as that reaches. -/
def ndifTxDesc (features : UInt32) (p : TxFrame) : NetDevTxDesc :=
  match txOffsets features p with
  | none => ⟨p.segs, 0, 0, 0⟩
  | some o =>
      { segs := patch p.first o.seedAt (word16 o.seed) :: p.rest
        flags :=
          if o.proto = IP_PROTO_UDP then NDTF_L4CSUM ||| NDTF_L4_UDP
          else NDTF_L4CSUM
        csumStart := o.csumStart
        csumOffset := o.csumOffset }

def OffloadInside (features : UInt32) (p : TxFrame) : Prop :=
  ((ndifTxDesc features p).flags &&& NDTF_L4CSUM ≠ 0 →
    (ndifTxDesc features p).csumStart ≤ (ndifTxDesc features p).csumOffset ∧
      (ndifTxDesc features p).csumOffset.toNat + 2 ≤ totLen (ndifTxDesc features p).segs) ∧
    ∀ o ∈ txOffsets features p, o.seedAt + 2 ≤ p.first.length

def FirstHoldsChecksum (p : TxFrame) : Prop :=
  let ip := inetfrmIpOffset (mem p.first) p.first.length
  ip ≠ 0 → isFragment (mem p.first) ip = false →
    ∀ field ∈ l4Field (iphProto (mem p.first) ip),
      ip + iphHlBytes (mem p.first) ip + field + 2 ≤ p.first.length

theorem l4Field_le
    {proto field : ℕ} (h : l4Field proto = some field) :
  field ≤ 16
  := by
  unfold l4Field at h
  split_ifs at h
  · cases h
    omega
  · cases h
    omega

theorem ndifL4Offsets_eq_some_iff {b : ℕ → UInt8} {len : ℕ} {o : L4Offsets} :
  ndifL4Offsets b len = some o ↔
    inetfrmIpOffset b len ≠ 0 ∧ isFragment b (inetfrmIpOffset b len) = false ∧
      ∃ field ∈ l4Field (iphProto b (inetfrmIpOffset b len)),
        l4OffsetsAt b (inetfrmIpOffset b len) field = o
  := by
  unfold ndifL4Offsets
  split_ifs with hip hfrag
  · simp only [hip, ne_eq, not_true_eq_false, false_and]
  · simp only [hfrag, reduceCtorEq, false_and, and_false]
  · simp only [Option.map_eq_some_iff, Option.mem_def, hip, hfrag, ne_eq, not_false_eq_true, true_and]

theorem iphHlBytes_le (b : ℕ → UInt8) (ip : ℕ) :
  iphHlBytes b ip ≤ 60
  := by
  unfold iphHlBytes
  omega

theorem offloadInside_iff (features : UInt32) (p : TxFrame) :
  OffloadInside features p ↔ (features &&& NDCF_TX_L4CSUM ≠ 0 → FirstHoldsChecksum p)
  := by
  constructor
  · rintro ⟨-, hseed⟩ hcaps hip hfrag field hfield
    apply hseed (l4OffsetsAt _ _ field)
    rw [txOffsets, if_pos hcaps]
    apply ndifL4Offsets_eq_some_iff.mpr ⟨hip, hfrag, field, hfield, rfl⟩
  · intro h
    rw [OffloadInside, ndifTxDesc]
    cases ho : txOffsets features p with
    | none =>
      constructor
      · intro hflags
        change (0 : UInt16) &&& NDTF_L4CSUM ≠ 0 at hflags
        exact absurd (by decide) hflags
      · nofun
    | some o =>
      unfold txOffsets at ho
      split_ifs at ho with hcaps
      obtain ⟨hip, hfrag, field, hfield, rfl⟩ := ndifL4Offsets_eq_some_iff.mp ho
      have hinside := h hcaps hip hfrag field hfield
      have hhl := iphHlBytes_le (mem p.first) (inetfrmIpOffset (mem p.first) p.first.length)
      have hle := l4Field_le hfield
      obtain ⟨hoff, -⟩ := inetfrmIpOffset_cases hip
      constructor
      · intro _
        simp only [l4OffsetsAt, UInt16.le_iff_toNat_le, UInt16.toNat_ofNat', totLen, List.map_cons,
          List.sum_cons, length_patch]
        omega
      · rintro o' ho'
        obtain rfl := Option.some.inj ho'
        apply hinside
