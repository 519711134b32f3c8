import LwipAmiga.Lib.Bytes

/-!
# Received frames

A received Ethernet frame is an address in memory and the number of bytes the driver reports.
-/

open Bytes Ones

structure RxFrame where
  mem : ℕ → UInt8
  len : ℕ

def RxFrame.data (f : RxFrame) : List UInt8 :=
  (List.range f.len).map f.mem

def Agree (len : ℕ) (b b' : ℕ → UInt8) : Prop :=
  ∀ i < len, b i = b' i

/-! ### Header fields -/

def SIZEOF_ETH_HDR : ℕ := 14

def SIZEOF_VLAN_HDR : ℕ := 4

def IP_HLEN : ℕ := 20

def TCP_HLEN : ℕ := 20

def ETHTYPE_IP : ℕ := 0x0800

def ETHTYPE_VLAN : ℕ := 0x8100

def IP_PROTO_TCP : ℕ := 6

def IP_PROTO_UDP : ℕ := 17

def TCP_PSH : ℕ := 0x08

def TCP_ACK : ℕ := 0x10

section Fields

variable (b : ℕ → UInt8) (ip th : ℕ)

def iphV : ℕ := (b ip).toNat / 0x10

def iphHlBytes : ℕ := (b ip).toNat % 0x10 * 4

def iphLen : ℕ := be16 b (ip + 2)

def iphOffset : ℕ := be16 b (ip + 6)

def iphProto : ℕ := (b (ip + 9)).toNat

def iphChksum : ℕ := be16 b (ip + 10)

def iphSrc : UInt32 := be32 b (ip + 12)

def iphDest : UInt32 := be32 b (ip + 16)

def isFragment : Bool := iphOffset b ip &&& 0x3FFF != 0

def tcphPorts : UInt32 := be32 b th

def tcphSeqno : UInt32 := be32 b (th + 4)

def tcphAckno : UInt32 := be32 b (th + 8)

def tcphHdrlenBytes : ℕ := (b (th + 12)).toNat / 0x10 * 4

def tcphFlags : ℕ := (b (th + 13)).toNat % 0x40

def inetChksum (i n : ℕ) : ℕ := compl (fold (sumBytes b i n))

end Fields

/-! ### `inet_frame.h` -/

/-- `inetfrm_ip_offset`: the offset of the IPv4 header, 0 if the frame is not IPv4 or too short. -/
def inetfrmIpOffset (b : ℕ → UInt8) (len : ℕ) : ℕ :=
  if len < SIZEOF_ETH_HDR + IP_HLEN then 0
  else if be16 b 12 = ETHTYPE_IP then SIZEOF_ETH_HDR
  else if be16 b 12 = ETHTYPE_VLAN then
    if len < SIZEOF_ETH_HDR + SIZEOF_VLAN_HDR + IP_HLEN then 0
    else if be16 b 16 = ETHTYPE_IP then SIZEOF_ETH_HDR + SIZEOF_VLAN_HDR
    else 0
  else 0

def pseudoTotal (b : ℕ → UInt8) (ip start : ℕ) : ℕ :=
  (start + be16 b (ip + 12) + be16 b (ip + 14) + be16 b (ip + 16) + be16 b (ip + 18) +
    iphProto b ip + (iphLen b ip + 2 ^ 32 - iphHlBytes b ip)) % 2 ^ 32

def inetfrmPseudoSum (b : ℕ → UInt8) (ip start : ℕ) : ℕ :=
  fold (pseudoTotal b ip start)

/-! ### Checksum verdicts -/

def untaggedRaw (b : ℕ → UInt8) (ip raw : ℕ) : ℕ :=
  if ip ≠ SIZEOF_ETH_HDR then
    raw + compl (be16 b SIZEOF_ETH_HDR) + compl (be16 b (SIZEOF_ETH_HDR + 2))
  else raw

/-- `ndif_rx_csum_ok`, with the raw sum the driver reports. -/
def ndifRxCsumOk (b : ℕ → UInt8) (len raw : ℕ) : Bool :=
  let ip := inetfrmIpOffset b len
  if ip = 0 then true
  else if isFragment b ip then true
  else if iphProto b ip ≠ IP_PROTO_TCP ∧ iphProto b ip ≠ IP_PROTO_UDP then true
  else if iphProto b ip = IP_PROTO_UDP ∧ be16 b (ip + iphHlBytes b ip + 6) = 0 then
    true
  else inetfrmPseudoSum b ip (untaggedRaw b ip raw) == 0xFFFF

def s2ifRxCsumOk (b : ℕ → UInt8) (len : ℕ) : Bool :=
  let ip := inetfrmIpOffset b len
  if ip = 0 then true
  else if iphProto b ip ≠ IP_PROTO_TCP then true
  else if isFragment b ip then true
  else
    let ihl := iphHlBytes b ip
    let iplen := iphLen b ip
    if iplen < ihl + TCP_HLEN ∨ len < ip + iplen then true
    else
      inetfrmPseudoSum b ip (compl (inetChksum b (ip + ihl) (iplen - ihl))) == 0xFFFF

/-! ### Classification -/

structure FlowKey where
  srcIp : UInt32
  dstIp : UInt32
  ports : UInt32
  deriving DecidableEq

inductive RxClass where
  | nomerge
  | ack (ackNo : UInt32)
  | merge (seq : UInt32) (payOff payLen flags : ℕ)
  deriving DecidableEq

structure RxGroMeta where
  key : FlowKey
  cls : RxClass
  deriving DecidableEq

def flowKey (b : ℕ → UInt8) (ip : ℕ) : FlowKey where
  srcIp := iphSrc b ip
  dstIp := iphDest b ip
  ports := tcphPorts b (ip + iphHlBytes b ip)

def flagsMergeable (flags : ℕ) : Bool :=
  flags &&& compl (TCP_ACK ||| TCP_PSH) == 0 && flags &&& TCP_ACK != 0

def mergeableHeaders (b : ℕ → UInt8) (ip : ℕ) : Bool :=
  let th := ip + iphHlBytes b ip
  iphHlBytes b ip == IP_HLEN && !isFragment b ip && tcphHdrlenBytes b th == TCP_HLEN &&
    flagsMergeable (tcphFlags b th)

def rxClass (b : ℕ → UInt8) (len ip : ℕ) : RxClass :=
  let th := ip + iphHlBytes b ip
  let iplen := iphLen b ip
  if !mergeableHeaders b ip then .nomerge
  else if iplen ≤ IP_HLEN + TCP_HLEN then
    if iplen = IP_HLEN + TCP_HLEN ∧ tcphFlags b th = TCP_ACK then .ack (tcphAckno b th)
    else .nomerge
  else if iplen ≠ len - ip then .nomerge
  else
    .merge (tcphSeqno b th) (ip + IP_HLEN + TCP_HLEN) (iplen - IP_HLEN - TCP_HLEN) (tcphFlags b th)

/-- `rxgro_classify`, `none` for `RXGRO_NO`. -/
def rxgroClassify (b : ℕ → UInt8) (len : ℕ) : Option RxGroMeta :=
  let ip := inetfrmIpOffset b len
  if ip = 0 then none
  else if iphProto b ip ≠ IP_PROTO_TCP then none
  else some ⟨flowKey b ip, rxClass b len ip⟩

/-! ### Small facts -/

theorem RxFrame.length_data (f : RxFrame) :
  f.data.length = f.len
  := by
  simp [data]

theorem RxFrame.agree_data (f : RxFrame) :
  Agree f.len (Bytes.mem f.data) f.mem
  := by
  intro i hi
  simp [Bytes.mem, data, List.getD_eq_getElem?_getD, hi]

namespace Agree

variable {len i n : ℕ} {b b' : ℕ → UInt8}

theorem symm (h : Agree len b b') :
  Agree len b' b
  := fun i hi => (h i hi).symm

theorem word16 (h : Agree len b b') (hi : i + 2 ≤ len) :
  be16 b i = be16 b' i
  := by
  apply be16_congr
  · apply h
    omega
  · apply h
    omega

theorem word32 (h : Agree len b b') (hi : i + 4 ≤ len) :
  be32 b i = be32 b' i
  := by
  apply be32_congr
  intro j _ hj
  apply h
  omega

theorem chksum (h : Agree len b b') (hi : i + n ≤ len) :
  inetChksum b i n = inetChksum b' i n
  := by
  have hsum : sumBytes b i n = sumBytes b' i n := by
    apply sumBytes_congr
    intro j _ hj
    apply h
    omega
  rw [inetChksum, inetChksum, hsum]

end Agree

theorem inetChksum_eq_zero_iff {b : ℕ → UInt8} {i n : ℕ} (hn : n < 0x10000) :
  inetChksum b i n = 0 ↔ sumBytes b i n ≠ 0 ∧ sumBytes b i n % 0xFFFF = 0
  := by
  have hsum : sumBytes b i n < 2 ^ 32 := by
    have := sumBytes_le b i hn
    omega
  have hlt := fold_lt hsum
  rw [← fold_eq_ones_iff hsum]
  simp only [inetChksum, Ones.compl]
  omega

theorem inetfrmIpOffset_cases
    {b : ℕ → UInt8} {len : ℕ} (h : inetfrmIpOffset b len ≠ 0) :
  (inetfrmIpOffset b len = 14 ∨ inetfrmIpOffset b len = 18) ∧ inetfrmIpOffset b len + 20 ≤ len
  := by
  generalize hip : inetfrmIpOffset b len = ip at h ⊢
  unfold inetfrmIpOffset at hip
  split_ifs at hip <;> simp only [SIZEOF_ETH_HDR, SIZEOF_VLAN_HDR, IP_HLEN] at * <;> omega

theorem inetfrmIpOffset_eq_14_iff {b : ℕ → UInt8} {len : ℕ} :
  inetfrmIpOffset b len = 14 ↔ 34 ≤ len ∧ be16 b 12 = ETHTYPE_IP
  := by
  unfold inetfrmIpOffset
  split_ifs <;>
    simp only [SIZEOF_ETH_HDR, SIZEOF_VLAN_HDR, IP_HLEN, ETHTYPE_IP, ETHTYPE_VLAN] at * <;>
    simp_all

theorem inetfrmIpOffset_eq_18_iff {b : ℕ → UInt8} {len : ℕ} :
  inetfrmIpOffset b len = 18 ↔ 38 ≤ len ∧ be16 b 12 = ETHTYPE_VLAN ∧ be16 b 16 = ETHTYPE_IP
  := by
  unfold inetfrmIpOffset
  split_ifs <;>
    simp only [SIZEOF_ETH_HDR, SIZEOF_VLAN_HDR, IP_HLEN, ETHTYPE_IP, ETHTYPE_VLAN] at * <;>
    simp_all
  omega

/-! ### The IPv4 header -/

section Header

variable {b b' : ℕ → UInt8} {len ip : ℕ}

theorem Agree.ipOffset (h : Agree len b b') :
  inetfrmIpOffset b len = inetfrmIpOffset b' len
  := by
  by_cases hshort : len < SIZEOF_ETH_HDR + IP_HLEN
  · rw [inetfrmIpOffset, inetfrmIpOffset, if_pos hshort, if_pos hshort]
  · have hlen : 34 ≤ len := Nat.le_of_not_lt hshort
    rw [inetfrmIpOffset, inetfrmIpOffset, h.word16 (by omega : 12 + 2 ≤ len),
      h.word16 (by omega : 16 + 2 ≤ len)]

theorem Agree.ipOffset_eq
    (h : Agree (ip + 2) b' b) (hip : inetfrmIpOffset b len = ip) (hne : ip ≠ 0) :
  inetfrmIpOffset b' len = ip
  := by
  obtain ⟨hoff, -⟩ := inetfrmIpOffset_cases (hip ▸ hne)
  rw [hip] at hoff
  obtain rfl | rfl := hoff
  · rw [inetfrmIpOffset_eq_14_iff] at hip ⊢
    rw [h.word16 (by omega : 12 + 2 ≤ 14 + 2)]
    apply hip
  · rw [inetfrmIpOffset_eq_18_iff] at hip ⊢
    rw [h.word16 (by omega : 12 + 2 ≤ 18 + 2), h.word16 (by omega : 16 + 2 ≤ 18 + 2)]
    apply hip

structure SameHeader (b b' : ℕ → UInt8) (ip : ℕ) : Prop where
  ihl : iphHlBytes b ip = iphHlBytes b' ip
  iplen : iphLen b ip = iphLen b' ip
  fragment : isFragment b ip = isFragment b' ip
  proto : iphProto b ip = iphProto b' ip
  src : iphSrc b ip = iphSrc b' ip
  dest : iphDest b ip = iphDest b' ip
  pseudo : ∀ start, inetfrmPseudoSum b ip start = inetfrmPseudoSum b' ip start

theorem Agree.header (h : Agree len b b') (hip : ip + 20 ≤ len) :
  SameHeader b b' ip
  := by
  have hihl : iphHlBytes b ip = iphHlBytes b' ip := by
    rw [iphHlBytes, iphHlBytes, h ip (by omega)]
  have hiplen : iphLen b ip = iphLen b' ip := by
    apply h.word16
    omega
  have hproto : iphProto b ip = iphProto b' ip := by
    rw [iphProto, iphProto, h (ip + 9) (by omega)]
  constructor
  · apply hihl
  · apply hiplen
  · rw [isFragment, isFragment, iphOffset, iphOffset, h.word16 (by omega)]
  · apply hproto
  · apply h.word32
    omega
  · apply h.word32
    omega
  · intro start
    rw [inetfrmPseudoSum, inetfrmPseudoSum, pseudoTotal, pseudoTotal, hihl, hiplen, hproto,
      h.word16 (by omega : ip + 12 + 2 ≤ len), h.word16 (by omega : ip + 14 + 2 ≤ len),
      h.word16 (by omega : ip + 16 + 2 ≤ len), h.word16 (by omega : ip + 18 + 2 ≤ len)]

theorem Agree.rawSum (h : Agree len b b') (hlen : 18 ≤ len) (ip raw : ℕ) :
  untaggedRaw b ip raw = untaggedRaw b' ip raw
  := by
  rw [untaggedRaw, untaggedRaw, h.word16 (by simp only [SIZEOF_ETH_HDR]; omega),
    h.word16 (by simp only [SIZEOF_ETH_HDR]; omega)]

end Header

/-! ### Classes -/

theorem flagsMergeable_iff {flags : ℕ} (h : flags < 0x40) :
  flagsMergeable flags = true ↔ flags = TCP_ACK ∨ flags = TCP_ACK + TCP_PSH
  := by
  have hall : ∀ n : Fin 0x40, flagsMergeable n = true ↔
      (n : ℕ) = TCP_ACK ∨ (n : ℕ) = TCP_ACK + TCP_PSH := by
    decide
  apply hall ⟨flags, h⟩

structure MergeableHeaders (b : ℕ → UInt8) (ip : ℕ) : Prop where
  ihl : iphHlBytes b ip = 20
  whole : isFragment b ip = false
  hdrlen : tcphHdrlenBytes b (ip + 20) = 20
  flags : tcphFlags b (ip + 20) = TCP_ACK ∨ tcphFlags b (ip + 20) = TCP_ACK + TCP_PSH

theorem mergeableHeaders_iff {b : ℕ → UInt8} {ip : ℕ} :
  mergeableHeaders b ip = true ↔ MergeableHeaders b ip
  := by
  have hflags : tcphFlags b (ip + iphHlBytes b ip) < 0x40 := Nat.mod_lt _ (by decide)
  simp only [mergeableHeaders, Bool.and_eq_true, beq_iff_eq, Bool.not_eq_true',
    flagsMergeable_iff hflags, IP_HLEN, TCP_HLEN]
  constructor
  · rintro ⟨⟨⟨hihl, hwhole⟩, hhdrlen⟩, hflags⟩
    rw [hihl] at hhdrlen hflags
    exact ⟨hihl, hwhole, hhdrlen, hflags⟩
  · rintro ⟨hihl, hwhole, hhdrlen, hflags⟩
    rw [hihl]
    exact ⟨⟨⟨rfl, hwhole⟩, hhdrlen⟩, hflags⟩

theorem rxClass_cases (b : ℕ → UInt8) (len ip : ℕ) :
  rxClass b len ip = .nomerge ∨
    (MergeableHeaders b ip ∧ iphLen b ip = 40 ∧ tcphFlags b (ip + 20) = TCP_ACK ∧
      rxClass b len ip = .ack (tcphAckno b (ip + 20))) ∨
    MergeableHeaders b ip ∧ 40 < iphLen b ip ∧ iphLen b ip = len - ip ∧
      rxClass b len ip = .merge (tcphSeqno b (ip + 20)) (ip + 40) (iphLen b ip - 40)
        (tcphFlags b (ip + 20))
  := by
  unfold rxClass
  by_cases hm : mergeableHeaders b ip = true
  · have hh := mergeableHeaders_iff.mp hm
    simp only [hm, hh.ihl, IP_HLEN, TCP_HLEN, Bool.not_true, Bool.false_eq_true, if_false]
    split
    · split
      · rename_i hack
        exact .inr (.inl ⟨hh, hack.1, hack.2, rfl⟩)
      · exact .inl rfl
    · split
      · exact .inl rfl
      · rename_i hlong heq
        refine .inr (.inr ⟨hh, by omega, by omega, ?_⟩)
        rw [Nat.sub_sub]
  · simp [hm]
