import LwipAmiga.Netdev.Offload
import LwipAmiga.Socket.Basic

/-!
# Datagrams of raw sockets

From `sb_dgram_send` to the frames that reach `linkoutput`.
-/

open List

open Bytes

structure RawSocket where
  protocol : UInt8
  hdrincl : Bool

structure Ip4Fields where
  tos : UInt8
  ttl : UInt8
  id : UInt16
  chksum : UInt16
  src : UInt32
  dest : UInt32

structure EthAddrs where
  bytes : List UInt8
  length_bytes : bytes.length = 12

structure DgramEnv where
  alloc : Bool
  route : Option UInt32
  fields : Ip4Fields
  mtu : ℕ
  addrs : EthAddrs
  ip4Frag : List UInt8 → List TxFrame

def word32 (w : UInt32) : List UInt8 :=
  word16 (w.toNat / 0x10000) ++ word16 (w.toNat % 0x10000)

/-! ### `sb_hdrincl_complete` -/

def setHdrChksum (p : List UInt8) (hlen : ℕ) : List UInt8 :=
  let p := patch p 10 (word16 0)
  patch p 10 (word16 (inetChksum (mem p) 0 hlen))

def setHdrLenId (p : List UInt8) (id : UInt16) : List UInt8 × UInt16 :=
  let p := patch p 2 (word16 p.length)
  if be16 (mem p) 4 = 0 then (patch p 4 (word16 (id + 1).toNat), id + 1) else (p, id)

/-- `sb_hdrincl_complete`, with the counter `sb_hdrincl_id`. -/
def sbHdrinclComplete (route : Option UInt32) (id : UInt16) (p : List UInt8) :
    Except Errno (List UInt8) × UInt16 :=
  if p.length < IP_HLEN then (.error .einval, id)
  else
    let hlen := iphHlBytes (mem p) 0
    if iphV (mem p) 0 ≠ 4 ∨ hlen < IP_HLEN ∨ p.length < hlen then (.error .einval, id)
    else
      let (p, id) := setHdrLenId p id
      if iphSrc (mem p) 0 = 0 then
        match route with
        | none => (.error .enetunreach, id)
        | some src => (.ok (setHdrChksum (patch p 12 (word32 src)) hlen), id)
      else (.ok (setHdrChksum p hlen), id)

/-! ### lwIP -/

def ip4Header (f : Ip4Fields) (protocol : UInt8) (len : ℕ) : List UInt8 :=
  [0x45, f.tos] ++ word16 (IP_HLEN + len) ++ word16 f.id.toNat ++ word16 0 ++ [f.ttl, protocol] ++
    word16 f.chksum.toNat ++ word32 f.src ++ word32 f.dest

/-- `raw_sendto` up to the IPv4 packet. -/
def rawSendto (s : RawSocket) (f : Ip4Fields) (p : List UInt8) : Except Err (List UInt8) :=
  if s.hdrincl then
    if p.length < IP_HLEN then .error .val else .ok p
  else if 0xFFFF < IP_HLEN + p.length then .error .mem
  else .ok (ip4Header f s.protocol p.length ++ p)

def etharpOutput (addrs : EthAddrs) (packet : List UInt8) : TxFrame :=
  ⟨addrs.bytes ++ word16 ETHTYPE_IP ++ packet, []⟩

def ip4OutputIf (env : DgramEnv) (packet : List UInt8) : List TxFrame :=
  if packet.length ≤ env.mtu then [etharpOutput env.addrs packet] else env.ip4Frag packet

/-! ### `sb_dgram_send` -/

def rawPacket (s : RawSocket) (env : DgramEnv) (id : UInt16) (p : List UInt8) :
    Except Errno (List UInt8) × UInt16 :=
  let (e, id) := if s.hdrincl then sbHdrinclComplete env.route id p else (.ok p, id)
  match e with
  | .error e => (.error e, id)
  | .ok p =>
      match rawSendto s env.fields p with
      | .error err => (.error ((sbMapErr err).getD .einval), id)
      | .ok packet => (.ok packet, id)

/-- `sb_dgram_send` on a raw socket, once the interface has room: the frames that reach
`linkoutput`. -/
def sbDgramSend (s : RawSocket) (env : DgramEnv) (id : UInt16) (iov : List (List UInt8)) :
    Except Errno (List TxFrame) × UInt16 :=
  if 0xFFFF < totLen iov then (.error .emsgsize, id)
  else if env.alloc = false then (.error .enobufs, id)
  else
    match rawPacket s env id iov.flatten with
    | (.error e, id) => (.error e, id)
    | (.ok packet, id) => (.ok (ip4OutputIf env packet), id)

/-! ### The headers of the frames -/

structure SameL4 (p p' : List UInt8) : Prop where
  length : p'.length = p.length
  hl : iphHlBytes (mem p') 0 = iphHlBytes (mem p) 0
  fragment : isFragment (mem p') 0 = isFragment (mem p) 0
  proto : iphProto (mem p') 0 = iphProto (mem p) 0

theorem SameL4.trans
    {p p' p'' : List UInt8} (h : SameL4 p p') (h' : SameL4 p' p'') :
  SameL4 p p''
  := ⟨h'.length.trans h.length, h'.hl.trans h.hl, h'.fragment.trans h.fragment, h'.proto.trans h.proto⟩

theorem sameL4_patch
    (p : List UInt8) {i : ℕ} {xs : List UInt8}
    (h : 0 < i ∧ i + xs.length ≤ 6 ∨ 8 ≤ i ∧ i + xs.length ≤ 9 ∨ 10 ≤ i) :
  SameL4 p (patch p i xs)
  := by
  constructor
  · apply length_patch
  · rw [iphHlBytes, iphHlBytes, mem_patch_of_notMem (by omega)]
  · rw [isFragment, isFragment, iphOffset, iphOffset, be16_patch_of_notMem (by omega)]
  · rw [iphProto, iphProto, mem_patch_of_notMem (by omega)]

theorem sameL4_setHdrChksum (p : List UInt8) (hlen : ℕ) :
  SameL4 p (setHdrChksum p hlen)
  := (sameL4_patch p (by simp)).trans (sameL4_patch _ (by simp))

theorem sameL4_setHdrLenId (p : List UInt8) (id : UInt16) :
  SameL4 p (setHdrLenId p id).1
  := by
  have hlen : SameL4 p (patch p 2 (word16 p.length)) := sameL4_patch p (by simp [word16])
  simp only [setHdrLenId]
  split
  · apply hlen.trans (sameL4_patch _ (by simp [word16]))
  · apply hlen

theorem sameL4_sbHdrinclComplete
    {route : Option UInt32} {id : UInt16} {p p' : List UInt8}
    (h : (sbHdrinclComplete route id p).1 = .ok p') :
  SameL4 p p'
  := by
  unfold sbHdrinclComplete at h
  split_ifs at h
  have hset := sameL4_setHdrLenId p id
  simp only at h
  split_ifs at h
  · cases route with
    | none => contradiction
    | some src =>
      cases h
      apply hset.trans ((sameL4_patch _ (by simp)).trans (sameL4_setHdrChksum _ _))
  · cases h
    apply hset.trans (sameL4_setHdrChksum _ _)


def PacketHoldsChecksum (packet : List UInt8) : Prop :=
  isFragment (mem packet) 0 = false →
    ∀ field ∈ l4Field (iphProto (mem packet) 0),
      iphHlBytes (mem packet) 0 + field + 2 ≤ packet.length

def RawHoldsChecksum (s : RawSocket) (data : List UInt8) : Prop :=
  if s.hdrincl then PacketHoldsChecksum data
  else ∀ field ∈ l4Field s.protocol.toNat, field + 2 ≤ data.length

theorem SameL4.holds
    {p p' : List UInt8} (h : SameL4 p p') :
  PacketHoldsChecksum p' ↔ PacketHoldsChecksum p
  := by
  rw [PacketHoldsChecksum, PacketHoldsChecksum, h.fragment, h.proto, h.hl, h.length]

theorem packetHoldsChecksum_ip4Header
    (f : Ip4Fields) (protocol : UInt8) (p : List UInt8) :
  PacketHoldsChecksum (ip4Header f protocol p.length ++ p) ↔
    ∀ field ∈ l4Field protocol.toNat, field + 2 ≤ p.length
  := by
  have hlen : (ip4Header f protocol p.length ++ p).length = 20 + p.length := by
    rw [length_append]
    rfl
  have hhi : mem (ip4Header f protocol p.length ++ p) 6 = 0 := rfl
  have hlo : mem (ip4Header f protocol p.length ++ p) 7 = 0 := rfl
  have hfrag : isFragment (mem (ip4Header f protocol p.length ++ p)) 0 = false := by
    simp only [isFragment, iphOffset, be16, Nat.zero_add, hhi, hlo]
    decide
  have hproto : iphProto (mem (ip4Header f protocol p.length ++ p)) 0 = protocol.toNat := rfl
  have hvhl : mem (ip4Header f protocol p.length ++ p) 0 = 0x45 := rfl
  have hhl : iphHlBytes (mem (ip4Header f protocol p.length ++ p)) 0 = 20 := by
    rw [iphHlBytes, hvhl]
    decide
  rw [PacketHoldsChecksum, hfrag, hproto, hhl, hlen]
  constructor
  · intro h field hfield
    have hle := h rfl field hfield
    omega
  · intro h _ field hfield
    have hle := h field hfield
    omega

theorem rawPacket_ok
    {s : RawSocket} {env : DgramEnv} {id : UInt16} {p packet : List UInt8}
    (h : (rawPacket s env id p).1 = .ok packet) :
  IP_HLEN ≤ packet.length ∧ packet.length = (if s.hdrincl then 0 else IP_HLEN) + p.length ∧
    (PacketHoldsChecksum packet ↔ RawHoldsChecksum s p)
  := by
  rw [RawHoldsChecksum]
  cases hincl : s.hdrincl with
  | true =>
    simp only [rawPacket, rawSendto, hincl, if_true] at h
    cases hcomplete : (sbHdrinclComplete env.route id p).1 with
    | error e =>
      rw [hcomplete] at h
      contradiction
    | ok p' =>
      have hsame := sameL4_sbHdrinclComplete hcomplete
      rw [hcomplete] at h
      simp only at h
      split_ifs at h with hshort
      cases h
      simp only [if_true, Nat.zero_add]
      exact ⟨Nat.le_of_not_lt hshort, hsame.length, hsame.holds⟩
  | false =>
    simp only [rawPacket, rawSendto, hincl, Bool.false_eq_true, if_false] at h
    split_ifs at h
    cases h
    simp only [Bool.false_eq_true, if_false]
    refine ⟨?_, ?_, packetHoldsChecksum_ip4Header _ _ _⟩
    · rw [length_append]
      apply Nat.le_add_right
    · rw [length_append]
      rfl

theorem firstHoldsChecksum_etharpOutput
    (addrs : EthAddrs) {packet : List UInt8} (h : IP_HLEN ≤ packet.length) :
  FirstHoldsChecksum (etharpOutput addrs packet) ↔ PacketHoldsChecksum packet
  := by
  have hhead : (addrs.bytes ++ word16 ETHTYPE_IP).length = 14 := by
    rw [length_append, addrs.length_bytes]
    rfl
  have hmem : ∀ i, mem (etharpOutput addrs packet).first (14 + i) = mem packet i := by
    intro i
    rw [← hhead]
    apply mem_append_add
  have hlen : (etharpOutput addrs packet).first.length = 14 + packet.length := by
    rw [etharpOutput, length_append, hhead]
  have htype : be16 (mem (etharpOutput addrs packet).first) 12 = ETHTYPE_IP := by
    have hat : ∀ i, mem (etharpOutput addrs packet).first (12 + i) =
        mem (word16 ETHTYPE_IP ++ packet) i := by
      intro i
      rw [etharpOutput, append_assoc, ← addrs.length_bytes]
      apply mem_append_add
    have hhi : mem (word16 ETHTYPE_IP ++ packet) 0 = 8 := rfl
    have hlo : mem (word16 ETHTYPE_IP ++ packet) 1 = 0 := rfl
    rw [be16, hat 0, hat 1, hhi, hlo]
    rfl
  have hip : inetfrmIpOffset (mem (etharpOutput addrs packet).first) (14 + packet.length) = 14 := by
    rw [inetfrmIpOffset_eq_14_iff]
    rw [IP_HLEN] at h
    exact ⟨by omega, htype⟩
  have hhl : iphHlBytes (mem (etharpOutput addrs packet).first) 14 = iphHlBytes (mem packet) 0 := by
    rw [iphHlBytes, iphHlBytes, ← hmem 0]
  have hfrag : isFragment (mem (etharpOutput addrs packet).first) 14 = isFragment (mem packet) 0 := by
    rw [isFragment, isFragment, iphOffset, iphOffset, be16, be16, ← hmem (0 + 6), ← hmem (0 + 6 + 1)]
  have hproto : iphProto (mem (etharpOutput addrs packet).first) 14 = iphProto (mem packet) 0 := by
    rw [iphProto, iphProto, ← hmem (0 + 9)]
  rw [FirstHoldsChecksum, PacketHoldsChecksum]
  simp only [hlen, hip, hhl, hfrag, hproto]
  constructor
  · intro hfirst hf field hfield
    have hle := hfirst (by decide) hf field hfield
    omega
  · intro hpacket _ hf field hfield
    have hle := hpacket hf field hfield
    omega

/-- The descriptor stays inside the frame just when the driver does not offload or the first segment
holds the checksum field; on a raw socket, when what is sent reaches that far. -/
theorem txDesc_inside_iff (features : UInt32) :
  (∀ p, OffloadInside features p ↔ (features &&& NDCF_TX_L4CSUM ≠ 0 → FirstHoldsChecksum p)) ∧
    ∀ s env id iov frames, (sbDgramSend s env id iov).1 = .ok frames →
      (if s.hdrincl then 0 else IP_HLEN) + iov.flatten.length ≤ env.mtu →
      ∀ frame ∈ frames, OffloadInside features frame ↔
        (features &&& NDCF_TX_L4CSUM ≠ 0 → RawHoldsChecksum s iov.flatten)
  := by
  refine ⟨offloadInside_iff features, ?_⟩
  intro s env id iov frames hsend hmtu frame hframe
  unfold sbDgramSend at hsend
  split_ifs at hsend
  cases hpacket : rawPacket s env id iov.flatten with
  | mk res id' =>
    rw [hpacket] at hsend
    cases res with
    | error e => contradiction
    | ok packet =>
      have hok : (rawPacket s env id iov.flatten).1 = .ok packet := by rw [hpacket]
      obtain ⟨hheader, hlen, hholds⟩ := rawPacket_ok hok
      cases hsend
      rw [ip4OutputIf, if_pos (hlen.trans_le hmtu), mem_singleton] at hframe
      rw [hframe, offloadInside_iff, firstHoldsChecksum_etharpOutput _ hheader, hholds]

def rawTcp : RawSocket :=
  ⟨6, false⟩

def ethernetEnv : DgramEnv where
  alloc := true
  route := some 0x0A000001
  fields := ⟨0, 255, 1, 0, 0x0A000001, 0x0A000002⟩
  mtu := 1500
  addrs := ⟨List.replicate 12 0, rfl⟩
  ip4Frag _ := []

/-- A datagram of 18 bytes on a raw socket for TCP just reaches to the end of the checksum. -/
theorem txDesc_inside_iff_header :
  ∀ frame ∈ [etharpOutput ethernetEnv.addrs
      (ip4Header ethernetEnv.fields 6 18 ++ List.replicate 18 0)],
    OffloadInside NDCF_TX_L4CSUM frame
  := by
  intro frame hframe
  apply ((txDesc_inside_iff NDCF_TX_L4CSUM).2 rawTcp ethernetEnv 0 [replicate 18 0] _ rfl
    (by decide) frame hframe).mpr
  rintro - field hfield
  cases hfield
  decide

/-- An empty datagram on a raw socket for TCP makes a frame of 34 bytes, whose checksum is said to be
at offset 50, and the seed is written there. -/
theorem emptyDatagram_outside :
  ∃ frame, (sbDgramSend rawTcp ethernetEnv 0 []).1 = .ok [frame] ∧ totLen frame.segs = 34 ∧
    (ndifTxDesc NDCF_TX_L4CSUM frame).flags = NDTF_L4CSUM ∧
    (ndifTxDesc NDCF_TX_L4CSUM frame).csumOffset = 50 ∧
    (txOffsets NDCF_TX_L4CSUM frame).map L4Offsets.seedAt = some 50 ∧
    ¬ OffloadInside NDCF_TX_L4CSUM frame
  := by
  refine ⟨_, rfl, by decide, by decide, by decide, by decide, ?_⟩
  rintro ⟨hdesc, -⟩
  have hinside := (hdesc (by decide)).2
  revert hinside
  decide
