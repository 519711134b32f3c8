import LwipAmiga.Netdev.Offload

/-!
# Offloaded checksums verify

The engine adds up the words of a seeded frame from the transport header on, and stores the complement.
-/

open Bytes Ones

/-! ### The engine and the driver -/

def TxFrame.flat (p : TxFrame) : List UInt8 :=
  p.segs.flatten

def engineChecksum (f : List UInt8) (start : ℕ) (udp : Bool) : ℕ :=
  let c := compl (norm (sumBytes (mem f) start (f.length - start)))
  if udp = true ∧ c = 0 then 0xFFFF else c

def engineFrame (d : NetDevTxDesc) : List UInt8 :=
  let f := d.segs.flatten
  if d.flags &&& NDTF_L4CSUM = 0 then f
  else
    patch f d.csumOffset.toNat
      (word16 (engineChecksum f d.csumStart.toNat (d.flags &&& NDTF_L4_UDP != 0)))

def RawSum (f : List UInt8) (raw : ℕ) : Prop :=
  raw < 0x10000 ∧
    raw % 0xFFFF = sumBytes (mem f) SIZEOF_ETH_HDR (f.length - SIZEOF_ETH_HDR) % 0xFFFF

def TxFrame.seeded (features : UInt32) (p : TxFrame) : TxFrame :=
  match txOffsets features p with
  | none => p
  | some o => { p with first := patch p.first o.seedAt (word16 o.seed) }

def TxFrame.ip (p : TxFrame) : ℕ :=
  inetfrmIpOffset (mem p.first) p.first.length

structure TxFrame.ValidHeader (p : TxFrame) : Prop where
  version : iphV (mem p.first) p.ip = 4
  ihl : IP_HLEN ≤ iphHlBytes (mem p.first) p.ip
  length : iphHlBytes (mem p.first) p.ip ≤ iphLen (mem p.first) p.ip
  inside : p.ip + iphLen (mem p.first) p.ip ≤ p.flat.length
  chksum : inetChksum (mem p.first) p.ip (iphHlBytes (mem p.first) p.ip) = 0

def l4Hlen (proto : ℕ) : ℕ :=
  if proto = IP_PROTO_TCP then TCP_HLEN else 8

def TxFrame.CompleteL4 (p : TxFrame) : Prop :=
  p.ip + iphHlBytes (mem p.first) p.ip + l4Hlen (iphProto (mem p.first) p.ip) ≤ p.first.length

/-! ### What seeding leaves alone -/

theorem mem_append_left {l l' : List UInt8} {i : ℕ} (hi : i < l.length) :
  mem (l ++ l') i = mem l i
  := by
  rw [mem, mem, List.getD_append _ _ _ _ hi]

theorem inetfrmIpOffset_eq
    {b b' : ℕ → UInt8} {len len' : ℕ} (hip : inetfrmIpOffset b len ≠ 0) (hlen : len ≤ len')
    (hag : Agree (inetfrmIpOffset b len + 20) b b') :
  inetfrmIpOffset b' len' = inetfrmIpOffset b len
  := by
  obtain ⟨hoff, hle⟩ := inetfrmIpOffset_cases hip
  have h12 : be16 b 12 = be16 b' 12 := hag.word16 (by omega)
  have h16 : be16 b 16 = be16 b' 16 := hag.word16 (by omega)
  have hlong : ¬ len < SIZEOF_ETH_HDR + IP_HLEN := by
    simp only [SIZEOF_ETH_HDR, IP_HLEN]
    omega
  have hlong' : ¬ len' < SIZEOF_ETH_HDR + IP_HLEN := fun hlt => hlong (hlen.trans_lt hlt)
  by_cases hplain : be16 b 12 = ETHTYPE_IP
  · have hplain' : be16 b' 12 = ETHTYPE_IP := h12.symm.trans hplain
    rw [inetfrmIpOffset, if_neg hlong', if_pos hplain', inetfrmIpOffset, if_neg hlong, if_pos hplain]
  · have hplain' : ¬ be16 b' 12 = ETHTYPE_IP := fun heq => hplain (h12.trans heq)
    have hb : inetfrmIpOffset b len = if be16 b 12 = ETHTYPE_VLAN then
        if len < SIZEOF_ETH_HDR + SIZEOF_VLAN_HDR + IP_HLEN then 0
        else if be16 b 16 = ETHTYPE_IP then SIZEOF_ETH_HDR + SIZEOF_VLAN_HDR else 0
        else 0 := by
      rw [inetfrmIpOffset, if_neg hlong, if_neg hplain]
    -- A tagged frame is long enough for the header behind the tag.
    have hshort : ¬ len < SIZEOF_ETH_HDR + SIZEOF_VLAN_HDR + IP_HLEN := by
      intro hlt
      rw [if_pos hlt, ite_self] at hb
      exact hip hb
    have hshort' : ¬ len' < SIZEOF_ETH_HDR + SIZEOF_VLAN_HDR + IP_HLEN := fun hlt =>
      hshort (hlen.trans_lt hlt)
    rw [hb, if_neg hshort, inetfrmIpOffset, if_neg hlong', if_neg hplain', if_neg hshort', h12, h16]

/-! ### The pseudo-header -/

def pseudoWords (b : ℕ → UInt8) (ip : ℕ) : ℕ :=
  be16 b (ip + 12) + be16 b (ip + 14) + be16 b (ip + 16) + be16 b (ip + 18) + iphProto b ip +
    (iphLen b ip - iphHlBytes b ip)

theorem pseudoTotal_eq
    {b : ℕ → UInt8} {ip s : ℕ} (hlen : iphHlBytes b ip ≤ iphLen b ip) (hs : s < 2 ^ 31) :
  pseudoTotal b ip s = s + pseudoWords b ip
  := by
  have h12 := be16_lt b (ip + 12)
  have h14 := be16_lt b (ip + 14)
  have h16 := be16_lt b (ip + 16)
  have h18 := be16_lt b (ip + 18)
  have hproto : iphProto b ip < 0x100 := (b (ip + 9)).toNat_lt
  have hl : iphLen b ip < 0x10000 := be16_lt b (ip + 2)
  unfold pseudoTotal pseudoWords
  omega

theorem pseudoWords_lt (b : ℕ → UInt8) (ip : ℕ) :
  pseudoWords b ip < 2 ^ 31
  := by
  have h12 := be16_lt b (ip + 12)
  have h14 := be16_lt b (ip + 14)
  have h16 := be16_lt b (ip + 16)
  have h18 := be16_lt b (ip + 18)
  have hproto : iphProto b ip < 0x100 := (b (ip + 9)).toNat_lt
  have hl : iphLen b ip < 0x10000 := be16_lt b (ip + 2)
  unfold pseudoWords
  omega

/-! ### The headers of a seeded frame -/

namespace TxFrame

variable {features : UInt32} {p : TxFrame} {o : L4Offsets}

theorem l4Field_cases {proto field : ℕ} (h : l4Field proto = some field) :
  (proto = IP_PROTO_TCP ∧ field = 16) ∨ proto = IP_PROTO_UDP ∧ field = 6
  := by
  unfold l4Field at h
  split_ifs at h with htcp hudp
  · exact .inl ⟨htcp, (Option.some.inj h).symm⟩
  · exact .inr ⟨hudp, (Option.some.inj h).symm⟩

structure Seeds (p : TxFrame) (o : L4Offsets) : Prop where
  ip : p.ip = 14 ∨ p.ip = 18
  fragment : isFragment (mem p.first) p.ip = false
  proto : iphProto (mem p.first) p.ip = IP_PROTO_TCP ∨ iphProto (mem p.first) p.ip = IP_PROTO_UDP
  start : o.csumStart.toNat = p.ip + iphHlBytes (mem p.first) p.ip
  offset : o.csumOffset.toNat = o.seedAt
  seed : o.seed = inetfrmPseudoSum (mem p.first) p.ip 0
  field : ∃ k, o.seedAt = o.csumStart.toNat + 2 * k ∧
    2 * k + 2 ≤ l4Hlen (iphProto (mem p.first) p.ip)

theorem seeds_of_txOffsets (ho : txOffsets features p = some o) :
  Seeds p o
  := by
  unfold txOffsets at ho
  split_ifs at ho
  obtain ⟨hip, hfrag, field, hfield, rfl⟩ := ndifL4Offsets_eq_some_iff.mp ho
  obtain ⟨hoff, -⟩ := inetfrmIpOffset_cases hip
  have hhl := iphHlBytes_le (mem p.first) (inetfrmIpOffset (mem p.first) p.first.length)
  have hle := l4Field_le hfield
  have hstart : (l4OffsetsAt (mem p.first) p.ip field).csumStart.toNat =
      p.ip + iphHlBytes (mem p.first) p.ip := by
    simp only [l4OffsetsAt, UInt16.toNat_ofNat', TxFrame.ip]
    omega
  have hseedAt : (l4OffsetsAt (mem p.first) p.ip field).csumOffset.toNat =
      (l4OffsetsAt (mem p.first) p.ip field).seedAt := by
    simp only [l4OffsetsAt, UInt16.toNat_ofNat', TxFrame.ip]
    omega
  have hproto : iphProto (mem p.first) p.ip = IP_PROTO_TCP ∧ field = 16 ∨
      iphProto (mem p.first) p.ip = IP_PROTO_UDP ∧ field = 6 := l4Field_cases hfield
  refine ⟨hoff, hfrag, ?_, hstart, hseedAt, rfl, field / 2, ?_, ?_⟩
  · obtain ⟨htcp, -⟩ | ⟨hudp, -⟩ := hproto
    · exact .inl htcp
    · exact .inr hudp
  · refine Eq.trans ?_ (congrArg (· + 2 * (field / 2)) hstart.symm)
    change p.ip + iphHlBytes (mem p.first) p.ip + field = _
    omega
  · obtain ⟨htcp, rfl⟩ | ⟨hudp, rfl⟩ := hproto
    · rw [l4Hlen, if_pos htcp]
      decide
    · rw [l4Hlen, hudp]
      decide

theorem Seeds.sameHeader
    {b' : ℕ → UInt8} (hs : Seeds p o) (hihl : IP_HLEN ≤ iphHlBytes (mem p.first) p.ip)
    (hag : Agree o.csumStart.toNat (mem p.first) b') :
  SameHeader (mem p.first) b' p.ip
  := by
  apply hag.header
  rw [hs.start]
  simp only [IP_HLEN] at hihl
  omega

theorem Seeds.ipOffset
    {b' : ℕ → UInt8} {len : ℕ} (hs : Seeds p o) (hihl : IP_HLEN ≤ iphHlBytes (mem p.first) p.ip)
    (hag : Agree o.csumStart.toNat (mem p.first) b') (hlen : p.first.length ≤ len) :
  inetfrmIpOffset b' len = p.ip
  := by
  have hne : p.ip ≠ 0 := by
    have hoff := hs.ip
    omega
  apply inetfrmIpOffset_eq hne hlen
  intro i hi
  apply hag
  have hstart := hs.start
  have hip : inetfrmIpOffset (mem p.first) p.first.length = p.ip := rfl
  simp only [IP_HLEN] at hihl
  omega

theorem Seeds.agree (hs : Seeds p o) (xs : List UInt8) :
  Agree o.csumStart.toNat (mem p.first) (mem (patch p.first o.seedAt xs))
  := by
  intro i hi
  obtain ⟨k, hk, -⟩ := hs.field
  rw [mem_patch_of_notMem]
  omega

theorem seeded_eq (ho : txOffsets features p = some o) :
  p.seeded features = { p with first := patch p.first o.seedAt (word16 o.seed) }
  := by
  rw [seeded, ho]

theorem ndifTxDesc_seeded
    (ho : txOffsets features p = some o) (hihl : IP_HLEN ≤ iphHlBytes (mem p.first) p.ip) :
  ndifTxDesc features (p.seeded features) = ndifTxDesc features p
  := by
  have hs := seeds_of_txOffsets ho
  have hag := hs.agree (word16 o.seed)
  have hsame := hs.sameHeader hihl hag
  have hip : inetfrmIpOffset (mem (patch p.first o.seedAt (word16 o.seed))) p.first.length =
      inetfrmIpOffset (mem p.first) p.first.length := hs.ipOffset hihl hag le_rfl
  have hagain : txOffsets features (p.seeded features) = txOffsets features p := by
    rw [seeded_eq ho]
    simp only [txOffsets, ndifL4Offsets, length_patch, hip]
    have hat : l4OffsetsAt (mem (patch p.first o.seedAt (word16 o.seed))) p.ip =
        l4OffsetsAt (mem p.first) p.ip := by
      funext field
      rw [l4OffsetsAt, l4OffsetsAt, ← hsame.proto, ← hsame.ihl, ← hsame.pseudo]
    rw [TxFrame.ip] at hsame hat
    rw [← hsame.fragment, ← hsame.proto, hat]
  rw [ndifTxDesc, ndifTxDesc, hagain, ho, seeded_eq ho]
  simp only [patch_patch_word16]

/-! ### The round trip -/

theorem engineFrame_eq (ho : txOffsets features p = some o) :
  ∃ udp, engineFrame (ndifTxDesc features p) =
    patch (p.seeded features).flat o.seedAt
      (word16 (engineChecksum (p.seeded features).flat o.csumStart.toNat udp))
  := by
  have hs := seeds_of_txOffsets ho
  have hflat : (ndifTxDesc features p).segs.flatten = (p.seeded features).flat := by
    rw [ndifTxDesc, ho, seeded_eq ho]
    rfl
  have hflags : (ndifTxDesc features p).flags &&& NDTF_L4CSUM ≠ 0 := by
    rw [ndifTxDesc, ho]
    dsimp only
    split <;> decide
  have hstart : (ndifTxDesc features p).csumStart = o.csumStart := by rw [ndifTxDesc, ho]
  have hoffset : (ndifTxDesc features p).csumOffset = o.csumOffset := by rw [ndifTxDesc, ho]
  use (ndifTxDesc features p).flags &&& NDTF_L4_UDP != 0
  rw [engineFrame, if_neg hflags, hflat, hstart, hoffset, hs.offset]

theorem sum_engineChecksum (f : List UInt8) (start : ℕ) (udp : Bool) :
  engineChecksum f start udp < 0x10000 ∧
    (sumBytes (mem f) start (f.length - start) + engineChecksum f start udp) % 0xFFFF = 0
  := by
  have hmod := add_compl_norm_mod (sumBytes (mem f) start (f.length - start))
  have hlt : compl (norm (sumBytes (mem f) start (f.length - start))) < 0x10000 := by
    unfold Ones.compl
    omega
  unfold engineChecksum
  dsimp only
  split
  · rename_i hzero
    rw [hzero.2] at hmod
    omega
  · exact ⟨hlt, hmod⟩

theorem sum_behind
    (udp : Bool) (ho : txOffsets features p = some o) (hvalid : p.ValidHeader)
    (hl4 : p.CompleteL4) :
  let f := (p.seeded features).flat
  let f' := patch f o.seedAt (word16 (engineChecksum f o.csumStart.toNat udp))
  (sumBytes (mem f') o.csumStart.toNat (f'.length - o.csumStart.toNat) +
    pseudoWords (mem p.first) p.ip) % 0xFFFF = 0
  := by
  intro f f'
  have hs := seeds_of_txOffsets ho
  obtain ⟨k, hk, hfield⟩ := hs.field
  have hinside : o.seedAt + 2 ≤ p.first.length := by
    have hstart := hs.start
    unfold CompleteL4 at hl4
    omega
  have hf : f = patch p.first o.seedAt (word16 o.seed) ++ p.rest.flatten := by
    change (p.seeded features).flat = _
    rw [seeded_eq ho]
    rfl
  have hlen : p.first.length ≤ f.length := by
    rw [hf, List.length_append, length_patch]
    omega
  obtain ⟨hlt, hsum⟩ := sum_engineChecksum f o.csumStart.toNat udp
  -- The seed is the sum of the pseudo-header.
  have htotal : pseudoTotal (mem p.first) p.ip 0 = pseudoWords (mem p.first) p.ip := by
    rw [pseudoTotal_eq hvalid.length (by omega), Nat.zero_add]
  have hwords := pseudoWords_lt (mem p.first) p.ip
  have hseed : o.seed = fold (pseudoWords (mem p.first) p.ip) := by
    rw [hs.seed, inetfrmPseudoSum, htotal]
  have hseedLt : o.seed < 0x10000 := by
    rw [hseed]
    apply fold_lt
    omega
  have hseedMod : o.seed % 0xFFFF = pseudoWords (mem p.first) p.ip % 0xFFFF := by
    rw [hseed, fold_mod]
  have hword : be16 (mem f) o.seedAt = o.seed := by
    rw [hf, be16, mem_append_left (by rw [length_patch]; omega),
      mem_append_left (by rw [length_patch]; omega)]
    exact be16_patch_self hseedLt (by omega)
  have hpatch : sumBytes (mem f') o.csumStart.toNat (f.length - o.csumStart.toNat) + o.seed =
      sumBytes (mem f) o.csumStart.toNat (f.length - o.csumStart.toNat) +
        engineChecksum f o.csumStart.toNat udp := by
    have hreplaced := sumBytes_patch (l := f) (s := o.csumStart.toNat) (k := k)
      (m := f.length - o.csumStart.toNat) hlt (by omega) (by omega)
    rw [← hk, hword] at hreplaced
    exact hreplaced
  have hlen' : f'.length = f.length := length_patch ..
  rw [hlen']
  omega

theorem sum_raw
    {b : ℕ → UInt8} {n raw words : ℕ} {ip hl : ℕ} (hip : ip = 14 ∨ ip = 18) (hhl : hl % 4 = 0)
    (hn : ip + hl ≤ n) (hheader : sumBytes b ip hl % 0xFFFF = 0)
    (hbehind : (sumBytes b (ip + hl) (n - (ip + hl)) + words) % 0xFFFF = 0)
    (hraw : raw % 0xFFFF = sumBytes b SIZEOF_ETH_HDR (n - SIZEOF_ETH_HDR) % 0xFFFF) :
  (untaggedRaw b ip raw + words) % 0xFFFF = 0
  := by
  have hsplit : sumBytes b ip (n - ip) = sumBytes b ip hl + sumBytes b (ip + hl) (n - (ip + hl)) := by
    have hadd := sumBytes_add b ip (hl / 2) (n - (ip + hl))
    rw [show 2 * (hl / 2) = hl by omega] at hadd
    rw [← hadd]
    congr 1
    omega
  simp only [SIZEOF_ETH_HDR] at hraw
  obtain rfl | rfl := hip
  · have huntagged : untaggedRaw b 14 raw = raw := if_neg (not_not.mpr rfl)
    omega
  · -- The tag is two words.
    have huntagged : untaggedRaw b 18 raw =
        raw + Ones.compl (be16 b 14) + Ones.compl (be16 b 16) := if_pos (by decide)
    have htag : sumBytes b 14 (n - 14) = be16 b 14 + (be16 b 16 + sumBytes b 18 (n - 18)) := by
      rw [show n - 14 = n - 18 + 2 + 2 by omega, sumBytes, sumBytes]
    have h14 := be16_lt b 14
    have h16 := be16_lt b 16
    unfold Ones.compl at huntagged
    omega

/-- The receiver accepts what the engine makes of a seeded frame, whichever zero the raw sum has, and
seeding it again changes nothing. -/
theorem checksum_round_trip
    (ho : txOffsets features p = some o) (hvalid : p.ValidHeader) (hl4 : p.CompleteL4) :
  (∀ raw, RawSum (engineFrame (ndifTxDesc features p)) raw →
      ndifRxCsumOk (mem (engineFrame (ndifTxDesc features p)))
        (engineFrame (ndifTxDesc features p)).length raw = true) ∧
    ndifTxDesc features (p.seeded features) = ndifTxDesc features p
  := by
  refine ⟨?_, ndifTxDesc_seeded ho hvalid.ihl⟩
  have hs := seeds_of_txOffsets ho
  obtain ⟨udp, hengine⟩ := engineFrame_eq ho
  have hbehind := sum_behind udp ho hvalid hl4
  dsimp only at hbehind
  rw [← hengine] at hbehind
  generalize hf' : engineFrame (ndifTxDesc features p) = f' at hengine hbehind ⊢
  rintro raw ⟨hlt, hraw⟩
  obtain ⟨k, hk, hfield⟩ := hs.field
  have hihl := hvalid.ihl
  have hstart := hs.start
  have hflat : (p.seeded features).flat =
      patch p.first o.seedAt (word16 o.seed) ++ p.rest.flatten := by
    rw [seeded_eq ho]
    rfl
  have hfirst : o.csumStart.toNat ≤ p.first.length := by
    unfold CompleteL4 at hl4
    omega
  have hlen : p.first.length ≤ f'.length := by
    rw [hengine, length_patch, hflat, List.length_append, length_patch]
    omega
  -- The headers are as they were.
  have hag : Agree o.csumStart.toNat (mem p.first) (mem f') := by
    intro i hi
    rw [hengine, mem_patch_of_notMem (by omega), hflat,
      mem_append_left (by rw [length_patch]; omega)]
    exact hs.agree _ i hi
  have hsame := hs.sameHeader hihl hag
  have hip := hs.ipOffset hihl hag hlen
  have hheader : sumBytes (mem f') p.ip (iphHlBytes (mem p.first) p.ip) % 0xFFFF = 0 := by
    have hzero := hvalid.chksum
    rw [hag.chksum (by omega)] at hzero
    have hhl := iphHlBytes_le (mem p.first) p.ip
    exact ((inetChksum_eq_zero_iff (by omega)).mp hzero).2
  have hhl4 : iphHlBytes (mem p.first) p.ip % 4 = 0 := by
    unfold iphHlBytes
    omega
  rw [hstart] at hbehind
  have hsum := sum_raw hs.ip hhl4 (by omega) hheader hbehind hraw
  have hwords : 0 < pseudoWords (mem p.first) p.ip := by
    have hproto := hs.proto
    simp only [IP_PROTO_TCP, IP_PROTO_UDP] at hproto
    unfold pseudoWords
    omega
  have huntagged : untaggedRaw (mem f') p.ip raw < 2 ^ 31 := by
    unfold untaggedRaw Ones.compl
    split <;> omega
  have hpseudo : inetfrmPseudoSum (mem f') p.ip (untaggedRaw (mem f') p.ip raw) = 0xFFFF := by
    rw [← hsame.pseudo, inetfrmPseudoSum, pseudoTotal_eq hvalid.length huntagged]
    have hbound := pseudoWords_lt (mem p.first) p.ip
    exact (fold_eq_ones_iff (by omega)).mpr ⟨by omega, hsum⟩
  simp only [ndifRxCsumOk, hip, hpseudo]
  split_ifs <;> rfl

def taggedFrame : TxFrame where
  first := [2, 0, 0, 0, 0, 2, 2, 0, 0, 0, 0, 1, 0x81, 0, 0, 5, 8, 0,
    0x45, 0, 0, 29, 0, 0, 0, 0, 64, 17, 0x66, 0xc7, 10, 0, 0, 9, 10, 0, 0, 1, 0, 9, 0, 9, 0, 9, 0, 0]
  rest := [[77]]

theorem checksum_round_trip_tagged :
  ∃ o raw, txOffsets NDCF_TX_L4CSUM taggedFrame = some o ∧ taggedFrame.ValidHeader ∧
    taggedFrame.CompleteL4 ∧ RawSum (engineFrame (ndifTxDesc NDCF_TX_L4CSUM taggedFrame)) raw ∧
    ndifRxCsumOk (mem (engineFrame (ndifTxDesc NDCF_TX_L4CSUM taggedFrame)))
      (engineFrame (ndifTxDesc NDCF_TX_L4CSUM taggedFrame)).length raw = true
  := by
  have ho : (txOffsets NDCF_TX_L4CSUM taggedFrame).isSome = true := by decide
  obtain ⟨o, ho⟩ := Option.isSome_iff_exists.mp ho
  have hvalid : taggedFrame.ValidHeader := by
    constructor <;> decide
  have hl4 : taggedFrame.CompleteL4 := by
    rw [CompleteL4]
    decide
  have hraw : RawSum (engineFrame (ndifTxDesc NDCF_TX_L4CSUM taggedFrame))
      (norm (sumBytes (mem (engineFrame (ndifTxDesc NDCF_TX_L4CSUM taggedFrame))) SIZEOF_ETH_HDR
        ((engineFrame (ndifTxDesc NDCF_TX_L4CSUM taggedFrame)).length - SIZEOF_ETH_HDR))) :=
    ⟨norm_lt _, norm_mod _⟩
  exact ⟨o, _, ho, hvalid, hl4, hraw, (checksum_round_trip ho hvalid hl4).1 _ hraw⟩

end TxFrame
