import LwipAmiga.Rx.Frame

/-!
# What the verdicts on a frame depend on

The verdicts and the classification are meant to depend on the bytes of the frame alone
(`VerdictsSound`).
-/

open Bytes Ones

def TcpVerified (b : ℕ → UInt8) (len : ℕ) : Prop :=
  let ip := inetfrmIpOffset b len
  let ihl := iphHlBytes b ip
  let iplen := iphLen b ip
  ihl + TCP_HLEN ≤ iplen ∧ ip + iplen ≤ len ∧
    inetfrmPseudoSum b ip (compl (inetChksum b (ip + ihl) (iplen - ihl))) = 0xFFFF

def VerdictsLocal (b : ℕ → UInt8) (len : ℕ) : Prop :=
  ∀ b', Agree len b b' →
    (∀ raw < 0x10000, ndifRxCsumOk b' len raw = ndifRxCsumOk b len raw) ∧
      s2ifRxCsumOk b' len = s2ifRxCsumOk b len ∧ rxgroClassify b' len = rxgroClassify b len

def ClassVerified (b : ℕ → UInt8) (len : ℕ) : Prop :=
  ∀ b' m, Agree len b b' → rxgroClassify b' len = some m → m.cls ≠ .nomerge →
    inetfrmIpOffset b' len + IP_HLEN + TCP_HLEN ≤ len ∧
      (s2ifRxCsumOk b' len = true → TcpVerified b' len)

def VerdictsSound (b : ℕ → UInt8) (len : ℕ) : Prop :=
  VerdictsLocal b len ∧ ClassVerified b len

def UdpContained (b : ℕ → UInt8) (len ip : ℕ) : Prop :=
  let uh := ip + iphHlBytes b ip
  isFragment b ip = true ∨ uh + 8 ≤ len ∨ uh + 7 = len ∧ b (uh + 6) ≠ 0

def TcpContained (b : ℕ → UInt8) (len ip : ℕ) : Prop :=
  ip + iphHlBytes b ip + 4 ≤ len ∧
    (iphHlBytes b ip = 20 ∧ isFragment b ip = false ∧ iphLen b ip = 40 →
      ip + 40 ≤ len ∨ ip + 33 ≤ len ∧ tcphHdrlenBytes b (ip + 20) ≠ 20 ∨
      ip + 34 ≤ len ∧ tcphFlags b (ip + 20) ≠ TCP_ACK)

def HeadersContained (b : ℕ → UInt8) (len : ℕ) : Prop :=
  let ip := inetfrmIpOffset b len
  ip = 0 ∨
    (iphProto b ip = IP_PROTO_UDP → UdpContained b len ip) ∧
      (iphProto b ip = IP_PROTO_TCP → TcpContained b len ip)

variable {b b' : ℕ → UInt8} {len ip raw : ℕ}

/-! ### Checksum verdicts -/

theorem Agree.s2if (h : Agree len b b') :
  s2ifRxCsumOk b len = s2ifRxCsumOk b' len
  := by
  simp only [s2ifRxCsumOk, ← h.ipOffset]
  by_cases hip : inetfrmIpOffset b len = 0
  · rw [if_pos hip, if_pos hip]
  · have hsame := h.header (inetfrmIpOffset_cases hip).2
    rw [← hsame.ihl, ← hsame.iplen, ← hsame.fragment, ← hsame.proto, ← hsame.pseudo]
    by_cases hlie : iphLen b (inetfrmIpOffset b len) <
        iphHlBytes b (inetfrmIpOffset b len) + TCP_HLEN ∨
        len < inetfrmIpOffset b len + iphLen b (inetfrmIpOffset b len)
    · rw [if_pos hlie, if_pos hlie]
    · rw [h.chksum (by omega)]

theorem be16_eq_zero_local_iff (b : ℕ → UInt8) (len i : ℕ) :
  (∀ b', Agree len b b' → (be16 b' i = 0 ↔ be16 b i = 0)) ↔
    i + 2 ≤ len ∨ i + 1 = len ∧ b i ≠ 0
  := by
  constructor
  · intro h
    by_contra hnot
    push Not at hnot
    -- Outside the frame there are zeros, or ones.
    have hzero : be16 (fun j => if j < len then b j else 0) i = 0 := by
      by_cases hi : i < len
      · simp [be16, hi, hnot.2 (by omega), show ¬ i + 1 < len by omega]
      · simp [be16, hi, show ¬ i + 1 < len by omega]
    have hone : be16 (fun j => if j < len then b j else 1) i ≠ 0 := by
      simp [be16, show ¬ i + 1 < len by omega]
    apply hone
    apply (h _ fun j hj => (if_pos hj).symm).mpr
    apply (h _ fun j hj => (if_pos hj).symm).mp hzero
  · rintro (hin | ⟨hend, hne⟩) b' hb'
    · rw [hb'.word16 hin]
    · have hpos : ∀ c : ℕ → UInt8, c i = b i → be16 c i ≠ 0 := by
        intro c hc hzero
        apply hne
        rw [← UInt8.toNat_inj, ← hc]
        change (c i).toNat = 0
        unfold be16 at hzero
        omega
      constructor
      · intro hzero
        cases hpos b' (hb' i (by omega)).symm hzero
      · intro hzero
        cases hpos b rfl hzero

theorem Agree.ndif_iff (h : Agree len b b') (hip : inetfrmIpOffset b len ≠ 0) (raw : ℕ) :
  ndifRxCsumOk b' len raw = true ↔
    let ip := inetfrmIpOffset b len
    isFragment b ip = true ∨ iphProto b ip ≠ IP_PROTO_TCP ∧ iphProto b ip ≠ IP_PROTO_UDP ∨
      iphProto b ip = IP_PROTO_UDP ∧ be16 b' (ip + iphHlBytes b ip + 6) = 0 ∨
      inetfrmPseudoSum b ip (untaggedRaw b ip raw) = 0xFFFF
  := by
  obtain ⟨hoff, hlen⟩ := inetfrmIpOffset_cases hip
  have hsame := h.header hlen
  simp only [ndifRxCsumOk, ← h.ipOffset, if_neg hip, ← hsame.ihl, ← hsame.fragment, ← hsame.proto,
    ← hsame.pseudo, ← h.rawSum (by omega : 18 ≤ len)]
  split_ifs with h₁ h₂ h₃
  · simp [h₁]
  · simp [h₂]
  · simp [h₃]
  · simp [h₁, h₂, h₃]

theorem exists_raw (b : ℕ → UInt8) (ip : ℕ) :
  ∃ raw < 0x10000, inetfrmPseudoSum b ip (untaggedRaw b ip raw) ≠ 0xFFFF
  := by
  -- The sums for 0 and 1 are next to each other, or the second has wrapped to 0.
  have hsum : ∀ raw, inetfrmPseudoSum b ip (untaggedRaw b ip raw) = 0xFFFF ↔
      pseudoTotal b ip (untaggedRaw b ip raw) ≠ 0 ∧
        pseudoTotal b ip (untaggedRaw b ip raw) % 0xFFFF = 0 :=
    fun raw => fold_eq_ones_iff (Nat.mod_lt _ (by omega))
  have hnext : pseudoTotal b ip (untaggedRaw b ip 1) =
      (pseudoTotal b ip (untaggedRaw b ip 0) + 1) % 2 ^ 32 := by
    unfold untaggedRaw pseudoTotal
    split_ifs <;> omega
  have hlt : pseudoTotal b ip (untaggedRaw b ip 0) < 2 ^ 32 := Nat.mod_lt _ (by omega)
  by_cases hzero : inetfrmPseudoSum b ip (untaggedRaw b ip 0) = 0xFFFF
  · use 1, by omega
    rw [ne_eq, hsum, hnext]
    obtain ⟨-, hmod⟩ := (hsum 0).mp hzero
    generalize pseudoTotal b ip (untaggedRaw b ip 0) = t at hmod hlt
    omega
  · use 0, by omega

theorem ndif_local_iff (hip : inetfrmIpOffset b len ≠ 0) :
  (∀ b', Agree len b b' → ∀ raw < 0x10000, ndifRxCsumOk b' len raw = ndifRxCsumOk b len raw) ↔
    (iphProto b (inetfrmIpOffset b len) = IP_PROTO_UDP → UdpContained b len (inetfrmIpOffset b len))
  := by
  have hself : Agree len b b := fun _ _ => rfl
  have hword := be16_eq_zero_local_iff b len
    (inetfrmIpOffset b len + iphHlBytes b (inetfrmIpOffset b len) + 6)
  constructor
  · intro h hudp
    obtain ⟨raw, hraw, hsum⟩ := exists_raw b (inetfrmIpOffset b len)
    by_cases hfrag : isFragment b (inetfrmIpOffset b len) = true
    · exact .inl hfrag
    · apply Or.inr
      apply hword.mp
      intro b' hb'
      have hok := Bool.eq_iff_iff.mp (h b' hb' raw hraw)
      rw [hb'.ndif_iff hip, hself.ndif_iff hip] at hok
      simpa [hfrag, hudp, hsum] using hok
  · intro h b' hb' raw _
    rw [Bool.eq_iff_iff, hb'.ndif_iff hip, hself.ndif_iff hip]
    by_cases hudp : iphProto b (inetfrmIpOffset b len) = IP_PROTO_UDP
    · obtain hfrag | hin := h hudp
      · simp [hfrag]
      · simp [hword.mpr hin b' hb']
    · simp [hudp]

/-! ### Classification -/

theorem ports_local_iff (b : ℕ → UInt8) (len th : ℕ) :
  (∀ b', Agree len b b' → tcphPorts b' th = tcphPorts b th) ↔ th + 4 ≤ len
  := by
  constructor
  · intro h
    by_contra hnot
    -- Outside the frame the last byte of the ports is changed.
    have hports := h (fun j => if j < len then b j else b j + 1) fun j hj => (if_pos hj).symm
    have hlast := eq_of_be32_eq hports
    simp [show ¬ th + 3 < len by omega] at hlast
  · intro hle b' hb'
    apply hb'.symm.word32 hle

theorem Agree.rxClass_of_inside
    (h : Agree len b b') (hihl : iphHlBytes b ip = 20) (hlen : ip + 40 ≤ len) :
  rxClass b' len ip = rxClass b len ip
  := by
  have hsame := h.header (by omega : ip + 20 ≤ len)
  have hhdrlen : tcphHdrlenBytes b (ip + 20) = tcphHdrlenBytes b' (ip + 20) := by
    rw [tcphHdrlenBytes, tcphHdrlenBytes, h _ (by omega)]
  have hflags : tcphFlags b (ip + 20) = tcphFlags b' (ip + 20) := by
    rw [tcphFlags, tcphFlags, h _ (by omega)]
  have hseq : tcphSeqno b (ip + 20) = tcphSeqno b' (ip + 20) := by
    apply h.word32
    omega
  have hack : tcphAckno b (ip + 20) = tcphAckno b' (ip + 20) := by
    apply h.word32
    omega
  simp only [rxClass, mergeableHeaders, ← hsame.ihl, hihl, ← hsame.iplen, ← hsame.fragment,
    ← hhdrlen, ← hflags, ← hseq, ← hack]

theorem TcpContained.nomerge
    (h : TcpContained b len ip) (hb' : Agree len b b') (hip : ip + 20 ≤ len)
    (hshort : len < ip + 40) :
  rxClass b' len ip = .nomerge
  := by
  have hsame := hb'.header hip
  obtain hno | ⟨hhead, hlen, hflags, -⟩ | ⟨hhead, hlen, heq, -⟩ := rxClass_cases b' len ip
  · apply hno
  · have hack : iphHlBytes b ip = 20 ∧ isFragment b ip = false ∧ iphLen b ip = 40 := by
      rw [hsame.ihl, hsame.fragment, hsame.iplen]
      exact ⟨hhead.ihl, hhead.whole, hlen⟩
    obtain hin | ⟨hin, hne⟩ | ⟨hin, hne⟩ := h.2 hack
    · omega
    · have hbyte : tcphHdrlenBytes b (ip + 20) = tcphHdrlenBytes b' (ip + 20) := by
        rw [tcphHdrlenBytes, tcphHdrlenBytes, hb' _ (by omega)]
      cases hne (hbyte.trans hhead.hdrlen)
    · have hbyte : tcphFlags b (ip + 20) = tcphFlags b' (ip + 20) := by
        rw [tcphFlags, tcphFlags, hb' _ (by omega)]
      cases hne (hbyte.trans hflags)
  · omega

theorem TcpContained.class_eq
    (h : TcpContained b len ip) (hb' : Agree len b b') (hip : ip + 20 ≤ len) :
  rxClass b' len ip = rxClass b len ip
  := by
  by_cases hshort : len < ip + 40
  · rw [h.nomerge hb' hip hshort, h.nomerge (fun _ _ => rfl) hip hshort]
  · by_cases hihl : iphHlBytes b ip = 20
    · apply hb'.rxClass_of_inside hihl
      omega
    · have hno : ∀ c, iphHlBytes c ip = iphHlBytes b ip → rxClass c len ip = .nomerge := by
        intro c hc
        obtain hno | ⟨hhead, -⟩ | ⟨hhead, -⟩ := rxClass_cases c len ip
        · apply hno
        · cases hihl (hc ▸ hhead.ihl)
        · cases hihl (hc ▸ hhead.ihl)
      rw [hno b' (hb'.header hip).ihl.symm, hno b rfl]

theorem exists_ack
    (hip : ip + 20 ≤ len) (hihl : iphHlBytes b ip = 20) (hwhole : isFragment b ip = false)
    (hlen : iphLen b ip = 40) (hhdrlen : ip + 33 ≤ len → tcphHdrlenBytes b (ip + 20) = 20)
    (hflags : ip + 34 ≤ len → tcphFlags b (ip + 20) = TCP_ACK) :
  ∃ b', Agree len b b' ∧ rxClass b' len ip ≠ .nomerge
  := by
  -- Behind the frame there is the rest of the header of an ACK.
  let b' : ℕ → UInt8 := fun j => if j < len then b j else if j = ip + 32 then 0x50 else 0x10
  have hb' : Agree len b b' := fun j hj => (if_pos hj).symm
  have hsame := hb'.header hip
  have hhdrlen' : tcphHdrlenBytes b' (ip + 20) = 20 := by
    by_cases hin : ip + 32 < len
    · rw [tcphHdrlenBytes, ← hb' _ hin]
      apply hhdrlen hin
    · have hbyte : b' (ip + 32) = 0x50 := by
        simp [b', hin]
      rw [tcphHdrlenBytes, hbyte]
      rfl
  have hflags' : tcphFlags b' (ip + 20) = TCP_ACK := by
    by_cases hin : ip + 33 < len
    · rw [tcphFlags, ← hb' _ hin]
      apply hflags hin
    · have hbyte : b' (ip + 33) = 0x10 := by
        simp [b', hin]
      rw [tcphFlags, hbyte]
      rfl
  have hm : mergeableHeaders b' ip = true := by
    apply mergeableHeaders_iff.mpr
    constructor
    · rw [← hsame.ihl, hihl]
    · rw [← hsame.fragment, hwhole]
    · apply hhdrlen'
    · apply Or.inl hflags'
  use b', hb'
  simp [rxClass, hm, ← hsame.iplen, hlen, ← hsame.ihl, hihl, hflags', IP_HLEN, TCP_HLEN]

theorem tcpVerified_of_rxClass
    (hip : inetfrmIpOffset b len ≠ 0) (htcp : iphProto b (inetfrmIpOffset b len) = IP_PROTO_TCP)
    (hcls : rxClass b len (inetfrmIpOffset b len) ≠ .nomerge)
    (hlen : inetfrmIpOffset b len + 40 ≤ len) (hok : s2ifRxCsumOk b len = true) :
  TcpVerified b len
  := by
  have hbound : MergeableHeaders b (inetfrmIpOffset b len) ∧
      40 ≤ iphLen b (inetfrmIpOffset b len) ∧
      inetfrmIpOffset b len + iphLen b (inetfrmIpOffset b len) ≤ len := by
    obtain hno | ⟨hhead, hiplen, -⟩ | ⟨hhead, hlong, heq, -⟩ :=
      rxClass_cases b len (inetfrmIpOffset b len)
    · contradiction
    · refine ⟨hhead, ?_, ?_⟩ <;> omega
    · refine ⟨hhead, ?_, ?_⟩ <;> omega
  obtain ⟨hhead, h40, hend⟩ := hbound
  have hin : ¬ (iphLen b (inetfrmIpOffset b len) < 20 + TCP_HLEN ∨
      len < inetfrmIpOffset b len + iphLen b (inetfrmIpOffset b len)) := by
    simp only [TCP_HLEN]
    omega
  simp only [s2ifRxCsumOk, if_neg hip, htcp, hhead.whole, hhead.ihl, if_neg hin, ne_eq,
    not_true_eq_false, if_false, Bool.false_eq_true, beq_iff_eq] at hok
  simp only [TcpVerified, hhead.ihl, TCP_HLEN]
  exact ⟨h40, hend, hok⟩

theorem classify_sound_iff
    (hip : inetfrmIpOffset b len ≠ 0) (htcp : iphProto b (inetfrmIpOffset b len) = IP_PROTO_TCP) :
  (∀ b', Agree len b b' → rxgroClassify b' len = rxgroClassify b len) ∧ ClassVerified b len ↔
    TcpContained b len (inetfrmIpOffset b len)
  := by
  have hlen := (inetfrmIpOffset_cases hip).2
  have hclassify : ∀ b', Agree len b b' → rxgroClassify b' len =
      some ⟨flowKey b' (inetfrmIpOffset b len), rxClass b' len (inetfrmIpOffset b len)⟩ := by
    intro b' hb'
    rw [rxgroClassify, ← hb'.ipOffset, if_neg hip, if_neg]
    rw [← (hb'.header hlen).proto, htcp]
    exact fun h => h rfl
  have hself := hclassify b fun _ _ => rfl
  constructor
  · rintro ⟨hlocal, hverified⟩
    constructor
    · apply (ports_local_iff b len _).mp
      intro b' hb'
      have hmeta := hlocal b' hb'
      rw [hclassify b' hb', hself, Option.some.injEq, RxGroMeta.mk.injEq] at hmeta
      have hports := congrArg FlowKey.ports hmeta.1
      simpa only [flowKey, ← (hb'.header hlen).ihl] using hports
    · rintro ⟨hihl, hwhole, hiplen⟩
      by_contra hnot
      push Not at hnot
      obtain ⟨hshort, hhdrlen, hflags⟩ := hnot
      obtain ⟨b', hb', hcls⟩ := exists_ack hlen hihl hwhole hiplen hhdrlen hflags
      have hin := (hverified b' _ hb' (hclassify b' hb') hcls).1
      rw [← hb'.ipOffset] at hin
      simp only [IP_HLEN, TCP_HLEN] at hin
      omega
  · intro h
    constructor
    · intro b' hb'
      have hsame := hb'.header hlen
      rw [hclassify b' hb', hself, h.class_eq hb' hlen, flowKey, flowKey, ← hsame.src, ← hsame.dest,
        ← hsame.ihl, (ports_local_iff b len _).mpr h.1 b' hb']
    · intro b' m hb' hm hcls
      rw [hclassify b' hb', Option.some.injEq] at hm
      subst hm
      have hin : inetfrmIpOffset b len + 40 ≤ len := by
        by_contra hshort
        apply hcls
        apply h.nomerge hb' hlen
        omega
      rw [← hb'.ipOffset]
      constructor
      · simp only [IP_HLEN, TCP_HLEN]
        omega
      · intro hok
        have hip' := hb'.ipOffset ▸ hip
        apply tcpVerified_of_rxClass hip' _ _ _ hok
        · rw [← hb'.ipOffset, ← (hb'.header hlen).proto, htcp]
        · rw [← hb'.ipOffset]
          apply hcls
        · rw [← hb'.ipOffset]
          apply hin

theorem Agree.classify_eq_none
    (h : Agree len b b')
    (hno : inetfrmIpOffset b len = 0 ∨ iphProto b (inetfrmIpOffset b len) ≠ IP_PROTO_TCP) :
  rxgroClassify b' len = none
  := by
  rw [rxgroClassify, ← h.ipOffset]
  by_cases hip : inetfrmIpOffset b len = 0
  · rw [if_pos hip]
  · rw [if_neg hip, if_pos]
    rw [← (h.header (inetfrmIpOffset_cases hip).2).proto]
    apply hno.resolve_left hip

theorem classify_sound_of_not_tcp
    (hno : inetfrmIpOffset b len = 0 ∨ iphProto b (inetfrmIpOffset b len) ≠ IP_PROTO_TCP) :
  (∀ b', Agree len b b' → rxgroClassify b' len = rxgroClassify b len) ∧ ClassVerified b len
  := by
  constructor
  · intro b' hb'
    rw [hb'.classify_eq_none hno, Agree.classify_eq_none (fun _ _ => rfl) hno]
  · intro b' m hb' hm
    rw [hb'.classify_eq_none hno] at hm
    contradiction

theorem verdictsSound_iff (b : ℕ → UInt8) (len : ℕ) :
  VerdictsSound b len ↔
    (∀ b', Agree len b b' →
      ∀ raw < 0x10000, ndifRxCsumOk b' len raw = ndifRxCsumOk b len raw) ∧
      (∀ b', Agree len b b' → rxgroClassify b' len = rxgroClassify b len) ∧ ClassVerified b len
  := by
  constructor
  · rintro ⟨hlocal, hverified⟩
    exact ⟨fun b' hb' => (hlocal b' hb').1, fun b' hb' => (hlocal b' hb').2.2, hverified⟩
  · rintro ⟨hndif, hclassify, hverified⟩
    exact ⟨fun b' hb' => ⟨hndif b' hb', hb'.s2if.symm, hclassify b' hb'⟩, hverified⟩

/-- The verdicts on a frame are as they are meant to be exactly when the bytes of the frame contain
what is read of its headers. -/
theorem verdictsSound_iff_headersContained (b : ℕ → UInt8) (len : ℕ) :
  VerdictsSound b len ↔ HeadersContained b len
  := by
  rw [verdictsSound_iff]
  by_cases hip : inetfrmIpOffset b len = 0
  · have hndif : ∀ b', Agree len b b' →
        ∀ raw < 0x10000, ndifRxCsumOk b' len raw = ndifRxCsumOk b len raw := by
      intro b' hb' raw _
      simp only [ndifRxCsumOk, ← hb'.ipOffset, hip, if_true]
    constructor
    · intro _
      exact .inl hip
    · intro _
      exact ⟨hndif, classify_sound_of_not_tcp (.inl hip)⟩
  · have hcontained : HeadersContained b len ↔
        (iphProto b (inetfrmIpOffset b len) = IP_PROTO_UDP →
          UdpContained b len (inetfrmIpOffset b len)) ∧
        (iphProto b (inetfrmIpOffset b len) = IP_PROTO_TCP →
          TcpContained b len (inetfrmIpOffset b len)) :=
      or_iff_right hip
    rw [hcontained, ndif_local_iff hip]
    apply and_congr_right
    intro _
    by_cases htcp : iphProto b (inetfrmIpOffset b len) = IP_PROTO_TCP
    · rw [classify_sound_iff hip htcp]
      exact ⟨fun h _ => h, fun h => h htcp⟩
    · exact ⟨fun _ h => absurd h htcp, fun _ => classify_sound_of_not_tcp (.inr htcp)⟩

def runt : List UInt8 :=
  [2, 0, 0, 0, 0, 1, 2, 0, 0, 0, 0, 2, 8, 0, 0x45, 0, 0, 40, 0, 0, 0, 0, 64, 6, 0x66, 0xCE,
    10, 0, 0, 2, 10, 0, 0, 1, 0, 80, 0x10, 0]

def ackRest : List UInt8 :=
  [0, 0, 0, 1, 0x7F, 0xFF, 0xFF, 0xFF, 0x50, 0x10, 0x20, 0, 0, 0, 0, 0]

/-- The frame is a pure ACK just when an ACK was in the buffer before, and on a SANA-II device it is
let through unverified. -/
theorem runt_is_ack :
  Agree runt.length (mem (runt ++ ackRest)) (mem runt) ∧
    rxgroClassify (mem (runt ++ ackRest)) runt.length =
      some ⟨⟨0x0A000002, 0x0A000001, 0x00501000⟩, .ack 0x7FFFFFFF⟩ ∧
    rxgroClassify (mem runt) runt.length =
      some ⟨⟨0x0A000002, 0x0A000001, 0x00501000⟩, .nomerge⟩ ∧
    s2ifRxCsumOk (mem (runt ++ ackRest)) runt.length = true ∧
    ¬ TcpVerified (mem (runt ++ ackRest)) runt.length ∧
    ¬ VerdictsSound (mem (runt ++ ackRest)) runt.length
  := by
  have hagree : Agree runt.length (mem (runt ++ ackRest)) (mem runt) := by
    unfold Agree
    decide
  have hclass : rxgroClassify (mem (runt ++ ackRest)) runt.length =
      some ⟨⟨0x0A000002, 0x0A000001, 0x00501000⟩, .ack 0x7FFFFFFF⟩ := by
    decide
  refine ⟨hagree, hclass, by decide, by decide, ?_, ?_⟩
  · rintro ⟨-, hin, -⟩
    revert hin
    decide
  · rintro ⟨-, hverified⟩
    have hin := (hverified _ _ (fun _ _ => rfl) hclass nofun).1
    revert hin
    decide
