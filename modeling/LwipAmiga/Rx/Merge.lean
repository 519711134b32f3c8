import LwipAmiga.Rx.Run
import Mathlib.Algebra.Order.BigOperators.Group.List
import Mathlib.Algebra.Order.Ring.Nat

/-!
# What a merged run contains

A merged run, split back, has the sequence numbers and the bytes of the frames that were merged.
-/

open List

open Bytes Ones

/-! ### Pieces of a segment -/

structure TcpPiece where
  seq : UInt32
  payload : List UInt8

def tcpPiece (data : List UInt8) : TcpPiece :=
  let b := mem data
  let ip := inetfrmIpOffset b data.length
  let th := ip + iphHlBytes b ip
  ⟨tcphSeqno b th, (data.take (ip + iphLen b ip)).drop (th + tcphHdrlenBytes b th)⟩

def pieces (seq : UInt32) : List RxPbuf → List TcpPiece
  | [] => []
  | q :: qs => ⟨seq, q.payload⟩ :: pieces (seq + UInt32.ofNat q.len) qs

def split : List RxPbuf → List TcpPiece
  | [] => []
  | p :: rest =>
      let t := tcpPiece p.payload
      t :: pieces (t.seq + UInt32.ofNat t.payload.length) rest

def bytesIn (qs : List RxPbuf) : ℕ :=
  Pbuf.size (qs.map RxPbuf.toPbuf)

@[simp]
theorem bytesIn_nil :
  bytesIn [] = 0
  := rfl

@[simp]
theorem bytesIn_cons (q : RxPbuf) (qs : List RxPbuf) :
  bytesIn (q :: qs) = q.len + bytesIn qs
  := rfl

@[simp]
theorem bytesIn_append (qs qs' : List RxPbuf) :
  bytesIn (qs ++ qs') = bytesIn qs + bytesIn qs'
  := by
  simp [bytesIn]

theorem pieces_append_singleton (seq : UInt32) (qs : List RxPbuf) (q : RxPbuf) :
  pieces seq (qs ++ [q]) = pieces seq qs ++ [⟨seq + UInt32.ofNat (bytesIn qs), q.payload⟩]
  := by
  induction qs generalizing seq with
  | nil => simp [pieces]
  | cons q' qs ih =>
    rw [cons_append, pieces, ih, bytesIn_cons, UInt32.ofNat_add, UInt32.add_assoc]
    rfl

theorem pieces_setTotLens (seq : UInt32) (remaining : ℕ) (qs : List RxPbuf) :
  pieces seq (setTotLens remaining qs) = pieces seq qs
  := by
  induction qs generalizing seq remaining with
  | nil => rfl
  | cons q qs ih =>
    rw [setTotLens, pieces, ih]
    rfl

theorem map_frame_setTotLens {β : Type} (φ : RxFrame → β) (remaining : ℕ) (qs : List RxPbuf) :
  ((setTotLens remaining qs).map fun q => φ q.frame) = qs.map fun q => φ q.frame
  := by
  induction qs generalizing remaining with
  | nil => rfl
  | cons q qs ih => rw [setTotLens, map_cons, map_cons, ih]

theorem forall_mem_setTotLens {P : RxFrame → Prop} {remaining : ℕ} {qs : List RxPbuf} :
  (∀ q ∈ setTotLens remaining qs, P q.frame) ↔ ∀ q ∈ qs, P q.frame
  := by
  induction qs generalizing remaining with
  | nil => rfl
  | cons q qs ih => simp [setTotLens, ih]

theorem exists_mem_setTotLens {P : RxFrame → Prop} {remaining : ℕ} {qs : List RxPbuf} :
  (∃ q ∈ setTotLens remaining qs, P q.frame) ↔ ∃ q ∈ qs, P q.frame
  := by
  induction qs generalizing remaining with
  | nil => rfl
  | cons q qs ih => simp [setTotLens, ih]

theorem split_setTotLens (remaining : ℕ) (qs : List RxPbuf) :
  split (setTotLens remaining qs) = split qs
  := by
  cases qs with
  | nil => rfl
  | cons q qs =>
    rw [setTotLens, split, pieces_setTotLens]
    rfl

theorem totLens_setTotLens {qs : List RxPbuf} (h : bytesIn qs ≤ 0xFFFF) :
  Pbuf.TotLens ((setTotLens (bytesIn qs) qs).map RxPbuf.toPbuf)
  := by
  induction qs with
  | nil => trivial
  | cons q qs ih =>
    rw [bytesIn_cons] at h
    have hrest : (bytesIn (q :: qs) + 2 ^ 32 - q.len) % 2 ^ 32 = bytesIn qs := by
      rw [bytesIn_cons]
      omega
    have hsize : ∀ r (l : List RxPbuf), bytesIn (setTotLens r l) = bytesIn l := by
      intro r l
      induction l generalizing r with
      | nil => rfl
      | cons x l ih =>
        rw [setTotLens, bytesIn_cons, ih]
        rfl
    rw [setTotLens, hrest, map_cons]
    constructor
    · change bytesIn (q :: qs) % 0x10000 = q.len + bytesIn (setTotLens (bytesIn qs) qs)
      rw [hsize, bytesIn_cons]
      omega
    · apply ih
      omega

/-! ### Frames -/

namespace RxFrame

variable {f : RxFrame}

def ipLen (f : RxFrame) : ℕ :=
  iphLen f.mem (inetfrmIpOffset f.mem f.len)

structure ValidIp (f : RxFrame) : Prop where
  version : iphV f.mem (inetfrmIpOffset f.mem f.len) = 4
  ihl : 20 ≤ iphHlBytes f.mem (inetfrmIpOffset f.mem f.len)
  header : iphHlBytes f.mem (inetfrmIpOffset f.mem f.len) ≤ f.ipLen
  inside : inetfrmIpOffset f.mem f.len + f.ipLen ≤ f.len
  whole : isFragment f.mem (inetfrmIpOffset f.mem f.len) = false
  chksum : inetChksum f.mem (inetfrmIpOffset f.mem f.len)
    (iphHlBytes f.mem (inetfrmIpOffset f.mem f.len)) = 0
  short : f.len ≤
    inetfrmIpOffset f.mem f.len + iphHlBytes f.mem (inetfrmIpOffset f.mem f.len) + 1500

theorem ValidIp.len_lt (h : f.ValidIp) :
  f.len < 0x10000
  := by
  have hshort := h.short
  have hihl : iphHlBytes f.mem (inetfrmIpOffset f.mem f.len) ≤ 60 := by
    unfold iphHlBytes
    omega
  by_cases hip : inetfrmIpOffset f.mem f.len = 0
  · omega
  · have hcases := (inetfrmIpOffset_cases hip).1
    omega

theorem bytes_eq_data (h : f.len < 0x10000) :
  f.bytes = f.data
  := by
  rw [bytes, Nat.mod_eq_of_lt h, ← f.length_data, take_length]

end RxFrame

theorem DataSegment.offset
    {f : RxFrame} {seq : UInt32} {ip payLen : ℕ} (h : DataSegment f seq (ip + 40) payLen) :
  inetfrmIpOffset f.mem f.len = ip
  := Nat.add_right_cancel h.ip_eq

theorem drop_eq_drop
    {l l' : List UInt8} {n : ℕ} (hlen : l.length = l'.length) (h : ∀ j, n ≤ j → mem l j = mem l' j) :
  l.drop n = l'.drop n
  := by
  apply ext_getElem
  · rw [length_drop, length_drop, hlen]
  · intro j hj hj'
    rw [length_drop] at hj hj'
    have hmem := h (n + j) (Nat.le_add_right n j)
    rw [mem, mem, getD_eq_getElem _ _ (by omega), getD_eq_getElem _ _ (by omega)] at hmem
    rw [getElem_drop, getElem_drop, hmem]

structure HeadOf (f : RxFrame) (ip : ℕ) (l : List UInt8) : Prop where
  length : l.length = f.len
  same : ∀ j < f.len, j < ip + 2 ∨ ip + 4 ≤ j ∧ j < ip + 10 ∨ ip + 12 ≤ j ∧ j < ip + 28 ∨
    j = ip + 32 ∨ ip + 36 ≤ j → mem l j = f.mem j
  iplen : f.len ≤ ip + iphLen (mem l) ip

variable {f : RxFrame} {seq : UInt32} {ip payOff payLen : ℕ} {l : List UInt8}

theorem HeadOf.ip_eq (h : HeadOf f ip l) (hip : inetfrmIpOffset f.mem f.len = ip) (hne : ip ≠ 0) :
  inetfrmIpOffset (mem l) l.length = ip
  := by
  have hlen := (inetfrmIpOffset_cases (hip ▸ hne)).2
  rw [h.length]
  apply Agree.ipOffset_eq _ hip hne
  intro j hj
  apply h.same j (by omega)
  omega

theorem HeadOf.headers (h : HeadOf f ip l) (hseg : DataSegment f seq (ip + 40) payLen) :
  inetfrmIpOffset (mem l) l.length = ip ∧ iphHlBytes (mem l) ip = 20 ∧
    tcphHdrlenBytes (mem l) (ip + 20) = 20
  := by
  have hip := hseg.offset
  have hcases := hseg.ip_cases
  have hlen := hseg.len_eq
  have hhead := hseg.headers
  rw [hip] at hhead
  refine ⟨h.ip_eq hip (by omega), ?_, ?_⟩
  · rw [← hhead.ihl, iphHlBytes, iphHlBytes, h.same ip (by omega) (by omega)]
  · rw [tcphHdrlenBytes, h.same (ip + 20 + 12) (by omega) (by omega)]
    apply hhead.hdrlen

theorem HeadOf.tcpPiece_eq (h : HeadOf f ip l) (hseg : DataSegment f seq (ip + 40) payLen) :
  tcpPiece l = ⟨seq, f.data.drop (ip + 40)⟩
  := by
  obtain ⟨hip', hihl, hhdrlen⟩ := h.headers hseg
  have hip := hseg.offset
  have hlen := hseg.len_eq
  have hseq := hseg.seq_eq
  rw [hip] at hseq
  have hseq' : tcphSeqno (mem l) (ip + 20) = seq := by
    rw [← hseq]
    apply be32_congr
    intro j hj hj'
    apply h.same j (by omega)
    omega
  have hdrop : l.drop (ip + 40) = f.data.drop (ip + 40) := by
    apply drop_eq_drop
    · rw [h.length, f.length_data]
    · intro j hj
      by_cases hin : j < f.len
      · rw [h.same j hin (by omega), f.agree_data j hin]
      · have hl : l.length ≤ j := by
          rw [h.length]
          omega
        have hd : f.data.length ≤ j := by
          rw [f.length_data]
          omega
        rw [mem, mem, getD_eq_default _ _ hl, getD_eq_default _ _ hd]
  have htake : l.take (ip + iphLen (mem l) ip) = l := by
    apply take_of_length_le
    rw [h.length]
    apply h.iplen
  simp only [tcpPiece, hip', hihl, hhdrlen, hseq', htake]
  rw [← hdrop]

theorem headOf_data (hseg : DataSegment f seq (ip + 40) payLen) :
  HeadOf f ip f.data
  := by
  have hip := hseg.offset
  have hlen := hseg.len_eq
  have hiplen := hseg.iplen
  constructor
  · apply f.length_data
  · intro j hj _
    apply f.agree_data j hj
  · have hword : iphLen (mem f.data) ip = iphLen f.mem ip := by
      apply f.agree_data.word16
      omega
    rw [hword, ← hip, hiplen, hip]
    omega

/-! ### Runs -/

section Pbufs

variable {head p : Pbuf} {flags add j : ℕ}

@[simp]
theorem Pbuf.len_patch (p : Pbuf) (i : ℕ) (xs : List UInt8) :
  (p.patch i xs).len = p.len
  := length_patch ..

@[simp]
theorem Pbuf.len_fixLen (p : Pbuf) (ip add : ℕ) :
  (p.fixLen ip add).len = p.len
  := by
  rw [fixLen, len_patch, len_patch]

@[simp]
theorem Pbuf.len_refresh (head p : Pbuf) (ip payOff flags : ℕ) :
  (head.refresh p ip payOff flags).len = head.len
  := by
  unfold refresh
  simp only
  split
  · rw [len_patch, len_patch, len_patch]
  · rw [len_patch, len_patch]

theorem Pbuf.mem_refresh (h : j < ip + 28 ∨ j = ip + 32 ∨ ip + 36 ≤ j) :
  mem (head.refresh p ip payOff flags).payload j = mem head.payload j
  := by
  have h₁ : (slice p.payload (payOff - TCP_HLEN + 8) 4).length ≤ 4 := length_take_le _ _
  have h₂ : (slice p.payload (payOff - TCP_HLEN + 14) 2).length ≤ 2 := length_take_le _ _
  have hpatched : mem (Bytes.patch (Bytes.patch head.payload (ip + IP_HLEN + 8)
      (slice p.payload (payOff - TCP_HLEN + 8) 4)) (ip + IP_HLEN + 14)
      (slice p.payload (payOff - TCP_HLEN + 14) 2)) j = mem head.payload j := by
    simp only [IP_HLEN]
    rw [mem_patch_of_notMem (by omega), mem_patch_of_notMem (by omega)]
  unfold refresh
  simp only
  split
  · change mem (Bytes.patch _ (ip + IP_HLEN + 13) [_]) j = _
    rw [mem_patch_of_notMem]
    · apply hpatched
    · simp only [IP_HLEN, length_singleton]
      omega
  · apply hpatched

theorem Pbuf.mem_fixLen (h : j < ip + 2 ∨ ip + 4 ≤ j ∧ j < ip + 10 ∨ ip + 12 ≤ j) :
  mem (head.fixLen ip add).payload j = mem head.payload j
  := by
  change mem (Bytes.patch (Bytes.patch head.payload (ip + 2) (word16 _)) (ip + 10) (word16 _)) j = _
  rw [mem_patch_of_notMem, mem_patch_of_notMem]
  · simp only [word16, length_cons, length_nil]
    omega
  · simp only [word16, length_cons, length_nil]
    omega

theorem Pbuf.iphLen_fixLen (h : ip + 12 ≤ head.len) :
  iphLen (mem (head.fixLen ip add).payload) ip = (iphLen (mem head.payload) ip + add) % 0x10000
  := by
  change be16 (mem (Bytes.patch (Bytes.patch head.payload (ip + 2) (word16 _)) (ip + 10) (word16 _))) (ip + 2) = _
  rw [be16_patch_of_notMem (by omega), be16_patch_self (Nat.mod_lt _ (by omega))]
  change _ < head.len
  omega

theorem Pbuf.iphChksum_fixLen (h : ip + 12 ≤ head.len) :
  iphChksum (mem (head.fixLen ip add).payload) ip =
    update (iphChksum (mem head.payload) ip) (iphLen (mem head.payload) ip)
      ((iphLen (mem head.payload) ip + add) % 0x10000)
  := by
  change be16 (mem (Bytes.patch (Bytes.patch head.payload (ip + 2) (word16 _)) (ip + 10) (word16 _)))
    (ip + 10) = _
  rw [be16_patch_self update_lt]
  rw [length_patch]
  change _ < head.len
  omega

end Pbufs

theorem DataSegment.payload_strip
    {p : RxPbuf} (hseg : DataSegment p.frame seq payOff payLen) (hp : p.Fresh)
    (hlen : p.frame.len < 0x10000) :
  (p.strip payOff).payload = p.frame.data.drop payOff ∧ (p.strip payOff).len = payLen
  := by
  have hpayload : p.payload = p.frame.data := by
    rw [hp]
    apply RxFrame.bytes_eq_data hlen
  have hplen : p.len = p.frame.len := by
    rw [Pbuf.len, hpayload, RxFrame.length_data]
  have hle : payOff ≤ p.len := by
    rw [hplen, hseg.len_eq]
    apply Nat.le_add_right
  rw [RxPbuf.strip, if_pos hle]
  constructor
  · change p.payload.drop payOff = _
    rw [hpayload]
  · change (p.removeHeader payOff).len = _
    rw [Pbuf.len_removeHeader, hplen, hseg.len_eq, Nat.add_sub_cancel_left]

namespace RunOf

variable {key : FlowKey} {head : RxPbuf} {rest : List RxPbuf} {nextSeq : UInt32} {add : ℕ}

theorem mem_head
    (h : RunOf key ip head rest nextSeq add) :
  head.len = head.frame.bytes.length ∧
    ∀ j, j < ip + 28 ∨ j = ip + 32 ∨ ip + 36 ≤ j → mem head.payload j = mem head.frame.bytes j
  := by
  induction h with
  | start hp hm =>
    rw [hp]
    exact ⟨rfl, fun _ _ => rfl⟩
  | absorb h hp hm ih =>
    constructor
    · exact (Pbuf.len_refresh ..).trans ih.1
    · intro j hj
      exact (Pbuf.mem_refresh hj).trans (ih.2 j hj)

theorem content
    (h : RunOf key ip head rest nextSeq add) (hlen : ∀ q ∈ head :: rest, q.frame.len < 0x10000) :
  ∃ seq payLen, DataSegment head.frame seq (ip + 40) payLen ∧ add = bytesIn rest ∧
    nextSeq = seq + UInt32.ofNat payLen + UInt32.ofNat add ∧
    pieces (seq + UInt32.ofNat payLen) rest = rest.map fun q => tcpPiece q.frame.data
  := by
  induction h with
  | @start p seq payLen flags hp hm =>
    refine ⟨seq, payLen, dataSegment_of_groMeta hm, rfl, ?_, rfl⟩
    simp
  | @absorb head p rest nextSeq add payOff payLen' flags h hp hm ih =>
    have hseg' := dataSegment_of_groMeta hm
    simp only [mem_cons, mem_append, not_mem_nil, or_false,
      or_imp, forall_and, forall_eq, RxPbuf.frame_refreshed, RxPbuf.frame_strip] at hlen
    obtain ⟨hhead, hrest, hlast⟩ := hlen
    obtain ⟨hpayload, hplen⟩ := hseg'.payload_strip hp hlast
    obtain ⟨seq, payLen, hseg, hadd, hnext, hpieces⟩ := ih (forall_mem_cons.mpr ⟨hhead, hrest⟩)
    have hip' : inetfrmIpOffset p.frame.mem p.frame.len + 40 = payOff := hseg'.ip_eq
    have hpiece : tcpPiece p.frame.data = ⟨nextSeq, p.frame.data.drop payOff⟩ := by
      subst hip'
      apply (headOf_data hseg').tcpPiece_eq hseg'
    refine ⟨seq, payLen, hseg, ?_, ?_, ?_⟩
    · rw [bytesIn_append, bytesIn_cons, hplen, hadd]
      rfl
    · rw [hnext, UInt32.ofNat_add, UInt32.add_assoc]
    · rw [pieces_append_singleton, hpieces, map_append, hpayload, ← hadd, ← hnext]
      simp [hpiece]

theorem chksum_fixed
    (h : RunOf key ip head rest nextSeq add) (hlen : ip + 20 ≤ head.len)
    (hv : mem head.frame.bytes ip ≠ 0) :
  inetChksum (mem (head.fixed ip add).payload) ip 20 = 0 ↔
    inetChksum (mem head.frame.bytes) ip 20 = 0
  := by
  obtain ⟨-, hmem⟩ := h.mem_head
  have hold : ∀ i, i + 2 ≤ ip + 28 → be16 (mem head.payload) i = be16 (mem head.frame.bytes) i := by
    intro i hi
    apply be16_congr
    · apply hmem
      omega
    · apply hmem
      omega
  have hword : ∀ i, i = ip ∨ ip + 4 ≤ i ∧ i + 2 ≤ ip + 10 ∨ ip + 12 ≤ i ∧ i + 2 ≤ ip + 28 →
      be16 (mem (head.fixed ip add).payload) i = be16 (mem head.frame.bytes) i := by
    intro i hi
    rw [← hold i (by omega)]
    apply be16_congr
    · apply Pbuf.mem_fixLen
      omega
    · apply Pbuf.mem_fixLen
      omega
  have hlen' : be16 (mem (head.fixed ip add).payload) (ip + 2) = _ :=
    Pbuf.iphLen_fixLen (by omega)
  have hchk' : be16 (mem (head.fixed ip add).payload) (ip + 10) = _ :=
    Pbuf.iphChksum_fixLen (by omega)
  -- The two words that change keep their sum.
  have hpair := update_add (be16_lt (mem head.payload) (ip + 10))
    (be16_lt (mem head.payload) (ip + 2))
    (Nat.mod_lt (iphLen (mem head.payload) ip + add) (by omega : 0 < 0x10000))
  have hfirst : 0 < be16 (mem head.frame.bytes) ip := by
    have hbyte : (mem head.frame.bytes ip).toNat ≠ 0 := by
      intro hzero
      apply hv
      rw [← UInt8.toNat_inj, hzero]
      rfl
    unfold be16
    omega
  rw [inetChksum_eq_zero_iff (by omega), inetChksum_eq_zero_iff (by omega)]
  rw [sumBytes_20, sumBytes_20, hword ip (by omega), hlen', hword (ip + 4) (by omega),
    hword (ip + 6) (by omega), hword (ip + 8) (by omega), hchk', hword (ip + 12) (by omega),
    hword (ip + 14) (by omega), hword (ip + 16) (by omega), hword (ip + 18) (by omega)]
  simp only [iphLen, iphChksum] at hpair ⊢
  rw [hold (ip + 2) (by omega), hold (ip + 10) (by omega)] at hpair ⊢
  omega

theorem head_segment (h : RunOf key ip head rest nextSeq add) :
  ∃ seq payLen, DataSegment head.frame seq (ip + 40) payLen
  := by
  induction h with
  | start hp hm => exact ⟨_, _, dataSegment_of_groMeta hm⟩
  | absorb h hp hm ih => apply ih

theorem segment (h : RunOf key ip head rest nextSeq add) :
  ∀ q ∈ head :: rest, ∃ seq payOff payLen, DataSegment q.frame seq payOff payLen
  := by
  induction h with
  | start hp hm =>
    simp only [mem_singleton, forall_eq]
    exact ⟨_, _, _, dataSegment_of_groMeta hm⟩
  | absorb h hp hm ih =>
    simp only [mem_cons, mem_append, not_mem_nil, or_false, or_imp, forall_and,
      forall_eq, RxPbuf.frame_refreshed, RxPbuf.frame_strip] at ih ⊢
    exact ⟨ih.1, ih.2, _, _, _, dataSegment_of_groMeta hm⟩

theorem add_eq (h : RunOf key ip head rest nextSeq add) :
  add = (rest.map fun q => q.frame.ipLen - 40).sum
  := by
  induction h with
  | start hp hm => rfl
  | @absorb head p rest nextSeq add payOff payLen flags h hp hm ih =>
    have hnew : p.frame.ipLen = payLen + 40 := (dataSegment_of_groMeta hm).iplen
    simp [← ih, hnew]

theorem add_le
    {M : ℕ} (h : RunOf key ip head rest nextSeq add) (hM : ∀ q ∈ rest, q.frame.ipLen ≤ M) :
  add ≤ rest.length * (M - 40)
  := by
  have hpay : ∀ n ∈ rest.map fun q => q.frame.ipLen - 40, n ≤ M - 40 := by
    rw [forall_mem_map]
    intro q hq
    apply Nat.sub_le_sub_right (hM q hq)
  have hsum := sum_le_card_nsmul _ _ hpay
  rwa [← h.add_eq, length_map, smul_eq_mul] at hsum

theorem head_lengths
    (h : RunOf key ip head rest nextSeq add) (hlen : head.frame.len < 0x10000)
    (hseg : DataSegment head.frame seq (ip + 40) payLen) :
  head.len = ip + 40 + payLen ∧ iphLen (mem head.payload) ip = payLen + 40
  := by
  obtain ⟨hheadlen, hmem⟩ := h.mem_head
  rw [RxFrame.bytes_eq_data hlen] at hheadlen hmem
  rw [RxFrame.length_data] at hheadlen
  have hsize := hseg.len_eq
  constructor
  · rw [hheadlen, hsize]
  · rw [← hseg.iplen, hseg.offset]
    apply be16_congr
    · rw [hmem _ (by omega), head.frame.agree_data _ (by omega)]
    · rw [hmem _ (by omega), head.frame.agree_data _ (by omega)]

theorem headOf_fixed
    (h : RunOf key ip head rest nextSeq add) (hlen : head.frame.len < 0x10000)
    (hseg : DataSegment head.frame seq (ip + 40) payLen) (hfit : payLen + 40 + add < 0x10000) :
  HeadOf head.frame ip (head.fixed ip add).payload ∧
    iphLen (mem (head.fixed ip add).payload) ip = payLen + 40 + add
  := by
  obtain ⟨-, hmem⟩ := h.mem_head
  rw [RxFrame.bytes_eq_data hlen] at hmem
  obtain ⟨hheadlen, hiplen⟩ := h.head_lengths hlen hseg
  have hsize := hseg.len_eq
  have hnew : iphLen (mem (head.fixed ip add).payload) ip = payLen + 40 + add := by
    have hmod : iphLen (mem (head.fixed ip add).payload) ip = _ := Pbuf.iphLen_fixLen (by omega)
    rw [hmod, hiplen, Nat.mod_eq_of_lt hfit]
  constructor
  · constructor
    · rw [hsize, ← hheadlen]
      apply Pbuf.len_fixLen
    · intro j hj hsame
      have hfixed : mem (head.fixed ip add).payload j = mem head.payload j := by
        apply Pbuf.mem_fixLen
        omega
      rw [hfixed, hmem j (by omega), head.frame.agree_data j hj]
    · rw [hnew]
      omega
  · apply hnew

end RunOf

/-! ### Delivered chains -/

section Packet

variable (data : List UInt8)

def packetIp : ℕ := inetfrmIpOffset (mem data) data.length

def headersLen : ℕ :=
  iphHlBytes (mem data) (packetIp data) +
    tcphHdrlenBytes (mem data) (packetIp data + iphHlBytes (mem data) (packetIp data))

def totalLen : ℕ := iphLen (mem data) (packetIp data)

def headerChksum : ℕ :=
  inetChksum (mem data) (packetIp data) (iphHlBytes (mem data) (packetIp data))

end Packet

def payloadLen (chain : List RxPbuf) : ℕ :=
  ((split chain).map fun t => t.payload.length).sum

structure WellFormed (p : RxPbuf) (rest : List RxPbuf) : Prop where
  totLens : Pbuf.TotLens ((p :: rest).map RxPbuf.toPbuf)
  iplen : rest ≠ [] ∨ headersLen p.payload ≤ totalLen p.payload →
    totalLen p.payload = headersLen p.payload + payloadLen (p :: rest)
  chksum : headerChksum p.payload = 0

theorem length_tcpPiece (data : List UInt8) :
  (tcpPiece data).payload.length =
    min (packetIp data + totalLen data) data.length - (packetIp data + headersLen data)
  := by
  rw [headersLen, ← Nat.add_assoc]
  simp only [tcpPiece, length_drop, length_take]
  rfl

theorem sum_pieces (seq : UInt32) (qs : List RxPbuf) :
  ((pieces seq qs).map fun t => t.payload.length).sum = bytesIn qs
  := by
  induction qs generalizing seq with
  | nil => rfl
  | cons q qs ih =>
    rw [pieces, map_cons, sum_cons, ih]
    rfl

theorem wellFormed_single
    {p : RxPbuf} (hp : p.Fresh) (hv : p.frame.ValidIp)
    (hip : inetfrmIpOffset p.frame.mem p.frame.len ≠ 0) :
  WellFormed p [] ∧ p.payload = p.frame.data
  := by
  have hshort := (inetfrmIpOffset_cases hip).2
  have hlen := hv.len_lt
  have hpayload : p.payload = p.frame.data := by
    rw [hp]
    apply RxFrame.bytes_eq_data hlen
  have hoff : packetIp p.payload = inetfrmIpOffset p.frame.mem p.frame.len := by
    rw [packetIp, hpayload, RxFrame.length_data, p.frame.agree_data.ipOffset]
  have hsame := p.frame.agree_data.header hshort
  have hin := hv.inside
  have hhdr := hv.header
  refine ⟨?_, hpayload⟩
  constructor
  · have htot : p.totLen = p.len := by
      rw [Pbuf.len, hpayload, RxFrame.length_data, hp]
      apply Nat.mod_eq_of_lt hlen
    exact ⟨htot, trivial⟩
  · intro hle
    have hfull := hle.resolve_left (not_not_intro rfl)
    have hiplen : totalLen p.payload = p.frame.ipLen := by
      rw [totalLen, hoff, hpayload, hsame.iplen]
      rfl
    have hdata : payloadLen [p] = (tcpPiece p.payload).payload.length := by
      simp [payloadLen, split, pieces]
    rw [hdata, length_tcpPiece, hoff, hiplen]
    rw [hiplen] at hfull
    rw [hpayload, RxFrame.length_data, Nat.min_eq_left hin, ← hpayload]
    omega
  · rw [headerChksum, hoff, hpayload, hsame.ihl, p.frame.agree_data.chksum (by omega)]
    apply hv.chksum

namespace RunOf

variable {key : FlowKey} {head : RxPbuf} {rest : List RxPbuf} {nextSeq : UInt32} {add : ℕ}

theorem fits
    (h : RunOf key ip head rest nextSeq add) (hframes : rest.length < RXGRO_MAX_FRAMES)
    (hseg : DataSegment head.frame seq (ip + 40) payLen)
    (hv : ∀ q ∈ head :: rest, q.frame.ValidIp) :
  ip + 40 + payLen + add < 0x10000
  := by
  have hlong : ∀ q ∈ head :: rest, q.frame.ipLen ≤ 1520 := by
    intro q hq
    obtain ⟨_, _, _, hdata⟩ := h.segment q hq
    have hihl := hdata.headers.ihl
    have hin := (hv q hq).inside
    have hshort := (hv q hq).short
    omega
  have hadd := h.add_le fun q hq => hlong q (mem_cons_of_mem _ hq)
  have hmul : rest.length * (1520 - 40) ≤ 43 * (1520 - 40) := by
    apply Nat.mul_le_mul_right
    apply Nat.le_of_lt_succ hframes
  have hhead : payLen + 40 ≤ 1520 := hseg.iplen ▸ hlong head mem_cons_self
  have hcases := hseg.ip_cases
  omega

theorem packet_fixed
    (h : RunOf key ip head rest nextSeq add) (hlen : head.frame.len < 0x10000)
    (hseg : DataSegment head.frame seq (ip + 40) payLen) (hfit : payLen + 40 + add < 0x10000) :
  packetIp (head.fixed ip add).payload = ip ∧ headersLen (head.fixed ip add).payload = 40 ∧
    totalLen (head.fixed ip add).payload = payLen + 40 + add ∧
      tcpPiece (head.fixed ip add).payload = tcpPiece head.frame.data
  := by
  obtain ⟨hhead, hiplen⟩ := h.headOf_fixed hlen hseg hfit
  obtain ⟨hip, hihl, hhdrlen⟩ := hhead.headers hseg
  have hoff : packetIp (head.fixed ip add).payload = ip := hip
  refine ⟨hoff, ?_, ?_, ?_⟩
  · rw [headersLen, hoff, hihl, hhdrlen]
  · rw [totalLen, hoff, hiplen]
  · rw [hhead.tcpPiece_eq hseg, (headOf_data hseg).tcpPiece_eq hseg]

theorem headerChksum_fixed
    (h : RunOf key ip head rest nextSeq add) (hv : head.frame.ValidIp)
    (hseg : DataSegment head.frame seq (ip + 40) payLen) (hfit : payLen + 40 + add < 0x10000) :
  headerChksum (head.fixed ip add).payload = 0
  := by
  have hlen := hv.len_lt
  have hsize := hseg.len_eq
  have hip := hseg.offset
  obtain ⟨hhead, -⟩ := h.headOf_fixed hlen hseg hfit
  obtain ⟨hoff, hihl, -⟩ := hhead.headers hseg
  have hfirst : mem head.frame.bytes ip ≠ 0 := by
    intro hzero
    have hversion := hv.version
    rw [RxFrame.bytes_eq_data hlen, head.frame.agree_data ip (by omega)] at hzero
    rw [hip, iphV, hzero] at hversion
    contradiction
  have hheadlen := (h.head_lengths hlen hseg).1
  have hchksum := hv.chksum
  rw [hseg.headers.ihl, hip] at hchksum
  rw [headerChksum, packetIp, hoff, hihl, h.chksum_fixed (by omega) hfirst,
    RxFrame.bytes_eq_data hlen, head.frame.agree_data.chksum (by omega), hchksum]

theorem wellFormed_merged
    (h : RunOf key ip head rest nextSeq add) (hframes : rest.length < RXGRO_MAX_FRAMES)
    (hv : ∀ q ∈ head :: rest, q.frame.ValidIp) :
  (∀ p rest', setTotLens (head.len + add) (head.fixed ip add :: rest) = p :: rest' →
    WellFormed p rest') ∧
    split (setTotLens (head.len + add) (head.fixed ip add :: rest)) =
      (setTotLens (head.len + add) (head.fixed ip add :: rest)).map fun q => tcpPiece q.frame.data
  := by
  obtain ⟨seq, payLen, hseg, hadd, -, hpieces⟩ := h.content fun q hq => (hv q hq).len_lt
  have hlen := (hv head mem_cons_self).len_lt
  have hfits := h.fits hframes hseg hv
  have hsize := hseg.len_eq
  obtain ⟨-, hheaders, htotal, hpiece⟩ := h.packet_fixed hlen hseg (by omega)
  have hfirst : tcpPiece head.frame.data = ⟨seq, head.frame.data.drop (ip + 40)⟩ :=
    (headOf_data hseg).tcpPiece_eq hseg
  have hpaylen : (tcpPiece head.frame.data).payload.length = payLen := by
    rw [hfirst, length_drop, RxFrame.length_data]
    omega
  have hbytes : head.len + add = bytesIn (head.fixed ip add :: rest) := by
    rw [bytesIn_cons, ← hadd]
    congr 1
    symm
    apply Pbuf.len_fixLen
  have hheadlen := (h.head_lengths hlen hseg).1
  constructor
  · rintro p rest' ⟨⟩
    constructor
    · have htot : Pbuf.TotLens ((setTotLens (bytesIn (head.fixed ip add :: rest))
          (head.fixed ip add :: rest)).map RxPbuf.toPbuf) := by
        apply totLens_setTotLens
        rw [← hbytes, hheadlen]
        omega
      rw [← hbytes] at htot
      exact htot
    · intro _
      change totalLen (head.fixed ip add).payload = headersLen (head.fixed ip add).payload +
        payloadLen (setTotLens (head.len + add) (head.fixed ip add :: rest))
      rw [payloadLen, split_setTotLens, split, map_cons, sum_cons, sum_pieces, hpiece,
        hpaylen, ← hadd, htotal, hheaders]
      omega
    · exact h.headerChksum_fixed (hv head mem_cons_self) hseg (by omega)
  · rw [split_setTotLens, map_frame_setTotLens (fun f => tcpPiece f.data), split, map_cons,
      ← hpieces, RxPbuf.frame_fixed, hpiece, hpaylen, hfirst]

end RunOf
