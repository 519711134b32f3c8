import LwipAmiga.Resolver.Names

/-!
# Queries for the name of an address

The name that `sb_rdns_build` writes is read back by both decoders of names.
-/

open List Bytes

def ascii (s : String) : List UInt8 :=
  s.toList.map fun c => UInt8.ofNat c.toNat

/-- Labels, each with its length in front. -/
def wire (labels : List (List UInt8)) : List UInt8 :=
  labels.flatMap fun l => UInt8.ofNat l.length :: l

/-- The labels of the name of an address, which is in network order. -/
def queryLabels (addr : UInt32) : List (List UInt8) :=
  [ascii (toString (addr.toNat % 0x100)), ascii (toString (addr.toNat / 0x100 % 0x100)),
    ascii (toString (addr.toNat / 0x10000 % 0x100)), ascii (toString (addr.toNat / 0x1000000 % 0x100)),
    ascii "in-addr", ascii "arpa"]

variable {max left n pos outmax : ℕ} {buf post l pkt out out' : List UInt8}
  {labels : List (List UInt8)}

/-! ### The encoder -/

theorem decimalDigits_eq (n : ℕ) :
  decimalDigits n = ascii (toString n)
  := by
  have hdigits (n : ℕ) : ascii (toString n) =
      (Nat.toDigits 10 n).map fun c => UInt8.ofNat c.toNat := by
    simp [ascii, toString, Nat.repr]
  have hchar : ∀ n < 10, UInt8.ofNat n.digitChar.toNat = UInt8.ofNat (48 + n) := by decide
  rw [hdigits]
  induction n using Nat.strongRecOn with
  | _ n ih =>
    rw [decimalDigits]
    split
    next hlt => rw [Nat.toDigits_of_lt_base hlt, map_singleton, hchar n hlt]
    next hle =>
      rw [Nat.toDigits_of_base_le (by decide) (not_lt.mp hle), map_append, map_singleton,
        hchar _ (Nat.mod_lt _ (by decide)), ih _ (Nat.div_lt_self (by omega) (by decide))]

theorem length_wire_cons (l : List UInt8) (labels : List (List UInt8)) :
  (wire (l :: labels)).length = 1 + l.length + (wire labels).length
  := by
  rw [wire, flatMap_cons, length_append, length_cons, Nat.add_comm 1]
  rfl

theorem foldlM_putLabel (hbuf : buf.length ≤ max) :
  labels.foldlM (fun buf l => putLabel max l buf) buf =
    if buf.length + (wire labels).length ≤ max then some (buf ++ wire labels) else none
  := by
  induction labels generalizing buf with
  | nil => simp [wire, hbuf]
  | cons l labels ih =>
    have hwire : wire (l :: labels) = UInt8.ofNat l.length :: l ++ wire labels := rfl
    have hlen := length_wire_cons l labels
    rw [foldlM_cons, putLabel]
    split
    next hlong =>
      rw [if_neg (by omega)]
      rfl
    next hfits =>
      have hnext : (buf ++ UInt8.ofNat l.length :: l).length = buf.length + 1 + l.length := by
        rw [length_append, length_cons]
        omega
      apply (ih (by omega)).trans
      rw [hnext, hlen, hwire, append_assoc, Nat.add_assoc, Nat.add_assoc, Nat.add_assoc]

/-- What stands in front of the name of a query. -/
def queryHeader (id : UInt16) : List UInt8 :=
  word16 id.toNat ++ [0x01, 0x00, 0x00, 0x01, 0, 0, 0, 0, 0, 0]

theorem sbRdnsBuild_eq (max : ℕ) (addr : UInt32) (id : UInt16) :
  sbRdnsBuild max addr id =
    if 17 + (wire (queryLabels addr)).length ≤ max then
      some (queryHeader id ++ (wire (queryLabels addr) ++ 0 :: [0, 12, 0, 1]))
    else none
  := by
  by_cases hmax : max < 12
  · rw [sbRdnsBuild, if_pos hmax, if_neg (by omega)]
    rfl
  · have hchain : sbRdnsBuild max addr id =
        ((queryLabels addr).foldlM (fun buf l => putLabel max l buf) (queryHeader id)).bind fun buf =>
          if buf.length + 5 > max then none
          else some (buf ++ 0 :: word16 SB_DNS_TYPE_PTR ++ word16 SB_DNS_CLASS_IN) := by
      rw [sbRdnsBuild, if_neg hmax]
      simp only [sbDnsPutOctet, sbDnsPutLabel, decimalDigits_eq, queryLabels, foldlM_cons, foldlM_nil,
        Option.bind_eq_bind, Option.bind_assoc, Option.pure_def, Option.bind_some]
      rfl
    have hlen : (queryHeader id).length = 12 := rfl
    rw [hchain, foldlM_putLabel (by omega), hlen]
    split
    next hfits =>
      rw [Option.bind_some, length_append, hlen, append_assoc, append_assoc]
      split
      next => rw [if_neg (by omega)]
      next =>
        rw [if_pos (by omega)]
        rfl
    next hlong =>
      rw [if_neg (by omega)]
      rfl

/-! ### The decoders -/

def IsLabel (l : List UInt8) : Prop :=
  0 < l.length ∧ l.length ≤ 63

theorem isLabel_ascii (hn : n < 256) :
  IsLabel (ascii (toString n))
  := by
  have hlen : (ascii (toString n)).length = (Nat.toDigits 10 n).length := by
    simp [ascii, toString, Nat.repr]
  rw [IsLabel, hlen]
  constructor
  · exact Nat.length_toDigits_pos
  · exact (Nat.length_toDigits_le_iff (by decide) (by decide)).mpr (hn.trans (by decide))

/-- The byte in front of a label. -/
theorem mem_wire (pre post : List UInt8) (labels : List (List UInt8)) (hl : IsLabel l) :
  (mem (pre ++ (wire (l :: labels) ++ 0 :: post)) pre.length).toNat = l.length ∧
    mem (pre ++ (wire (l :: labels) ++ 0 :: post)) pre.length ≠ 0 ∧
    isPointer (mem (pre ++ (wire (l :: labels) ++ 0 :: post)) pre.length) = false
  := by
  obtain ⟨hpos, hle⟩ := hl
  have hmem : mem (pre ++ (wire (l :: labels) ++ 0 :: post)) pre.length = UInt8.ofNat l.length :=
    mem_append_add pre _ 0
  have hsmall : ∀ n ≤ 63, isPointer (UInt8.ofNat n) = false := by decide
  have hlen : (UInt8.ofNat l.length).toNat = l.length := UInt8.toNat_ofNat_of_lt' (hle.trans_lt (by decide))
  rw [hmem]
  refine ⟨hlen, ?_, hsmall _ hle⟩
  intro hzero
  rw [hzero] at hlen
  exact absurd hlen.symm hpos.ne'

theorem wire_cons (pre post l : List UInt8) (labels : List (List UInt8)) :
  pre ++ (wire (l :: labels) ++ 0 :: post) =
    (pre ++ UInt8.ofNat l.length :: l) ++ (wire labels ++ 0 :: post)
  := by
  simp [wire]

theorem nameAt_wire (pre : List UInt8)
    (hlabels : ∀ l ∈ labels, IsLabel l) (hleft : labels.length ≤ left) :
  NameAt (pre ++ (wire labels ++ 0 :: post)) left pre.length labels
  := by
  induction labels generalizing pre left with
  | nil =>
    apply NameAt.root
    · simp [wire]
    · exact mem_append_add pre _ 0
  | cons l labels ih =>
    obtain ⟨hl, hlabels⟩ := forall_mem_cons.mp hlabels
    obtain ⟨left, rfl⟩ := Nat.exists_eq_succ_of_ne_zero (Nat.ne_zero_of_lt hleft)
    obtain ⟨hlen, hzero, hpointer⟩ := mem_wire pre post labels hl
    have hrest := ih (pre ++ UInt8.ofNat l.length :: l) hlabels (Nat.le_of_succ_le_succ hleft)
    rw [← wire_cons, length_append, length_cons, Nat.add_comm l.length, ← Nat.add_assoc, ← hlen] at hrest
    have hslice : slice (pre ++ (wire (l :: labels) ++ 0 :: post)) (pre.length + 1)
        (mem (pre ++ (wire (l :: labels) ++ 0 :: post)) pre.length).toNat = l := by
      rw [hlen, slice]
      simp [wire]
    have hinside : pre.length + 1 + l.length ≤ (pre ++ (wire (l :: labels) ++ 0 :: post)).length := by
      rw [length_append, length_append, length_wire_cons]
      omega
    have hname := NameAt.label hpointer hzero (hlen ▸ hl.2) (hlen ▸ hinside) hrest
    rwa [hslice] at hname

theorem sbDnsSkipName_wire (pre : List UInt8) (hlabels : ∀ l ∈ labels, IsLabel l) :
  sbDnsSkipName (pre ++ (wire labels ++ 0 :: post)) pre.length =
    some (pre.length + (wire labels).length + 1)
  := by
  induction labels generalizing pre with
  | nil =>
    have hzero : mem (pre ++ (wire [] ++ 0 :: post)) pre.length = 0 := mem_append_add pre _ 0
    rw [sbDnsSkipName, if_pos (by simp [wire]), hzero]
    rfl
  | cons l labels ih =>
    obtain ⟨hl, hlabels⟩ := forall_mem_cons.mp hlabels
    obtain ⟨hlen, hzero, hpointer⟩ := mem_wire pre post labels hl
    have hrest := ih (pre ++ UInt8.ofNat l.length :: l) hlabels
    rw [← wire_cons, length_append, length_cons] at hrest
    rw [sbDnsSkipName, if_pos (by simp [wire])]
    dsimp only
    rw [hpointer, if_neg Bool.false_ne_true, if_neg hzero, hlen, Nat.add_comm 1, hrest,
      length_wire_cons]
    congr 1
    omega

theorem isLabel_queryLabels (addr : UInt32) :
  ∀ l ∈ queryLabels addr, IsLabel l
  := by
  have hoctet (n : ℕ) := isLabel_ascii (Nat.mod_lt n (by decide : 0 < 0x100))
  simp only [queryLabels, forall_mem_cons]
  exact ⟨hoctet _, hoctet _, hoctet _, hoctet _, ⟨by decide, by decide⟩, ⟨by decide, by decide⟩,
    forall_mem_nil _⟩

/-- A query is built just when it fits.  Then it lies within the buffer, the decoder reads the name of
the address from it, and only the four bytes of its type and class stand behind the name. -/
theorem query_round_trip (max : ℕ) (addr : UInt32) (id : UInt16) :
  (sbRdnsBuild max addr id = none ↔ max < 17 + (wire (queryLabels addr)).length) ∧
    ∀ pkt ∈ sbRdnsBuild max addr id, pkt.length ≤ max ∧
      sbDnsSkipName pkt 12 = some (pkt.length - 4) ∧
      ∀ outmax, (dotted (queryLabels addr)).length < outmax →
        sbDnsName pkt 12 outmax = some (dotted (queryLabels addr))
  := by
  have hlabels := isLabel_queryLabels addr
  have hlen : (queryHeader id).length = 12 := rfl
  rw [sbRdnsBuild_eq]
  constructor
  · rw [ite_eq_right_iff]
    constructor
    · intro hnone
      by_contra hfits
      cases hnone (not_lt.mp hfits)
    · intro hlong hfits
      omega
  · intro pkt hpkt
    obtain ⟨hfits, hpkt⟩ := Option.ite_none_right_eq_some.mp hpkt
    obtain rfl := Option.some.inj hpkt
    refine ⟨?_, ?_, ?_⟩
    · simp only [length_append, length_cons, length_nil, hlen]
      omega
    · apply (sbDnsSkipName_wire (queryHeader id) hlabels).trans
      simp only [length_append, length_cons, length_nil, hlen]
      congr 1
    · intro outmax hout
      have hname : NameAt (queryHeader id ++ (wire (queryLabels addr) ++ 0 :: [0, 12, 0, 1])) 128 12
          (queryLabels addr) :=
        nameAt_wire (queryHeader id) hlabels (show 6 ≤ 128 by decide)
      have hne := dotted_ne_nil hname (cons_ne_nil _ _)
      rw [sbDnsName, loop_of_nameAt hname hout]
      change (if outmax = 0 ∨ (dotted (queryLabels addr)).length = 0 then none else _) = _
      rw [if_neg (by omega)]
      rfl

/-! ### The output of the parser -/

theorem length_putName (hout : out.length < outmax) (bytes : List UInt8) :
  (putName outmax out bytes).length < outmax
  := by
  rw [putName, length_append, length_take]
  omega

theorem length_of_loop (h : sbDnsName.loop pkt outmax left pos out = some out') (hout : out.length < outmax) :
  out'.length < outmax
  := by
  induction left generalizing pos out with
  | zero =>
    unfold sbDnsName.loop at h
    dsimp only at h
    split_ifs at h <;> first | contradiction | exact Option.some.inj h ▸ hout
  | succ left ih =>
    unfold sbDnsName.loop at h
    dsimp only at h
    split_ifs at h
    · apply ih h hout
    · exact Option.some.inj h ▸ hout
    · apply ih h
      apply length_putName
      apply length_putName hout
    · apply ih h
      apply length_putName hout
    · exact Option.some.inj h ▸ hout

theorem length_of_findPtr {an : ℕ} (h : findPtr pkt outmax an pos = some out) :
  0 < out.length ∧ out.length < outmax
  := by
  induction an generalizing pos with
  | zero => contradiction
  | succ an ih =>
    obtain ⟨pos, -, h⟩ := Option.bind_eq_some_iff.mp h
    dsimp only at h
    split_ifs at h
    · obtain ⟨out', hloop, h⟩ := Option.bind_eq_some_iff.mp h
      obtain ⟨hne, h⟩ := Option.ite_none_left_eq_some.mp h
      obtain rfl := Option.some.inj h
      rw [not_or] at hne
      exact ⟨Nat.pos_of_ne_zero hne.2, length_of_loop hloop (Nat.pos_of_ne_zero hne.1)⟩
    · apply ih h

/-- Whatever a packet says, the name it yields is not empty and fits in the output with its
terminator. -/
theorem parsed_name_fits {id : UInt16} (h : sbRdnsParse pkt id outmax = some out) :
  0 < out.length ∧ out.length < outmax
  := by
  unfold sbRdnsParse at h
  split_ifs at h
  obtain ⟨pos, -, h⟩ := Option.bind_eq_some_iff.mp h
  apply length_of_findPtr h

/-- A response with one answer, the name `a`. -/
def shortAnswer : List UInt8 :=
  [0, 7, 0x81, 0x80, 0, 0, 0, 1, 0, 0, 0, 0] ++ [0, 0, 12, 0, 1, 0, 0, 0, 60, 0, 3, 1, 97, 0]

theorem parsed_name_fits_shortAnswer :
  sbRdnsParse shortAnswer 7 2 = some [97] ∧ [(97 : UInt8)].length < 2
  := by
  have hparse : sbRdnsParse shortAnswer 7 2 = some [97] := by decide +kernel
  exact ⟨hparse, (parsed_name_fits hparse).2⟩
