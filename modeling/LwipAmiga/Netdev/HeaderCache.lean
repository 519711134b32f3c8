import LwipAmiga.Lib.Transition
import LwipAmiga.Netdev.Offload

/-!
# The L2 header cache

`ndif_ip4_output` prepends a cached Ethernet header to a packet, or lets lwIP build one, which
`ndif_linkoutput` then snoops.
-/

open Bytes

def NDIF_HH_REVALIDATE : ℕ := 64

abbrev NDIF_HH_ENTRIES : ℕ := 4

/-! ### Frames of lwIP -/

structure L2Header where
  dst : Vector UInt8 6
  src : Vector UInt8 6
  tci : Option UInt16
deriving DecidableEq

def L2Header.tag (h : L2Header) : List UInt8 :=
  match h.tci with
  | none => [0x08, 0x00]
  | some tci => [0x81, 0x00] ++ word16 tci.toNat ++ [0x08, 0x00]

def L2Header.bytes (h : L2Header) : List UInt8 :=
  h.dst.toList ++ h.src.toList ++ h.tag

theorem L2Header.length_bytes (h : L2Header) :
  h.bytes.length = 12 + h.tag.length
  := by
  simp [bytes, ← add_assoc]

theorem L2Header.mem_bytes (h : L2Header) (l : List UInt8) (i : ℕ) :
  mem (h.bytes ++ l) (12 + i) = mem (h.tag ++ l) i
  := by
  have hlen : (h.dst.toList ++ h.src.toList).length = 12 := by simp
  rw [bytes, List.append_assoc, ← hlen, mem_append_add]

theorem L2Header.inetfrmIpOffset_bytes (h : L2Header) (l : List UInt8) :
  inetfrmIpOffset (mem (h.bytes ++ l)) (h.bytes ++ l).length =
    if IP_HLEN ≤ l.length then h.bytes.length else 0
  := by
  have hlen := h.length_bytes
  rw [List.length_append]
  cases htci : h.tci with
  | none =>
    have htag : h.tag = [0x08, 0x00] := by rw [tag, htci]
    have h12 : mem (h.bytes ++ l) 12 = 0x08 := (h.mem_bytes l 0).trans (by rw [htag]; rfl)
    have h13 : mem (h.bytes ++ l) 13 = 0x00 := (h.mem_bytes l 1).trans (by rw [htag]; rfl)
    have htype : be16 (mem (h.bytes ++ l)) 12 = ETHTYPE_IP := by
      rw [be16, h12, h13]
      decide
    have hlen14 : h.bytes.length = 14 := by rw [hlen, htag]; rfl
    rw [inetfrmIpOffset, htype, if_pos rfl, hlen14]
    by_cases hl : IP_HLEN ≤ l.length
    · rw [if_pos hl, if_neg (by simp only [SIZEOF_ETH_HDR]; omega)]
      rfl
    · rw [if_neg hl, if_pos (by simp only [SIZEOF_ETH_HDR]; omega)]
  | some tci =>
    have htag : h.tag = [0x81, 0x00] ++ word16 tci.toNat ++ [0x08, 0x00] := by rw [tag, htci]
    have h12 : mem (h.bytes ++ l) 12 = 0x81 := (h.mem_bytes l 0).trans (by rw [htag]; rfl)
    have h13 : mem (h.bytes ++ l) 13 = 0x00 := (h.mem_bytes l 1).trans (by rw [htag]; rfl)
    have h16 : mem (h.bytes ++ l) 16 = 0x08 := (h.mem_bytes l 4).trans (by rw [htag]; rfl)
    have h17 : mem (h.bytes ++ l) 17 = 0x00 := (h.mem_bytes l 5).trans (by rw [htag]; rfl)
    have htype : be16 (mem (h.bytes ++ l)) 12 = ETHTYPE_VLAN := by
      rw [be16, h12, h13]
      decide
    have htpid : be16 (mem (h.bytes ++ l)) 16 = ETHTYPE_IP := by
      rw [be16, h16, h17]
      decide
    have hne : ETHTYPE_VLAN ≠ ETHTYPE_IP := by decide
    have hlen18 : h.bytes.length = 18 := by rw [hlen, htag]; rfl
    rw [inetfrmIpOffset, htype, if_neg hne, if_pos rfl, htpid, if_pos rfl, hlen18]
    by_cases hl : IP_HLEN ≤ l.length
    · rw [if_pos hl, if_neg (by simp only [SIZEOF_ETH_HDR]; omega),
        if_neg (by simp only [SIZEOF_ETH_HDR, SIZEOF_VLAN_HDR]; omega)]
      rfl
    · rw [if_neg hl]
      split
      · rfl
      · rw [if_pos (by simp only [SIZEOF_ETH_HDR, SIZEOF_VLAN_HDR]; omega)]

theorem L2Header.bytes_ne_nil (h : L2Header) :
  h.bytes.length ≠ 0
  := by
  rw [h.length_bytes]
  omega

/-- `pbuf_add_header`, and the header that is written there. -/
def TxFrame.addHeader (p : TxFrame) (hdr : List UInt8) : TxFrame :=
  { p with first := hdr ++ p.first }

structure IpPacket where
  dest : UInt32
  chain : TxFrame
  header : IP_HLEN ≤ chain.first.length → iphDest (mem chain.first) 0 = dest

def IpPacket.frame (arp : UInt32 → L2Header) (p : IpPacket) : TxFrame :=
  p.chain.addHeader (arp p.dest).bytes

inductive EthOutput where
  | ip (p : IpPacket)
  | other (f : TxFrame) (h : inetfrmIpOffset (mem f.first) f.first.length = 0)

def EthOutput.frame (arp : UInt32 → L2Header) : EthOutput → TxFrame
  | .ip p => p.frame arp
  | .other f _ => f

/-! ### The cache -/

structure NdHhEntry where
  dstIp : UInt32
  left : ℕ
  hdr : List UInt8
  unchanged : Bool

structure NdHh where
  entry : Fin NDIF_HH_ENTRIES → NdHhEntry
  primeDst : UInt32

def hhSlot (dst : UInt32) : Fin NDIF_HH_ENTRIES :=
  Fin.ofNat NDIF_HH_ENTRIES (dst &&& 3).toNat

namespace NdHh

def ndifHhPrime (c : NdHh) (frame : List UInt8) : NdHh :=
  let l3 := inetfrmIpOffset (mem frame) frame.length
  let dst := iphDest (mem frame) l3
  if l3 = 0 then c
  else if dst ≠ c.primeDst then c
  else
    { entry := Function.update c.entry (hhSlot dst)
        ⟨dst, NDIF_HH_REVALIDATE, frame.take l3, true⟩
      primeDst := 0 }

def snoop (c : NdHh) (f : TxFrame) : NdHh :=
  if c.primeDst ≠ 0 then c.ndifHhPrime f.first else c

def netdevifHhInvalidate (c : NdHh) : NdHh where
  entry i := { c.entry i with dstIp := 0, left := 0 }
  primeDst := 0

def hit (c : NdHh) (p : IpPacket) (room : Bool) : Prop :=
  (c.entry (hhSlot p.dest)).dstIp = p.dest ∧ (c.entry (hhSlot p.dest)).left ≠ 0 ∧ room = true

instance (c : NdHh) (p : IpPacket) (room : Bool) : Decidable (c.hit p room) :=
  inferInstanceAs (Decidable (_ ∧ _ ∧ _))

def use (c : NdHh) (i : Fin NDIF_HH_ENTRIES) : NdHh :=
  { c with entry := Function.update c.entry i { c.entry i with left := (c.entry i).left - 1 } }

/-- `ndif_ip4_output`, with the frames it passes to `ndif_linkoutput`.  On the slow path they are those of
`etharp_output`. -/
def ndifIp4Output (arp : UInt32 → L2Header) (c : NdHh) (p : IpPacket) (room : Bool)
    (slow : List EthOutput) : NdHh × List TxFrame :=
  if c.hit p room then
    let frame := p.chain.addHeader (c.entry (hhSlot p.dest)).hdr
    ((c.use (hhSlot p.dest)).snoop frame, [frame])
  else
    let frames := slow.map (EthOutput.frame arp)
    ({ frames.foldl snoop { c with primeDst := p.dest } with primeDst := 0 }, frames)

end NdHh

/-! ### Runs -/

structure HhRun where
  cache : NdHh
  arp : UInt32 → L2Header
  stale : UInt32 → ℕ

namespace HhRun

inductive Label where
  | output (p : IpPacket) (room : Bool) (slow : List EthOutput)
  | linkoutput (f : TxFrame)
  | remap (arp : UInt32 → L2Header)
  | invalidate

def Outdated (s : HhRun) (dst : UInt32) : Prop :=
  (s.cache.entry (hhSlot dst)).hdr ≠ (s.arp dst).bytes

instance (s : HhRun) (dst : UInt32) : Decidable (s.Outdated dst) :=
  inferInstanceAs (Decidable (_ ≠ _))

def next (s : HhRun) : Label → Option HhRun
  | .output p room slow =>
      some
        { s with
          cache := (s.cache.ndifIp4Output s.arp p room slow).1
          stale :=
            if s.cache.hit p room ∧ s.Outdated p.dest then
              Function.update s.stale p.dest (s.stale p.dest + 1)
            else s.stale }
  | .linkoutput f => some { s with cache := s.cache.snoop f }
  | .remap arp =>
      some
        { cache :=
            { s.cache with
              entry := fun i =>
                { s.cache.entry i with
                  unchanged := (s.cache.entry i).unchanged &&
                    decide (arp (s.cache.entry i).dstIp = s.arp (s.cache.entry i).dstIp) } }
          arp := arp
          stale := fun dst => if arp dst = s.arp dst then s.stale dst else 0 }
  | .invalidate => some { s with cache := s.cache.netdevifHhInvalidate }

def system : TransitionSystem HhRun Label where
  init s := (∀ i, (s.cache.entry i).left = 0) ∧ s.cache.primeDst = 0 ∧ ∀ dst, s.stale dst = 0
  next := next

/-! ### Priming -/

end HhRun

namespace NdHh

variable {arp : UInt32 → L2Header} {c : NdHh}

def primed (arp : UInt32 → L2Header) (c : NdHh) (dst : UInt32) : NdHh where
  entry := Function.update c.entry (hhSlot dst) ⟨dst, NDIF_HH_REVALIDATE, (arp dst).bytes, true⟩
  primeDst := 0

theorem snoop_of_zero (hprime : c.primeDst = 0) (f : TxFrame) :
  c.snoop f = c
  := by
  rw [snoop, if_neg (not_not.mpr hprime)]

variable (arp c) in
theorem snoop_frame (f : EthOutput) :
  c.snoop (f.frame arp) = c ∨ c.snoop (f.frame arp) = c.primed arp c.primeDst
  := by
  by_cases hprime : c.primeDst = 0
  · exact .inl (snoop_of_zero hprime _)
  rw [snoop, if_pos hprime]
  cases f with
  | other f hnot =>
    left
    simp only [EthOutput.frame, ndifHhPrime, hnot, if_true]
  | ip p =>
    have hl3 := (arp p.dest).inetfrmIpOffset_bytes p.chain.first
    simp only [EthOutput.frame, IpPacket.frame, TxFrame.addHeader, ndifHhPrime, hl3]
    by_cases hfirst : IP_HLEN ≤ p.chain.first.length
    · -- The header is contiguous, and the destination is read from it.
      have hdest : iphDest (mem ((arp p.dest).bytes ++ p.chain.first)) (arp p.dest).bytes.length =
          p.dest := by
        rw [← p.header hfirst, iphDest, iphDest, be32_mem_append, Nat.zero_add]
      rw [if_pos hfirst, hdest, if_neg (arp p.dest).bytes_ne_nil]
      split
      · exact .inl rfl
      · rename_i heq
        right
        rw [← not_not.mp heq, primed, List.take_left]
    · left
      rw [if_neg hfirst, if_pos rfl]

variable (arp) in
theorem foldl_snoop (slow : List EthOutput) (c : NdHh) :
  (slow.map (EthOutput.frame arp)).foldl snoop c = c ∨
    (slow.map (EthOutput.frame arp)).foldl snoop c = c.primed arp c.primeDst
  := by
  induction slow with
  | nil => exact .inl rfl
  | cons f slow ih =>
    rw [List.map_cons, List.foldl_cons]
    obtain hsame | hprimed := snoop_frame arp c f
    · rw [hsame]
      apply ih
    · right
      rw [hprimed]
      -- Once it is primed nothing else is.
      have hzero : ∀ frames : List TxFrame,
          frames.foldl snoop (c.primed arp c.primeDst) = c.primed arp c.primeDst := by
        intro frames
        induction frames with
        | nil => rfl
        | cons f frames ih => rw [List.foldl_cons, snoop_of_zero rfl, ih]
      apply hzero

variable (arp) in
theorem ndifIp4Output_cases
    (hprime : c.primeDst = 0) (p : IpPacket) (room : Bool) (slow : List EthOutput) :
  (c.hit p room ∧ (c.ndifIp4Output arp p room slow).1 = c.use (hhSlot p.dest)) ∨
    ¬ c.hit p room ∧ ((c.ndifIp4Output arp p room slow).1 = c ∨
      (c.ndifIp4Output arp p room slow).1 = c.primed arp p.dest)
  := by
  by_cases hhit : c.hit p room
  · left
    use hhit
    rw [ndifIp4Output, if_pos hhit]
    exact snoop_of_zero (c := c.use (hhSlot p.dest)) hprime _
  · right
    use hhit
    rw [ndifIp4Output, if_neg hhit]
    obtain hsame | hprimed := foldl_snoop arp slow { c with primeDst := p.dest }
    · left
      dsimp only
      rw [hsame, ← hprime]
    · right
      dsimp only
      rw [hprimed]
      rfl

end NdHh

namespace HhRun

variable {s s' : HhRun}

/-! ### The invariant -/

def outdatedLeft (e : NdHhEntry) (dst : UInt32) (h : L2Header) : ℕ :=
  if e.dstIp = dst ∧ e.hdr ≠ h.bytes then e.left else 0

theorem outdatedLeft_le (e : NdHhEntry) (dst : UInt32) (h : L2Header) :
  outdatedLeft e dst h ≤ e.left
  := by
  unfold outdatedLeft
  split
  · rfl
  · apply Nat.zero_le

structure Inv (s : HhRun) : Prop where
  primeDst : s.cache.primeDst = 0
  left : ∀ i, (s.cache.entry i).left ≤ NDIF_HH_REVALIDATE
  current : ∀ i, (s.cache.entry i).left ≠ 0 → (s.cache.entry i).unchanged = true →
    (s.cache.entry i).hdr = (s.arp (s.cache.entry i).dstIp).bytes
  stale : ∀ dst, s.stale dst + outdatedLeft (s.cache.entry (hhSlot dst)) dst (s.arp dst) ≤
    NDIF_HH_REVALIDATE

theorem inv_init (h : system.init s) :
  s.Inv
  := by
  obtain ⟨hleft, hprime, hstale⟩ := h
  constructor
  · apply hprime
  · intro i
    rw [hleft]
    apply Nat.zero_le
  · intro i hne
    exact absurd (hleft i) hne
  · intro dst
    have hle := outdatedLeft_le (s.cache.entry (hhSlot dst)) dst (s.arp dst)
    rw [hleft] at hle
    rw [hstale]
    omega

theorem Inv.primed (h : s.Inv) (dst : UInt32) :
  Inv { s with cache := s.cache.primed s.arp dst }
  := by
  have hself : (s.cache.primed s.arp dst).entry (hhSlot dst) =
      ⟨dst, NDIF_HH_REVALIDATE, (s.arp dst).bytes, true⟩ := Function.update_self ..
  have hother : ∀ i, i ≠ hhSlot dst → (s.cache.primed s.arp dst).entry i = s.cache.entry i :=
    fun i hi => Function.update_of_ne hi ..
  constructor
  · rfl
  · intro i
    by_cases hi : i = hhSlot dst
    · simp only [hi, hself, le_refl]
    · simp only [hother i hi, h.left i]
  · intro i
    by_cases hi : i = hhSlot dst
    · simp only [hi, hself, implies_true]
    · simp only [hother i hi]
      exact h.current i
  · intro d
    have hold := h.stale d
    dsimp only
    by_cases hd : hhSlot d = hhSlot dst
    · -- The entry is that of another destination, or has the header of the mapping.
      rw [hd, hself, outdatedLeft, if_neg]
      · omega
      · rintro ⟨rfl, hne⟩
        exact hne rfl
    · rw [hother _ hd]
      exact hold

theorem Inv.use {p : IpPacket} {room : Bool} (h : s.Inv) (hhit : s.cache.hit p room) :
  Inv
    { s with
      cache := s.cache.use (hhSlot p.dest)
      stale :=
        if s.Outdated p.dest then Function.update s.stale p.dest (s.stale p.dest + 1)
        else s.stale }
  := by
  obtain ⟨hdst, hleft, -⟩ := hhit
  have hself : (s.cache.use (hhSlot p.dest)).entry (hhSlot p.dest) =
      { s.cache.entry (hhSlot p.dest) with left := (s.cache.entry (hhSlot p.dest)).left - 1 } :=
    Function.update_self ..
  have hother : ∀ i, i ≠ hhSlot p.dest →
      (s.cache.use (hhSlot p.dest)).entry i = s.cache.entry i := fun i hi =>
    Function.update_of_ne hi ..
  constructor
  · apply h.primeDst
  · intro i
    by_cases hi : i = hhSlot p.dest
    · have hle := h.left (hhSlot p.dest)
      simp only [hi, hself]
      omega
    · simp only [hother i hi, h.left i]
  · intro i
    by_cases hi : i = hhSlot p.dest
    · simp only [hi, hself]
      intro _
      exact h.current (hhSlot p.dest) hleft
    · simp only [hother i hi]
      exact h.current i
  · intro d
    have hold := h.stale d
    dsimp only
    by_cases hd : d = p.dest
    · subst hd
      rw [hself]
      by_cases hout : s.Outdated p.dest
      · rw [outdatedLeft, if_pos ⟨hdst, hout⟩] at hold
        rw [if_pos hout, Function.update_self, outdatedLeft, if_pos ⟨hdst, hout⟩]
        dsimp only
        omega
      · rw [outdatedLeft, if_neg fun hboth => hout hboth.2] at hold
        rw [if_neg hout, outdatedLeft, if_neg fun hboth => hout hboth.2]
        exact hold
    · have hstale : (if s.Outdated p.dest then
          Function.update s.stale p.dest (s.stale p.dest + 1) else s.stale) d = s.stale d := by
        split
        · exact Function.update_of_ne hd ..
        · rfl
      rw [hstale]
      by_cases hslot : hhSlot d = hhSlot p.dest
      · rw [hslot, hself, outdatedLeft, if_neg]
        · omega
        · rintro ⟨heq, -⟩
          exact hd (heq.symm.trans hdst)
      · rw [hother _ hslot]
        exact hold

theorem Inv.remap {arp : UInt32 → L2Header} (h : s.Inv) (hnext : s.next (.remap arp) = some s') :
  s'.Inv
  := by
  cases hnext
  constructor
  · apply h.primeDst
  · apply h.left
  · intro i hleft hunchanged
    obtain ⟨hbefore, hsame⟩ := Bool.and_eq_true_iff.mp hunchanged
    have hcurrent := h.current i hleft hbefore
    rw [← of_decide_eq_true hsame] at hcurrent
    exact hcurrent
  · intro d
    have hold := h.stale d
    dsimp only
    by_cases hd : arp d = s.arp d
    · rw [if_pos hd, hd]
      exact hold
    · rw [if_neg hd, Nat.zero_add]
      exact (outdatedLeft_le _ d (arp d)).trans (h.left (hhSlot d))

theorem Inv.invalidate (h : s.Inv) :
  Inv { s with cache := s.cache.netdevifHhInvalidate }
  := by
  have hzero : ∀ i, (s.cache.netdevifHhInvalidate.entry i).left = 0 := fun _ => rfl
  constructor
  · rfl
  · intro i
    apply Nat.zero_le
  · intro i hne
    exact absurd (hzero i) hne
  · intro d
    have hold := h.stale d
    have hle := outdatedLeft_le (s.cache.netdevifHhInvalidate.entry (hhSlot d)) d (s.arp d)
    rw [hzero] at hle
    dsimp only
    omega

theorem Inv.step {l : Label} (h : s.Inv) (hnext : s.next l = some s') :
  s'.Inv
  := by
  cases l with
  | output p room slow =>
    cases hnext
    obtain ⟨hhit, huse⟩ | ⟨hmiss, hsame | hprimed⟩ :=
      NdHh.ndifIp4Output_cases s.arp h.primeDst p room slow
    · simp only [huse, hhit, true_and]
      apply h.use hhit
    · simp only [hsame, hmiss, false_and, if_false]
      apply h
    · simp only [hprimed, hmiss, false_and, if_false]
      apply h.primed
  | linkoutput f =>
    cases hnext
    rw [NdHh.snoop_of_zero h.primeDst]
    apply h
  | remap arp => apply h.remap hnext
  | invalidate =>
    cases hnext
    apply h.invalidate

theorem inv_of_reachable (h : system.Reachable s) :
  s.Inv
  := by
  apply h.invariant
  · intro s hs
    apply inv_init hs
  · intro s l s' hs _ hnext
    apply hs.step hnext

/-! ### The cache is transparent -/

/-- A packet on the fast path goes out as the frame lwIP would build, and after a change at most
`NDIF_HH_REVALIDATE` frames go out with a stale header. -/
theorem header_cache_transparent (h : system.Reachable s) :
  (∀ p room slow, s.cache.hit p room → (s.cache.entry (hhSlot p.dest)).unchanged = true →
      (s.cache.ndifIp4Output s.arp p room slow).2 = [p.frame s.arp]) ∧
    ∀ dst, s.stale dst ≤ NDIF_HH_REVALIDATE
  := by
  have hinv := inv_of_reachable h
  constructor
  · intro p room slow hhit hunchanged
    obtain ⟨hdst, hleft, -⟩ := id hhit
    have hcurrent := hinv.current _ hleft hunchanged
    rw [hdst] at hcurrent
    rw [NdHh.ndifIp4Output, if_pos hhit, IpPacket.frame, ← hcurrent]
  · intro dst
    have hstale := hinv.stale dst
    omega

def neighbour (mac : UInt8) : L2Header :=
  ⟨#v[2, 0, 0, 0, 0, mac], #v[2, 0, 0, 0, 0, 1], none⟩

def toOne : IpPacket :=
  ⟨0x0A000001, ⟨[0x45, 0, 0, 20, 0, 0, 0, 0, 64, 17, 0, 0, 10, 0, 0, 9, 10, 0, 0, 1], []⟩, by decide⟩

def toFive : IpPacket :=
  ⟨0x0A000005, ⟨[0x45, 0, 0, 20, 0, 0, 0, 0, 64, 17, 0, 0, 10, 0, 0, 9, 10, 0, 0, 5], []⟩, by decide⟩

def emptied : HhRun where
  cache := ⟨fun _ => ⟨0, 0, [], false⟩, 0⟩
  arp _ := neighbour 2
  stale _ := 0

def collisions : List Label :=
  [.output toOne true [.ip toOne], .output toFive true [.ip toFive],
    .output toOne true [.ip toFive, .ip toOne]]

def moved : List Label :=
  collisions ++ [.remap fun _ => neighbour 3, .output toOne true []]

theorem collisions_enabled :
  (system.exec emptied collisions).isSome = true
  := rfl

theorem moved_enabled :
  (system.exec emptied moved).isSome = true
  := rfl

/-- The fast path is taken with the header of the mapping, and once with another after it changed. -/
theorem header_cache_transparent_collisions :
  (∃ s, system.Reachable s ∧ s.cache.hit toOne true ∧
    (s.cache.ndifIp4Output s.arp toOne true []).2 = [toOne.frame s.arp]) ∧
    ∃ s, system.Reachable s ∧ s.stale 0x0A000001 = 1 ∧ s.stale 0x0A000001 ≤ NDIF_HH_REVALIDATE
  := by
  have hinit : system.init emptied := ⟨fun _ => rfl, rfl, fun _ => rfl⟩
  have hreach : system.Reachable (system.last emptied collisions collisions_enabled) :=
    TransitionSystem.reachable_last hinit
  have hreach' : system.Reachable (system.last emptied moved moved_enabled) :=
    TransitionSystem.reachable_last hinit
  have hhit : (system.last emptied collisions collisions_enabled).cache.hit toOne true := by
    decide
  have hunchanged : ((system.last emptied collisions collisions_enabled).cache.entry
      (hhSlot toOne.dest)).unchanged = true := by
    decide
  have hstale : (system.last emptied moved moved_enabled).stale 0x0A000001 = 1 := by
    decide
  constructor
  · exact ⟨_, hreach, hhit, (header_cache_transparent hreach).1 toOne true [] hhit hunchanged⟩
  · exact ⟨_, hreach', hstale, (header_cache_transparent hreach').2 0x0A000001⟩

end HhRun
