import LwipAmiga.Lib.Tally
import LwipAmiga.Lib.Transition

/-!
# The set of joined multicast MACs

lwIP calls `netifbase_igmp_mac_filter` on the first join and the last leave of a multicast group.
-/

open List Multiset

open Tally

def NIB_MCAST_MAX : ℕ := 32

/-- `nib_mcast_mac`: the MAC of a group, from the low 23 bits of its address. -/
def nibMcastMac (group : UInt32) : List UInt8 :=
  [0x01, 0x00, 0x5e, ((group >>> 16) &&& 0x7f).toUInt8, ((group >>> 8) &&& 0xff).toUInt8,
    (group &&& 0xff).toUInt8]

inductive NetifMacFilterAction where
  | add
  | del
  deriving DecidableEq

structure NibMcast where
  entries : List (List UInt8 × ℕ)
  overflow : ℕ
  rxFilterDirty : Bool
  deriving DecidableEq

namespace NibMcast

def netifbaseInit : NibMcast where
  entries := []
  overflow := 0
  rxFilterDirty := false

/-- `nib_McastList`. -/
def macs (nib : NibMcast) : List (List UInt8) :=
  nib.entries.map Prod.fst

def find (nib : NibMcast) (mac : List UInt8) : Option ℕ :=
  nib.entries.findIdx? (·.1 == mac)

/-- `NETIF_ADD_MAC_FILTER`, with `listChanged`.  Counters are 16 bits wide. -/
def addMac (nib : NibMcast) (mac : List UInt8) : NibMcast × Bool :=
  match nib.find mac with
  | some idx =>
      -- another group has this MAC
      ({ nib with entries := nib.entries.modify idx fun e => (e.1, (e.2 + 1) % 65536) }, false)
  | none =>
      if nib.entries.length < NIB_MCAST_MAX then
        ({ nib with entries := nib.entries ++ [(mac, 1)] }, true)
      else ({ nib with overflow := (nib.overflow + 1) % 65536 }, false)

/-- `NETIF_DEL_MAC_FILTER`, with `listChanged`. -/
def delMac (nib : NibMcast) (mac : List UInt8) : NibMcast × Bool :=
  match nib.find mac with
  | some idx =>
      let entries := nib.entries.modify idx fun e => (e.1, (e.2 + 65535) % 65536)
      if entries[idx]?.map Prod.snd = some 0 then
        ({ nib with entries := entries.swapRemove idx }, true)
      else ({ nib with entries := entries }, false)
  | none =>
      if 0 < nib.overflow then ({ nib with overflow := nib.overflow - 1 }, false)
      else (nib, false)

def change (nib : NibMcast) (mac : List UInt8) : NetifMacFilterAction → NibMcast × Bool
  | .add => nib.addMac mac
  | .del => nib.delMac mac

def netifbaseIgmpMacFilter (nib : NibMcast) (group : UInt32) (action : NetifMacFilterAction) :
    NibMcast :=
  let hadOverflow := decide (0 < nib.overflow)
  let (nib, listChanged) := nib.change (nibMcastMac group) action
  if listChanged || decide (0 < nib.overflow) != hadOverflow then
    { nib with rxFilterDirty := true }
  else nib

def netifbaseMcastSnapshot (nib : NibMcast) : NibMcast × List (List UInt8) × ℕ :=
  ({ nib with rxFilterDirty := false }, nib.macs, nib.overflow)

def content (nib : NibMcast) : List (List UInt8) × Bool :=
  (nib.macs, decide (0 < nib.overflow))

end NibMcast

/-! ### The entries and the overflow counter -/

structure McastTracks
    (entries : List (List UInt8 × ℕ)) (overflow : ℕ) (out : Multiset (List UInt8)) : Prop where
  nodup : (entries.map Prod.fst).Nodup
  length_le : entries.length ≤ NIB_MCAST_MAX
  pos : ∀ e ∈ entries, 0 < e.2
  splits : Splits out entries overflow

namespace McastTracks

variable {l l' rest : List (List UInt8 × ℕ)} {ov n : ℕ} {mac : List UInt8}
  {out : Multiset (List UInt8)}

theorem init :
  McastTracks [] 0 0
  := ⟨nodup_nil, Nat.zero_le _, nofun, .empty⟩

theorem perm (h : McastTracks l ov out) (hl : l.Perm l') :
  McastTracks l' ov out
  := by
  constructor
  · apply (hl.map Prod.fst).nodup_iff.mp h.nodup
  · rw [← hl.length_eq]
    apply h.length_le
  · intro e he
    apply h.pos e (hl.mem_iff.mpr he)
  · apply h.splits.perm hl

theorem refs_le (h : McastTracks ((mac, n) :: rest) ov out) :
  n ≤ out.card
  := (le_card_counted mem_cons_self).trans h.splits.card_le

theorem mem_or_overflow (h : McastTracks l ov out) (hmac : mac ∈ out) :
  mac ∈ l.map Prod.fst ∨ 0 < ov
  := by
  by_cases hcounted : mac ∈ counted l
  · left
    apply mem_keys_of_mem_counted hcounted
  · right
    apply h.splits.pos hmac hcounted

theorem mem_out (h : McastTracks l ov out) (hmac : mac ∈ l.map Prod.fst) :
  mac ∈ out
  := by
  obtain ⟨e, he, rfl⟩ := mem_map.mp hmac
  apply mem_of_le h.splits.le (mem_counted he (h.pos e he))

theorem bump (h : McastTracks ((mac, n) :: rest) ov out) :
  McastTracks ((mac, n + 1) :: rest) ov (mac ::ₘ out)
  := by
  constructor
  · apply h.nodup
  · apply h.length_le
  · intro e he
    rcases mem_cons.mp he with rfl | he
    · apply Nat.succ_pos
    · apply h.pos e (mem_cons_of_mem _ he)
  · apply h.splits.count (counted_succ rest)

theorem push (h : McastTracks l ov out) (hnot : mac ∉ l.map Prod.fst)
    (hroom : l.length < NIB_MCAST_MAX) :
  McastTracks ((mac, 1) :: l) ov (mac ::ₘ out)
  := by
  constructor
  · apply List.nodup_cons.mpr ⟨hnot, h.nodup⟩
  · apply hroom
  · intro e he
    rcases List.mem_cons.mp he with rfl | he
    · apply Nat.one_pos
    · apply h.pos e he
  · apply h.splits.count
    rw [counted_succ, counted_cons, Multiset.replicate_zero, Multiset.zero_add]

theorem miss (h : McastTracks l ov out) (mac : List UInt8) :
  McastTracks l (ov + 1) (mac ::ₘ out)
  := ⟨h.nodup, h.length_le, h.pos, h.splits.miss mac⟩

theorem unbump (h : McastTracks ((mac, n + 1) :: rest) ov (mac ::ₘ out)) (hn : 0 < n) :
  McastTracks ((mac, n) :: rest) ov out
  := by
  constructor
  · apply h.nodup
  · apply h.length_le
  · intro e he
    rcases mem_cons.mp he with rfl | he
    · apply hn
    · apply h.pos e (mem_cons_of_mem _ he)
  · apply h.splits.uncount (counted_succ rest)

theorem pop (h : McastTracks ((mac, 1) :: rest) ov (mac ::ₘ out)) :
  McastTracks rest ov out
  := by
  constructor
  · apply (List.nodup_cons.mp h.nodup).2
  · apply (Nat.le_succ _).trans h.length_le
  · intro e he
    apply h.pos e (List.mem_cons_of_mem _ he)
  · apply h.splits.uncount
    rw [counted_succ, counted_cons, Multiset.replicate_zero, Multiset.zero_add]

theorem unmiss (h : McastTracks l ov (mac ::ₘ out)) (hnot : mac ∉ l.map Prod.fst) :
  0 < ov ∧ McastTracks l (ov - 1) out
  := by
  have hcounted : mac ∉ counted l := fun hmem => hnot (mem_keys_of_mem_counted hmem)
  have hpos : 0 < ov := h.splits.pos (mem_cons_self mac out) hcounted
  obtain ⟨n, rfl⟩ := Nat.exists_eq_succ_of_ne_zero hpos.ne'
  use hpos
  apply McastTracks.mk h.nodup h.length_le h.pos (h.splits.unmiss hcounted)

end McastTracks

/-! ### The hook -/

namespace NibMcast

variable {nib : NibMcast} {mac : List UInt8} {group : UInt32} {idx : ℕ}
  {out : Multiset (List UInt8)}

def Tracks (nib : NibMcast) (out : Multiset (List UInt8)) : Prop :=
  McastTracks nib.entries nib.overflow out

theorem find_eq_some (h : nib.find mac = some idx) :
  ∃ n, nib.entries[idx]? = some (mac, n)
  := by
  obtain ⟨hidx, hmac, -⟩ := findIdx?_eq_some_iff_getElem.mp h
  use nib.entries[idx].2
  rw [getElem?_eq_getElem hidx, ← eq_of_beq hmac]

theorem find_eq_none (h : nib.find mac = none) :
  mac ∉ nib.macs
  := by
  intro hmem
  obtain ⟨e, he, rfl⟩ := mem_map.mp hmem
  have hne := findIdx?_eq_none_iff.mp h e he
  simp at hne

theorem Tracks.addMac (h : nib.Tracks out) (hfew : out.card + 1 < 65536) :
  (nib.addMac mac).1.Tracks (mac ::ₘ out)
  := by
  unfold NibMcast.addMac
  cases hfind : nib.find mac with
  | some idx =>
    obtain ⟨n, hget⟩ := find_eq_some hfind
    have hrow := h.perm (perm_cons_eraseIdx hget)
    have hmod : (n + 1) % 65536 = n + 1 := Nat.mod_eq_of_lt (by have := hrow.refs_le; omega)
    apply (McastTracks.bump hrow).perm
    rw [← hmod]
    apply (modify_perm hget fun e => (e.1, (e.2 + 1) % 65536)).symm
  | none =>
    by_cases hroom : nib.entries.length < NIB_MCAST_MAX
    · simp only [hroom, if_true]
      apply (McastTracks.push h (find_eq_none hfind) hroom).perm
      apply (perm_append_singleton _ _).symm
    · have hle : nib.overflow ≤ out.card := by
        have := h.splits.card
        omega
      have hmod : (nib.overflow + 1) % 65536 = nib.overflow + 1 :=
        Nat.mod_eq_of_lt (by omega)
      simp only [hroom, if_false, Tracks, hmod]
      apply McastTracks.miss h

theorem Tracks.delMac (h : nib.Tracks (mac ::ₘ out)) (hfew : out.card + 1 < 65536) :
  (nib.delMac mac).1.Tracks out
  := by
  unfold NibMcast.delMac
  cases hfind : nib.find mac with
  | some idx =>
    obtain ⟨n, hget⟩ := find_eq_some hfind
    have hrow := h.perm (List.perm_cons_eraseIdx hget)
    have hle : n ≤ out.card + 1 := by
      rw [← Multiset.card_cons mac]
      apply hrow.refs_le
    obtain ⟨k, rfl⟩ := Nat.exists_eq_succ_of_ne_zero
      (hrow.pos (mac, n) List.mem_cons_self).ne'
    have hmod : (k + 1 + 65535) % 65536 = k := by omega
    have hget' : (nib.entries.modify idx fun e => (e.1, (e.2 + 65535) % 65536))[idx]?
        = some (mac, k) := by
      rw [List.getElem?_modify, hget, Option.map_eq_map, Option.map_some, if_pos rfl, hmod]
    simp only [hget', Option.map_some, Option.some_inj]
    by_cases hk : k = 0
    · subst hk
      have hidx := (List.getElem?_eq_some_iff.mp hget').1
      simp only [if_true]
      apply (McastTracks.pop hrow).perm
      rw [← List.eraseIdx_modify_of_eq (fun e => (e.1, (e.2 + 65535) % 65536)) idx nib.entries]
      apply (List.swapRemove_perm hidx).symm
    · simp only [hk, if_false]
      apply (McastTracks.unbump hrow (Nat.pos_of_ne_zero hk)).perm
      nth_rewrite 1 [← hmod]
      apply (List.modify_perm hget fun e => (e.1, (e.2 + 65535) % 65536)).symm
  | none =>
    obtain ⟨hpos, htracks⟩ := McastTracks.unmiss h (find_eq_none hfind)
    simp only [hpos, if_true]
    apply htracks

theorem map_fst_modify (nib : NibMcast) (idx : ℕ) (f : ℕ → ℕ) :
  (nib.entries.modify idx fun e => (e.1, f e.2)).map Prod.fst = nib.macs
  := map_modify_of_eq fun _ => rfl

theorem change_macs {action : NetifMacFilterAction} (h : (nib.change mac action).2 = false) :
  (nib.change mac action).1.macs = nib.macs
  := by
  cases action with
  | add =>
    unfold change addMac at *
    cases hfind : nib.find mac with
    | some idx => apply map_fst_modify nib idx fun n => (n + 1) % 65536
    | none =>
      simp only [hfind] at h ⊢
      split at h
      · contradiction
      · rename_i hfull
        rw [if_neg hfull]
        rfl
  | del =>
    unfold change delMac at *
    cases hfind : nib.find mac with
    | some idx =>
      simp only [hfind] at h ⊢
      split at h
      · contradiction
      · rename_i hrefs
        rw [if_neg hrefs]
        apply map_fst_modify nib idx fun n => (n + 65535) % 65536
    | none =>
      dsimp only
      split <;> rfl

theorem change_dirty (nib : NibMcast) (mac : List UInt8) (action : NetifMacFilterAction) :
  (nib.change mac action).1.rxFilterDirty = nib.rxFilterDirty
  := by
  cases action with
  | add =>
    unfold change addMac
    dsimp only
    split
    · rfl
    · split <;> rfl
  | del =>
    unfold change delMac
    dsimp only
    split
    · split <;> rfl
    · split <;> rfl

theorem netifbaseIgmpMacFilter_eq (nib : NibMcast) (group : UInt32)
    (action : NetifMacFilterAction) :
  nib.netifbaseIgmpMacFilter group action
    = { (nib.change (nibMcastMac group) action).1 with
        rxFilterDirty := (nib.netifbaseIgmpMacFilter group action).rxFilterDirty }
  := by
  unfold netifbaseIgmpMacFilter
  dsimp only
  split <;> rfl

theorem dirty_of_dirty (h : nib.rxFilterDirty = true) (group : UInt32)
    (action : NetifMacFilterAction) :
  (nib.netifbaseIgmpMacFilter group action).rxFilterDirty = true
  := by
  unfold netifbaseIgmpMacFilter
  dsimp only
  split
  · rfl
  · rw [change_dirty, h]

theorem dirty_of_content_ne {action : NetifMacFilterAction}
    (h : (nib.netifbaseIgmpMacFilter group action).content ≠ nib.content) :
  (nib.netifbaseIgmpMacFilter group action).rxFilterDirty = true
  := by
  unfold netifbaseIgmpMacFilter at *
  dsimp only at *
  split
  · rfl
  · rename_i hquiet
    simp only [Bool.or_eq_true, bne_iff_ne, not_or, ne_eq, not_not, Bool.not_eq_true] at hquiet
    rw [if_neg (by simp [hquiet])] at h
    exfalso
    apply h
    rw [content, content, change_macs hquiet.1, hquiet.2]

theorem content_of_clean {action : NetifMacFilterAction}
    (h : (nib.netifbaseIgmpMacFilter group action).rxFilterDirty = false) :
  nib.rxFilterDirty = false ∧ (nib.netifbaseIgmpMacFilter group action).content = nib.content
  := by
  constructor
  · rw [← Bool.not_eq_true]
    intro hdirty
    rw [dirty_of_dirty hdirty] at h
    contradiction
  · by_contra hne
    rw [dirty_of_content_ne hne] at h
    contradiction

theorem overflow_join (h : nibMcastMac group ∈ nib.macs ∨ nib.entries.length < NIB_MCAST_MAX) :
  (nib.netifbaseIgmpMacFilter group .add).overflow = nib.overflow
  := by
  rw [netifbaseIgmpMacFilter_eq, change, addMac]
  cases hfind : nib.find (nibMcastMac group) with
  | some idx => rfl
  | none =>
    rw [if_pos (h.resolve_left (find_eq_none hfind))]

theorem overflow_leave (h : nib.overflow = 0) (group : UInt32) :
  (nib.netifbaseIgmpMacFilter group .del).overflow = 0
  := by
  rw [netifbaseIgmpMacFilter_eq, change, delMac]
  cases hfind : nib.find (nibMcastMac group) with
  | some idx =>
    dsimp only
    split <;> exact h
  | none =>
    rw [if_neg (by omega)]
    apply h

def TracksGroups (nib : NibMcast) (joined : List UInt32) : Prop :=
  nib.Tracks (joined.map nibMcastMac : List (List UInt8))

theorem TracksGroups.join
    {joined : List UInt32} (h : nib.TracksGroups joined) (hfew : joined.length + 1 < 65536)
    (group : UInt32) :
  (nib.netifbaseIgmpMacFilter group .add).TracksGroups (group :: joined)
  := by
  rw [netifbaseIgmpMacFilter_eq]
  apply Tracks.addMac h
  rw [coe_card, length_map]
  apply hfew

theorem TracksGroups.leave
    {joined : List UInt32} (h : nib.TracksGroups joined) (hfew : joined.length < 65536)
    (hmem : group ∈ joined) :
  (nib.netifbaseIgmpMacFilter group .del).TracksGroups (joined.erase group)
  := by
  have hperm := perm_cons_erase hmem
  have hout : (joined.map nibMcastMac : Multiset (List UInt8))
      = nibMcastMac group ::ₘ ((joined.erase group).map nibMcastMac :) :=
    coe_eq_coe.mpr (hperm.map nibMcastMac)
  have hlength := hperm.length_eq
  rw [length_cons] at hlength
  rw [TracksGroups, hout] at h
  rw [netifbaseIgmpMacFilter_eq]
  apply h.delMac
  rw [coe_card, length_map]
  omega

end NibMcast

/-! ### Runs of joins and leaves -/

structure McastFilter where
  nib : NibMcast
  joined : List UInt32
  pushed : List (List UInt8) × Bool

namespace McastFilter

inductive Label where
  | join (group : UInt32)
  | leave (group : UInt32)
  | snapshot

def next (s : McastFilter) : Label → Option McastFilter
  | .join group =>
      some { s with
        nib := s.nib.netifbaseIgmpMacFilter group .add
        joined := group :: s.joined }
  | .leave group =>
      if group ∈ s.joined then
        some { s with
          nib := s.nib.netifbaseIgmpMacFilter group .del
          joined := s.joined.erase group }
      else none
  | .snapshot =>
      let (nib, macs, overflow) := s.nib.netifbaseMcastSnapshot
      some { s with nib := nib, pushed := (macs, decide (0 < overflow)) }

def start : McastFilter where
  nib := .netifbaseInit
  joined := []
  pushed := ([], false)

def system : TransitionSystem McastFilter Label where
  init s := s = start
  next := next

def fewJoins (s : McastFilter) : Label → Prop
  | .join _ => s.joined.length + 1 < 65536
  | _ => True

instance (s : McastFilter) (l : Label) : Decidable (s.fewJoins l) := by
  cases l <;> unfold fewJoins <;> infer_instance

variable {s s' : McastFilter} {l : Label}

structure Inv (s : McastFilter) : Prop where
  tracks : s.nib.TracksGroups s.joined
  few : s.joined.length < 65536
  clean : s.nib.rxFilterDirty = false → s.nib.content = s.pushed

theorem Inv.clean_hook (h : s.Inv) {group : UInt32} {action : NetifMacFilterAction}
    (hclean : (s.nib.netifbaseIgmpMacFilter group action).rxFilterDirty = false) :
  (s.nib.netifbaseIgmpMacFilter group action).content = s.pushed
  := by
  obtain ⟨hwas, hsame⟩ := NibMcast.content_of_clean hclean
  rw [hsame, h.clean hwas]

theorem Inv.step (h : s.Inv) (hfew : s.fewJoins l) (hnext : s.next l = some s') :
  s'.Inv
  := by
  cases l with
  | join group =>
    cases hnext
    constructor
    · apply h.tracks.join hfew
    · apply hfew
    · apply h.clean_hook
  | leave group =>
    by_cases hmem : group ∈ s.joined
    · rw [next, if_pos hmem] at hnext
      cases hnext
      constructor
      · apply h.tracks.leave h.few hmem
      · apply (length_erase_le).trans_lt h.few
      · apply h.clean_hook
    · rw [next, if_neg hmem] at hnext
      contradiction
  | snapshot =>
    cases hnext
    constructor
    · apply h.tracks
    · apply h.few
    · intro _
      rfl

theorem inv_of_reach (h : system.Reach fewJoins s) :
  s.Inv
  := by
  apply h.invariant
  · rintro s rfl
    constructor
    · apply McastTracks.init
    · apply Nat.zero_lt_succ
    · intro _
      rfl
  · intro s l s' hs hfew hnext
    apply hs.step hfew hnext

theorem dirty_of_step (hnext : s.next l = some s') (hne : s'.nib.content ≠ s.nib.content) :
  s'.nib.rxFilterDirty = true
  := by
  cases l with
  | join group =>
    cases hnext
    apply NibMcast.dirty_of_content_ne hne
  | leave group =>
    by_cases hmem : group ∈ s.joined
    · rw [next, if_pos hmem] at hnext
      cases hnext
      apply NibMcast.dirty_of_content_ne hne
    · rw [next, if_neg hmem] at hnext
      contradiction
  | snapshot =>
    cases hnext
    contradiction

/-- The list has no duplicates, its counts and the overflow add up to the outstanding joins, and the
dirty flag is raised by every change until it is pushed. -/
theorem joined_macs_tracked (h : system.Reach fewJoins s) :
  s.nib.macs.Nodup ∧
    s.nib.macs.length ≤ NIB_MCAST_MAX ∧
    (s.nib.entries.map Prod.snd).sum + s.nib.overflow = s.joined.length ∧
    (∀ group ∈ s.joined, nibMcastMac group ∈ s.nib.macs ∨ 0 < s.nib.overflow) ∧
    (∀ l s', s.next l = some s' → s'.nib.content ≠ s.nib.content →
      s'.nib.rxFilterDirty = true) ∧
    (s.nib.content ≠ s.pushed → s.nib.rxFilterDirty = true)
  := by
  have hs := inv_of_reach h
  refine ⟨hs.tracks.nodup, ?_, ?_, ?_, fun _ _ => dirty_of_step, ?_⟩
  · rw [NibMcast.macs, length_map]
    apply hs.tracks.length_le
  · rw [← card_counted, hs.tracks.splits.card, coe_card, length_map]
  · intro group hgroup
    apply hs.tracks.mem_or_overflow
    apply mem_map_of_mem hgroup
  · intro hne
    by_contra hdirty
    apply hne (hs.clean (Bool.eq_false_of_not_eq_true hdirty))

def crowdedRun : List Label :=
  ((List.range 33).map fun i => .join (0xe0000100 + i.toUInt32)) ++
    [.join 0xe1000100, .leave 0xe0000100, .snapshot, .leave 0xe0000120]

theorem crowdedRun_enabled :
  (system.exec start crowdedRun).isSome = true
  := by
  decide

def crowdedEnd : McastFilter :=
  system.last start crowdedRun crowdedRun_enabled

/-- Here the list is full, and the last leave has emptied the overflow counter. -/
theorem joined_macs_tracked_crowded :
  crowdedEnd.nib.entries.length = 32 ∧ crowdedEnd.nib.overflow = 0 ∧
    crowdedEnd.joined.length = 32 ∧ crowdedEnd.nib.rxFilterDirty = true ∧
    (∀ group ∈ crowdedEnd.joined, nibMcastMac group ∈ crowdedEnd.nib.macs ∨
      0 < crowdedEnd.nib.overflow)
  := by
  have hreach : system.Reach fewJoins crowdedEnd :=
    TransitionSystem.reach_last rfl (by decide +kernel)
  refine ⟨by decide +kernel, by decide +kernel, by decide +kernel, ?_, ?_⟩
  · apply (joined_macs_tracked hreach).2.2.2.2.2
    decide +kernel
  · apply (joined_macs_tracked hreach).2.2.2.1

end McastFilter
