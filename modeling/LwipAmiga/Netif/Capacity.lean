import Mathlib.Data.UInt

/-!
# Transmit capacity

The frames a datagram takes, the accounting of the backends and the test of the socket layer.
-/

def NIB_MAX_L3 : UInt32 := 65515

/-- `netifbase_tx_frames`: the frames of a datagram of `l3len` bytes past the IP header.  A division
by zero, for an MTU from 20 to 27, traps in the source. -/
def netifbaseTxFrames (l3len mtu : UInt32) : UInt32 :=
  if l3len + 20 ≤ mtu then 1
  else
    let per := (mtu - 20) / 8 * 8
    (l3len + per - 1) / per

structure NetIfBase where
  txFree : ℕ
  txMaxFrames : ℕ
deriving DecidableEq

namespace NetIfBase

/-- `netifbase_tx_setup`. -/
def txSetup (capacity : ℕ) (mtu : UInt32) : NetIfBase where
  txFree := capacity
  txMaxFrames := (netifbaseTxFrames NIB_MAX_L3 mtu).toNat

/-- `netifbase_tx_taken`: the interface has taken frames. -/
def txTaken (i : NetIfBase) (n : ℕ) : NetIfBase :=
  { i with txFree := i.txFree - n }

def txFreed (i : NetIfBase) (n : ℕ) : NetIfBase :=
  { i with txFree := i.txFree + n }

@[simp] theorem txFree_txTaken (i : NetIfBase) (n : ℕ) :
  (i.txTaken n).txFree = i.txFree - n
  := rfl

@[simp] theorem txFree_txFreed (i : NetIfBase) (n : ℕ) :
  (i.txFreed n).txFree = i.txFree + n
  := rfl

def txAdmit (i : NetIfBase) (mtu l3len : UInt32) : Bool :=
  decide ((netifbaseTxFrames l3len mtu).toNat ≤ i.txFree)

end NetIfBase

/-! ### The frames lwIP emits -/

def ip4FragLoop (per : ℕ) : ℕ → ℕ → List ℕ
  | 0, _ => []
  | fuel + 1, left =>
      if left = 0 then []
      else min left per :: ip4FragLoop per fuel (left - min left per)

def ip4Output (mtu l3len : ℕ) : List ℕ :=
  if l3len + 20 ≤ mtu then [l3len]
  else ip4FragLoop ((mtu - 20) / 8 * 8) l3len l3len

theorem length_ip4FragLoop
    {per : ℕ} (hper : 0 < per) {fuel left : ℕ} (hfuel : left ≤ fuel) :
  (ip4FragLoop per fuel left).length = (left + per - 1) / per
  := by
  induction fuel generalizing left with
  | zero =>
    obtain rfl : left = 0 := by omega
    rw [Nat.zero_add, Nat.div_eq_of_lt (by omega)]
    rfl
  | succ fuel ih =>
    rw [ip4FragLoop]
    split
    next hzero =>
      rw [hzero, Nat.zero_add, Nat.div_eq_of_lt (by omega)]
      rfl
    next hpos =>
      rw [List.length_cons, ih (by omega)]
      obtain hle | hlt := Nat.le_total left per
      · rw [min_eq_left hle, Nat.sub_self, Nat.zero_add, Nat.div_eq_of_lt (by omega),
          show left + per - 1 = left - 1 + per by omega, Nat.add_div_right _ hper,
          Nat.div_eq_of_lt (by omega)]
      · rw [min_eq_right hlt, show left + per - 1 = left - per + per - 1 + per by omega,
          Nat.add_div_right _ hper]

theorem toNat_netifbaseTxFrames
    {l3len mtu : UInt32} (hl3 : l3len.toNat < 2 ^ 17) (hmtu : mtu.toNat < 2 ^ 16)
    (hroom : 28 ≤ mtu.toNat) :
  (netifbaseTxFrames l3len mtu).toNat = (ip4Output mtu.toNat l3len.toNat).length
  := by
  have h20 : (l3len + 20).toNat = l3len.toNat + 20 := by
    rw [UInt32.toNat_add]
    change (l3len.toNat + 20) % 2 ^ 32 = l3len.toNat + 20
    omega
  have hper : ((mtu - 20) / 8 * 8).toNat = (mtu.toNat - 20) / 8 * 8 := by
    rw [UInt32.toNat_mul, UInt32.toNat_div, UInt32.toNat_sub_of_le _ _
      (UInt32.le_iff_toNat_le.mpr (by change 20 ≤ mtu.toNat; omega))]
    change (mtu.toNat - 20) / 8 * 8 % 2 ^ 32 = (mtu.toNat - 20) / 8 * 8
    omega
  have hpos : 0 < (mtu.toNat - 20) / 8 * 8 := by omega
  unfold netifbaseTxFrames ip4Output
  by_cases hfit : l3len.toNat + 20 ≤ mtu.toNat
  · rw [if_pos hfit, if_pos (UInt32.le_iff_toNat_le.mpr (by rw [h20]; exact hfit))]
    rfl
  · rw [if_neg hfit, if_neg fun h => hfit (by rwa [UInt32.le_iff_toNat_le, h20] at h),
      length_ip4FragLoop hpos le_rfl]
    have hsum : (l3len + (mtu - 20) / 8 * 8 - 1).toNat =
        l3len.toNat + (mtu.toNat - 20) / 8 * 8 - 1 := by
      have hadd : (l3len + (mtu - 20) / 8 * 8).toNat =
          l3len.toNat + (mtu.toNat - 20) / 8 * 8 := by
        rw [UInt32.toNat_add, hper]
        omega
      rw [UInt32.toNat_sub_of_le _ _
        (UInt32.le_iff_toNat_le.mpr (by rw [hadd]; change 1 ≤ _; omega)), hadd]
      rfl
    rw [UInt32.toNat_div, hsum, hper]

theorem netifbaseTxFrames_le (l3len mtu : UInt32) :
  (netifbaseTxFrames l3len mtu).toNat ≤ 2 ^ 29
  := by
  unfold netifbaseTxFrames
  split
  next => decide
  next =>
    rw [UInt32.toNat_div]
    have hlt := (l3len + (mtu - 20) / 8 * 8 - 1).toNat_lt
    obtain hzero | hpos := Nat.eq_zero_or_pos ((mtu - 20) / 8 * 8).toNat
    · rw [hzero, Nat.div_zero]
      omega
    · have hge : 8 ≤ ((mtu - 20) / 8 * 8).toNat := by
        rw [UInt32.toNat_mul, UInt32.toNat_div] at hpos ⊢
        have hq := (mtu - 20).toNat_lt
        change 0 < (mtu - 20).toNat / 8 * 8 % 2 ^ 32 at hpos
        change 8 ≤ (mtu - 20).toNat / 8 * 8 % 2 ^ 32
        omega
      calc (l3len + (mtu - 20) / 8 * 8 - 1).toNat / ((mtu - 20) / 8 * 8).toNat
          ≤ (l3len + (mtu - 20) / 8 * 8 - 1).toNat / 8 := Nat.div_le_div_left hge (by decide)
        _ ≤ 2 ^ 29 := by omega
