import LwipAmiga.Rx.Order

/-!
# The receive pump of a SANA-II device

`sana2_pump.c`: `s2if_pump_rx_deliver` gives a batch of frames to the engine under the core lock.
-/

open Hold

def S2IF_RX_SLACK : ℕ := 8

def RXGRO_YIELD_STRIDE : ℕ := 8

structure S2Pump where
  hwMtu : ℕ
  vlanTci : ℤ

namespace S2Pump

variable (pp : S2Pump)

/-- `s2p_PbLen`, set by `s2if_pump_setup`. -/
def pbLen : ℕ :=
  SIZEOF_ETH_HDR + pp.hwMtu + (if 0 ≤ pp.vlanTci then 4 else 0) + S2IF_RX_SLACK

/-- `s2p_Gro`, the gate of the engine. -/
def gro : Bool :=
  pp.hwMtu ≤ 1500

def pbufLen : ℕ :=
  let len := (pp.pbLen + 2) % 0x10000
  if 2 ≤ len then len - 2 else len

def srxCap : ℕ :=
  (pp.pbufLen + 2 ^ 32 - SIZEOF_ETH_HDR) % 2 ^ 32

def Admits (f : RxFrame) : Prop :=
  ∃ dataLength, dataLength ≤ pp.srxCap ∧ f.len = (SIZEOF_ETH_HDR + dataLength) % 0x10000

variable {pp} {f : RxFrame}

theorem len_le_of_admits (hgro : pp.gro = true) (h : pp.Admits f) :
  f.len ≤ 1526
  := by
  obtain ⟨dataLength, hcap, hlen⟩ := h
  have hmtu : pp.hwMtu ≤ 1500 := of_decide_eq_true hgro
  have hpb : 14 ≤ pp.pbLen ∧ pp.pbLen ≤ 1526 := by
    simp only [pbLen, SIZEOF_ETH_HDR, S2IF_RX_SLACK]
    split <;> omega
  have hpbuf : pp.pbufLen = pp.pbLen := by
    simp only [pbufLen]
    split <;> omega
  rw [srxCap, hpbuf, SIZEOF_ETH_HDR] at hcap
  rw [SIZEOF_ETH_HDR] at hlen
  omega

end S2Pump

def s2ifPumpRxDeliver (contended : ℕ → Bool) : ℕ → ℕ → List (ℕ × RxFrame) → List RxOp
  | _, _, [] => [.flush]
  | i, since, (addr, f) :: deliver =>
      if !s2ifRxCsumOk f.mem f.len then .flush :: s2ifPumpRxDeliver contended (i + 1) since deliver
      else if RXGRO_YIELD_STRIDE ≤ since + 1 ∧ contended i then
        .frame addr f :: .flush :: s2ifPumpRxDeliver contended (i + 1) 0 deliver
      else .frame addr f :: s2ifPumpRxDeliver contended (i + 1) (since + 1) deliver

variable {contended : ℕ → Bool}
