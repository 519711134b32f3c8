import LwipAmiga.Rx.Pump

/-!
# The lengths of merged runs

A run has at most `RXGRO_MAX_FRAMES` frames so that its total length fits 16 bits.
-/

open List

open Bytes

def RxGroCtx.Fits (c : RxGroCtx) : Prop :=
  ∀ head rest, c.chain = head :: rest → 1 < c.frames →
    head.len + c.payloadAdd ≤ 0xFFFF ∧ iphLen (mem head.payload) c.ip + c.payloadAdd ≤ 0xFFFF

theorem RxGroCtx.totLen_flushed
    {c : RxGroCtx} {head : RxPbuf} {rest : List RxPbuf} (hchain : c.chain = head :: rest)
    (hframes : 1 < c.frames) :
  c.flushed.head?.map (fun p => p.totLen) = some ((head.len + c.payloadAdd) % 0x10000)
  := by
  simp only [flushed, hchain, hframes, if_true, setTotLens, head?_cons, Option.map_some]

def FramesUpTo (L : ℕ) (ops : List RxOp) : Prop :=
  ∀ addr f, .frame addr f ∈ ops → f.len ≤ L

namespace RxGro

variable {gro : Bool} {ops : List RxOp} {i : Fin RXGRO_FLOWS}

theorem held_frames {q : RxPbuf} (hq : q ∈ ((run gro ops).1 i).chain) :
  .frame q.addr q.frame ∈ ops
  := by
  have hmem : q.id ∈ frames ops := (run_hold gro ops).mem_held (i := i) (mem_map_of_mem hq)
  exact mem_frames.mp hmem

theorem run_false (ops : List RxOp) (i : Fin RXGRO_FLOWS) :
  ((run false ops).1 i).chain = []
  := (holds_run false ops).idle rfl i

theorem fits_of_framesUpTo (h : FramesUpTo 1542 ops) :
  ((run gro ops).1 i).Fits
  := by
  intro head rest hchain hframes
  have hrunning := running_run gro ops i
  have hack : ((run gro ops).1 i).isAck = false := by
    rw [← Bool.not_eq_true]
    intro hack
    have hone := (hrunning.ack hack (by simp [hchain])).1
    omega
  obtain ⟨hrun, hcount, hmax⟩ := hrunning.data hack head rest hchain
  have hlen : ∀ q ∈ head :: rest, q.frame.len ≤ 1542 := by
    intro q hq
    rw [← hchain] at hq
    apply h _ _ (held_frames hq)
  have hiplen : ∀ q ∈ head :: rest, q.frame.ipLen ≤ 1528 := by
    intro q hq
    obtain ⟨_, payOff, payLen, hseg⟩ := hrun.segment q hq
    have hsize := hseg.len_eq
    have hoff := hseg.ip_cases
    have hle := hlen q hq
    have hip : q.frame.ipLen = payLen + 40 := hseg.iplen
    omega
  have hadd := hrun.add_le fun q hq => hiplen q (mem_cons_of_mem _ hq)
  have hmul : rest.length * (1528 - 40) ≤ 43 * (1528 - 40) := by
    apply Nat.mul_le_mul_right
    rw [RXGRO_MAX_FRAMES] at hmax
    omega
  obtain ⟨seq, payLen, hseg⟩ := hrun.head_segment
  have hhead := hlen head mem_cons_self
  obtain ⟨hheadlen, hheadip⟩ := hrun.head_lengths (by omega) hseg
  have hsize := hseg.len_eq
  have hoff := hseg.ip_cases
  omega

def firstFrames (fs : ℕ → RxFrame) (N : ℕ) : List RxOp :=
  (List.range N).map fun j => .frame j (fs j)

theorem firstFrames_succ (fs : ℕ → RxFrame) (N : ℕ) :
  firstFrames fs (N + 1) = firstFrames fs N ++ [.frame N (fs N)]
  := by
  rw [firstFrames, range_succ, map_append]
  rfl

theorem expects_firstFrames
    {k : FlowKey} {n flags N : ℕ} {fs : ℕ → RxFrame}
    (hm : ∀ j < N, (fs j).groMeta = some ⟨k, .merge (UInt32.ofNat (j * n)) 54 n flags⟩)
    (hpos : 1 ≤ N) (hN : N ≤ RXGRO_MAX_FRAMES) :
  ((run true (firstFrames fs N)).1 k.slot).Expects k (UInt32.ofNat (N * n)) N
  := by
  have hseq : ∀ j, UInt32.ofNat (j * n) + UInt32.ofNat n = UInt32.ofNat ((j + 1) * n) := by
    intro j
    rw [← UInt32.ofNat_add, Nat.succ_mul]
  induction N, hpos using Nat.le_induction with
  | base =>
    rw [firstFrames_succ, run_append_singleton, ← hseq, step_frame_self (hm 0 (by omega))]
    apply RxGroCtx.expects_start rfl rfl
  | succ N _ ih =>
    have hold := ih (fun j hj => hm j (by omega)) (by omega)
    rw [firstFrames_succ, run_append_singleton, ← hseq, step_frame_self (hm N (by omega))]
    apply hold.take rfl hN

def longFrame (j : ℕ) : RxFrame :=
  .sample none 0x45 0x60FD 0 (j * 1489) (List.replicate 1489 0)

def longKey : FlowKey := ⟨0x0A000002, 0x0A000001, 0x00501000⟩

theorem groMeta_longFrame :
  ∀ j < RXGRO_MAX_FRAMES,
    (longFrame j).groMeta = some ⟨longKey, .merge (UInt32.ofNat (j * 1489)) 54 1489 16⟩
  := by
  decide +kernel

theorem lengths_longFrames :
  ∃ head rest, ((run true (firstFrames longFrame RXGRO_MAX_FRAMES)).1 longKey.slot).chain =
      head :: rest ∧
    ((run true (firstFrames longFrame RXGRO_MAX_FRAMES)).1 longKey.slot).frames =
      RXGRO_MAX_FRAMES ∧
    head.len + ((run true (firstFrames longFrame RXGRO_MAX_FRAMES)).1 longKey.slot).payloadAdd =
      65570
  := by
  have hrunning := running_run true (firstFrames longFrame RXGRO_MAX_FRAMES) longKey.slot
  have hexpects := expects_firstFrames groMeta_longFrame (by decide) le_rfl
  have hmem : ∀ q ∈ ((run true (firstFrames longFrame RXGRO_MAX_FRAMES)).1 longKey.slot).chain,
      .frame q.addr q.frame ∈ firstFrames longFrame RXGRO_MAX_FRAMES := fun q hq => held_frames hq
  generalize (run true (firstFrames longFrame RXGRO_MAX_FRAMES)).1 longKey.slot = c at *
  obtain ⟨head, rest, hchain⟩ := exists_cons_of_ne_nil hexpects.chain
  obtain ⟨hrun, hcount, -⟩ := hrunning.data hexpects.data head rest hchain
  have hlong : ∀ q ∈ head :: rest, ∃ j < RXGRO_MAX_FRAMES, q.frame = longFrame j := by
    intro q hq
    obtain ⟨j, hj, heq⟩ := mem_map.mp (hmem q (hchain ▸ hq))
    rw [RxOp.frame.injEq] at heq
    exact ⟨j, mem_range.mp hj, heq.2.symm⟩
  have hseg : ∀ q ∈ head :: rest, q.frame.len = 1543 ∧ q.frame.ipLen - 40 = 1489 := by
    intro q hq
    obtain ⟨j, hj, hframe⟩ := hlong q hq
    have hdata := dataSegment_of_groMeta (groMeta_longFrame j hj)
    rw [hframe, hdata.len_eq, RxFrame.ipLen, hdata.iplen]
    exact ⟨rfl, rfl⟩
  have hadd : c.payloadAdd = rest.length * 1489 := by
    rw [hrun.add_eq, map_congr_left fun q hq => (hseg q (mem_cons_of_mem _ hq)).2,
      map_const', sum_replicate, smul_eq_mul]
  obtain ⟨_, payLen, hhead⟩ := hrun.head_segment
  have hlen := (hseg head mem_cons_self).1
  have hheadlen := (hrun.head_lengths (by omega) hhead).1
  have hsize := hhead.len_eq
  have hframes := hexpects.frames
  rw [RXGRO_MAX_FRAMES] at hframes
  refine ⟨head, rest, hchain, hexpects.frames, ?_⟩
  omega

/-- The lengths fit 16 bits for every sequence of frames of at most `L` bytes exactly if `L` is at most
1542; on a SANA-II device they always do. -/
theorem merged_lengths_fit (offload : Bool) (L : ℕ) (pp : S2Pump) :
  ((∀ ops, FramesUpTo L ops → ∀ i, ((run offload ops).1 i).Fits) ↔ offload = false ∨ L ≤ 1542) ∧
    ∀ ops, (∀ addr f, .frame addr f ∈ ops → pp.Admits f) → ∀ i, ((run pp.gro ops).1 i).Fits
  := by
  constructor
  · constructor
    · intro h
      by_contra hno
      push Not at hno
      obtain ⟨hon, hL⟩ := hno
      obtain rfl := Bool.eq_true_of_not_eq_false hon
      have hupto : FramesUpTo L (firstFrames longFrame RXGRO_MAX_FRAMES) := by
        intro addr f hmem
        obtain ⟨j, hj, heq⟩ := mem_map.mp hmem
        rw [RxOp.frame.injEq] at heq
        have hdata := dataSegment_of_groMeta (groMeta_longFrame j (mem_range.mp hj))
        rw [← heq.2, hdata.len_eq]
        omega
      obtain ⟨head, rest, hchain, hframes, hlen⟩ := lengths_longFrames
      have hfits := h _ hupto _ head rest hchain (by rw [hframes]; decide)
      omega
    · rintro (rfl | hL) ops hupto i
      · intro head rest hchain
        rw [run_false] at hchain
        contradiction
      · apply fits_of_framesUpTo
        intro addr f hmem
        apply Nat.le_trans (hupto addr f hmem) hL
  · intro ops hadmits i
    cases hgro : pp.gro with
    | false =>
      intro head rest hchain
      rw [run_false] at hchain
      contradiction
    | true =>
      apply fits_of_framesUpTo
      intro addr f hmem
      have hle := S2Pump.len_le_of_admits hgro (hadmits addr f hmem)
      omega

/-- The flush of the full run writes 34 for 65570 bytes. -/
theorem longFrames_overflow :
  ¬ ((run true (firstFrames longFrame RXGRO_MAX_FRAMES)).1 longKey.slot).Fits ∧
    ((run true (firstFrames longFrame RXGRO_MAX_FRAMES)).1 longKey.slot).flushed.head?.map
      (fun p => p.totLen) = some 34
  := by
  obtain ⟨head, rest, hchain, hframes, hlen⟩ := lengths_longFrames
  have hmany := Nat.lt_of_lt_of_eq (by decide : 1 < RXGRO_MAX_FRAMES) hframes.symm
  constructor
  · intro hfits
    have hle := (hfits head rest hchain hmany).1
    omega
  · rw [RxGroCtx.totLen_flushed hchain hmany, hlen]

end RxGro
