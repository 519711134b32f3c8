import LwipAmiga.Lib.Ones
import Mathlib.Data.UInt
import Mathlib.Data.List.GetD

/-!
# Bytes in memory

Memory is a function from addresses to bytes, and a buffer is a list of bytes.
-/

open List

namespace Bytes

/-! ### Memory -/

def be16 (b : ℕ → UInt8) (i : ℕ) : ℕ :=
  (b i).toNat * 0x100 + (b (i + 1)).toNat

def be32 (b : ℕ → UInt8) (i : ℕ) : UInt32 :=
  UInt32.ofNat (be16 b i * 0x10000 + be16 b (i + 2))

def sumBytes (b : ℕ → UInt8) (i : ℕ) : ℕ → ℕ
  | 0 => 0
  | 1 => (b i).toNat * 0x100
  | n + 2 => be16 b i + sumBytes b (i + 2) n

variable {b b' : ℕ → UInt8} {i j n : ℕ}

theorem be16_lt (b : ℕ → UInt8) (i : ℕ) :
  be16 b i < 0x10000
  := by
  have h := (b i).toNat_lt
  have h' := (b (i + 1)).toNat_lt
  unfold be16
  omega

theorem be16_congr (h : b i = b' i) (h' : b (i + 1) = b' (i + 1)) :
  be16 b i = be16 b' i
  := by
  rw [be16, be16, h, h']

theorem be32_congr (h : ∀ j, i ≤ j → j < i + 4 → b j = b' j) :
  be32 b i = be32 b' i
  := by
  have h₀ : be16 b i = be16 b' i := by
    apply be16_congr
    · apply h <;> omega
    · apply h <;> omega
  have h₂ : be16 b (i + 2) = be16 b' (i + 2) := by
    apply be16_congr
    · apply h <;> omega
    · apply h <;> omega
  rw [be32, be32, h₀, h₂]

theorem eq_of_be32_eq (h : be32 b i = be32 b' i) :
  b (i + 3) = b' (i + 3)
  := by
  have hnat := congrArg UInt32.toNat h
  have h₀ := be16_lt b i
  have h₀' := be16_lt b' i
  have h₂ := be16_lt b (i + 2)
  have h₂' := be16_lt b' (i + 2)
  rw [be32, be32, UInt32.toNat_ofNat', UInt32.toNat_ofNat'] at hnat
  have hlow : (b (i + 2)).toNat * 0x100 + (b (i + 3)).toNat =
      (b' (i + 2)).toNat * 0x100 + (b' (i + 3)).toNat := by
    change be16 b (i + 2) = be16 b' (i + 2)
    omega
  have h₃ := (b (i + 3)).toNat_lt
  have h₃' := (b' (i + 3)).toNat_lt
  rw [← UInt8.toNat_inj]
  omega

theorem sumBytes_congr (h : ∀ j, i ≤ j → j < i + n → b j = b' j) :
  sumBytes b i n = sumBytes b' i n
  := by
  induction n using Nat.twoStepInduction generalizing i with
  | zero => rfl
  | one => rw [sumBytes, sumBytes, h i (by omega) (by omega)]
  | more n ih _ =>
    have h₀ : be16 b i = be16 b' i := by
      apply be16_congr
      · apply h <;> omega
      · apply h <;> omega
    rw [sumBytes, sumBytes, h₀, ih]
    intro j hj hlt
    apply h <;> omega

theorem sumBytes_add (b : ℕ → UInt8) (i k n : ℕ) :
  sumBytes b i (2 * k + n) = sumBytes b i (2 * k) + sumBytes b (i + 2 * k) n
  := by
  induction k generalizing i with
  | zero => simp [sumBytes]
  | succ k ih =>
    have hsplit : 2 * (k + 1) + n = 2 * k + n + 2 := by omega
    have hself : 2 * (k + 1) = 2 * k + 2 := by omega
    have haddr : i + 2 + 2 * k = i + (2 * k + 2) := by omega
    rw [hsplit, hself, sumBytes, sumBytes, ih, haddr, add_assoc]

theorem sumBytes_20 (b : ℕ → UInt8) (i : ℕ) :
  sumBytes b i 20 =
    be16 b i + be16 b (i + 2) + be16 b (i + 4) + be16 b (i + 6) + be16 b (i + 8) + be16 b (i + 10) +
      be16 b (i + 12) + be16 b (i + 14) + be16 b (i + 16) + be16 b (i + 18)
  := by
  change be16 b i + (be16 b (i + 2) + (be16 b (i + 4) + (be16 b (i + 6) + (be16 b (i + 8) +
    (be16 b (i + 10) + (be16 b (i + 12) + (be16 b (i + 14) + (be16 b (i + 16) +
      (be16 b (i + 18) + 0))))))))) = _
  omega

theorem sumBytes_le (b : ℕ → UInt8) (i : ℕ) (h : n < 0x10000) :
  sumBytes b i n ≤ 2 ^ 31
  := by
  have hle : ∀ n i, sumBytes b i n ≤ 0x8000 * n + 0x8000 := by
    intro n
    induction n using Nat.twoStepInduction with
    | zero => simp [sumBytes]
    | one =>
      intro i
      have hlt := (b i).toNat_lt
      simp only [sumBytes]
      omega
    | more n ih _ =>
      intro i
      have hlt := be16_lt b i
      have hrest := ih (i + 2)
      simp only [sumBytes]
      omega
  have := hle n i
  omega

/-! ### Buffers -/

def mem (l : List UInt8) (i : ℕ) : UInt8 :=
  l.getD i 0

def patch (l : List UInt8) (i : ℕ) : List UInt8 → List UInt8
  | [] => l
  | x :: xs => patch (l.set i x) (i + 1) xs

def word16 (w : ℕ) : List UInt8 :=
  [UInt8.ofNat (w / 0x100), UInt8.ofNat (w % 0x100)]

def slice (l : List UInt8) (i n : ℕ) : List UInt8 :=
  (l.drop i).take n

variable {l xs : List UInt8}

@[simp]
theorem length_patch (l : List UInt8) (i : ℕ) (xs : List UInt8) :
  (patch l i xs).length = l.length
  := by
  induction xs generalizing l i with
  | nil => rfl
  | cons x xs ih => rw [patch, ih, length_set]

theorem mem_set_of_ne {x : UInt8} (h : j ≠ i) :
  mem (l.set i x) j = mem l j
  := by
  rw [mem, mem, getD_eq_getElem?_getD, getD_eq_getElem?_getD,
    getElem?_set_ne h.symm]

theorem mem_set_self {x : UInt8} (h : i < l.length) :
  mem (l.set i x) i = x
  := by
  rw [mem, getD_eq_getElem?_getD, getElem?_set_self h]
  rfl

theorem mem_append_add (l l' : List UInt8) (i : ℕ) :
  mem (l ++ l') (l.length + i) = mem l' i
  := by
  rw [mem, mem, getD_append_right _ _ _ _ (Nat.le_add_right _ _), Nat.add_sub_cancel_left]

theorem be16_mem_append (l l' : List UInt8) (i : ℕ) :
  be16 (mem (l ++ l')) (l.length + i) = be16 (mem l') i
  := by
  rw [be16, be16, mem_append_add, add_assoc, mem_append_add]

theorem be32_mem_append (l l' : List UInt8) (i : ℕ) :
  be32 (mem (l ++ l')) (l.length + i) = be32 (mem l') i
  := by
  rw [be32, be32, be16_mem_append, add_assoc, be16_mem_append]

theorem mem_patch_of_notMem (h : j < i ∨ i + xs.length ≤ j) :
  mem (patch l i xs) j = mem l j
  := by
  induction xs generalizing l i with
  | nil => rfl
  | cons x xs ih =>
    rw [length_cons] at h
    rw [patch, ih (by omega), mem_set_of_ne (by omega)]

theorem be16_patch_self {w : ℕ} (hw : w < 0x10000) (hi : i + 1 < l.length) :
  be16 (mem (patch l i (word16 w))) i = w
  := by
  have hlen : (l.set i (UInt8.ofNat (w / 0x100))).length = l.length := length_set
  have hhi : mem (patch l i (word16 w)) i = UInt8.ofNat (w / 0x100) := by
    rw [word16, patch, patch, patch, mem_set_of_ne (by omega), mem_set_self (by omega)]
  have hlo : mem (patch l i (word16 w)) (i + 1) = UInt8.ofNat (w % 0x100) := by
    rw [word16, patch, patch, patch, mem_set_self (by omega)]
  rw [be16, hhi, hlo, UInt8.toNat_ofNat', UInt8.toNat_ofNat']
  omega

theorem be16_patch_of_notMem (h : j + 1 < i ∨ i + xs.length ≤ j) :
  be16 (mem (patch l i xs)) j = be16 (mem l) j
  := by
  apply be16_congr
  · apply mem_patch_of_notMem
    omega
  · apply mem_patch_of_notMem
    omega

theorem patch_patch_word16 (l : List UInt8) (i w : ℕ) :
  patch (patch l i (word16 w)) i (word16 w) = patch l i (word16 w)
  := by
  simp only [word16, patch]
  rw [set_comm _ _ (by omega : i + 1 ≠ i), set_set, set_set]

theorem sumBytes_patch
    {s k m w : ℕ} (hw : w < 0x10000) (hm : 2 * k + 2 ≤ m) (hl : s + 2 * k + 1 < l.length) :
  sumBytes (mem (patch l (s + 2 * k) (word16 w))) s m + be16 (mem l) (s + 2 * k) =
    sumBytes (mem l) s m + w
  := by
  obtain ⟨r, rfl⟩ : ∃ r, m = 2 * k + (r + 2) := ⟨m - 2 * k - 2, by omega⟩
  have hlen : (word16 w).length = 2 := rfl
  have hbefore : sumBytes (mem (patch l (s + 2 * k) (word16 w))) s (2 * k) =
      sumBytes (mem l) s (2 * k) := by
    apply sumBytes_congr
    intro j _ hj
    apply mem_patch_of_notMem
    omega
  have hbehind : sumBytes (mem (patch l (s + 2 * k) (word16 w))) (s + 2 * k + 2) r =
      sumBytes (mem l) (s + 2 * k + 2) r := by
    apply sumBytes_congr
    intro j hj _
    apply mem_patch_of_notMem
    omega
  rw [sumBytes_add, sumBytes_add, sumBytes, sumBytes, hbefore, hbehind, be16_patch_self hw hl]
  omega

end Bytes
