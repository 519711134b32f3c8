import Mathlib.Algebra.Group.Nat.Defs
import Mathlib.Data.Nat.Basic

/-!
# One's-complement sums

The Internet checksum adds 16-bit words and folds the carries back in.
-/

namespace Ones

def foldOnce (s : ℕ) : ℕ :=
  s % 0x10000 + s / 0x10000

def fold (s : ℕ) : ℕ :=
  foldOnce (foldOnce s)

def norm (s : ℕ) : ℕ :=
  if s = 0 then 0 else (s - 1) % 0xFFFF + 1

def compl (w : ℕ) : ℕ :=
  0xFFFF - w

def update (hc m m' : ℕ) : ℕ :=
  compl (fold (compl hc + compl m + m'))

variable {s hc m m' : ℕ}

theorem fold_lt (h : s < 2 ^ 32) :
  fold s < 0x10000
  := by
  unfold fold foldOnce
  omega

theorem foldOnce_mod (s : ℕ) :
  foldOnce s % 0xFFFF = s % 0xFFFF
  := by
  unfold foldOnce
  omega

theorem fold_mod (s : ℕ) :
  fold s % 0xFFFF = s % 0xFFFF
  := by
  rw [fold, foldOnce_mod, foldOnce_mod]

theorem fold_eq_zero_iff :
  fold s = 0 ↔ s = 0
  := by
  unfold fold foldOnce
  omega

theorem norm_lt (s : ℕ) :
  norm s < 0x10000
  := by
  unfold norm
  split <;> omega

theorem norm_mod (s : ℕ) :
  norm s % 0xFFFF = s % 0xFFFF
  := by
  unfold norm
  split <;> omega

theorem add_compl_norm_mod (s : ℕ) :
  (s + compl (norm s)) % 0xFFFF = 0
  := by
  have hlt := norm_lt s
  have hmod := norm_mod s
  unfold compl
  omega

theorem fold_eq_ones_iff (h : s < 2 ^ 32) :
  fold s = 0xFFFF ↔ s ≠ 0 ∧ s % 0xFFFF = 0
  := by
  have hlt := fold_lt h
  have hmod := fold_mod s
  have hzero := fold_eq_zero_iff (s := s)
  omega

theorem update_lt :
  update hc m m' < 0x10000
  := by
  unfold update compl
  omega

theorem update_add
    (hhc : hc < 0x10000) (hm : m < 0x10000) (hm' : m' < 0x10000) :
  (update hc m m' + m') % 0xFFFF = (hc + m) % 0xFFFF
  := by
  have hsum : compl hc + compl m + m' < 2 ^ 32 := by
    unfold compl
    omega
  have hlt := fold_lt hsum
  have hmod := fold_mod (compl hc + compl m + m')
  unfold update
  unfold compl at *
  omega

end Ones
