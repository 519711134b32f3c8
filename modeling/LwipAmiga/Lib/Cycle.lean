import Mathlib.Algebra.Order.Ring.Int
import Mathlib.Data.Finset.Card
import Mathlib.Tactic.Ring

/-!
# Counters that wrap around

A counter that runs through `1, …, n` and starts over, as a function `Cycle.succ n` on the integers.
-/

namespace Cycle

def succ (n : ℕ) (a : ℤ) : ℤ :=
  if a < n then a + 1 else 1

variable {n : ℕ} {a : ℤ}

theorem succ_mem
    (hn : 0 < n) (h : 1 ≤ a ∧ a ≤ n) :
  1 ≤ succ n a ∧ succ n a ≤ n
  := by
  unfold succ
  split <;> omega

theorem iterate_succ
    (h : 1 ≤ a ∧ a ≤ n) (i : ℕ) :
  (succ n)^[i] a = 1 + (a - 1 + i) % n
  := by
  induction i with
  | zero => rw [Function.iterate_zero_apply, Nat.cast_zero, Int.add_zero,
      Int.emod_eq_of_lt (by omega) (by omega), add_sub_cancel]
  | succ i ih =>
    have hpos : (0 : ℤ) < n := by omega
    have hlt := Int.emod_lt_of_pos (a - 1 + i) hpos
    have hnonneg := Int.emod_nonneg (a - 1 + i) hpos.ne'
    rw [Function.iterate_succ_apply', ih, Nat.cast_add, Nat.cast_one, ← add_assoc,
      ← Int.emod_add_emod (a - 1 + i), succ]
    split
    · rw [Int.emod_eq_of_lt (a := (a - 1 + i) % n + 1) (by omega) (by omega)]
      ring
    · have hlast : (a - 1 + i) % n + 1 = n := by omega
      rw [hlast, Int.emod_self, add_zero]

theorem iterate_succ_inj
    (h : 1 ≤ a ∧ a ≤ n) {i j : ℕ} (hi : i < n) (hj : j < n)
    (heq : (succ n)^[i] a = (succ n)^[j] a) :
  i = j
  := by
  rw [iterate_succ h, iterate_succ h] at heq
  have hmod : (a - 1 + i) % n = (a - 1 + j) % n := by omega
  have hsub : ((i : ℤ) - j) % n = 0 := by
    have := Int.emod_eq_emod_iff_emod_sub_eq_zero.mp hmod
    rwa [add_sub_add_left_eq_sub] at this
  have hzero : (i : ℤ) - j = 0 := by
    apply Int.eq_zero_of_abs_lt_dvd (Int.dvd_of_emod_eq_zero hsub)
    rw [abs_lt]
    omega
  omega

theorem exists_notMem
    (h : 1 ≤ a ∧ a ≤ n) (l : List ℤ) {m : ℕ} (hl : l.length < m) (hm : m ≤ n) :
  ∃ i < m, (succ n)^[i] a ∉ l
  := by
  by_contra hall
  push Not at hall
  have hcard : m ≤ l.toFinset.card := by
    calc m = (Finset.range m).card := (Finset.card_range m).symm
      _ ≤ l.toFinset.card := by
        apply Finset.card_le_card_of_injOn fun i => (succ n)^[i] a
        · intro i hi
          simpa using hall i (by simpa using hi)
        · intro i hi j hj heq
          rw [Finset.coe_range, Set.mem_Iio] at hi hj
          apply iterate_succ_inj h (by omega) (by omega) heq
  have := l.toFinset_card_le
  omega

end Cycle
