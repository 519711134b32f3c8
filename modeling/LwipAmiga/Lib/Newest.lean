import Mathlib.Tactic.Common

/-!
# Rings of the newest entries

A ring of `cap` slots is written at its head, which then moves on by one slot, and is read from the
head backwards.
-/

open Function

universe u

namespace Newest

variable {α : Type u}

def back (cap idx : ℕ) : ℕ :=
  (if idx = 0 then cap else idx) - 1

def entries (ring : ℕ → α) (cap : ℕ) : ℕ → ℕ → List α
  | _, 0 => []
  | idx, n + 1 => ring (back cap idx) :: entries ring cap (back cap idx) n

structure Keeps (ring : ℕ → α) (cap head : ℕ) (log : List α) : Prop where
  head_lt : head < cap
  entries : ∀ n ≤ cap, n ≤ log.length → entries ring cap head n = log.take n

variable {ring : ℕ → α} {cap head idx n : ℕ} {log : List α} {x : α}

theorem back_succ (h : head < cap) :
  back cap ((head + 1) % cap) = head
  := by
  unfold back
  obtain hwrap | hlt := Nat.eq_or_lt_of_le (Nat.succ_le_of_lt h)
  · rw [← hwrap, Nat.mod_self, if_pos rfl, Nat.succ_sub_one]
  · rw [Nat.mod_eq_of_lt hlt, if_neg head.succ_ne_zero, Nat.succ_sub_one]

theorem entries_update
    (h : n + head < idx ∨ idx ≤ head ∧ n + head < idx + cap) :
  entries (update ring head x) cap idx n = entries ring cap idx n
  := by
  induction n generalizing idx with
  | zero => rfl
  | succ n ih =>
    have hne : back cap idx ≠ head := by
      unfold back
      split <;> omega
    rw [entries, entries, update_of_ne hne, ih]
    unfold back
    split <;> omega

theorem Keeps.nil (h : head < cap) :
  Keeps ring cap head []
  := by
  refine ⟨h, fun n _ hn => ?_⟩
  rw [Nat.le_zero.mp hn]
  rfl

theorem Keeps.push (h : Keeps ring cap head log) (x : α) :
  Keeps (update ring head x) cap ((head + 1) % cap) (x :: log)
  := by
  refine ⟨Nat.mod_lt _ (Nat.zero_lt_of_lt h.head_lt), fun n hcap hn => ?_⟩
  cases n with
  | zero => rfl
  | succ n =>
    rw [List.length_cons, Nat.succ_le_succ_iff] at hn
    rw [Newest.entries, back_succ h.head_lt, update_self, List.take_succ_cons,
      ← h.entries n (Nat.le_of_lt hcap) hn, entries_update]
    right
    omega

end Newest
