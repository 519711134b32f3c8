import Mathlib.Algebra.BigOperators.Group.Finset.Basic
import Mathlib.Data.Fintype.Basic

/-!
# Families one member of which changes

The components of a concurrent state form a finite family, and a step changes one of them.
-/

open List Finset Function

open scoped BigOperators

theorem Finset.sum_comp_update
    {ι α : Type*} [Fintype ι] [DecidableEq ι] (g : α → ℕ) (f : ι → α) (i : ι) (v : α) :
  ∑ j, g (update f i v j) + g (f i) = ∑ j, g (f j) + g v
  := by
  have hrest : ∑ j ∈ univ.erase i, g (update f i v j)
      = ∑ j ∈ univ.erase i, g (f j) := by
    apply sum_congr rfl
    intro j hj
    rw [update_of_ne (ne_of_mem_erase hj)]
  rw [← add_sum_erase _ _ (mem_univ i),
    ← add_sum_erase _ (fun j => g (f j)) (mem_univ i), hrest,
    update_self]
  omega

theorem List.count_set_add
    {α : Type*} [BEq α] {l : List α} {i : ℕ} {x : α} (h : l[i]? = some x) (y z : α) :
  (l.set i y).count z + (if x == z then 1 else 0) = l.count z + (if y == z then 1 else 0)
  := by
  induction l generalizing i with
  | nil => simp at h
  | cons a l ih =>
    cases i with
    | zero =>
      obtain rfl : a = x := by simpa using h
      simp only [set_cons_zero, count_cons]
      omega
    | succ i =>
      have hi : l[i]? = some x := by simpa using h
      have := ih hi
      simp only [set_cons_succ, count_cons]
      omega

theorem List.count_map_eraseP
    {α γ : Type*} [BEq γ] {p : α → Bool} {l : List α} {x : α} (h : l.find? p = some x) (f : α → γ)
    (z : γ) :
  ((l.eraseP p).map f).count z + (if f x == z then 1 else 0) = (l.map f).count z
  := by
  induction l with
  | nil => contradiction
  | cons a l ih =>
    rw [List.find?_cons] at h
    split at h
    · rename_i ha
      cases h
      rw [List.eraseP_cons_of_pos ha, List.map_cons, List.count_cons]
    · rename_i ha
      have := ih h
      rw [List.eraseP_cons_of_neg (by simp [ha]), List.map_cons, List.map_cons,
        List.count_cons, List.count_cons]
      omega
