import Mathlib.Data.List.Nodup

/-!
# Lineups

A lock that is granted in order is the list of its users, whose first has the lock.
-/

open List

variable {α κ : Type*} {owner : α → κ} {want want' : κ → Option α} {q : List α} {x y : α}

structure Lineup (owner : α → κ) (want : κ → Option α) (q : List α) : Prop where
  nodup : q.Nodup
  mem : ∀ x, x ∈ q ↔ want (owner x) = some x

namespace Lineup

theorem congr
    (h : Lineup owner want q) (hwant : ∀ k, want' k = want k) :
  Lineup owner want' q
  := by
  obtain rfl : want' = want := funext hwant
  apply h

theorem join
    (h : Lineup owner want q) (hnone : want (owner x) = none) (hsome : want' (owner x) = some x)
    (hother : ∀ k, k ≠ owner x → want' k = want k) :
  Lineup owner want' (q ++ [x])
  := by
  have hx : x ∉ q := by
    intro hx
    cases hnone.symm.trans ((h.mem x).mp hx)
  constructor
  · rw [nodup_append]
    refine ⟨h.nodup, nodup_singleton x, ?_⟩
    rintro y hy z hz rfl
    apply hx (mem_singleton.mp hz ▸ hy)
  · intro y
    rw [mem_append, mem_singleton, h.mem]
    by_cases hy : owner y = owner x
    · rw [hy, hnone, hsome]
      simp [eq_comm]
    · rw [hother _ hy]
      constructor
      · rintro (hwant | rfl)
        · apply hwant
        · exact absurd rfl hy
      · apply Or.inl

theorem leave
    (h : Lineup owner want q) (hhead : q.head? = some x) (hnone : want' (owner x) = none)
    (hother : ∀ k, k ≠ owner x → want' k = want k) :
  Lineup owner want' q.tail
  := by
  obtain ⟨rest, rfl⟩ := head?_eq_some_iff.mp hhead
  obtain ⟨hx, hrest⟩ := nodup_cons.mp h.nodup
  constructor
  · apply hrest
  · intro y
    change y ∈ rest ↔ _
    have hmem := h.mem y
    rw [mem_cons] at hmem
    by_cases hy : owner y = owner x
    · rw [hy, hnone]
      have hwant : want (owner x) = some x := (h.mem x).mp mem_cons_self
      rw [hy, hwant] at hmem
      constructor
      · intro hy'
        obtain rfl := Option.some.inj (hmem.mp (.inr hy'))
        contradiction
      · nofun
    · rw [hother _ hy, ← hmem]
      constructor
      · apply Or.inr
      · rintro (rfl | hy')
        · exact absurd rfl hy
        · apply hy'

theorem head_of_want (h : Lineup owner want q) (x : α) (hwant : want (owner x) = some x) :
  ∃ y, q.head? = some y ∧ want (owner y) = some y
  := by
  have hx := (h.mem x).mpr hwant
  cases q with
  | nil => contradiction
  | cons y rest => exact ⟨y, rfl, (h.mem y).mp mem_cons_self⟩

theorem idxOf_tail_lt [DecidableEq α] (hhead : q.head? = some y) (hne : y ≠ x) :
  q.tail.idxOf x < q.idxOf x
  := by
  obtain ⟨rest, rfl⟩ := head?_eq_some_iff.mp hhead
  rw [idxOf_cons_ne rest hne]
  apply Nat.lt_succ_self

end Lineup
