import Mathlib.Algebra.GroupWithZero.Nat
import Mathlib.Order.Interval.Finset.Nat

/-!
# Ranges of addresses

Ranges `[a, a + n)` that do not overlap.  A list of ranges that are pairwise apart fits where all of
them lie (`sum_le_of_apart`).
-/

open Finset

def Apart (a n a' n' : ℕ) : Prop :=
  a + n ≤ a' ∨ a' + n' ≤ a

theorem Apart.symm {a n a' n' : ℕ} (h : Apart a n a' n') :
  Apart a' n' a n
  := Or.symm h

theorem Apart.disjoint {a n a' n' : ℕ} (h : Apart a n a' n') :
  Disjoint (Finset.Ico a (a + n)) (Finset.Ico a' (a' + n'))
  := by
  rw [disjoint_left]
  intro x hx hx'
  rw [mem_Ico] at hx hx'
  unfold Apart at h
  omega

def covered : List (ℕ × ℕ) → Finset ℕ
  | [] => ∅
  | r :: l => Finset.Ico r.1 (r.1 + r.2) ∪ covered l

theorem mem_covered {l : List (ℕ × ℕ)} {x : ℕ} :
  x ∈ covered l ↔ ∃ r ∈ l, r.1 ≤ x ∧ x < r.1 + r.2
  := by
  induction l with
  | nil => simp [covered]
  | cons r l ih => simp [covered, ih]

theorem card_covered {l : List (ℕ × ℕ)} (h : l.Pairwise fun r r' => Apart r.1 r.2 r'.1 r'.2) :
  (covered l).card = (l.map Prod.snd).sum
  := by
  induction l with
  | nil => rfl
  | cons r l ih =>
    obtain ⟨hhead, htail⟩ := List.pairwise_cons.mp h
    have hdisjoint : Disjoint (Finset.Ico r.1 (r.1 + r.2)) (covered l) := by
      rw [disjoint_left]
      intro x hx hx'
      obtain ⟨r', hr', hlo, hhi⟩ := mem_covered.mp hx'
      have hapart := (hhead r' hr').disjoint
      rw [disjoint_left] at hapart
      exact hapart hx (mem_Ico.mpr ⟨hlo, hhi⟩)
    rw [covered, card_union_of_disjoint hdisjoint, ih htail, Nat.card_Ico, List.map_cons,
      List.sum_cons, Nat.add_sub_cancel_left]

theorem sum_le_of_apart
    {l : List (ℕ × ℕ)} {lo hi : ℕ} (h : l.Pairwise fun r r' => Apart r.1 r.2 r'.1 r'.2)
    (hl : ∀ r ∈ l, lo ≤ r.1 ∧ r.1 + r.2 ≤ hi) :
  (l.map Prod.snd).sum ≤ hi - lo
  := by
  rw [← card_covered h, ← Nat.card_Ico lo hi]
  apply card_le_card
  intro x hx
  obtain ⟨r, hr, hlo, hhi⟩ := mem_covered.mp hx
  obtain ⟨hlo', hhi'⟩ := hl r hr
  rw [mem_Ico]
  omega
