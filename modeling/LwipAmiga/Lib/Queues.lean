import Mathlib.Data.List.Nodup

/-!
# Families of queues

`Q l` is the queue kept at `l`, and an element waits when it is in one of the queues.
-/

open Function List

namespace Queues

variable {κ : Type*} {Q : κ → List κ} {l k q x : κ} {rest : List κ}

def Waiting (Q : κ → List κ) (q : κ) : Prop :=
  ∃ l, q ∈ Q l

structure Apart (Q : κ → List κ) : Prop where
  nodup : ∀ l, (Q l).Nodup
  unique : ∀ l l' q, q ∈ Q l → q ∈ Q l' → l = l'
  leaf : ∀ q, Waiting Q q → Q q = []

theorem Apart.mono
    (h : Apart Q) {Q' : κ → List κ} (hsub : ∀ j, (Q' j).Sublist (Q j)) :
  Apart Q'
  := by
  constructor
  · intro j
    apply (h.nodup j).sublist (hsub j)
  · intro j j' y hy hy'
    apply h.unique j j' y ((hsub j).subset hy) ((hsub j').subset hy')
  · rintro y ⟨j, hy⟩
    apply eq_nil_of_sublist_nil
    rw [← h.leaf y ⟨j, (hsub j).subset hy⟩]
    apply hsub

variable [DecidableEq κ]

theorem mem_update {m : List κ} {j : κ} :
  x ∈ update Q l m j ↔ j = l ∧ x ∈ m ∨ j ≠ l ∧ x ∈ Q j
  := by
  by_cases hj : j = l
  · subst hj
    simp
  · simp [hj]

/-! ### Joining a queue -/

theorem mem_push {j : κ} :
  x ∈ update Q l (Q l ++ [k]) j ↔ x ∈ Q j ∨ j = l ∧ x = k
  := by
  rw [mem_update, mem_append, mem_singleton]
  by_cases hj : j = l
  · subst hj
    simp
  · simp [hj]

theorem waiting_push :
  Waiting (update Q l (Q l ++ [k])) x ↔ Waiting Q x ∨ x = k
  := by
  simp only [Waiting, mem_push, exists_or, exists_and_right, exists_eq, true_and]

theorem Apart.push
    (h : Apart Q) (hk : ¬ Waiting Q k) (hnil : Q k = []) (hl : ¬ Waiting Q l) (hlk : l ≠ k) :
  Apart (update Q l (Q l ++ [k]))
  := by
  constructor
  · intro j
    by_cases hj : j = l
    · subst hj
      rw [update_self, nodup_append]
      refine ⟨h.nodup j, nodup_singleton k, ?_⟩
      intro y hy z hz
      rw [mem_singleton] at hz
      rintro rfl
      exact hk ⟨j, hz ▸ hy⟩
    · rw [update_of_ne hj]
      apply h.nodup
  · intro j j' y hy hy'
    rw [mem_push] at hy hy'
    obtain hy | ⟨rfl, rfl⟩ := hy
    · obtain hy' | ⟨rfl, rfl⟩ := hy'
      · apply h.unique j j' y hy hy'
      · exact absurd ⟨j, hy⟩ hk
    · obtain hy' | ⟨rfl, -⟩ := hy'
      · exact absurd ⟨j', hy'⟩ hk
      · rfl
  · intro y hy
    rw [waiting_push] at hy
    obtain hy | rfl := hy
    · rw [update_of_ne]
      · apply h.leaf y hy
      · rintro rfl
        apply hl hy
    · rw [update_of_ne hlk.symm, hnil]

/-! ### Taking the first element -/

theorem Apart.mem_pop
    (h : Apart Q) (hl : Q l = q :: rest) {j : κ} :
  x ∈ update Q l rest j ↔ x ∈ Q j ∧ x ≠ q
  := by
  have hnodup := h.nodup l
  rw [hl, nodup_cons] at hnodup
  have hq : q ∈ Q l := by
    rw [hl]
    apply mem_cons_self
  rw [mem_update]
  by_cases hj : j = l
  · subst hj
    rw [hl, mem_cons]
    constructor
    · rintro (⟨-, hx⟩ | ⟨hne, -⟩)
      · refine ⟨Or.inr hx, ?_⟩
        rintro rfl
        apply hnodup.1 hx
      · contradiction
    · rintro ⟨hx, hne⟩
      exact Or.inl ⟨rfl, hx.resolve_left hne⟩
  · simp only [hj, false_and, ne_eq, not_false_eq_true, true_and, false_or, iff_self_and]
    rintro hx rfl
    apply hj (h.unique j l x hx hq)

theorem Apart.waiting_pop
    (h : Apart Q) (hl : Q l = q :: rest) :
  Waiting (update Q l rest) x ↔ Waiting Q x ∧ x ≠ q
  := by
  simp only [Waiting, h.mem_pop hl, exists_and_right]

theorem Apart.pop
    (h : Apart Q) (hl : Q l = q :: rest) :
  Apart (update Q l rest)
  := by
  apply h.mono
  intro j
  by_cases hj : j = l
  · subst hj
    rw [update_self, hl]
    apply sublist_cons_self
  · rw [update_of_ne hj]

/-! ### Emptying a queue -/

theorem Apart.clear
    (h : Apart Q) (l : κ) :
  Apart (update Q l [])
  := by
  apply h.mono
  intro j
  by_cases hj : j = l
  · subst hj
    rw [update_self]
    apply nil_sublist
  · rw [update_of_ne hj]

theorem Apart.waiting_clear
    (h : Apart Q) :
  Waiting (update Q l []) x ↔ Waiting Q x ∧ x ∉ Q l
  := by
  constructor
  · rintro ⟨j, hx⟩
    rw [mem_update] at hx
    obtain ⟨-, hx⟩ | ⟨hj, hx⟩ := hx
    · contradiction
    · exact ⟨⟨j, hx⟩, fun hx' => hj (h.unique j l x hx hx')⟩
  · rintro ⟨⟨j, hx⟩, hxl⟩
    refine ⟨j, mem_update.mpr (Or.inr ⟨?_, hx⟩)⟩
    rintro rfl
    contradiction

end Queues
