import Mathlib.Algebra.BigOperators.Group.Multiset.Basic
import Mathlib.Algebra.GroupWithZero.Nat

/-!
# Tables of counted keys

A table of keys with counts stands for the multiset `counted l` that has each key as often as the
table counts it.
-/

open Multiset List

universe u

/-! ### Removal of an entry -/

namespace List

variable {α : Type u} {l : List α} {i : ℕ} {a : α}

def swapRemove (l : List α) (i : ℕ) : List α :=
  match l.getLast? with
  | none => l
  | some last => (l.set i last).dropLast

theorem perm_cons_eraseIdx (h : l[i]? = some a) :
  l.Perm (a :: l.eraseIdx i)
  := by
  obtain ⟨hi, rfl⟩ := getElem?_eq_some_iff.mp h
  apply (getElem_cons_eraseIdx_perm hi).symm

theorem modify_perm (h : l[i]? = some a) (f : α → α) :
  (l.modify i f).Perm (f a :: l.eraseIdx i)
  := by
  have hget : (l.modify i f)[i]? = some (f a) := by
    rw [List.getElem?_modify, h, Option.map_eq_map, Option.map_some, if_pos rfl]
  rw [← List.eraseIdx_modify_of_eq f i l]
  apply perm_cons_eraseIdx hget

theorem map_modify_of_eq {β : Type*} {g : α → β} {f : α → α} (h : ∀ a, g (f a) = g a) :
  (l.modify i f).map g = l.map g
  := by
  apply List.ext_getElem?
  intro j
  rw [List.getElem?_map, List.getElem?_modify, List.getElem?_map, Option.map_eq_map,
    Option.map_map]
  congr 1
  funext a
  by_cases hij : i = j
  · rw [Function.comp_apply, if_pos hij, h]
  · rw [Function.comp_apply, if_neg hij]

theorem swapRemove_perm (h : i < l.length) :
  (l.swapRemove i).Perm (l.eraseIdx i)
  := by
  obtain rfl | ⟨init, last, rfl⟩ := eq_nil_or_concat' l
  · contradiction
  · simp only [swapRemove, getLast?_append, getLast?_singleton, Option.some_or]
    rw [set_append, eraseIdx_append]
    by_cases hi : i < init.length
    · rw [if_pos hi, if_pos hi, dropLast_concat]
      apply (set_perm_cons_eraseIdx hi last).trans
      apply (perm_append_singleton last _).symm
    · obtain hlast : i - init.length = 0 := by
        rw [length_append, length_singleton] at h
        omega
      rw [if_neg hi, if_neg hi, hlast, set_cons_zero, eraseIdx_cons_zero,
        dropLast_concat, append_nil]

end List

/-! ### What a table counts -/

namespace Tally

variable {κ : Type u} {l l' : List (κ × ℕ)} {e : κ × ℕ} {k : κ} {out : Multiset κ} {n : ℕ}

def counted (l : List (κ × ℕ)) : Multiset κ :=
  (l.map fun e => Multiset.replicate e.2 e.1).sum

@[simp]
theorem counted_nil :
  counted ([] : List (κ × ℕ)) = 0
  := rfl

@[simp]
theorem counted_cons (e : κ × ℕ) (l : List (κ × ℕ)) :
  counted (e :: l) = Multiset.replicate e.2 e.1 + counted l
  := by
  rw [counted, List.map_cons, List.sum_cons, counted]

theorem counted_perm (h : l.Perm l') :
  counted l = counted l'
  := (h.map _).sum_eq

theorem card_counted (l : List (κ × ℕ)) :
  (counted l).card = (l.map Prod.snd).sum
  := by
  induction l with
  | nil => rfl
  | cons e l ih =>
    rw [counted_cons, Multiset.card_add, Multiset.card_replicate, ih, List.map_cons,
      List.sum_cons]

theorem mem_keys_of_mem_counted (h : k ∈ counted l) :
  k ∈ l.map Prod.fst
  := by
  induction l with
  | nil => contradiction
  | cons e l ih =>
    rw [counted_cons, Multiset.mem_add] at h
    rcases h with h | h
    · obtain rfl := Multiset.eq_of_mem_replicate h
      apply List.mem_cons_self
    · apply List.mem_cons_of_mem _ (ih h)

theorem mem_counted (h : e ∈ l) (hpos : 0 < e.2) :
  e.1 ∈ counted l
  := by
  obtain ⟨l₁, l₂, rfl⟩ := List.append_of_mem h
  rw [counted_perm List.perm_middle, counted_cons, Multiset.mem_add]
  left
  apply Multiset.mem_replicate.mpr ⟨hpos.ne', rfl⟩

theorem le_card_counted (h : e ∈ l) :
  e.2 ≤ (counted l).card
  := by
  obtain ⟨l₁, l₂, rfl⟩ := append_of_mem h
  rw [counted_perm perm_middle, counted_cons, card_add, card_replicate]
  apply Nat.le_add_right

theorem counted_succ (rest : List (κ × ℕ)) :
  counted ((k, n + 1) :: rest) = k ::ₘ counted ((k, n) :: rest)
  := by
  rw [counted_cons, counted_cons, Multiset.replicate_succ, Multiset.cons_add]

/-! ### A table and the keys it has no row for -/

structure Splits (out : Multiset κ) (l : List (κ × ℕ)) (n : ℕ) : Prop where
  le : counted l ≤ out
  card : (counted l).card + n = out.card

theorem Splits.empty :
  Splits (0 : Multiset κ) [] 0
  := ⟨le_rfl, rfl⟩

theorem Splits.perm (h : Splits out l n) (hl : l.Perm l') :
  Splits out l' n
  := by
  constructor
  · rw [← counted_perm hl]
    apply h.le
  · rw [← counted_perm hl]
    apply h.card

theorem Splits.count (h : Splits out l n) (hl : counted l' = k ::ₘ counted l) :
  Splits (k ::ₘ out) l' n
  := by
  constructor
  · rw [hl]
    apply cons_le_cons k h.le
  · rw [hl, card_cons, card_cons, ← h.card]
    omega

theorem Splits.miss (h : Splits out l n) (k : κ) :
  Splits (k ::ₘ out) l (n + 1)
  := by
  constructor
  · apply h.le.trans (le_cons_self out k)
  · rw [card_cons, ← h.card, Nat.add_assoc]

theorem Splits.uncount (h : Splits (k ::ₘ out) l n) (hl : counted l = k ::ₘ counted l') :
  Splits out l' n
  := by
  constructor
  · rw [← cons_le_cons_iff k, ← hl]
    apply h.le
  · have hcard := h.card
    rw [hl, card_cons, card_cons] at hcard
    omega

theorem Splits.pos (h : Splits out l n) (hk : k ∈ out) (hnot : k ∉ counted l) :
  0 < n
  := by
  have hlt : counted l < out := by
    apply lt_of_le_of_ne h.le
    rintro rfl
    contradiction
  have hcard := h.card
  have hless := card_lt_card hlt
  omega

theorem Splits.unmiss (h : Splits (k ::ₘ out) l (n + 1)) (hnot : k ∉ counted l) :
  Splits out l n
  := by
  constructor
  · apply (le_cons_of_notMem hnot).mp h.le
  · have hcard := h.card
    rw [card_cons] at hcard
    omega

theorem Splits.card_le (h : Splits out l n) :
  (counted l).card ≤ out.card
  := by
  have hcard := h.card
  omega

end Tally
