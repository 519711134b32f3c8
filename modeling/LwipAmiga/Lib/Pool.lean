import Mathlib.Algebra.Order.Group.Multiset
import Mathlib.Data.Multiset.Range

/-!
# Pools of tokens

A pool has `n` tokens, numbered from 0.
-/

open Multiset Function

structure Pool (χ : Type) where
  free : List ℕ
  out : ℕ
  tag : ℕ → χ
  released : Multiset χ
  live : Multiset ℕ
  came : Multiset χ

namespace Pool

variable {χ : Type} {n a : ℕ} {c : χ} {p p' : Pool χ}

def fresh (n : ℕ) (tag : ℕ → χ) : Pool χ where
  free := (List.range n).reverse
  out := 0
  tag := tag
  released := 0
  live := 0
  came := 0

def borrow (p : Pool χ) (c : χ) : Option (ℕ × Pool χ) :=
  match p.free with
  | [] => none
  | a :: free =>
      some (a, { p with
        free := free
        out := p.out + 1
        tag := Function.update p.tag a c
        live := a ::ₘ p.live
        came := c ::ₘ p.came })

def refund (p : Pool χ) (a : ℕ) : Pool χ :=
  { p with
    free := a :: p.free
    out := p.out - 1
    released := p.tag a ::ₘ p.released
    live := p.live.erase a }

def pass (p : Pool χ) (c : χ) : Pool χ :=
  { p with
    released := c ::ₘ p.released
    came := c ::ₘ p.came }

structure Balanced (n : ℕ) (p : Pool χ) : Prop where
  tokens : (p.free : Multiset ℕ) + p.live = Multiset.range n
  count : p.free.length + p.out = n
  items : p.came = p.released + p.live.map p.tag

theorem balanced_fresh (n : ℕ) (tag : ℕ → χ) :
  Balanced n (fresh n tag)
  := by
  constructor
  · simp [fresh, range]
  · simp [fresh]
  · simp [fresh]

theorem Balanced.nodup (h : Balanced n p) :
  ((p.free : Multiset ℕ) + p.live).Nodup
  := by
  rw [h.tokens]
  apply nodup_range

theorem Balanced.card_live (h : Balanced n p) :
  p.live.card = p.out
  := by
  have htokens := congrArg card h.tokens
  have hcount := h.count
  rw [card_add, coe_card, card_range] at htokens
  omega

theorem borrow_some (hp : p.borrow c = some (a, p')) :
  p'.live = a ::ₘ p.live ∧ p'.came = c ::ₘ p.came
  := by
  unfold Pool.borrow at hp
  split at hp
  · contradiction
  · cases hp
    exact ⟨rfl, rfl⟩

theorem Balanced.borrow (h : Balanced n p) (hp : p.borrow c = some (a, p')) :
  Balanced n p'
  := by
  unfold Pool.borrow at hp
  split at hp
  · contradiction
  · rename_i b free hfree
    obtain ⟨rfl, rfl⟩ := Prod.mk.inj (Option.some.inj hp)
    have htokens := h.tokens
    have hcount := h.count
    rw [hfree] at htokens hcount
    -- The token was not out, so no other tag changes.
    have hnotMem : b ∉ p.live := by
      have hnodup := h.nodup
      rw [hfree, ← cons_coe, cons_add] at hnodup
      intro hmem
      apply (nodup_cons.mp hnodup).1
      exact mem_add.mpr (.inr hmem)
    have htags : p.live.map (update p.tag b c) = p.live.map p.tag := by
      apply map_congr rfl
      intro x hx
      apply update_of_ne
      rintro rfl
      contradiction
    constructor
    · rw [add_cons, ← htokens, ← cons_coe, cons_add]
    · rw [List.length_cons] at hcount
      change free.length + (p.out + 1) = n
      omega
    · change c ::ₘ p.came =
        p.released + (b ::ₘ p.live).map (update p.tag b c)
      rw [map_cons, update_self, htags, add_cons, ← h.items]

theorem Balanced.refund (h : Balanced n p) (ha : a ∈ p.live) :
  Balanced n (p.refund a)
  := by
  have hcard := h.card_live
  have hcount := h.count
  have hpos : 0 < p.live.card := card_pos_iff_exists_mem.mpr ⟨a, ha⟩
  constructor
  · change ((a :: p.free : List ℕ) : Multiset ℕ) + p.live.erase a = _
    rw [← cons_coe, cons_add, ← add_cons, cons_erase ha,
      h.tokens]
  · change (a :: p.free).length + (p.out - 1) = n
    rw [List.length_cons]
    omega
  · change p.came = p.tag a ::ₘ p.released + (p.live.erase a).map p.tag
    rw [h.items, cons_add, ← add_cons, ← map_cons,
      cons_erase ha]

theorem Balanced.foldl_refund
    {l : List ℕ} {r : Multiset ℕ} (h : Balanced n p) (hlive : p.live = l + r) :
  Balanced n (l.foldl Pool.refund p) ∧ (l.foldl Pool.refund p).live = r ∧
    (l.foldl Pool.refund p).came = p.came
  := by
  induction l generalizing p with
  | nil =>
    rw [coe_nil, zero_add] at hlive
    exact ⟨h, hlive, rfl⟩
  | cons a l ih =>
    rw [← cons_coe, cons_add] at hlive
    have hrest : (p.refund a).live = l + r := by
      change p.live.erase a = l + r
      rw [hlive, erase_cons_head]
    have ha : a ∈ p.live := by
      rw [hlive]
      apply mem_cons_self
    apply ih (h.refund ha) hrest

theorem Balanced.pass (h : Balanced n p) (c : χ) :
  Balanced n (p.pass c)
  := by
  constructor
  · apply h.tokens
  · apply h.count
  · change c ::ₘ p.came = c ::ₘ p.released + p.live.map p.tag
    rw [h.items, cons_add]

end Pool
