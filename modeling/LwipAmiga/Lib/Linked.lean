import Mathlib.Data.List.Basic

/-!
# Lists linked through memory

`Linked next p l`: the addresses of `l` are linked from `p` by the words of `next`, the last one's
being the null.
-/

def Linked (next : ℕ → ℕ) : ℕ → List ℕ → Prop
  | p, [] => p = 0
  | p, a :: l => p = a ∧ a ≠ 0 ∧ Linked next (next a) l

namespace Linked

variable {next next' : ℕ → ℕ} {p a : ℕ} {l l' : List ℕ}

theorem congr (h : Linked next p l) (hnext : ∀ a ∈ l, next' a = next a) :
  Linked next' p l
  := by
  induction l generalizing p with
  | nil => exact h
  | cons a l ih =>
    obtain ⟨rfl, hne, hrest⟩ := h
    refine ⟨rfl, hne, ?_⟩
    rw [hnext p (.head _)]
    apply ih hrest
    intro b hb
    exact hnext b (.tail _ hb)

theorem eq_nil_iff (h : Linked next p l) :
  p = 0 ↔ l = []
  := by
  cases l with
  | nil => exact iff_of_true h rfl
  | cons a l =>
    obtain ⟨rfl, hne, -⟩ := h
    exact iff_of_false hne nofun

theorem push
    (h : Linked next p l) (ha : a ≠ 0) (hself : next' a = p)
    (hnext : ∀ b ∈ l, next' b = next b) :
  Linked next' a (a :: l)
  := by
  refine ⟨rfl, ha, ?_⟩
  rw [hself]
  apply h.congr hnext

end Linked
