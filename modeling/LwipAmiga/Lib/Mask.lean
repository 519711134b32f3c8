import Mathlib.Data.BitVec

/-!
# Accounting for bits

A word of bits is pending.  Bits are posted to it, taken from it to be held, cleared and posted back.
-/

namespace Mask

variable {w : ℕ} {m pending held posted x k : BitVec w}

def Accounted (m pending held posted : BitVec w) : Prop :=
  ∀ i, m.getLsbD i = true → (pending.getLsbD i || held.getLsbD i) = posted.getLsbD i

def Disjoint (m x : BitVec w) : Prop :=
  ∀ i, m.getLsbD i = true → x.getLsbD i = false

theorem disjoint_iff :
  Disjoint m x ↔ m &&& x = 0
  := by
  constructor
  · intro h
    apply BitVec.eq_of_getLsbD_eq
    intro i _
    cases hm : m.getLsbD i with
    | false => simp [hm]
    | true => simp [h i hm]
  · intro h i hm
    have hbit := congrArg (·.getLsbD i) h
    simpa [hm] using hbit

instance (m x : BitVec w) : Decidable (Disjoint m x) :=
  decidable_of_iff _ disjoint_iff.symm

theorem or_and_eq_zero :
  (pending ||| x) &&& m = 0 ↔ pending &&& m = 0 ∧ x &&& m = 0
  := by
  rw [BitVec.and_comm, BitVec.and_or_distrib_left, BitVec.and_comm m, BitVec.and_comm m]
  exact BitVec.or_eq_zero_iff

theorem clear_and_eq_zero
    (h : pending &&& m = 0) :
  pending &&& ~~~x &&& m = 0
  := by
  rw [BitVec.and_assoc, BitVec.and_comm (~~~x), ← BitVec.and_assoc, h]
  simp

theorem clear_self
    (h : ∀ i, m.getLsbD i = true → x.getLsbD i = true) :
  pending &&& ~~~x &&& m = 0
  := by
  apply BitVec.eq_of_getLsbD_eq
  intro i hi
  cases hm : m.getLsbD i with
  | false => simp [hm]
  | true => simp [h i hm]

theorem Accounted.start (m pending : BitVec w) :
  Accounted m pending 0 pending
  := by
  intro i _
  simp

theorem Accounted.post
    (h : Accounted m pending held posted) (x : BitVec w) :
  Accounted m (pending ||| x) held (posted ||| x)
  := by
  intro i hi
  have hbit := h i hi
  simp only [BitVec.getLsbD_or]
  rw [← hbit]
  cases pending.getLsbD i <;> cases held.getLsbD i <;> simp

theorem Accounted.raise
    (h : Accounted m pending held posted) (hx : Disjoint m x) :
  Accounted m (pending ||| x) held posted
  := by
  intro i hi
  simp only [BitVec.getLsbD_or, hx i hi, Bool.or_false]
  exact h i hi

theorem Accounted.clear
    (h : Accounted m pending held posted) (hx : Disjoint m x) :
  Accounted m (pending &&& ~~~x) held posted
  := by
  intro i hi
  simp only [BitVec.getLsbD_and, BitVec.getLsbD_not, BitVec.lt_of_getLsbD hi, hx i hi,
    decide_true, Bool.not_false, Bool.and_true]
  exact h i hi

theorem Accounted.take
    (h : Accounted m pending 0 posted) (x : BitVec w) :
  Accounted m (pending &&& ~~~x) (pending &&& x) posted
  := by
  intro i hi
  have hzero : (0 : BitVec w).getLsbD i = false := by simp
  rw [← h i hi, hzero]
  simp only [BitVec.getLsbD_and, BitVec.getLsbD_not, BitVec.lt_of_getLsbD hi, decide_true,
    Bool.true_and]
  cases pending.getLsbD i <;> cases x.getLsbD i <;> rfl

theorem Accounted.restrict
    (h : Accounted m pending held posted) (hk : Disjoint m (held &&& ~~~k)) :
  Accounted m pending (held &&& k) posted
  := by
  intro i hi
  have hbit := hk i hi
  rw [← h i hi]
  simp only [BitVec.getLsbD_and, BitVec.getLsbD_not, BitVec.lt_of_getLsbD hi, decide_true,
    Bool.true_and] at hbit ⊢
  revert hbit
  cases held.getLsbD i <;> cases k.getLsbD i <;> simp

theorem Accounted.restore
    (h : Accounted m pending held posted) :
  Accounted m (pending ||| held) 0 posted
  := by
  intro i hi
  rw [← h i hi]
  simp

theorem Accounted.pending_eq
    (h : Accounted m pending held posted) (hk : Disjoint held k)
    (hm : ∀ i, k.getLsbD i = true → m.getLsbD i = true) :
  pending &&& k = posted &&& k
  := by
  apply BitVec.eq_of_getLsbD_eq
  intro i _
  simp only [BitVec.getLsbD_and]
  cases hki : k.getLsbD i with
  | false => simp
  | true =>
    have hheld : held.getLsbD i = false := by
      rw [Bool.eq_false_iff]
      intro hh
      rw [hk i hh] at hki
      contradiction
    rw [← h i (hm i hki), hheld, Bool.or_false]

theorem Accounted.collect
    (h : Accounted m pending held posted) (hk : Disjoint held (~~~k))
    (hm : ∀ i, k.getLsbD i = true → m.getLsbD i = true) :
  held ||| (pending &&& k) = posted &&& k
  := by
  apply BitVec.eq_of_getLsbD_eq
  intro i hi
  simp only [BitVec.getLsbD_or, BitVec.getLsbD_and]
  cases hki : k.getLsbD i with
  | true =>
    rw [← h i (hm i hki)]
    cases pending.getLsbD i <;> cases held.getLsbD i <;> rfl
  | false =>
    have hheld : held.getLsbD i = false := by
      rw [Bool.eq_false_iff]
      intro hh
      have hnot := hk i hh
      rw [BitVec.getLsbD_not, hki] at hnot
      simp [hi] at hnot
    simp [hheld]

end Mask
