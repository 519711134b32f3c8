import LwipAmiga.Lib.Transition
import Mathlib.Order.WellFounded

/-!
# Behaviours

A behaviour of a transition system is an infinite run in which nothing may happen at some times.
-/

open Option List

universe u v w

namespace TransitionSystem

variable {σ : Type u} {ℓ : Type v} {α : Type w} {S : TransitionSystem σ ℓ} {good : σ → ℓ → Prop}

structure Behaviour (S : TransitionSystem σ ℓ) where
  state : ℕ → σ
  act : ℕ → Option ℓ
  init : S.init (state 0)
  pause : ∀ n, act n = none → state (n + 1) = state n
  step : ∀ n l, act n = some l → S.next (state n) l = some (state (n + 1))

def Enabled (S : TransitionSystem σ ℓ) (agent : ℓ → Option α) (a : α) (s : σ) : Prop :=
  ∃ l, agent l = some a ∧ (S.next s l).isSome = true

namespace Behaviour

variable {b : S.Behaviour} {agent : ℓ → Option α} {n k : ℕ}

def Meets (b : S.Behaviour) (good : σ → ℓ → Prop) : Prop :=
  ∀ n l, b.act n = some l → good (b.state n) l

def Fair (b : S.Behaviour) (agent : ℓ → Option α) : Prop :=
  ∀ a n, (∀ k, n ≤ k → S.Enabled agent a (b.state k)) →
    ∃ k, n ≤ k ∧ ∃ l, b.act k = some l ∧ agent l = some a

theorem Meets.reach (h : b.Meets good) (n : ℕ) :
  S.Reach good (b.state n)
  := by
  induction n with
  | zero => apply Reach.init b.init
  | succ n ih =>
    cases hact : b.act n with
    | none =>
      rw [b.pause n hact]
      apply ih
    | some l => apply Reach.step ih (h n l hact) (b.step n l hact)

theorem holds_to
    {P : σ → Prop} (hn : P (b.state n)) (hle : n ≤ k)
    (hstep : ∀ i l, n ≤ i → i < k → P (b.state i) → b.act i = some l → P (b.state (i + 1))) :
  P (b.state k)
  := by
  induction k, hle using Nat.le_induction with
  | base => apply hn
  | succ k hle ih =>
    have hk : P (b.state k) := ih fun i l hi hlt => hstep i l hi (hlt.trans (Nat.lt_succ_self k))
    cases hact : b.act k with
    | none =>
      rw [b.pause k hact]
      apply hk
    | some l => apply hstep k l hle (Nat.lt_succ_self k) hk hact

theorem Fair.leadsTo
    {β : Type*} [Preorder β] [WellFoundedLT β] {P Q : σ → Prop} (hfair : b.Fair agent)
    (measure : σ → β) (helper : σ → α)
    (henabled : ∀ k, n ≤ k → P (b.state k) → S.Enabled agent (helper (b.state k)) (b.state k))
    (hstep : ∀ k l, n ≤ k → P (b.state k) → b.act k = some l →
      Q (b.state (k + 1)) ∨ P (b.state (k + 1)) ∧
        (measure (b.state (k + 1)) < measure (b.state k) ∨
          agent l ≠ some (helper (b.state k)) ∧ measure (b.state (k + 1)) = measure (b.state k) ∧
            helper (b.state (k + 1)) = helper (b.state k)))
    (hn : P (b.state n)) :
  ∃ k, n ≤ k ∧ Q (b.state k)
  := by
  by_contra hnone
  have hnot : ∀ k, n ≤ k → ¬ Q (b.state k) := fun k hk hQ => hnone ⟨k, hk, hQ⟩
  have hP : ∀ k, n ≤ k → P (b.state k) := by
    intro k hk
    refine holds_to hn hk fun i l hi _ hPi hact => ?_
    rcases hstep i l hi hPi hact with hQ | ⟨hPi', -⟩
    · exact absurd hQ (hnot (i + 1) (hi.trans (Nat.le_succ i)))
    · apply hPi'
  -- By induction on the measure, no time behind `n` has it.
  have hno : ∀ x k, n ≤ k → measure (b.state k) = x → False := by
    intro x
    induction x using WellFoundedLT.induction with
    | ind x ih =>
      intro k hk hx
      have hleast : ∀ j, k ≤ j → ¬ measure (b.state j) < x := fun j hj hlt =>
        ih _ hlt j (hk.trans hj) rfl
      have hstill : ∀ j, k ≤ j →
          measure (b.state j) = x ∧ helper (b.state j) = helper (b.state k) := by
        intro j hj
        refine holds_to (P := fun s => measure s = x ∧ helper s = helper (b.state k)) ⟨hx, rfl⟩ hj ?_
        rintro i l hi - ⟨hxi, hai⟩ hact
        have hi' : k ≤ i + 1 := hi.trans (Nat.le_succ i)
        rcases hstep i l (hk.trans hi) (hP i (hk.trans hi)) hact with hQ | ⟨-, hlt | ⟨-, hxe, hae⟩⟩
        · exact absurd hQ (hnot (i + 1) (hk.trans hi'))
        · exact absurd (hxi ▸ hlt) (hleast (i + 1) hi')
        · exact ⟨hxe.trans hxi, hae.trans hai⟩
      -- So the helper can always go on, and its step decreases the measure.
      obtain ⟨j, hj, l, hact, hagent⟩ := hfair (helper (b.state k)) k fun j hj =>
        (hstill j hj).2 ▸ henabled j (hk.trans hj) (hP j (hk.trans hj))
      obtain ⟨hxj, haj⟩ := hstill j hj
      have hj' : k ≤ j + 1 := hj.trans (Nat.le_succ j)
      rcases hstep j l (hk.trans hj) (hP j (hk.trans hj)) hact with hQ | ⟨-, hlt | ⟨hne, -, -⟩⟩
      · apply hnot (j + 1) (hk.trans hj') hQ
      · apply hleast (j + 1) hj' (hxj ▸ hlt)
      · apply hne (haj ▸ hagent)
  apply hno _ n le_rfl rfl

/-! ### The behaviour of a list of labels -/

theorem exec_append_eq_bind (s : σ) (ls ls' : List ℓ) :
  S.exec s (ls ++ ls') = (S.exec s ls).bind fun s' => S.exec s' ls'
  := by
  cases h : S.exec s ls with
  | some s' => apply exec_append h
  | none =>
    induction ls generalizing s with
    | nil => contradiction
    | cons l ls ih =>
      rw [cons_append, exec]
      rw [exec] at h
      cases hl : S.next s l with
      | none => rfl
      | some s₁ =>
        rw [hl, bind_some] at h
        apply ih s₁ h

theorem exec_take
    {s : σ} {ls : List ℓ} (h : (S.exec s ls).isSome = true) (n : ℕ) :
  ∃ s', S.exec s (ls.take n) = some s'
  := by
  rw [← take_append_drop n ls, exec_append_eq_bind] at h
  obtain ⟨s', hs'⟩ := isSome_iff_exists.mp h
  obtain ⟨s₁, hs₁, -⟩ := bind_eq_some_iff.mp hs'
  exact ⟨s₁, hs₁⟩

def ofList (s : σ) (ls : List ℓ) (hs : S.init s) (h : (S.exec s ls).isSome = true) : S.Behaviour where
  state n := (S.exec s (ls.take n)).getD s
  act n := ls[n]?
  init := hs
  pause n hn := by
    rw [List.take_of_length_le, List.take_of_length_le]
    · apply List.getElem?_eq_none_iff.mp hn
    · apply (List.getElem?_eq_none_iff.mp hn).trans (Nat.le_succ n)
  step n l hn := by
    obtain ⟨s₁, hs₁⟩ := exec_take h n
    obtain ⟨s₂, hs₂⟩ := exec_take h (n + 1)
    rw [hs₁, hs₂, Option.getD_some, Option.getD_some]
    rw [List.take_add_one, hn, Option.toList_some, exec_append hs₁] at hs₂
    obtain ⟨s₃, hs₃, hlast⟩ := Option.bind_eq_some_iff.mp hs₂
    rw [hs₃]
    apply hlast

theorem meets_ofList
    {s : σ} {ls : List ℓ} (hs : S.init s) (h : (S.exec s ls).isSome = true)
    (hgood : S.Along good s ls) :
  (ofList s ls hs h).Meets good
  := by
  intro n l hn
  obtain ⟨s₁, hs₁⟩ := exec_take h n
  change ls[n]? = some l at hn
  change good ((S.exec s (ls.take n)).getD s) l
  rw [hs₁, getD_some]
  clear h hs
  induction ls generalizing s n with
  | nil => contradiction
  | cons l₀ ls ih =>
    cases n with
    | zero =>
      cases hs₁
      cases hn
      apply hgood.1
    | succ n =>
      rw [take_succ_cons] at hs₁
      obtain ⟨s₂, hs₂, hrest⟩ := bind_eq_some_iff.mp hs₁
      apply ih (hgood.2 s₂ hs₂) n hrest hn

theorem fair_ofList
    {s s' : σ} {ls : List ℓ} (hs : S.init s) (h : S.exec s ls = some s')
    (hend : ∀ a, ¬ S.Enabled agent a s') :
  (ofList s ls hs (by rw [h]; rfl)).Fair agent
  := by
  intro a n henabled
  have hlast := henabled (n + ls.length) (Nat.le_add_right ..)
  change S.Enabled agent a ((S.exec s (ls.take (n + ls.length))).getD s) at hlast
  rw [take_of_length_le (Nat.le_add_left ..), h] at hlast
  exact absurd hlast (hend a)

end Behaviour

end TransitionSystem
