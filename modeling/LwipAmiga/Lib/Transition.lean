import Mathlib.Algebra.GroupWithZero.Nat
import Mathlib.Logic.Function.Basic

/-!
# Transition systems

The transition function takes a state and a label to the next state, if the label is enabled there.
-/

universe u v

/-! ### Numerals of small index types -/

instance neZero_one : NeZero 1 :=
  ⟨by decide⟩

instance neZero_two : NeZero 2 :=
  ⟨by decide⟩

instance neZero_three : NeZero 3 :=
  ⟨by decide⟩

/-! ### Reachable states -/

structure TransitionSystem (σ : Type u) (ℓ : Type v) where
  init : σ → Prop
  next : σ → ℓ → Option σ

namespace TransitionSystem

variable {σ : Type u} {ℓ : Type v} {S : TransitionSystem σ ℓ} {good good' : σ → ℓ → Prop}

inductive Reach (S : TransitionSystem σ ℓ) (good : σ → ℓ → Prop) : σ → Prop where
  | init {s : σ} (h : S.init s) : Reach S good s
  | step {s s' : σ} {l : ℓ} (r : Reach S good s) (g : good s l) (h : S.next s l = some s') :
      Reach S good s'

def Reachable (S : TransitionSystem σ ℓ) (s : σ) : Prop :=
  S.Reach (fun _ _ => True) s

theorem Reach.invariant
    {I : σ → Prop} (hinit : ∀ s, S.init s → I s)
    (hstep : ∀ s l s', I s → good s l → S.next s l = some s' → I s')
    {s : σ} (r : S.Reach good s) :
  I s
  := by
  induction r with
  | init h => apply hinit _ h
  | step _ g h ih => apply hstep _ _ _ ih g h

theorem Reach.invariant_of
    {J I : σ → Prop} (hJ : ∀ s, S.Reach good s → J s) (hinit : ∀ s, S.init s → I s)
    (hstep : ∀ s l s', J s → I s → good s l → S.next s l = some s' → I s')
    {s : σ} (r : S.Reach good s) :
  I s
  := by
  induction r with
  | init h => apply hinit _ h
  | step r g h ih => apply hstep _ _ _ (hJ _ r) ih g h

theorem Reach.mono
    (h : ∀ s l, good s l → good' s l) {s : σ} (r : S.Reach good s) :
  S.Reach good' s
  := by
  induction r with
  | init hi => apply Reach.init hi
  | step _ g hs ih => apply Reach.step ih (h _ _ g) hs

theorem Reach.reachable {s : σ} (r : S.Reach good s) :
  S.Reachable s
  := r.mono fun _ _ _ => trivial

theorem Reachable.step
    {s s' : σ} {l : ℓ} (r : S.Reachable s) (h : S.next s l = some s') :
  S.Reachable s'
  := Reach.step r trivial h

def exec (S : TransitionSystem σ ℓ) : σ → List ℓ → Option σ
  | s, [] => some s
  | s, l :: ls => (S.next s l).bind fun s' => S.exec s' ls

def Along (S : TransitionSystem σ ℓ) (good : σ → ℓ → Prop) : σ → List ℓ → Prop
  | _, [] => True
  | s, l :: ls => good s l ∧ ∀ s' ∈ S.next s l, S.Along good s' ls

instance decidableAlong [∀ s l, Decidable (good s l)] :
    ∀ (s : σ) (ls : List ℓ), Decidable (S.Along good s ls)
  | _, [] => inferInstanceAs (Decidable True)
  | s, l :: ls =>
      have : DecidablePred fun s' => S.Along good s' ls := fun s' => decidableAlong s' ls
      inferInstanceAs (Decidable (good s l ∧ ∀ s' ∈ S.next s l, S.Along good s' ls))

theorem Reach.exec
    {ls : List ℓ} {s s' : σ} (r : S.Reach good s) (hgood : S.Along good s ls)
    (h : S.exec s ls = some s') :
  S.Reach good s'
  := by
  induction ls generalizing s with
  | nil =>
    cases h
    apply r
  | cons l ls ih =>
    obtain ⟨s₁, h₁, h₂⟩ := Option.bind_eq_some_iff.mp h
    apply ih (Reach.step r hgood.1 h₁) (hgood.2 s₁ h₁) h₂

theorem exec_append
    {ls ls' : List ℓ} {s s' : σ} (h : S.exec s ls = some s') :
  S.exec s (ls ++ ls') = S.exec s' ls'
  := by
  induction ls generalizing s with
  | nil =>
    cases h
    rfl
  | cons l ls ih =>
    obtain ⟨s₁, h₁, h₂⟩ := Option.bind_eq_some_iff.mp h
    rw [List.cons_append, exec, h₁, Option.bind_some, ih h₂]

theorem Along.supply
    {I : σ → Prop} (supply : σ → ℕ) {draws : ℓ → Bool} {ok : σ → ℓ → Prop}
    (hstep : ∀ s l s', I s → good s l → S.next s l = some s' →
      I s' ∧ supply s ≤ supply s' + (draws l).toNat)
    (hok : ∀ s l, I s → good s l → draws l = true → 0 < supply s → ok s l)
    {ls : List ℓ} {s : σ} (hI : I s) (hgood : S.Along good s ls) (hle : ls.countP draws ≤ supply s) :
  S.Along (fun s l => draws l = true → ok s l) s ls
  := by
  induction ls generalizing s with
  | nil => trivial
  | cons l ls ih =>
    rw [List.countP_cons] at hle
    constructor
    · intro hdraws
      apply hok s l hI hgood.1 hdraws
      rw [if_pos hdraws] at hle
      omega
    · intro s' hs'
      obtain ⟨hI', hsupply⟩ := hstep s l s' hI hgood.1 hs'
      apply ih hI' (hgood.2 s' hs')
      cases hdraws : draws l with
      | true =>
        rw [hdraws, Bool.toNat_true] at hsupply
        rw [if_pos hdraws] at hle
        omega
      | false =>
        rw [hdraws, Bool.toNat_false] at hsupply
        omega

def last (S : TransitionSystem σ ℓ) (s : σ) (ls : List ℓ) (h : (S.exec s ls).isSome = true) : σ :=
  (S.exec s ls).get h

theorem reach_last
    {ls : List ℓ} {s : σ} {h : (S.exec s ls).isSome = true} (hs : S.init s)
    (hgood : S.Along good s ls) :
  S.Reach good (S.last s ls h)
  := (Reach.init hs).exec hgood (Option.some_get h).symm

theorem along_true (ls : List ℓ) (s : σ) :
  S.Along (fun _ _ => True) s ls
  := by
  induction ls generalizing s with
  | nil => trivial
  | cons l ls ih => exact ⟨trivial, fun s' _ => ih s'⟩

theorem reachable_last
    {ls : List ℓ} {s : σ} {h : (S.exec s ls).isSome = true} (hs : S.init s) :
  S.Reachable (S.last s ls h)
  := reach_last hs (along_true ls s)

end TransitionSystem
