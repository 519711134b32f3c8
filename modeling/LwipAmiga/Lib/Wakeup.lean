import LwipAmiga.Lib.Transition

/-!
# Sleeping and waking

Tasks sleep until something they wait for happens.
-/

namespace Wakeup

variable {β : Type*}

def NoLost (asleep blocked : β → Prop) (sig : β → Bool) : Prop :=
  ∀ b, asleep b → sig b = true ∨ blocked b

variable {asleep asleep' blocked blocked' : β → Prop} {sig sig' : β → Bool}

theorem NoLost.change
    (h : NoLost asleep blocked sig) (hstay : ∀ b, asleep' b → asleep b)
    (hsig : ∀ b, asleep' b → sig b = true → sig' b = true)
    (hblocked : ∀ b, asleep' b → blocked b → sig' b = true ∨ blocked' b) :
  NoLost asleep' blocked' sig'
  := by
  intro b hb
  obtain hpending | hold := h b (hstay b hb)
  · left
    apply hsig b hb hpending
  · apply hblocked b hb hold

theorem NoLost.act
    (h : NoLost asleep blocked sig) (a : β) (hstay : ∀ b, b ≠ a → asleep' b → asleep b)
    (hsig : ∀ b, b ≠ a → sig b = true → sig' b = true)
    (hblocked : ∀ b, b ≠ a → asleep' b → blocked b → sig' b = true ∨ blocked' b)
    (hself : asleep' a → blocked' a) :
  NoLost asleep' blocked' sig'
  := by
  intro b hb
  by_cases hba : b = a
  · subst hba
    right
    apply hself hb
  · obtain hpending | hold := h b (hstay b hba hb)
    · left
      apply hsig b hba hpending
    · apply hblocked b hba hb hold

def signal [DecidableEq β] (sig : β → Bool) (bs : List β) : β → Bool :=
  fun b => sig b || decide (b ∈ bs)

section Signal

variable [DecidableEq β] {bs : List β} {b : β}

theorem signal_of_mem (h : b ∈ bs) :
  signal sig bs b = true
  := by
  simp [signal, h]

theorem signal_of_pending (h : sig b = true) :
  signal sig bs b = true
  := by
  simp [signal, h]

end Signal

end Wakeup
