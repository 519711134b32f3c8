import Mathlib.Data.List.Count

/-!
# Reference counts

Some references of an object belong to owners that are not modelled, the others to the items of a list.
-/

open Function List

namespace RefCount

variable {ι : Type*} [DecidableEq ι]

def incr (refs : ι → ℕ) (i : ι) : ι → ℕ :=
  Function.update refs i (refs i + 1)

def decr (refs : ι → ℕ) (i : ι) : ι → ℕ :=
  Function.update refs i (refs i - 1)

def Accounts (refs owned : ι → ℕ) (held : List ι) : Prop :=
  ∀ i, refs i = owned i + held.count i

variable {refs owned : ι → ℕ} {held held' : List ι} {i : ι}

theorem incr_self (refs : ι → ℕ) (i : ι) :
  incr refs i i = refs i + 1
  := update_self ..

theorem incr_of_ne {j : ι} (refs : ι → ℕ) (h : j ≠ i) :
  incr refs i j = refs j
  := update_of_ne h ..

theorem decr_incr (refs : ι → ℕ) (i : ι) :
  decr (incr refs i) i = refs
  := by
  rw [decr, incr_self, incr, Nat.add_sub_cancel, update_idem, update_eq_self]

theorem incr_of_free (h : refs i = 0) :
  update refs i 1 = incr refs i
  := by
  rw [incr, h]

theorem Accounts.perm
    (h : Accounts refs owned held) (hp : held.Perm held') :
  Accounts refs owned held'
  := by
  intro i
  rw [h i, hp.count_eq]

theorem Accounts.incr
    (h : Accounts refs owned held) (i : ι) :
  Accounts (incr refs i) owned (i :: held)
  := by
  intro j
  by_cases hj : j = i
  · subst hj
    rw [incr_self, h j, count_cons_self, Nat.add_assoc]
  · rw [incr_of_ne refs hj, h j, count_cons_of_ne (Ne.symm hj)]

theorem Accounts.decr
    (h : Accounts refs owned (i :: held)) :
  Accounts (decr refs i) owned held
  := by
  intro j
  by_cases hj : j = i
  · subst hj
    rw [RefCount.decr, update_self, h j, count_cons_self]
    omega
  · rw [RefCount.decr, update_of_ne hj, h j, count_cons_of_ne (Ne.symm hj)]

theorem Accounts.own
    (h : Accounts refs owned held) (i : ι) :
  Accounts (RefCount.incr refs i) (RefCount.incr owned i) held
  := by
  intro j
  by_cases hj : j = i
  · subst hj
    rw [incr_self, incr_self, h j]
    omega
  · rw [incr_of_ne refs hj, incr_of_ne owned hj, h j]

theorem Accounts.disown
    (h : Accounts refs owned held) (hi : 0 < owned i) :
  Accounts (RefCount.decr refs i) (RefCount.decr owned i) held
  := by
  intro j
  by_cases hj : j = i
  · subst hj
    rw [RefCount.decr, RefCount.decr, update_self, update_self, h j]
    omega
  · rw [RefCount.decr, RefCount.decr, update_of_ne hj, update_of_ne hj, h j]

theorem Accounts.foldl_decr
    (h : Accounts refs owned (held' ++ held)) :
  Accounts (held'.foldl RefCount.decr refs) owned held
  := by
  induction held' generalizing refs with
  | nil => apply h
  | cons i held' ih => apply ih (Accounts.decr h)

end RefCount
