import Mathlib.Data.List.Nodup

/-!
# Owner tables

A socket names in a table the opener bases that are woken, each with the number of its descriptors.
-/

open List Option

structure SbOwnerRef (β : Type) where
  base : Option β
  fdrefs : UInt16
  deriving DecidableEq

def SB_SOCK_OWNERS : ℕ := 4

structure OwnerTable (β : Type) where
  slots : List (SbOwnerRef β)
  length_slots : slots.length = SB_SOCK_OWNERS
  nodup : (slots.filterMap SbOwnerRef.base).Nodup

namespace SbOwnerRef

variable {β : Type}

def claim (b : β) : List (SbOwnerRef β) → Option (List (SbOwnerRef β))
  | [] => none
  | r :: rs =>
      if r.base = none then some ({ base := some b, fdrefs := 1 } :: rs)
      else (claim b rs).map (r :: ·)

theorem length_claim
    {b : β} {rs rs' : List (SbOwnerRef β)} (h : claim b rs = some rs') :
  rs'.length = rs.length
  := by
  induction rs generalizing rs' with
  | nil => contradiction
  | cons r rs ih =>
    rw [claim] at h
    split at h
    · cases h
      rfl
    · obtain ⟨rs'', h', rfl⟩ := map_eq_some_iff.mp h
      simp [ih h']

theorem bases_claim
    {b : β} {rs rs' : List (SbOwnerRef β)} (h : claim b rs = some rs') :
  (rs'.filterMap base).Perm (b :: rs.filterMap base)
  := by
  induction rs generalizing rs' with
  | nil => contradiction
  | cons r rs ih =>
    rw [claim] at h
    split at h
    · cases h
      simp [*]
    · obtain ⟨rs'', h', rfl⟩ := map_eq_some_iff.mp h
      obtain ⟨c, hc⟩ := ne_none_iff_exists'.mp ‹¬r.base = none›
      simp only [filterMap_cons, hc]
      apply ((ih h').cons c).trans
      apply List.Perm.swap

variable [DecidableEq β]

def bump (b : β) : List (SbOwnerRef β) → List (SbOwnerRef β)
  | [] => []
  | r :: rs => if r.base = some b then { r with fdrefs := r.fdrefs + 1 } :: rs else r :: bump b rs

def drop (b : β) : List (SbOwnerRef β) → List (SbOwnerRef β)
  | [] => []
  | r :: rs =>
      if r.base = some b then
        if r.fdrefs - 1 = 0 then { base := none, fdrefs := 0 } :: rs
        else { r with fdrefs := r.fdrefs - 1 } :: rs
      else r :: drop b rs

def lookup (b : β) : List (SbOwnerRef β) → Option UInt16
  | [] => none
  | r :: rs => if r.base = some b then some r.fdrefs else lookup b rs

/-! ### The slots an operation leaves -/

theorem length_bump (b : β) (rs : List (SbOwnerRef β)) :
  (bump b rs).length = rs.length
  := by
  induction rs with
  | nil => rfl
  | cons r rs ih =>
    rw [bump]
    split
    · rfl
    · simp [ih]

theorem length_drop (b : β) (rs : List (SbOwnerRef β)) :
  (drop b rs).length = rs.length
  := by
  induction rs with
  | nil => rfl
  | cons r rs ih =>
    rw [drop]
    split
    · split <;> rfl
    · simp [ih]

theorem bases_bump (b : β) (rs : List (SbOwnerRef β)) :
  (bump b rs).filterMap base = rs.filterMap base
  := by
  induction rs with
  | nil => rfl
  | cons r rs ih =>
    rw [bump]
    split
    · simp [filterMap_cons]
    · simp [filterMap_cons, ih]

theorem bases_drop (b : β) (rs : List (SbOwnerRef β)) :
  ((drop b rs).filterMap base).Sublist (rs.filterMap base)
  := by
  induction rs with
  | nil => exact List.Sublist.refl _
  | cons r rs ih =>
    rw [drop]
    split
    · split
      · simp [*]
      · simp [filterMap_cons]
    · cases hr : r.base with
      | none => simpa [filterMap_cons, hr] using ih
      | some c =>
        simp only [filterMap_cons, hr]
        apply ih.cons_cons

theorem lookup_isSome_iff (b : β) (rs : List (SbOwnerRef β)) :
  (lookup b rs).isSome ↔ b ∈ rs.filterMap base
  := by
  induction rs with
  | nil => simp [lookup]
  | cons r rs ih =>
    rw [lookup]
    split
    · simp [*]
    · rw [ih, filterMap_cons]
      cases hr : r.base with
      | none => rfl
      | some c =>
        have hne : b ≠ c := by
          rintro rfl
          contradiction
        simp [hne]

/-! ### Entries after an operation -/

theorem lookup_bump
    {b : β} {rs : List (SbOwnerRef β)} {n : UInt16} (h : lookup b rs = some n) (c : β) :
  lookup c (bump b rs) = if c = b then some (n + 1) else lookup c rs
  := by
  induction rs with
  | nil => contradiction
  | cons r rs ih =>
    rw [lookup] at h
    split at h
    · rename_i hr
      cases h
      rw [bump, if_pos hr, lookup, lookup]
      by_cases hc : c = b
      · simp [hc, hr]
      · have : ¬ some b = some c := by
          rintro ⟨⟩
          contradiction
        simp [hc, hr, this]
    · rename_i hr
      rw [bump, if_neg hr, lookup, lookup, ih h]
      by_cases hc : c = b
      · subst hc
        simp [hr]
      · simp [hc]

theorem lookup_claim
    {b : β} {rs rs' : List (SbOwnerRef β)} (h : claim b rs = some rs')
    (hb : lookup b rs = none) (c : β) :
  lookup c rs' = if c = b then some 1 else lookup c rs
  := by
  induction rs generalizing rs' with
  | nil => contradiction
  | cons r rs ih =>
    rw [claim] at h
    split at h
    · rename_i hr
      cases h
      simp only [lookup, hr, some.injEq, reduceCtorEq, if_false]
      by_cases hc : c = b
      · simp [hc]
      · simp [hc, Ne.symm hc]
    · obtain ⟨rs'', h', rfl⟩ := map_eq_some_iff.mp h
      rw [lookup] at hb
      split at hb
      · contradiction
      · rename_i hrb
        rw [lookup, lookup, ih h' hb]
        by_cases hc : c = b
        · subst hc
          simp [hrb]
        · simp [hc]

theorem lookup_drop
    {b : β} {rs : List (SbOwnerRef β)} (hnd : (rs.filterMap base).Nodup) (c : β) :
  lookup c (drop b rs) =
    if c = b then (lookup b rs).bind fun n => if n - 1 = 0 then none else some (n - 1)
    else lookup c rs
  := by
  induction rs with
  | nil => simp [lookup, drop]
  | cons r rs ih =>
    by_cases hr : r.base = some b
    · have hout : lookup b rs = none := by
        simp only [filterMap_cons, hr, nodup_cons] at hnd
        rw [← lookup_isSome_iff] at hnd
        simpa using hnd.1
      by_cases hz : r.fdrefs - 1 = 0
      · simp only [drop, if_pos hr, if_pos hz, lookup]
        by_cases hc : c = b
        · simp [hc, hz, hout]
        · simp [hc, hr, Ne.symm hc]
      · simp only [drop, if_pos hr, if_neg hz, lookup]
        by_cases hc : c = b
        · simp [hc, hz, hr]
        · simp [hc, hr, Ne.symm hc]
    · have hnd' : (rs.filterMap base).Nodup := by
        apply List.Nodup.sublist _ hnd
        apply List.Sublist.filterMap
        apply sublist_cons_self
      simp only [drop, if_neg hr, lookup, ih hnd']
      by_cases hc : c = b
      · simp [hc, hr]
      · simp [hc]

end SbOwnerRef

namespace OwnerTable

variable {β : Type} [DecidableEq β]

def single (b : β) : OwnerTable β where
  slots := [⟨some b, 1⟩, ⟨none, 0⟩, ⟨none, 0⟩, ⟨none, 0⟩]
  length_slots := rfl
  nodup := by simp

def entry (t : OwnerTable β) (b : β) : Option UInt16 :=
  SbOwnerRef.lookup b t.slots

def bases (t : OwnerTable β) : List β :=
  t.slots.filterMap SbOwnerRef.base

/-- `sb_owner_first`: the base in the first occupied slot. -/
def first (t : OwnerTable β) : Option β :=
  t.bases.head?

/-- `sb_owner_incref`: one more descriptor for `b`, in its slot if it has one and else in the first
empty slot; `none` when there is neither. -/
def incref (t : OwnerTable β) (b : β) : Option (OwnerTable β) :=
  if h : t.entry b = none then
    match hc : SbOwnerRef.claim b t.slots with
    | none => none
    | some slots =>
        some
          { slots
            length_slots := (SbOwnerRef.length_claim hc).trans t.length_slots
            nodup := by
              rw [(SbOwnerRef.bases_claim hc).nodup_iff, List.nodup_cons]
              refine ⟨?_, t.nodup⟩
              rw [← SbOwnerRef.lookup_isSome_iff]
              simpa [entry] using h }
  else
    some
      { slots := SbOwnerRef.bump b t.slots
        length_slots := (SbOwnerRef.length_bump ..).trans t.length_slots
        nodup := by
          rw [SbOwnerRef.bases_bump]
          exact t.nodup }

/-- `sb_owner_decref`: one descriptor less for `b`, which leaves the table with its last one. -/
def decref (t : OwnerTable β) (b : β) : OwnerTable β where
  slots := SbOwnerRef.drop b t.slots
  length_slots := (SbOwnerRef.length_drop ..).trans t.length_slots
  nodup := List.Nodup.sublist (SbOwnerRef.bases_drop ..) t.nodup

theorem mem_bases {t : OwnerTable β} {b : β} :
  b ∈ t.bases ↔ (t.entry b).isSome
  := (SbOwnerRef.lookup_isSome_iff ..).symm

theorem entry_single (b c : β) :
  (single b).entry c = if c = b then some 1 else none
  := by
  by_cases h : c = b
  · simp [single, entry, SbOwnerRef.lookup, h]
  · simp [single, entry, SbOwnerRef.lookup, h, Ne.symm h]

theorem entry_incref
    {t t' : OwnerTable β} {b : β} (h : t.incref b = some t') (c : β) :
  t'.entry c = if c = b then some ((t.entry b).elim 1 (· + 1)) else t.entry c
  := by
  unfold incref at h
  split at h
  · rename_i hb
    split at h
    · contradiction
    · rename_i slots hc
      cases h
      rw [hb]
      exact SbOwnerRef.lookup_claim hc hb c
  · rename_i hb
    obtain ⟨n, hn⟩ := ne_none_iff_exists'.mp hb
    cases h
    rw [hn]
    exact SbOwnerRef.lookup_bump hn c

theorem incref_isSome_of_entry {t : OwnerTable β} {b : β} (h : (t.entry b).isSome) :
  (t.incref b).isSome
  := by
  have hne : t.entry b ≠ none := by
    intro heq
    simp [heq] at h
  simp [incref, hne]

theorem entry_decref (t : OwnerTable β) (b c : β) :
  (t.decref b).entry c =
    if c = b then (t.entry b).bind fun n => if n - 1 = 0 then none else some (n - 1)
    else t.entry c
  := SbOwnerRef.lookup_drop t.nodup c

theorem entry_of_first {t : OwnerTable β} {b : β} (h : t.first = some b) :
  (t.entry b).isSome
  := by
  rw [← mem_bases]
  exact mem_of_mem_head? (by simpa [first] using h)

end OwnerTable
