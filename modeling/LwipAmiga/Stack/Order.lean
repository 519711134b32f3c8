import Mathlib.Data.List.DropRight
import Mathlib.Data.List.Lex
import Mathlib.Algebra.Order.Ring.Int

/-!
# The order in which interfaces are added

`sort_entries` takes the files one by one and shifts those that come later by one place.
-/

open List Function

namespace IfOrder

structure IfEntry where
  pri : ℤ
  name : List UInt8

def strcmp (s t : List UInt8) : Ordering :=
  if s.map UInt8.toNat < t.map UInt8.toNat then .lt
  else if t.map UInt8.toNat < s.map UInt8.toNat then .gt
  else .eq

def comesAfter (ifs : ℕ → IfEntry) (e x : ℕ) : Bool :=
  decide ((ifs x).pri < (ifs e).pri) ||
    decide ((ifs x).pri = (ifs e).pri) && decide (strcmp (ifs x).name (ifs e).name = .gt)

def shift (ifs : ℕ → IfEntry) (e : ℕ) : ℕ → (ℕ → ℕ) → ℕ → ℕ
  | 0, order => Function.update order 0 e
  | j + 1, order =>
      if comesAfter ifs e (order j) then shift ifs e j (Function.update order (j + 1) (order j))
      else Function.update order (j + 1) e

def sortEntries (ifs : ℕ → IfEntry) : ℕ → (ℕ → ℕ) → ℕ → ℕ
  | 0, order => order
  | numIfs + 1, order => shift ifs numIfs numIfs (sortEntries ifs numIfs order)

def Precedes (ifs : ℕ → IfEntry) (a b : ℕ) : Prop :=
  (ifs b).pri < (ifs a).pri ∨
    (ifs a).pri = (ifs b).pri ∧
      (strcmp (ifs a).name (ifs b).name = .lt ∨ strcmp (ifs a).name (ifs b).name = .eq ∧ a < b)

variable {ifs : ℕ → IfEntry} {a b c e : ℕ} {l : List ℕ} {s t : List UInt8}

theorem strcmp_eq_lt :
  strcmp s t = .lt ↔ s.map UInt8.toNat < t.map UInt8.toNat
  := by
  unfold strcmp
  split_ifs with hlt hgt <;> simp [hlt]

theorem strcmp_eq_gt :
  strcmp s t = .gt ↔ t.map UInt8.toNat < s.map UInt8.toNat
  := by
  unfold strcmp
  split_ifs with hlt hgt
  · simp [hlt.le]
  · simp [hgt]
  · simp [hgt]

theorem strcmp_eq_eq :
  strcmp s t = .eq ↔ s.map UInt8.toNat = t.map UInt8.toNat
  := by
  unfold strcmp
  split_ifs with hlt hgt
  · simp [hlt.ne]
  · simp [hgt.ne']
  · simp [le_antisymm (not_lt.mp hgt) (not_lt.mp hlt)]

theorem Precedes.trans (hab : Precedes ifs a b) (hbc : Precedes ifs b c) :
  Precedes ifs a c
  := by
  simp only [Precedes, strcmp_eq_lt, strcmp_eq_eq] at hab hbc ⊢
  obtain hab | ⟨hab, hname⟩ := hab
  · left
    obtain hbc | ⟨hbc, -⟩ := hbc
    · apply hbc.trans hab
    · apply hbc ▸ hab
  · obtain hbc | ⟨hbc, hname'⟩ := hbc
    · left
      apply hab ▸ hbc
    · refine Or.inr ⟨hab.trans hbc, ?_⟩
      obtain hname | ⟨hname, hlt⟩ := hname
      · left
        obtain hname' | ⟨hname', -⟩ := hname'
        · apply hname.trans hname'
        · apply hname' ▸ hname
      · rw [hname]
        obtain hname' | ⟨hname', hlt'⟩ := hname'
        · apply Or.inl hname'
        · apply Or.inr ⟨hname', hlt.trans hlt'⟩

theorem precedes_of_comesAfter (h : comesAfter ifs e a = true) :
  Precedes ifs e a
  := by
  simp only [comesAfter, Bool.or_eq_true, Bool.and_eq_true, decide_eq_true_eq, strcmp_eq_gt] at h
  obtain h | ⟨hpri, hname⟩ := h
  · apply Or.inl h
  · apply Or.inr ⟨hpri.symm, Or.inl (strcmp_eq_lt.mpr hname)⟩

theorem precedes_of_not_comesAfter (h : ¬ comesAfter ifs e a = true) (hlt : a < e) :
  Precedes ifs a e
  := by
  simp only [comesAfter, Bool.or_eq_true, Bool.and_eq_true, decide_eq_true_eq, strcmp_eq_gt, not_or,
    not_and, not_lt] at h
  obtain ⟨hpri, hname⟩ := h
  obtain hpri | hpri := hpri.lt_or_eq
  · apply Or.inl hpri
  · refine Or.inr ⟨hpri.symm, ?_⟩
    rw [strcmp_eq_lt, strcmp_eq_eq]
    obtain hname | hname := (hname hpri.symm).lt_or_eq
    · apply Or.inl hname
    · apply Or.inr ⟨hname, hlt⟩

/-! ### Insertion -/

def place (ifs : ℕ → IfEntry) (e : ℕ) (l : List ℕ) : List ℕ :=
  l.rdropWhile (comesAfter ifs e) ++ e :: l.rtakeWhile (comesAfter ifs e)

theorem perm_place (e : ℕ) (l : List ℕ) :
  (place ifs e l).Perm (e :: l)
  := by
  have hperm : (place ifs e l).Perm _ := perm_middle
  rw [rdropWhile_append_rtakeWhile] at hperm
  apply hperm

theorem precedes_of_mem_rdropWhile
    (hl : l.Pairwise (Precedes ifs)) (he : ∀ x ∈ l, x < e)
    (ha : a ∈ l.rdropWhile (comesAfter ifs e)) :
  Precedes ifs a e
  := by
  induction l using reverseRecOn with
  | nil => contradiction
  | append_singleton l x ih =>
    obtain ⟨hl, -, hlast⟩ := pairwise_append.mp hl
    by_cases hx : comesAfter ifs e x = true
    · rw [rdropWhile_concat_pos _ _ _ hx] at ha
      apply ih hl (fun y hy => he y (mem_append_left _ hy)) ha
    · rw [rdropWhile_concat_neg _ _ _ hx] at ha
      have hxe : Precedes ifs x e := precedes_of_not_comesAfter hx (he x (by simp))
      obtain ha | ha := mem_append.mp ha
      · apply (hlast a ha x mem_cons_self).trans hxe
      · rw [mem_singleton.mp ha]
        apply hxe

theorem pairwise_place (hl : l.Pairwise (Precedes ifs)) (he : ∀ x ∈ l, x < e) :
  (place ifs e l).Pairwise (Precedes ifs)
  := by
  have hsplit := hl
  rw [← rdropWhile_append_rtakeWhile (p := comesAfter ifs e) (l := l),
    pairwise_append] at hsplit
  obtain ⟨hbefore, hbehind, hacross⟩ := hsplit
  have hnew : ∀ x ∈ l.rtakeWhile (comesAfter ifs e), Precedes ifs e x := fun x hx =>
    precedes_of_comesAfter (mem_rtakeWhile_imp hx)
  rw [place, pairwise_append]
  refine ⟨hbefore, pairwise_cons.mpr ⟨hnew, hbehind⟩, ?_⟩
  intro x hx y hy
  obtain rfl | hy := mem_cons.mp hy
  · apply precedes_of_mem_rdropWhile hl he hx
  · apply hacross x hx y hy

/-! ### The loops -/

theorem shift_of_lt {j k : ℕ} (h : j < k) (order : ℕ → ℕ) :
  shift ifs e j order k = order k
  := by
  induction j generalizing order with
  | zero => rw [shift, update_of_ne h.ne']
  | succ j ih =>
    rw [shift]
    split
    · rw [ih (Nat.lt_of_succ_lt h), update_of_ne h.ne']
    · rw [update_of_ne h.ne']

theorem map_update_of_le {j k : ℕ} (h : j ≤ k) (order : ℕ → ℕ) (x : ℕ) :
  (range j).map (update order k x) = (range j).map order
  := by
  apply map_congr_left
  intro i hi
  rw [update_of_ne ((mem_range.mp hi).trans_le h).ne]

theorem map_shift (j : ℕ) (order : ℕ → ℕ) :
  (range (j + 1)).map (shift ifs e j order) = place ifs e ((range j).map order)
  := by
  induction j generalizing order with
  | zero =>
    rw [shift]
    simp [place]
  | succ j ih =>
    have hlast : ∀ order : ℕ → ℕ, ∀ n,
        (range (n + 1)).map order = (range n).map order ++ [order n] := by
      intro order n
      rw [range_succ, map_append, map_singleton]
    rw [hlast, place, hlast order]
    by_cases hafter : comesAfter ifs e (order j) = true
    · rw [rdropWhile_concat_pos _ _ _ hafter, rtakeWhile_concat_pos _ _ _ hafter, shift,
        if_pos hafter, shift_of_lt (Nat.lt_succ_self j), update_self, ih,
        map_update_of_le (Nat.le_succ j), place, append_assoc, cons_append]
    · rw [rdropWhile_concat_neg _ _ _ hafter, rtakeWhile_concat_neg _ _ _ hafter, shift,
        if_neg hafter, update_self, map_update_of_le le_rfl, hlast]

/-- `sort_entries` leaves every interface file once in `order[]`, each one before those it precedes. -/
theorem sortEntries_sorts (ifs : ℕ → IfEntry) (numIfs : ℕ) (order : ℕ → ℕ) :
  ((List.range numIfs).map (sortEntries ifs numIfs order)).Perm (List.range numIfs) ∧
    ((List.range numIfs).map (sortEntries ifs numIfs order)).Pairwise (Precedes ifs)
  := by
  induction numIfs with
  | zero => simp
  | succ n ih =>
    obtain ⟨hperm, hsorted⟩ := ih
    rw [sortEntries, map_shift]
    constructor
    · rw [range_succ]
      apply ((perm_place n _).trans (hperm.cons n)).trans
      apply (perm_append_singleton n _).symm
    · apply pairwise_place hsorted
      intro x hx
      apply mem_range.mp (hperm.mem_iff.mp hx)

end IfOrder
