import Mathlib.Algebra.BigOperators.Fin
import Mathlib.Tactic.Abel

/-!
# Tables of held items

A table with finitely many slots delays items on their way through.  An item goes to the slot of its
key.
-/

open List Multiset Function Finset

namespace Hold

variable {α κ : Type} {n : ℕ}

def emit : List α → List (List α)
  | [] => []
  | a :: l => [a :: l]

@[simp]
theorem flatten_emit (l : List α) :
  (emit l).flatten = l
  := by
  cases l with
  | nil => rfl
  | cons a l => simp [emit]

theorem mem_emit {ys l : List α} :
  ys ∈ emit l ↔ l ≠ [] ∧ ys = l
  := by
  cases l with
  | nil | cons a l => simp [emit]

def emitAll (held : Fin n → List α) : List (List α) :=
  (List.finRange n).flatMap fun i => emit (held i)

@[simp]
theorem flatten_emitAll (held : Fin n → List α) :
  (emitAll held).flatten = (finRange n).flatMap held
  := by
  simp [emitAll, flatMap_def, flatten_flatten, comp_def]

inductive Took (key : α → κ) (newer : α → α → Prop) (l : List α) (x : α) :
    List (List α) → List α → List α → Prop where
  | pass (h : ∀ y ∈ l, key y ≠ key x) : Took key newer l x [[x]] [] l
  | release : Took key newer l x (emit l ++ [[x]]) [] []
  | start : Took key newer l x (emit l) [] [x]
  | push (h : ∀ y ∈ l, key y = key x) : Took key newer l x [] [] (l ++ [x])
  | renew {a : α} (hl : l = [a]) (hkey : key a = key x) (hnewer : newer x a) :
      Took key newer l x [] [a] [x]

inductive Op (α : Type) where
  | item (x : α)
  | flush

def items (ops : List (Op α)) : List α :=
  ops.filterMap fun
    | .item x => some x
    | .flush => none

inductive Run (key : α → κ) (newer : α → α → Prop) (hash : κ → Fin n) :
    List (Op α) → (Fin n → List α) → List (List α) → List α → Prop where
  | nil : Run key newer hash [] (fun _ => []) [] []
  | item {ops : List (Op α)} {held : Fin n → List α} {out o : List (List α)} {gone d l : List α}
      {x : α} (r : Run key newer hash ops held out gone)
      (h : Took key newer (held (hash (key x))) x o d l) :
      Run key newer hash (ops ++ [.item x]) (Function.update held (hash (key x)) l) (out ++ o)
        (gone ++ d)
  | flush {ops : List (Op α)} {held : Fin n → List α} {out : List (List α)} {gone : List α}
      (r : Run key newer hash ops held out gone) :
      Run key newer hash (ops ++ [.flush]) (fun _ => []) (out ++ emitAll held) gone

inductive Coalesced (newer : α → α → Prop) : List α → List α → Prop where
  | nil : Coalesced newer [] []
  | keep {xs ys : List α} {x : α} (h : Coalesced newer xs ys) :
      Coalesced newer (xs ++ [x]) (ys ++ [x])
  | replace {xs ys : List α} {a x : α} (h : Coalesced newer xs (ys ++ [a])) (hnewer : newer x a) :
      Coalesced newer (xs ++ [x]) (ys ++ [x])

variable {key : α → κ} {newer : α → α → Prop} {hash : κ → Fin n} {ops : List (Op α)}
  {held : Fin n → List α} {out o : List (List α)} {gone d l l' : List α} {x : α}

@[simp]
theorem items_append (ops ops' : List (Op α)) :
  items (ops ++ ops') = items ops ++ items ops'
  := filterMap_append

/-! ### Slots -/

theorem Took.perm (h : Took key newer l x o d l') :
  (l ++ [x]).Perm (o.flatten ++ d ++ l')
  := by
  cases h with
  | pass h | release | start | push h => simp
  | renew hl hkey hnewer =>
    subst hl
    simp

theorem Took.mem
    {y : α} (h : Took key newer l x o d l') (hy : y ∈ o.flatten ∨ y ∈ l') :
  y ∈ l ∨ y = x
  := by
  have hmem : y ∈ o.flatten ++ d ++ l' := by
    simp only [mem_append]
    tauto
  simpa using h.perm.mem_iff.mpr hmem

def Uniform (key : α → κ) (l : List α) : Prop :=
  ∀ y ∈ l, ∀ z ∈ l, key y = key z

theorem Took.uniform (h : Took key newer l x o d l') (hl : Uniform key l) :
  Uniform key l'
  := by
  cases h with
  | pass h => apply hl
  | release => nofun
  | start | renew hl hkey hnewer => simp [Uniform]
  | push h =>
    have hkey : ∀ y ∈ l ++ [x], key y = key x := by
      simpa [or_imp, forall_and] using h
    intro y hy z hz
    rw [hkey y hy, hkey z hz]

theorem Took.emitted (h : Took key newer l x o d l') (hl : Uniform key l) :
  ∀ ys ∈ o, ys ≠ [] ∧ Uniform key ys
  := by
  have hemit : ∀ ys ∈ emit l, ys ≠ [] ∧ Uniform key ys := by
    intro ys hys
    obtain ⟨hne, rfl⟩ := mem_emit.mp hys
    exact ⟨hne, hl⟩
  have hitem : ∀ ys ∈ [[x]], ys ≠ [] ∧ Uniform key ys := by
    simp [Uniform]
  cases h with
  | pass h => apply hitem
  | release =>
    intro ys hys
    obtain hheld | hlast := mem_append.mp hys
    · apply hemit ys hheld
    · apply hitem ys hlast
  | start => apply hemit
  | push h | renew hl hkey hnewer => nofun

section Filter

variable [DecidableEq κ] {k : κ}

def ofKey (key : α → κ) (k : κ) (l : List α) : List α :=
  l.filter fun y => key y = k

theorem ofKey_append (l l' : List α) :
  ofKey key k (l ++ l') = ofKey key k l ++ ofKey key k l'
  := filter_append ..

theorem ofKey_eq_self (h : ∀ y ∈ l, key y = k) :
  ofKey key k l = l
  := by
  apply filter_eq_self.mpr
  simpa using h

theorem ofKey_eq_nil (h : ∀ y ∈ l, key y ≠ k) :
  ofKey key k l = []
  := by
  apply filter_eq_nil_iff.mpr
  simpa using h

theorem flatten_filter_any (h : ∀ ys ∈ out, Uniform key ys) :
  (out.filter fun ys => ys.any fun y => key y = k).flatten = ofKey key k out.flatten
  := by
  induction out with
  | nil => rfl
  | cons ys out ih =>
    rw [List.flatten_cons, ofKey_append, ← ih fun zs hzs => h zs (List.mem_cons_of_mem _ hzs),
      List.filter_cons]
    have huniform := h ys List.mem_cons_self
    split
    · rename_i hany
      obtain ⟨y, hy, hk⟩ := List.any_eq_true.mp hany
      rw [List.flatten_cons, ofKey_eq_self]
      intro z hz
      rw [huniform z hz y hy]
      simpa using hk
    · rename_i hany
      rw [ofKey_eq_nil, List.nil_append]
      intro y hy hk
      apply hany
      rw [List.any_eq_true]
      exact ⟨y, hy, by simpa using hk⟩

theorem Took.ofKey_of_ne
    (h : Took key newer l x o d l') (hk : key x ≠ k) :
  ofKey key k o.flatten ++ ofKey key k l' = ofKey key k l
  := by
  have hx : ofKey key k [x] = [] := by
    apply ofKey_eq_nil
    simpa using hk
  cases h with
  | pass h =>
    rw [flatten_singleton, hx, nil_append]
  | release =>
    rw [flatten_append, flatten_emit, flatten_singleton, ofKey_append, hx,
      append_nil]
    apply append_nil
  | start =>
    rw [flatten_emit, hx, append_nil]
  | push h =>
    rw [ofKey_append, hx, append_nil]
    rfl
  | renew hl hkey hnewer =>
    subst hl
    rw [hx]
    symm
    apply ofKey_eq_nil
    simpa [hkey] using hk

theorem Took.ofKey_self
    (h : Took key newer l x o d l') (hk : key x = k) :
  ofKey key k o.flatten ++ ofKey key k l' = ofKey key k l ++ [x] ∨
    ∃ a, ofKey key k l = [a] ∧ ofKey key k o.flatten ++ ofKey key k l' = [x] ∧ newer x a
  := by
  have hx : ofKey key k [x] = [x] := by
    apply ofKey_eq_self
    simpa using hk
  cases h with
  | pass h =>
    left
    rw [flatten_singleton, hx, ofKey_eq_nil (by simpa [hk] using h)]
    rfl
  | release =>
    left
    rw [flatten_append, flatten_emit, flatten_singleton, ofKey_append, hx]
    apply append_nil
  | start =>
    left
    rw [flatten_emit, hx]
  | push h =>
    left
    rw [ofKey_append, hx]
    rfl
  | @renew a hl hkey hnewer =>
    right
    refine ⟨a, ?_, ?_, hnewer⟩
    · rw [hl]
      apply ofKey_eq_self
      simpa [hk] using hkey
    · rw [hx]
      rfl

end Filter

/-! ### Tables -/

def Sorted (key : α → κ) (hash : κ → Fin n) (held : Fin n → List α) : Prop :=
  ∀ i, Uniform key (held i) ∧ ∀ y ∈ held i, hash (key y) = i

theorem sorted_empty :
  Sorted key hash fun _ => []
  := fun _ => ⟨nofun, nofun⟩

theorem Sorted.took
    (hs : Sorted key hash held) (h : Took key newer (held (hash (key x))) x o d l) :
  Sorted key hash (update held (hash (key x)) l)
  := by
  intro i
  obtain rfl | hi := eq_or_ne i (hash (key x))
  · rw [update_self]
    constructor
    · apply h.uniform (hs _).1
    · intro y hy
      obtain hold | rfl := h.mem (.inr hy)
      · apply (hs _).2 y hold
      · rfl
  · rw [update_of_ne hi]
    apply hs i

theorem Run.sorted (r : Run key newer hash ops held out gone) :
  Sorted key hash held
  := by
  induction r with
  | nil | flush r ih => apply sorted_empty
  | item r h ih => apply ih.took h

theorem Run.emitted (r : Run key newer hash ops held out gone) :
  ∀ ys ∈ out, ys ≠ [] ∧ Uniform key ys
  := by
  induction r with
  | nil => nofun
  | item r h ih =>
    intro ys hys
    obtain hold | hnew := mem_append.mp hys
    · apply ih ys hold
    · apply h.emitted (r.sorted _).1 ys hnew
  | @flush ops held out gone r ih =>
    intro ys hys
    obtain hold | hnew := mem_append.mp hys
    · apply ih ys hold
    · obtain ⟨i, -, hi⟩ := mem_flatMap.mp hnew
      obtain ⟨hne, rfl⟩ := mem_emit.mp hi
      exact ⟨hne, (r.sorted i).1⟩

theorem coe_flatMap_finRange (f : Fin n → List α) :
  ((List.finRange n).flatMap f : Multiset α) = ∑ i, (f i : Multiset α)
  := by
  have key : ∀ js : List (Fin n),
      (js.flatMap f : Multiset α) = (js.map fun i => (f i : Multiset α)).sum := by
    intro js
    induction js with
    | nil => rfl
    | cons j js ih => rw [List.flatMap_cons, ← Multiset.coe_add, ih, List.map_cons, List.sum_cons]
  rw [key, Fin.sum_univ_def]

theorem sum_update (held : Fin n → List α) (i : Fin n) (l : List α) :
  (∑ j, (update held i l j : Multiset α)) + held i = (∑ j, (held j : Multiset α)) + l
  := by
  have hupdate : ∀ j, (update held i l j : Multiset α) =
      update (fun j => (held j : Multiset α)) i l j := by
    intro j
    obtain rfl | hj := eq_or_ne j i
    · rw [update_self, update_self]
    · rw [update_of_ne hj, update_of_ne hj]
  simp only [hupdate]
  rw [sum_update_of_mem (mem_univ i), sdiff_singleton_eq_erase,
    ← add_sum_erase _ (fun j => (held j : Multiset α)) (mem_univ i)]
  abel

theorem Run.conserved (r : Run key newer hash ops held out gone) :
  (items ops : Multiset α) = out.flatten + gone + ∑ i, (held i : Multiset α)
  := by
  induction r with
  | nil => simp [items]
  | @item ops held out o gone d l x r h ih =>
    have hslot : (held (hash (key x)) : Multiset α) + {x} = o.flatten + d + l :=
      coe_eq_coe.mpr h.perm
    have hsum := sum_update held (hash (key x)) l
    have hitems : (items (ops ++ [.item x]) : Multiset α) = items ops + {x} := by
      rw [items_append, ← coe_add]
      rfl
    rw [hitems, ih, flatten_append, ← coe_add, ← coe_add]
    generalize (held (hash (key x)) : Multiset α) = H at hslot hsum
    generalize (∑ i, (held i : Multiset α)) = S at hsum
    apply add_right_cancel (b := H)
    calc
      (out.flatten : Multiset α) + gone + S + {x} + H = out.flatten + gone + S + (H + {x}) := by
        abel
      _ = out.flatten + gone + (o.flatten + d) + (S + l) := by
        rw [hslot]
        abel
      _ = out.flatten + o.flatten + (gone + d) + ∑ i, _ + H := by
        rw [← hsum]
        abel
  | @flush ops held out gone r ih =>
    have hitems : items (ops ++ [.flush]) = items ops := by
      simp [items]
    rw [hitems, flatten_append, flatten_emitAll, ← coe_add, ih,
      coe_flatMap_finRange]
    simp only [coe_nil, sum_const_zero]
    abel

theorem Run.mem
    {y : α} (r : Run key newer hash ops held out gone) (hy : y ∈ out.flatten) :
  y ∈ items ops
  := by
  rw [← Multiset.mem_coe, r.conserved, Multiset.mem_add, Multiset.mem_add]
  exact .inl (.inl (Multiset.mem_coe.mpr hy))

theorem Run.mem_held
    {y : α} {i : Fin n} (r : Run key newer hash ops held out gone) (hy : y ∈ held i) :
  y ∈ items ops
  := by
  rw [← Multiset.mem_coe, r.conserved, Multiset.mem_add]
  right
  exact Multiset.mem_sum.mpr ⟨i, Finset.mem_univ i, Multiset.mem_coe.mpr hy⟩

theorem flatMap_finRange_of_only
    {f : Fin n → List α} (i : Fin n) (h : ∀ j, j ≠ i → f j = []) :
  (List.finRange n).flatMap f = f i
  := by
  have key : ∀ l : List (Fin n), l.Nodup → l.flatMap f = if i ∈ l then f i else [] := by
    intro l hl
    induction l with
    | nil => rfl
    | cons j l ih =>
      obtain ⟨hj, hl⟩ := List.nodup_cons.mp hl
      rw [List.flatMap_cons, ih hl]
      obtain rfl | hne := eq_or_ne j i
      · rw [if_neg hj, List.append_nil, if_pos List.mem_cons_self]
      · have hmem : i ∈ j :: l ↔ i ∈ l := by
          simp [hne.symm]
        rw [h j hne, List.nil_append]
        simp only [hmem]
  rw [key _ (List.nodup_finRange n), if_pos (List.mem_finRange i)]

section Filter

variable [DecidableEq κ]

theorem Sorted.ofKey_emitAll (hs : Sorted key hash held) (k : κ) :
  ofKey key k (emitAll held).flatten = ofKey key k (held (hash k))
  := by
  rw [flatten_emitAll, ofKey, filter_flatMap]
  apply flatMap_finRange_of_only
  intro j hj
  apply ofKey_eq_nil
  rintro y hy rfl
  apply hj ((hs j).2 y hy).symm

theorem Run.coalesced (r : Run key newer hash ops held out gone) (k : κ) :
  Coalesced newer (ofKey key k (items ops))
    (ofKey key k out.flatten ++ ofKey key k (held (hash k)))
  := by
  induction r with
  | nil => exact .nil
  | @item ops held out o gone d l x r h ih =>
    rw [items_append, ofKey_append, flatten_append, ofKey_append, append_assoc]
    obtain hk | hk := eq_or_ne (key x) k
    · have hx : ofKey key k (items [.item x]) = [x] := by
        apply ofKey_eq_self
        simpa [items] using hk
      subst hk
      rw [update_self, hx]
      obtain hkeep | ⟨a, ha, hout, hnewer⟩ := h.ofKey_self rfl
      · rw [hkeep, ← append_assoc]
        apply Coalesced.keep ih
      · rw [hout]
        rw [ha] at ih
        apply Coalesced.replace ih hnewer
    · have hx : ofKey key k (items [.item x]) = [] := by
        apply ofKey_eq_nil
        simpa [items] using hk
      rw [hx, append_nil]
      obtain heq | hne := eq_or_ne (hash k) (hash (key x))
      · rw [heq, update_self, h.ofKey_of_ne hk, ← heq]
        apply ih
      · have ho : ofKey key k o.flatten = [] := by
          apply ofKey_eq_nil
          rintro y hy rfl
          obtain hold | rfl := h.mem (.inl hy)
          · apply hne ((r.sorted _).2 y hold)
          · contradiction
        rw [update_of_ne hne, ho, nil_append]
        apply ih
  | @flush ops held out gone r ih =>
    have hitems : (items [.flush] : List α) = [] := rfl
    rw [items_append, hitems, append_nil, flatten_append, ofKey_append,
      r.sorted.ofKey_emitAll]
    simpa [ofKey] using ih

end Filter

/-! ### Cuts -/

theorem Coalesced.getLast?_eq {xs ys : List α} (h : Coalesced newer xs ys) :
  ys.getLast? = xs.getLast?
  := by
  cases h with
  | nil => rfl
  | keep h | replace h hnewer => rw [getLast?_concat, getLast?_concat]

/-- No item behind a cut replaces one before it, unless it is newer than the last of these. -/
theorem Coalesced.cut
    {as bs ys : List α} (h : Coalesced newer (as ++ bs) ys)
    (hcut : ∀ a ∈ as.getLast?, ∀ b ∈ bs.head?, ¬ newer b a) :
  ∃ us vs, ys = us ++ vs ∧ Coalesced newer as us ∧ Coalesced newer bs vs
  := by
  induction bs using reverseRecOn generalizing ys with
  | nil =>
    rw [append_nil] at h
    exact ⟨ys, [], (append_nil ys).symm, h, .nil⟩
  | append_singleton bs x ih =>
    have hcut' : ∀ a ∈ as.getLast?, ∀ b ∈ bs.head?, ¬ newer b a := by
      intro a ha b hb
      apply hcut a ha b
      rw [head?_append, hb]
      rfl
    rw [← append_assoc] at h
    generalize hl : as ++ bs ++ [x] = l at h
    cases h with
    | nil => simp at hl
    | keep h =>
      obtain ⟨rfl, hx⟩ := append_inj' hl rfl
      obtain rfl := List.singleton_injective hx
      obtain ⟨us, vs, rfl, hus, hvs⟩ := ih h hcut'
      exact ⟨us, vs ++ [x], append_assoc .., hus, .keep hvs⟩
    | @replace xs ys a x' h hnewer =>
      obtain ⟨rfl, hx⟩ := append_inj' hl rfl
      obtain rfl := List.singleton_injective hx
      obtain ⟨us, vs, hys, hus, hvs⟩ := ih h hcut'
      obtain rfl | ⟨vs, a', rfl⟩ := eq_nil_or_concat vs
      · -- the item replaced would be the last one before the cut
        have hlast : as.getLast? = some a := by
          rw [← hus.getLast?_eq, ← append_nil us, ← hys, getLast?_concat]
        have hempty : bs = [] := getLast?_eq_none_iff.mp hvs.getLast?_eq.symm
        exact absurd hnewer (hcut a hlast x (by simp [hempty]))
      · rw [concat_eq_append, ← append_assoc] at hys
        obtain ⟨rfl, ha⟩ := append_inj' hys rfl
        obtain rfl := List.singleton_injective ha
        rw [concat_eq_append] at hvs
        exact ⟨us, vs ++ [x], append_assoc .., hus, .replace hvs hnewer⟩

end Hold
