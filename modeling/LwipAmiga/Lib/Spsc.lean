import LwipAmiga.Lib.Ring

/-!
# A ring between one producer and one consumer

One producer writes and one consumer takes, without a lock between them.
-/

open Function List

structure Spsc (χ : Type*) where
  m : RingMask
  slots : ℕ → χ
  prod : UInt32
  cons : UInt32
  wr : UInt32
  rd : UInt32
  lim : UInt32
  produced : ℕ
  consumed : ℕ
  written : ℕ
  taken : ℕ
  limit : ℕ
  seen : ℕ
  full : ℕ → Bool
  items : List χ

namespace Spsc

variable {χ : Type*}

def empty (m : RingMask) (slots : ℕ → χ) : Spsc χ where
  m := m
  slots := slots
  prod := 0
  cons := 0
  wr := 0
  rd := 0
  lim := 0
  produced := 0
  consumed := 0
  written := 0
  taken := 0
  limit := 0
  seen := 0
  full _ := false
  items := []

/-! ### The producer -/

def oldCons (r : Spsc χ) (lag : ℕ) : UInt32 :=
  UInt32.ofNat (r.consumed - lag)

def fits (r : Spsc χ) (cons : UInt32) (count : ℕ) : Bool :=
  decide (r.prod - cons + UInt32.ofNat count ≤ r.m.mask + 1)

def reserve (r : Spsc χ) (lag : ℕ) : Spsc χ :=
  { r with seen := r.consumed - lag, wr := r.prod }

def write (r : Spsc χ) (a : χ) : Spsc χ :=
  { r with
    slots := Function.update r.slots (r.m.slot r.wr) a
    wr := r.wr + 1
    written := r.written + 1
    full := Function.update r.full (r.m.slot r.wr) true
    items := r.items ++ [a] }

def publish (r : Spsc χ) : Spsc χ :=
  { r with prod := r.wr, produced := r.written }

/-! ### The consumer -/

def snapshot (r : Spsc χ) (lag : ℕ) : Spsc χ :=
  { r with rd := r.cons, lim := UInt32.ofNat (r.produced - lag), limit := r.produced - lag }

def front (r : Spsc χ) : χ :=
  r.slots (r.m.slot r.rd)

def take (r : Spsc χ) : Spsc χ :=
  { r with
    rd := r.rd + 1
    taken := r.taken + 1
    full := Function.update r.full (r.m.slot r.rd) false
    items := r.items.tail }

def commit (r : Spsc χ) : Spsc χ :=
  { r with cons := r.rd, consumed := r.taken }

/-! ### The invariant -/

structure Inv (r : Spsc χ) (quota : ℕ) : Prop where
  prod_eq : r.prod = UInt32.ofNat r.produced
  cons_eq : r.cons = UInt32.ofNat r.consumed
  wr_eq : r.wr = UInt32.ofNat r.written
  rd_eq : r.rd = UInt32.ofNat r.taken
  lim_eq : r.lim = UInt32.ofNat r.limit
  seen_le : r.seen ≤ r.consumed
  consumed_le : r.consumed ≤ r.taken
  taken_le : r.taken ≤ r.limit
  limit_le : r.limit ≤ r.produced
  produced_le : r.produced ≤ r.written
  room : r.written + quota ≤ r.seen + r.m.size
  length : r.items.length + r.taken = r.written
  cells : ∀ (i : ℕ) (h : i < r.items.length),
    r.slots (r.m.slot (UInt32.ofNat (r.taken + i))) = r.items[i]
  full_iff : ∀ j, r.full j = true ↔
    ∃ i < r.items.length, r.m.slot (UInt32.ofNat (r.taken + i)) = j

variable {r : Spsc χ} {quota : ℕ}

theorem inv_empty (m : RingMask) (slots : ℕ → χ) :
  (empty m slots).Inv 0
  := by
  refine ⟨rfl, rfl, rfl, rfl, rfl, le_rfl, le_rfl, le_rfl, le_rfl, le_rfl, Nat.zero_le _, rfl, nofun,
    ?_⟩
  intro j
  constructor
  · nofun
  · rintro ⟨i, h, -⟩
    contradiction

theorem Inv.length_le
    (h : r.Inv quota) :
  r.items.length + quota ≤ r.m.size
  := by
  have h₁ := h.seen_le
  have h₂ := h.consumed_le
  have h₃ := h.room
  have h₄ := h.length
  omega

theorem Inv.reserve
    (h : r.Inv 0) (hidle : r.written = r.produced) {lag count : ℕ} (hlag : lag ≤ r.consumed - r.seen)
    (hcount : count < 2 ^ 31) (hfits : r.fits (r.oldCons lag) count = true) :
  (r.reserve lag).Inv count
  := by
  have hseen := h.seen_le
  have hroom := h.room
  have hcons := h.consumed_le
  have hlimit := h.taken_le
  have hprod := h.limit_le
  have hsize : r.m.size ≤ 2 ^ 31 := by
    apply Nat.pow_le_pow_right (by decide)
    have hbits := r.m.bits_lt
    omega
  have hdist : (r.prod - r.oldCons lag).toNat = r.produced - (r.consumed - lag) := by
    rw [h.prod_eq, oldCons, UInt32.toNat_ofNat_sub (by omega) (by omega)]
  have hmask : (r.m.mask + 1).toNat = r.m.size := by
    have heq := r.m.toNat_mask
    rw [UInt32.toNat_add, UInt32.toNat_one]
    omega
  have hsum : (r.prod - r.oldCons lag + UInt32.ofNat count).toNat =
      r.produced - (r.consumed - lag) + count := by
    rw [UInt32.toNat_add_ofNat, hdist]
    omega
  rw [fits, decide_eq_true_eq, UInt32.le_iff_toNat_le, hsum, hmask] at hfits
  refine ⟨h.prod_eq, h.cons_eq, ?_, h.rd_eq, h.lim_eq, ?_, h.consumed_le, h.taken_le, h.limit_le,
    h.produced_le, ?_, h.length, h.cells, h.full_iff⟩
  · change r.prod = UInt32.ofNat r.written
    rw [hidle, h.prod_eq]
  · change r.consumed - lag ≤ r.consumed
    omega
  · change r.written + count ≤ r.consumed - lag + r.m.size
    omega

theorem Inv.slot_wr
    (h : r.Inv (quota + 1)) :
  ∀ i < r.items.length, r.m.slot (UInt32.ofNat (r.taken + i)) ≠ r.m.slot r.wr
  := by
  intro i hi
  have hlength := h.length
  have hle := h.length_le
  rw [h.wr_eq]
  apply r.m.slot_ofNat_ne
  · omega
  · omega

theorem Inv.full_wr
    (h : r.Inv (quota + 1)) :
  r.full (r.m.slot r.wr) = false
  := by
  rw [Bool.eq_false_iff]
  intro hfull
  obtain ⟨i, hi, hslot⟩ := (h.full_iff _).mp hfull
  exact h.slot_wr i hi hslot

theorem Inv.write
    (h : r.Inv (quota + 1)) (a : χ) :
  (r.write a).Inv quota
  := by
  have hlength := h.length
  have hroom := h.room
  have hproduced := h.produced_le
  have hlast : r.m.slot (UInt32.ofNat (r.taken + r.items.length)) = r.m.slot r.wr := by
    rw [h.wr_eq]
    congr 2
    omega
  refine ⟨h.prod_eq, h.cons_eq, ?_, h.rd_eq, h.lim_eq, h.seen_le, h.consumed_le, h.taken_le,
    h.limit_le, ?_, ?_, ?_, ?_, ?_⟩
  · change r.wr + 1 = UInt32.ofNat (r.written + 1)
    rw [h.wr_eq, UInt32.ofNat_add_one]
  · change r.produced ≤ r.written + 1
    omega
  · change r.written + 1 + quota ≤ r.seen + r.m.size
    omega
  · change (r.items ++ [a]).length + r.taken = r.written + 1
    rw [length_append, length_singleton]
    omega
  · intro i hi
    change i < (r.items ++ [a]).length at hi
    change update r.slots (r.m.slot r.wr) a (r.m.slot (UInt32.ofNat (r.taken + i))) =
      (r.items ++ [a])[i]
    rw [length_append, length_singleton] at hi
    by_cases hlt : i < r.items.length
    · rw [update_of_ne (h.slot_wr i hlt), getElem_append_left hlt, h.cells i hlt]
    · obtain rfl : i = r.items.length := by omega
      rw [hlast, update_self, getElem_concat_length rfl]
  · intro j
    change update r.full (r.m.slot r.wr) true j = true ↔
      ∃ i < (r.items ++ [a]).length, r.m.slot (UInt32.ofNat (r.taken + i)) = j
    rw [length_append, length_singleton]
    by_cases hj : j = r.m.slot r.wr
    · subst hj
      rw [update_self]
      simp only [true_iff]
      use r.items.length, Nat.lt_succ_self _
    · rw [update_of_ne hj, h.full_iff j]
      constructor
      · rintro ⟨i, hi, hslot⟩
        use i, by omega
      · rintro ⟨i, hi, hslot⟩
        by_cases hlt : i < r.items.length
        · use i
        · obtain rfl : i = r.items.length := by omega
          rw [hlast] at hslot
          exact absurd hslot.symm hj

theorem Inv.publish
    (h : r.Inv 0) :
  r.publish.Inv 0
  := by
  refine ⟨h.wr_eq, h.cons_eq, h.wr_eq, h.rd_eq, h.lim_eq, h.seen_le, h.consumed_le, h.taken_le, ?_,
    le_rfl, h.room, h.length, h.cells, h.full_iff⟩
  apply h.limit_le.trans h.produced_le

theorem Inv.snapshot
    (h : r.Inv quota) (hidle : r.taken = r.consumed) {lag : ℕ} (hlag : lag ≤ r.produced - r.consumed) :
  (r.snapshot lag).Inv quota
  := by
  have hle : r.consumed ≤ r.produced := by
    apply h.consumed_le.trans (h.taken_le.trans h.limit_le)
  refine ⟨h.prod_eq, h.cons_eq, h.wr_eq, ?_, rfl, h.seen_le, h.consumed_le, ?_, ?_, h.produced_le,
    h.room, h.length, h.cells, h.full_iff⟩
  · change r.cons = UInt32.ofNat r.taken
    rw [hidle, h.cons_eq]
  · change r.taken ≤ r.produced - lag
    omega
  · change r.produced - lag ≤ r.produced
    omega

theorem Inv.rd_eq_lim_iff
    (h : r.Inv quota) :
  r.rd = r.lim ↔ r.taken = r.limit
  := by
  rw [h.rd_eq, h.lim_eq]
  apply UInt32.ofNat_eq_ofNat_iff h.taken_le
  have hsize := r.m.size_lt
  have hle := h.length_le
  have hlength := h.length
  have hlimit := h.limit_le
  have hproduced := h.produced_le
  omega

theorem Inv.items_eq
    (h : r.Inv quota) (hne : r.rd ≠ r.lim) :
  r.items = r.front :: r.items.tail
  := by
  have hpos : 0 < r.items.length := by
    have hlt : r.taken ≠ r.limit := fun heq => hne (h.rd_eq_lim_iff.mpr heq)
    have h₁ := h.taken_le
    have h₂ := h.limit_le
    have h₃ := h.produced_le
    have h₄ := h.length
    omega
  obtain ⟨a, as, hitems⟩ := exists_cons_of_length_pos hpos
  have hcell := h.cells 0 hpos
  rw [Nat.add_zero, ← h.rd_eq] at hcell
  rw [front, hcell]
  simp only [hitems, getElem_cons_zero, tail_cons]

theorem Inv.full_rd
    (h : r.Inv quota) (hne : r.rd ≠ r.lim) :
  r.full (r.m.slot r.rd) = true
  := by
  rw [h.full_iff]
  use 0
  constructor
  · rw [h.items_eq hne]
    apply Nat.succ_pos
  · rw [Nat.add_zero, h.rd_eq]

theorem Inv.take
    (h : r.Inv quota) (hne : r.rd ≠ r.lim) :
  r.take.Inv quota
  := by
  have hitems := h.items_eq hne
  have hlen : r.items.length = r.items.tail.length + 1 := by
    nth_rewrite 1 [hitems]
    rfl
  have hlength := h.length
  have hle := h.length_le
  have htaken := h.taken_le
  have hlt : r.taken ≠ r.limit := fun heq => hne (h.rd_eq_lim_iff.mpr heq)
  have hnext : ∀ i, r.taken + 1 + i = r.taken + (i + 1) := by
    intro i
    omega
  refine ⟨h.prod_eq, h.cons_eq, h.wr_eq, ?_, h.lim_eq, h.seen_le, ?_, ?_, h.limit_le, h.produced_le,
    h.room, ?_, ?_, ?_⟩
  · change r.rd + 1 = UInt32.ofNat (r.taken + 1)
    rw [h.rd_eq, UInt32.ofNat_add_one]
  · change r.consumed ≤ r.taken + 1
    apply h.consumed_le.trans (Nat.le_succ _)
  · change r.taken + 1 ≤ r.limit
    omega
  · change r.items.tail.length + (r.taken + 1) = r.written
    omega
  · intro i hi
    change i < r.items.tail.length at hi
    change r.slots (r.m.slot (UInt32.ofNat (r.taken + 1 + i))) = r.items.tail[i]
    rw [hnext, h.cells (i + 1) (by omega), getElem_tail]
  · intro j
    change update r.full (r.m.slot r.rd) false j = true ↔
      ∃ i < r.items.tail.length, r.m.slot (UInt32.ofNat (r.taken + 1 + i)) = j
    have hother : ∀ i < r.items.tail.length,
        r.m.slot r.rd ≠ r.m.slot (UInt32.ofNat (r.taken + 1 + i)) := by
      intro i hi
      rw [h.rd_eq]
      apply r.m.slot_ofNat_ne
      · omega
      · omega
    by_cases hj : j = r.m.slot r.rd
    · subst hj
      rw [update_self]
      constructor
      · nofun
      · rintro ⟨i, hi, hslot⟩
        exact absurd hslot.symm (hother i hi)
    · rw [update_of_ne hj, h.full_iff j]
      constructor
      · rintro ⟨i, hi, hslot⟩
        obtain _ | i := i
        · rw [Nat.add_zero, ← h.rd_eq] at hslot
          exact absurd hslot.symm hj
        · use i, by omega
          rwa [hnext]
      · rintro ⟨i, hi, hslot⟩
        use i + 1, by omega
        rwa [← hnext]

theorem Inv.commit
    (h : r.Inv quota) :
  r.commit.Inv quota
  := by
  refine ⟨h.prod_eq, h.rd_eq, h.wr_eq, h.rd_eq, h.lim_eq, ?_, le_rfl, h.taken_le, h.limit_le,
    h.produced_le, h.room, h.length, h.cells, h.full_iff⟩
  apply h.seen_le.trans h.consumed_le

end Spsc
