import LwipAmiga.Lib.Word
import Mathlib.Data.Nat.Log

/-!
# Rings with free-running indices

The indices of a ring of `2 ^ n` slots are words that only grow and wrap around, and slots are indices
under a mask.
-/

open List Function

namespace UInt32

theorem toNat_ofNat_mod (n : ℕ) :
  (UInt32.ofNat n).toNat = n % 2 ^ 32
  := by
  rw [UInt32.toNat_ofNat']

theorem toNat_ofNat_sub
    {m n : ℕ} (hle : m ≤ n) (hlt : n - m < 2 ^ 32) :
  (UInt32.ofNat n - UInt32.ofNat m).toNat = n - m
  := by
  rw [UInt32.toNat_sub, toNat_ofNat_mod, toNat_ofNat_mod]
  omega

theorem ofNat_eq_ofNat_iff
    {m n : ℕ} (hle : m ≤ n) (hlt : n - m < 2 ^ 32) :
  UInt32.ofNat m = UInt32.ofNat n ↔ m = n
  := by
  constructor
  · intro h
    have hd := toNat_ofNat_sub hle hlt
    rw [h, UInt32.sub_self, UInt32.toNat_zero] at hd
    omega
  · rintro rfl
    rfl

theorem ofNat_add_one (n : ℕ) :
  UInt32.ofNat n + 1 = UInt32.ofNat (n + 1)
  := by
  rw [UInt32.ofNat_add]
  rfl

end UInt32

structure RingMask where
  mask : UInt32
  bits : ℕ
  bits_lt : bits < 32
  size_eq : mask.toNat + 1 = 2 ^ bits

namespace RingMask

variable (m : RingMask)

def size : ℕ :=
  2 ^ m.bits

def slot (i : UInt32) : ℕ :=
  (i &&& m.mask).toNat

theorem size_pos :
  0 < m.size
  := Nat.two_pow_pos m.bits

theorem toNat_mask :
  m.mask.toNat + 1 = m.size
  := m.size_eq

theorem size_lt :
  m.size < 2 ^ 32
  := Nat.pow_lt_pow_right (by decide) m.bits_lt

theorem slot_eq (i : UInt32) :
  m.slot i = i.toNat % m.size
  := by
  have hmask : m.mask.toNat = 2 ^ m.bits - 1 := by
    have h := m.size_eq
    omega
  rw [slot, UInt32.toNat_and, hmask, Nat.and_two_pow_sub_one_eq_mod, size]

theorem size_dvd :
  m.size ∣ 2 ^ 32
  := Nat.pow_dvd_pow 2 m.bits_lt.le

theorem slot_ofNat (n : ℕ) :
  m.slot (UInt32.ofNat n) = n % m.size
  := by
  rw [slot_eq, UInt32.toNat_ofNat_mod, Nat.mod_mod_of_dvd _ m.size_dvd]

theorem slot_add_ofNat (i : UInt32) (n : ℕ) :
  m.slot (i + UInt32.ofNat n) = (i.toNat + n) % m.size
  := by
  rw [slot_eq, UInt32.toNat_add, UInt32.toNat_ofNat_mod, Nat.mod_mod_of_dvd _ m.size_dvd,
    Nat.add_mod, Nat.mod_mod_of_dvd _ m.size_dvd, ← Nat.add_mod]

theorem mod_size_inj
    {a i j : ℕ} (hi : i < m.size) (hj : j < m.size) (h : (a + i) % m.size = (a + j) % m.size) :
  i = j
  := by
  have h' := Nat.ModEq.add_left_cancel' a h
  rwa [Nat.ModEq, Nat.mod_eq_of_lt hi, Nat.mod_eq_of_lt hj] at h'

theorem slot_ofNat_ne
    {i j : ℕ} (hlt : i < j) (hsize : j < i + m.size) :
  m.slot (UInt32.ofNat i) ≠ m.slot (UInt32.ofNat j)
  := by
  intro h
  rw [slot_ofNat, slot_ofNat] at h
  have hpos := m.size_pos
  have h' := m.mod_size_inj (a := i) (i := 0) (j := j - i) hpos (by omega)
    (by rw [Nat.add_zero, h]; congr 1; omega)
  omega

def roundUp (n : ℕ) : ℕ :=
  2 ^ Nat.clog 2 n

def ofSize (n : ℕ) (h : n ≤ 2 ^ 31) : RingMask where
  mask := UInt32.ofNat (roundUp n - 1)
  bits := Nat.clog 2 n
  bits_lt := (Nat.clog_le_of_le_pow h).trans_lt (by decide)
  size_eq := by
    have hle : Nat.clog 2 n ≤ 31 := Nat.clog_le_of_le_pow h
    have hpow : roundUp n ≤ 2 ^ 31 := Nat.pow_le_pow_right (by decide) hle
    have hpos : 0 < roundUp n := Nat.two_pow_pos _
    rw [UInt32.toNat_ofNat_mod, Nat.mod_eq_of_lt (by omega), Nat.sub_add_cancel hpos]
    rfl

@[simp] theorem size_ofSize (n : ℕ) (h : n ≤ 2 ^ 31) :
  (ofSize n h).size = roundUp n
  := rfl

end RingMask

structure IndexRing (α : Type*) where
  m : RingMask
  slots : ℕ → α
  head : UInt32
  tail : UInt32

namespace IndexRing

variable {α : Type*} (r : IndexRing α) (a : α)

def empty (m : RingMask) (slots : ℕ → α) : IndexRing α where
  m := m
  slots := slots
  head := 0
  tail := 0

def count : ℕ :=
  (r.tail - r.head).toNat

def items : List α :=
  (List.range r.count).map fun i => r.slots (r.m.slot (r.head + UInt32.ofNat i))

def front : α :=
  r.slots (r.m.slot r.head)

def push : IndexRing α :=
  { r with slots := Function.update r.slots (r.m.slot r.tail) a, tail := r.tail + 1 }

def pop : IndexRing α :=
  { r with head := r.head + 1 }

@[simp] theorem m_push :
  (r.push a).m = r.m
  := rfl

@[simp] theorem m_pop :
  r.pop.m = r.m
  := rfl

@[simp] theorem length_items :
  r.items.length = r.count
  := by
  rw [items, length_map, length_range]

variable {r}

theorem head_eq_tail_iff :
  r.head = r.tail ↔ r.items = []
  := by
  rw [← length_eq_zero_iff, length_items, count]
  constructor
  · intro h
    rw [h, UInt32.sub_self, UInt32.toNat_zero]
  · intro h
    have hz : r.tail - r.head = 0 := UInt32.toNat_inj.mp h
    rw [← UInt32.sub_add_cancel r.tail r.head, hz, UInt32.zero_add]

@[simp] theorem items_empty (m : RingMask) (slots : ℕ → α) :
  (empty m slots).items = []
  := by
  rw [← head_eq_tail_iff]
  rfl

theorem tail_eq :
  r.tail = r.head + UInt32.ofNat r.count
  := by
  rw [count, UInt32.ofNat_toNat, UInt32.add_comm, UInt32.sub_add_cancel]

theorem mask_lt_iff :
  r.m.mask < r.tail - r.head ↔ r.m.size ≤ r.count
  := by
  have h := r.m.toNat_mask
  rw [UInt32.lt_iff_toNat_lt, count]
  omega

theorem count_push
    (h : r.count < r.m.size) :
  (r.push a).count = r.count + 1
  := by
  have hsize := r.m.size_lt
  have htail := r.tail.toNat_lt
  have hhead := r.head.toNat_lt
  simp only [count, push, UInt32.toNat_sub, UInt32.toNat_add, UInt32.toNat_one] at h ⊢
  omega

theorem items_push
    (h : r.count < r.m.size) :
  (r.push a).items = r.items ++ [a]
  := by
  rw [items, count_push a h, range_succ, map_append, items]
  congr 1
  · apply map_congr_left
    intro i hi
    have hlt := mem_range.mp hi
    apply update_of_ne
    intro hslot
    change r.m.slot (r.head + UInt32.ofNat i) = r.m.slot r.tail at hslot
    rw [tail_eq, RingMask.slot_add_ofNat, RingMask.slot_add_ofNat] at hslot
    have heq := r.m.mod_size_inj (by omega) h hslot
    omega
  · have hslot : r.m.slot (r.head + UInt32.ofNat r.count) = r.m.slot r.tail := by
      rw [← tail_eq]
    change [update r.slots (r.m.slot r.tail) a (r.m.slot (r.head + UInt32.ofNat r.count))]
      = [a]
    rw [hslot, update_self]

theorem count_pop
    (h : r.head ≠ r.tail) :
  r.count = r.pop.count + 1
  := by
  have htail := r.tail.toNat_lt
  have hhead := r.head.toNat_lt
  have hne : r.head.toNat ≠ r.tail.toNat := fun heq => h (UInt32.toNat_inj.mp heq)
  simp only [count, pop, UInt32.toNat_sub, UInt32.toNat_add, UInt32.toNat_one]
  omega

theorem items_pop
    (h : r.head ≠ r.tail) :
  r.items = r.front :: r.pop.items
  := by
  rw [items, count_pop h, range_succ_eq_map, map_cons, map_map]
  congr 1
  · change r.slots (r.m.slot (r.head + 0)) = r.front
    rw [UInt32.add_zero]
    rfl
  · apply map_congr_left
    intro i _
    change r.slots (r.m.slot (r.head + UInt32.ofNat (i + 1))) =
      r.slots (r.m.slot (r.head + 1 + UInt32.ofNat i))
    rw [← UInt32.ofNat_add_one, UInt32.add_comm (UInt32.ofNat i), ← UInt32.add_assoc]

end IndexRing
