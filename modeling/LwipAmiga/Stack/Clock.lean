import Mathlib.Tactic.Common
import Mathlib.Algebra.Group.Nat.Defs

/-!
# The clock of the stack

`netstack_now_ms` divides the ticks since its last call by the ticks of a millisecond, and carries the
remainder over to the next call.
-/

/-- The fields of `netstack` that the clock uses. -/
structure MsClock where
  eClockPerMs : UInt32
  lastEClockLo : UInt32
  ms : UInt32
  tickRemainder : UInt32

namespace MsClock

variable {c : MsClock} {t u : ℕ} {ts : List ℕ}

/-- `netstack_init`, as far as it concerns the clock. -/
def netstackInit (c : MsClock) (freq lo : UInt32) : MsClock :=
  { c with
    eClockPerMs := if freq / 1000 = 0 then 1 else freq / 1000
    lastEClockLo := lo }

def netstackNowMs (c : MsClock) (lo : UInt32) : MsClock :=
  let delta := lo - c.lastEClockLo
  let ticks := c.tickRemainder + delta
  { c with
    lastEClockLo := lo
    ms := c.ms + ticks / c.eClockPerMs
    tickRemainder := ticks % c.eClockPerMs }

/-- The clock is read at the times `ts`, in ticks; of a time the low word is read. -/
def read (c : MsClock) (ts : List ℕ) : MsClock :=
  ts.foldl (fun c t => c.netstackNowMs (UInt32.ofNat t)) c

/-- Between two calls fewer ticks go by than the counter has room for beside the remainder. -/
def Timely (c : MsClock) (t : ℕ) : List ℕ → Prop
  | [] => True
  | u :: ts => t ≤ u ∧ c.tickRemainder.toNat + (u - t) < 2 ^ 32 ∧
      (c.netstackNowMs (UInt32.ofNat u)).Timely u ts

theorem toNat_ofNat_sub (h : t ≤ u) (hlt : u - t < 2 ^ 32) :
  (UInt32.ofNat u - UInt32.ofNat t).toNat = u - t
  := by
  rw [UInt32.toNat_sub, UInt32.toNat_ofNat', UInt32.toNat_ofNat']
  omega

theorem toNat_ticks
    (hlast : c.lastEClockLo = UInt32.ofNat t) (h : t ≤ u)
    (hroom : c.tickRemainder.toNat + (u - t) < 2 ^ 32) :
  (c.tickRemainder + (UInt32.ofNat u - c.lastEClockLo)).toNat = c.tickRemainder.toNat + (u - t)
  := by
  rw [hlast, UInt32.toNat_add, toNat_ofNat_sub h (by omega), Nat.mod_eq_of_lt hroom]

theorem timely_getLastD (h : c.Timely t ts) :
  t ≤ ts.getLastD t
  := by
  induction ts generalizing c t with
  | nil => apply Nat.le_refl
  | cons u ts ih =>
    rw [List.getLastD_cons]
    exact Nat.le_trans h.1 (ih h.2.2)

theorem div_add_carry {p : ℕ} (hp : 0 < p) (n k : ℕ) :
  n / p + (n % p + k) / p = (n + k) / p
  := by
  rw [← Nat.mul_add_div hp, ← Nat.add_assoc, Nat.div_add_mod]

theorem toNat_ms_read
    (hlast : c.lastEClockLo = UInt32.ofNat t) (hper : 0 < c.eClockPerMs.toNat) (h : c.Timely t ts)
    (hcarry : ts = [] → c.tickRemainder.toNat < c.eClockPerMs.toNat) :
  (c.read ts).ms.toNat =
    (c.ms.toNat + (c.tickRemainder.toNat + (ts.getLastD t - t)) / c.eClockPerMs.toNat) % 2 ^ 32
  := by
  induction ts generalizing c t with
  | nil =>
    rw [List.getLastD_nil, Nat.sub_self, Nat.add_zero, Nat.div_eq_of_lt (hcarry rfl), Nat.add_zero,
      Nat.mod_eq_of_lt c.ms.toNat_lt]
    rfl
  | cons u ts ih =>
    obtain ⟨hle, hroom, hrest⟩ := h
    have hticks := toNat_ticks hlast hle hroom
    have hms : (c.netstackNowMs (UInt32.ofNat u)).ms.toNat =
        (c.ms.toNat + (c.tickRemainder.toNat + (u - t)) / c.eClockPerMs.toNat) % 2 ^ 32 := by
      rw [← hticks, ← UInt32.toNat_div, ← UInt32.toNat_add]
      rfl
    have hrem : (c.netstackNowMs (UInt32.ofNat u)).tickRemainder.toNat =
        (c.tickRemainder.toNat + (u - t)) % c.eClockPerMs.toNat := by
      rw [← hticks, ← UInt32.toNat_mod]
      rfl
    have hend := timely_getLastD hrest
    have hsum : c.tickRemainder.toNat + (u - t) + (ts.getLastD u - u) =
        c.tickRemainder.toNat + (ts.getLastD u - t) := by
      omega
    have hread := ih (c := c.netstackNowMs (UInt32.ofNat u)) rfl hper hrest
      fun _ => hrem ▸ Nat.mod_lt _ hper
    change (c.read (u :: ts)).ms.toNat = (_ + _ / c.eClockPerMs.toNat) % _ at hread
    rw [hread, hms, hrem, List.getLastD_cons, Nat.mod_add_mod, Nat.add_assoc, div_add_carry hper, hsum]

def running : MsClock where
  eClockPerMs := 709
  lastEClockLo := 0
  ms := 7
  tickRemainder := 5

end MsClock
