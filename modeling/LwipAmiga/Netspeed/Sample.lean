import LwipAmiga.Lib.Newest
import LwipAmiga.Lib.Transition
import Mathlib.Algebra.Order.BigOperators.Group.List
import Mathlib.Algebra.Order.Ring.Nat

/-!
# The rates of NetSpeed

The sampler turns the byte counters of an interface into rates.
-/

open List

/-! ### Mean rates -/

theorem sum_mul_div_le
    {ι : Type} {l : List ι} {b t : ι → ℕ} {f m : ℕ} (hpos : ∀ x ∈ l, 0 < t x)
    (h : ∀ x ∈ l, b x * f / t x ≤ m) :
  (l.map b).sum * f / (l.map t).sum ≤ m
  := by
  have hsum : (l.map b).sum * f + l.length ≤ (m + 1) * (l.map t).sum := by
    induction l with
    | nil => simp
    | cons x l ih =>
      have hx : b x * f < (m + 1) * t x := by
        rw [← Nat.div_lt_iff_lt_mul (hpos x mem_cons_self)]
        apply Nat.lt_succ_of_le (h x mem_cons_self)
      have hl := ih (fun y hy => hpos y (mem_cons_of_mem _ hy))
        (fun y hy => h y (mem_cons_of_mem _ hy))
      simp only [map_cons, sum_cons, length_cons, Nat.add_mul, Nat.mul_add] at hl hx ⊢
      omega
  cases l with
  | nil => simp
  | cons x l =>
    have hx := hpos x mem_cons_self
    rw [← Nat.lt_succ_iff, Nat.div_lt_iff_lt_mul]
    · rw [length_cons] at hsum
      rw [Nat.succ_eq_add_one]
      omega
    · rw [map_cons, sum_cons]
      omega

namespace Nsp

def NSP_AVG_MAX : ℕ := 300

def NSP_TICK_SECS : ℕ := 1

inductive Dir
  | rx
  | tx

instance {p : Dir → Prop} [DecidablePred p] : Decidable (∀ d, p d) :=
  decidable_of_iff (p .rx ∧ p .tx) ⟨fun h d => by cases d; exacts [h.1, h.2], fun h => ⟨h _, h _⟩⟩

structure NspSample where
  bytes : Dir → ℕ
  ticks : ℕ

structure NspSampler where
  eclockFreq : ℕ
  haveLast : Bool
  last : Dir → ℕ
  lastTicks : ℕ
  base : Dir → ℕ
  baseTicks : ℕ
  hist : ℕ → NspSample
  histHead : ℕ
  histCount : ℕ
  avgSamples : ℕ
  valid : Bool
  cur : Dir → ℕ
  avg : Dir → ℕ
  max : Dir → ℕ

structure Reading where
  bytes : Dir → ℕ
  now : ℕ
  bytes_lt : ∀ d, bytes d < 2 ^ 64
  now_lt : now < 2 ^ 64

def sub64 (a b : ℕ) : ℕ :=
  (a + 2 ^ 64 - b) % 2 ^ 64

def sum64 (l : List ℕ) : ℕ :=
  l.foldl (fun sum x => (sum + x) % 2 ^ 64) 0

/-- `nsp_sample_clamp`. -/
def clamp (v : ℕ) : ℕ :=
  if 0xFFFFFFFF < v then 0xFFFFFFFF else v

/-- `nsp_sample_rate`. -/
def rate (bytes ticks freq : ℕ) : ℕ :=
  clamp (bytes * freq % 2 ^ 64 / ticks)

inductive TickResult
  | failed
  | seeded
  | rate
  deriving DecidableEq

namespace NspSampler

/-- `nsp_sample_clear_stats`. -/
def clearStats (s : NspSampler) : NspSampler :=
  { s with
    valid := false, cur := fun _ => 0, avg := fun _ => 0, max := fun _ => 0,
    histHead := 0, histCount := 0 }

/-- `nsp_sample_seed`. -/
def seed (s : NspSampler) (r : Reading) : NspSampler :=
  clearStats
    { s with
      last := r.bytes, base := r.bytes, lastTicks := r.now, baseTicks := r.now, haveLast := true }

def recent (s : NspSampler) : List NspSample :=
  Newest.entries s.hist NSP_AVG_MAX s.histHead
    (if s.histCount < s.avgSamples then s.histCount else s.avgSamples)

/-- `nsp_sample_average`. -/
def average (s : NspSampler) (r : Reading) : NspSampler :=
  if s.avgSamples = 0 then
    { s with
      avg := fun d =>
        rate (sub64 (r.bytes d) (s.base d)) (sub64 r.now s.baseTicks) s.eclockFreq }
  else
    let ticks := sum64 (s.recent.map NspSample.ticks)
    if ticks = 0 then s
    else { s with avg := fun d => rate (sum64 (s.recent.map fun x => x.bytes d)) ticks s.eclockFreq }

/-- `nsp_sample_set_average`. -/
def setAverage (s : NspSampler) (secs : ℤ) : NspSampler :=
  let samples := if 0 < secs then secs.toNat / NSP_TICK_SECS else 0
  { s with avgSamples := if samples < NSP_AVG_MAX then samples else NSP_AVG_MAX }

/-- `nsp_sample_reset`. -/
def reset (s : NspSampler) : NspSampler :=
  { s.clearStats with base := s.last, baseTicks := s.lastTicks }

def seeds (s : NspSampler) (r : Reading) : Bool :=
  !s.haveLast || decide (r.bytes .rx < s.last .rx) || decide (r.bytes .tx < s.last .tx) ||
    decide (sub64 r.now s.lastTicks = 0)

def sample (s : NspSampler) (r : Reading) : NspSample :=
  ⟨fun d => clamp (sub64 (r.bytes d) (s.last d)), clamp (sub64 r.now s.lastTicks)⟩

def record (s : NspSampler) (r : Reading) : NspSampler :=
  let cur := fun d => rate ((s.sample r).bytes d) (sub64 r.now s.lastTicks) s.eclockFreq
  { s with
    hist := Function.update s.hist s.histHead (s.sample r)
    histHead := (s.histHead + 1) % NSP_AVG_MAX
    histCount := if s.histCount < NSP_AVG_MAX then s.histCount + 1 else s.histCount
    cur
    max := fun d => if s.max d < cur d then cur d else s.max d }

/-- `nsp_sample_tick` with the answer of the stack, if there is one. -/
def tick (s : NspSampler) : Option Reading → NspSampler × TickResult
  | none => (s, .failed)
  | some r =>
      if s.seeds r then (s.seed r, .seeded)
      else
        ({ (s.record r).average r with last := r.bytes, lastTicks := r.now, valid := true }, .rate)

/-- `nsp_sample_select`. -/
def select (s : NspSampler) (answer : Option Reading) : NspSampler × TickResult :=
  tick (clearStats { s with haveLast := false }) answer

def delta (s : NspSampler) (r : Reading) : NspSample :=
  ⟨fun d => r.bytes d - s.last d, r.now - s.lastTicks⟩

end NspSampler

/-! ### Runs -/

structure Traced where
  sampler : NspSampler
  log : List NspSample
  rated : Bool

inductive Call
  | tick (answer : Option Reading)
  | select (answer : Option Reading)
  | reset
  | setAverage (secs : ℤ)

namespace Traced

def tick (t : Traced) (answer : Option Reading) : Traced :=
  match answer, t.sampler.tick answer with
  | some r, (s, .rate) => ⟨s, t.sampler.delta r :: t.log, true⟩
  | _, (s, .failed) => ⟨s, t.log, false⟩
  | _, (s, _) => ⟨s, [], false⟩

def next (t : Traced) : Call → Traced
  | .tick answer => t.tick answer
  | .select answer => ⟨(t.sampler.select answer).1, [], false⟩
  | .reset => ⟨t.sampler.reset, [], false⟩
  | .setAverage secs => ⟨t.sampler.setAverage secs, t.log, false⟩

def total (l : List NspSample) (d : Dir) : ℕ :=
  (l.map fun x => x.bytes d).sum

def duration (l : List NspSample) : ℕ :=
  (l.map NspSample.ticks).sum

def Bounded (t : Traced) : Call → Prop
  | .tick (some r) =>
      t.sampler.haveLast = true → t.sampler.lastTicks ≤ r.now ∧
        (t.sampler.delta r).ticks < 2 ^ 32 ∧ ∀ d, (t.sampler.delta r).bytes d < 2 ^ 32 ∧
          total (t.sampler.delta r :: t.log) d * t.sampler.eclockFreq < 2 ^ 64
  | _ => True

instance (t : Traced) (l : Call) : Decidable (t.Bounded l) := by
  unfold Bounded
  split <;> infer_instance

structure Init (t : Traced) : Prop where
  haveLast : t.sampler.haveLast = false
  histHead : t.sampler.histHead = 0
  histCount : t.sampler.histCount = 0
  avgSamples : t.sampler.avgSamples = 0
  log : t.log = []
  rated : t.rated = false

def system : TransitionSystem Traced Call where
  init := Init
  next t l := some (t.next l)

def window (t : Traced) : List NspSample :=
  if t.sampler.avgSamples = 0 then t.log else t.log.take t.sampler.avgSamples

def meanRate (l : List NspSample) (d : Dir) (freq : ℕ) : ℕ :=
  min (total l d * freq / duration l) 0xFFFFFFFF

end Traced

/-! ### Exact arithmetic -/

theorem sub64_of_le {a b : ℕ} (h : b ≤ a) (ha : a < 2 ^ 64) :
  sub64 a b = a - b
  := by
  unfold sub64
  omega

theorem sum64_eq (l : List ℕ) :
  sum64 l = l.sum % 2 ^ 64
  := by
  have hfold : ∀ sum, l.foldl (fun sum x => (sum + x) % 2 ^ 64) (sum % 2 ^ 64) =
      (sum + l.sum) % 2 ^ 64 := by
    induction l with
    | nil => simp
    | cons x l ih =>
      intro sum
      rw [foldl_cons, Nat.mod_add_mod, ih, sum_cons, Nat.add_assoc]
  have h := hfold 0
  rw [Nat.zero_mod, Nat.zero_add] at h
  apply h

theorem clamp_eq_min (v : ℕ) :
  clamp v = min v 0xFFFFFFFF
  := by
  unfold clamp
  split <;> omega

theorem clamp_of_lt {v : ℕ} (h : v < 2 ^ 32) :
  clamp v = v
  := by
  rw [clamp_eq_min]
  omega

theorem rate_of_lt {bytes ticks freq : ℕ} (h : bytes * freq < 2 ^ 64) :
  rate bytes ticks freq = min (bytes * freq / ticks) 0xFFFFFFFF
  := by
  rw [rate, Nat.mod_eq_of_lt h, clamp_eq_min]

namespace Traced

variable {t t' : Traced} {l : List NspSample} {r : Reading} {d : Dir}

theorem total_cons (x : NspSample) :
  total (x :: l) d = x.bytes d + total l d
  := by
  rw [total, map_cons, sum_cons, total]

theorem duration_cons (x : NspSample) :
  duration (x :: l) = x.ticks + duration l
  := by
  rw [duration, map_cons, sum_cons, duration]

theorem total_take_le (n : ℕ) :
  total (l.take n) d ≤ total l d
  := ((take_sublist n l).map _).sum_le_sum (fun _ _ => Nat.zero_le _)

theorem duration_take_le (n : ℕ) :
  duration (l.take n) ≤ duration l
  := ((take_sublist n l).map _).sum_le_sum (fun _ _ => Nat.zero_le _)

/-! ### The invariant -/

structure Inv (t : Traced) : Prop where
  keeps : Newest.Keeps t.sampler.hist NSP_AVG_MAX t.sampler.histHead t.log
  count : t.sampler.histCount = min t.log.length NSP_AVG_MAX
  window : t.sampler.avgSamples ≤ NSP_AVG_MAX
  last : t.sampler.haveLast = true → ∀ d, t.sampler.last d = t.sampler.base d + total t.log d
  lastTicks :
    t.sampler.haveLast = true → t.sampler.lastTicks = t.sampler.baseTicks + duration t.log
  ticks : ∀ x ∈ t.log, 0 < x.ticks
  max : ∀ x ∈ t.log, ∀ d, meanRate [x] d t.sampler.eclockFreq ≤ t.sampler.max d

theorem meanRate_singleton (x : NspSample) (d : Dir) (freq : ℕ) :
  meanRate [x] d freq = min (x.bytes d * freq / x.ticks) 0xFFFFFFFF
  := by
  simp [meanRate, total, duration]

theorem meanRate_le
    {freq m : ℕ} (hpos : ∀ x ∈ l, 0 < x.ticks) (h : ∀ x ∈ l, meanRate [x] d freq ≤ m) :
  meanRate l d freq ≤ m
  := by
  obtain hm | hm := Nat.lt_or_ge m 0xFFFFFFFF
  · apply (Nat.min_le_left _ _).trans
    apply sum_mul_div_le hpos
    intro x hx
    have hle := h x hx
    rw [meanRate_singleton] at hle
    omega
  · apply (Nat.min_le_right _ _).trans hm

theorem inv_cleared
    {s : NspSampler} {rated : Bool} (hhead : s.histHead = 0) (hcount : s.histCount = 0)
    (hwindow : s.avgSamples ≤ NSP_AVG_MAX)
    (hbase : s.haveLast = true → s.base = s.last ∧ s.baseTicks = s.lastTicks) :
  Inv ⟨s, [], rated⟩
  := by
  refine ⟨?_, hcount, hwindow, ?_, ?_, nofun, nofun⟩
  · rw [hhead]
    apply Newest.Keeps.nil
    decide
  · intro h d
    rw [(hbase h).1]
    rfl
  · intro h
    rw [(hbase h).2]
    rfl

theorem Init.inv (h : t.Init) :
  t.Inv
  := by
  obtain ⟨s, l, rated⟩ := t
  obtain rfl : l = [] := h.log
  apply inv_cleared h.histHead h.histCount
  · rw [h.avgSamples]
    apply Nat.zero_le
  · intro hlast
    rw [h.haveLast] at hlast
    contradiction

/-! ### A tick that reports a rate -/

theorem of_not_seeds {s : NspSampler} (h : s.seeds r = false) :
  s.haveLast = true ∧ (∀ d, s.last d ≤ r.bytes d) ∧ sub64 r.now s.lastTicks ≠ 0
  := by
  simp only [NspSampler.seeds, Bool.or_eq_false_iff, Bool.not_eq_false', decide_eq_false_iff_not,
    not_lt] at h
  obtain ⟨⟨⟨hlast, hrx⟩, htx⟩, hticks⟩ := h
  refine ⟨hlast, fun d => ?_, hticks⟩
  cases d with
  | rx => apply hrx
  | tx => apply htx

structure Rates (t : Traced) (r : Reading) : Prop where
  inv : t.Inv
  seeds : t.sampler.seeds r = false
  bounded : t.Bounded (.tick (some r))

namespace Rates

variable (h : t.Rates r)

include h

theorem haveLast :
  t.sampler.haveLast = true
  := (of_not_seeds h.seeds).1

theorem ticks_eq :
  sub64 r.now t.sampler.lastTicks = (t.sampler.delta r).ticks
  := sub64_of_le (h.bounded h.haveLast).1 r.now_lt

theorem ticks_pos :
  0 < (t.sampler.delta r).ticks
  := by
  rw [← h.ticks_eq]
  apply Nat.pos_of_ne_zero (of_not_seeds h.seeds).2.2

theorem bytes_eq (d : Dir) :
  r.bytes d = t.sampler.base d + total (t.sampler.delta r :: t.log) d
  := by
  have hle := (of_not_seeds h.seeds).2.1 d
  have hlast := h.inv.last h.haveLast d
  simp only [total_cons, NspSampler.delta]
  omega

theorem now_eq :
  r.now = t.sampler.baseTicks + duration (t.sampler.delta r :: t.log)
  := by
  have hle := (h.bounded h.haveLast).1
  have hlast := h.inv.lastTicks h.haveLast
  simp only [duration_cons, NspSampler.delta]
  omega

theorem record_eq :
  t.sampler.record r =
    { t.sampler with
      hist := Function.update t.sampler.hist t.sampler.histHead (t.sampler.delta r)
      histHead := (t.sampler.histHead + 1) % NSP_AVG_MAX
      histCount :=
        if t.sampler.histCount < NSP_AVG_MAX then t.sampler.histCount + 1 else t.sampler.histCount
      cur := fun d => meanRate [t.sampler.delta r] d t.sampler.eclockFreq
      max := fun d => max (t.sampler.max d) (meanRate [t.sampler.delta r] d t.sampler.eclockFreq) }
  := by
  obtain ⟨-, hticks, hbytes⟩ := h.bounded h.haveLast
  have hx : t.sampler.sample r = t.sampler.delta r := by
    rw [NspSampler.sample, h.ticks_eq, clamp_of_lt hticks]
    congr 1
    funext d
    rw [sub64_of_le ((of_not_seeds h.seeds).2.1 d) (r.bytes_lt d)]
    apply clamp_of_lt (hbytes d).1
  have hcur : ∀ d, rate ((t.sampler.delta r).bytes d) (t.sampler.delta r).ticks
      t.sampler.eclockFreq = meanRate [t.sampler.delta r] d t.sampler.eclockFreq := by
    intro d
    rw [meanRate_singleton, rate_of_lt]
    apply lt_of_le_of_lt _ (hbytes d).2
    rw [total_cons]
    apply Nat.mul_le_mul_right _ (Nat.le_add_right _ _)
  have hmax : ∀ a b : ℕ, (if a < b then b else a) = max a b := by
    intro a b
    split <;> omega
  simp only [NspSampler.record, hx, h.ticks_eq, hcur, hmax]

theorem keeps :
  Newest.Keeps (t.sampler.record r).hist NSP_AVG_MAX (t.sampler.record r).histHead
    (t.sampler.delta r :: t.log)
  := by
  rw [h.record_eq]
  apply h.inv.keeps.push

theorem count :
  (t.sampler.record r).histCount = min (t.sampler.delta r :: t.log).length NSP_AVG_MAX
  := by
  rw [h.record_eq, length_cons]
  simp only [h.inv.count]
  split <;> omega

theorem ticks : ∀ x ∈ t.sampler.delta r :: t.log, 0 < x.ticks
  := by
  rintro x (_ | ⟨_, hx⟩)
  · apply h.ticks_pos
  · apply h.inv.ticks x hx

theorem max_le :
  ∀ x ∈ t.sampler.delta r :: t.log, ∀ d,
    meanRate [x] d t.sampler.eclockFreq ≤ (t.sampler.record r).max d
  := by
  rw [h.record_eq]
  rintro x (_ | ⟨_, hx⟩) d
  · apply le_max_right
  · apply (h.inv.max x hx d).trans (le_max_left _ _)

theorem recent_eq :
  (t.sampler.record r).recent = (t.sampler.delta r :: t.log).take t.sampler.avgSamples
  := by
  have hcount := h.count
  have hwindow : (t.sampler.record r).avgSamples ≤ NSP_AVG_MAX := h.inv.window
  have hn : (if (t.sampler.record r).histCount < (t.sampler.record r).avgSamples then
      (t.sampler.record r).histCount else (t.sampler.record r).avgSamples) =
      min t.sampler.avgSamples (t.sampler.delta r :: t.log).length := by
    change _ = min (t.sampler.record r).avgSamples _
    split <;> omega
  rw [NspSampler.recent, hn, h.keeps.entries, ← take_eq_take_min]
  · apply (Nat.min_le_left _ _).trans h.inv.window
  · apply Nat.min_le_right

theorem average_avg (d : Dir) :
  ((t.sampler.record r).average r).avg d =
    meanRate (if t.sampler.avgSamples = 0 then t.sampler.delta r :: t.log
      else (t.sampler.delta r :: t.log).take t.sampler.avgSamples) d t.sampler.eclockFreq
  := by
  have hbytes := h.bytes_eq d
  have hbytes_lt := r.bytes_lt d
  have hnow := h.now_eq
  have hnow_lt := r.now_lt
  have htotal := ((h.bounded h.haveLast).2.2 d).2
  have hsamples : (t.sampler.record r).avgSamples = t.sampler.avgSamples := rfl
  unfold NspSampler.average
  rw [hsamples]
  split_ifs with hzero
  · -- The sums over the log lead from the base to the reading.
    change rate (sub64 (r.bytes d) (t.sampler.base d)) (sub64 r.now t.sampler.baseTicks)
      t.sampler.eclockFreq = _
    rw [sub64_of_le (by omega) hbytes_lt, sub64_of_le (by omega) hnow_lt, hbytes, hnow,
      Nat.add_sub_cancel_left, Nat.add_sub_cancel_left, rate_of_lt htotal, meanRate]
  · have htake : total ((t.sampler.delta r :: t.log).take t.sampler.avgSamples) d ≤ _ :=
      total_take_le _
    have hdur : duration ((t.sampler.delta r :: t.log).take t.sampler.avgSamples) ≤ _ :=
      duration_take_le _
    have hpos : 0 < duration ((t.sampler.delta r :: t.log).take t.sampler.avgSamples) := by
      obtain ⟨n, hn⟩ := Nat.exists_eq_succ_of_ne_zero hzero
      rw [hn, take_succ_cons, duration_cons]
      apply Nat.add_pos_left h.ticks_pos
    have hticks : sum64 ((t.sampler.record r).recent.map NspSample.ticks) =
        duration ((t.sampler.delta r :: t.log).take t.sampler.avgSamples) := by
      rw [sum64_eq, h.recent_eq]
      apply Nat.mod_eq_of_lt
      change duration _ < _
      omega
    have hsum : sum64 ((t.sampler.record r).recent.map fun x => x.bytes d) =
        total ((t.sampler.delta r :: t.log).take t.sampler.avgSamples) d := by
      rw [sum64_eq, h.recent_eq]
      apply Nat.mod_eq_of_lt
      change total _ d < _
      omega
    simp only [hticks, if_neg hpos.ne', hsum]
    apply rate_of_lt
    apply (Nat.mul_le_mul_right _ htake).trans_lt htotal

end Rates

/-! ### Runs -/

theorem tick_of_seeds (h : t.sampler.seeds r = true) :
  t.tick (some r) = ⟨t.sampler.seed r, [], false⟩
  := by
  simp only [tick, NspSampler.tick, h, if_true]

theorem tick_of_not_seeds (h : t.sampler.seeds r = false) :
  t.tick (some r) =
    ⟨{ (t.sampler.record r).average r with last := r.bytes, lastTicks := r.now, valid := true },
      t.sampler.delta r :: t.log, true⟩
  := by
  simp only [tick, NspSampler.tick, h, Bool.false_eq_true, if_false]

theorem average_eq (s : NspSampler) (r : Reading) :
  s.average r = { s with avg := (s.average r).avg }
  := by
  unfold NspSampler.average
  split_ifs
  · rfl
  · simp only
    split_ifs <;> rfl

theorem inv_seed (h : t.Inv) (r : Reading) :
  Inv ⟨t.sampler.seed r, [], false⟩
  := inv_cleared rfl rfl h.window fun _ => ⟨rfl, rfl⟩

theorem Rates.inv_tick (h : t.Rates r) :
  (t.tick (some r)).Inv
  := by
  rw [tick_of_not_seeds h.seeds, average_eq]
  exact ⟨h.keeps, h.count, h.inv.window, fun _ => h.bytes_eq, fun _ => h.now_eq, h.ticks, h.max_le⟩

theorem Inv.next {l : Call} (h : t.Inv) (hbound : t.Bounded l) :
  (t.next l).Inv
  := by
  cases l with
  | tick answer =>
    cases answer with
    | none =>
      exact ⟨h.keeps, h.count, h.window, h.last, h.lastTicks, h.ticks, h.max⟩
    | some r =>
      cases hseeds : t.sampler.seeds r with
      | true =>
        rw [Traced.next, tick_of_seeds hseeds]
        apply inv_seed h
      | false =>
        apply Rates.inv_tick ⟨h, hseeds, hbound⟩
  | select answer =>
    cases answer with
    | none =>
      refine inv_cleared rfl rfl ?_ nofun
      apply h.window
    | some r => apply inv_seed h
  | reset =>
    refine inv_cleared rfl rfl ?_ fun _ => ⟨rfl, rfl⟩
    apply h.window
  | setAverage secs =>
    refine ⟨h.keeps, h.count, ?_, h.last, h.lastTicks, h.ticks, h.max⟩
    simp only [Traced.next, NspSampler.setAverage]
    generalize (if 0 < secs then _ else 0) = samples
    split <;> omega

theorem inv_of_reach (h : system.Reach Bounded t) :
  t.Inv
  := by
  apply h.invariant
  · intro t ht
    apply Init.inv ht
  · rintro t l t' ht hbound ⟨⟩
    apply ht.next hbound

theorem mem_of_mem_window
    {n : ℕ} {x : NspSample} (h : x ∈ if n = 0 then l else l.take n) :
  x ∈ l
  := by
  split at h
  · apply h
  · apply mem_of_mem_take h

/-- The average is the mean rate over the newest samples of the window, and no rate exceeds the
maximum. -/
theorem rates_consistent (h : system.Reach Bounded t) (hrated : t.rated = true) (d : Dir) :
  t.sampler.avg d = meanRate t.window d t.sampler.eclockFreq ∧
    t.sampler.cur d ≤ t.sampler.max d ∧ t.sampler.avg d ≤ t.sampler.max d
  := by
  obtain hinit | @⟨t, _, l, hreach, hbound, ⟨⟩⟩ := h
  · rw [hinit.rated] at hrated
    contradiction
  · have hinv := inv_of_reach hreach
    -- The last call can only have been a tick that did not seed.
    match l with
    | .tick none | .select _ | .reset | .setAverage _ => contradiction
    | .tick (some r) =>
      cases hseeds : t.sampler.seeds r with
      | true =>
        rw [next, tick_of_seeds hseeds] at hrated
        contradiction
      | false =>
        have hrates : t.Rates r := ⟨hinv, hseeds, hbound⟩
        have hmax := hrates.max_le
        have havg := hrates.average_avg d
        rw [next, tick_of_not_seeds hseeds, average_eq]
        refine ⟨havg, ?_, ?_⟩
        · change (t.sampler.record r).cur d ≤ (t.sampler.record r).max d
          have hcur : (t.sampler.record r).cur d =
              meanRate [t.sampler.delta r] d t.sampler.eclockFreq := by
            rw [hrates.record_eq]
          rw [hcur]
          apply hmax _ mem_cons_self
        · change ((t.sampler.record r).average r).avg d ≤ (t.sampler.record r).max d
          rw [havg]
          apply meanRate_le
          · intro x hx
            apply hrates.ticks x (mem_of_mem_window hx)
          · intro x hx
            apply hmax x (mem_of_mem_window hx)

def twoTicks : List Call :=
  [.select (some ⟨fun _ => 0, 0, by decide, by decide⟩),
    .tick (some ⟨fun _ => 1000, 1000, by decide, by decide⟩), .setAverage 60,
    .tick (some ⟨fun _ => 4000, 2000, by decide, by decide⟩)]

def idle : Traced :=
  ⟨⟨1000, false, fun _ => 0, 0, fun _ => 0, 0, fun _ => ⟨fun _ => 0, 0⟩, 0, 0, 0, false, fun _ => 0,
    fun _ => 0, fun _ => 0⟩, [], false⟩

theorem twoTicks_enabled :
  (system.exec idle twoTicks).isSome = true
  := rfl

theorem rates_consistent_twoTicks :
  (system.last idle twoTicks twoTicks_enabled).sampler.avg .rx = 2000 ∧
    (system.last idle twoTicks twoTicks_enabled).sampler.avg .rx ≤
      (system.last idle twoTicks twoTicks_enabled).sampler.max .rx
  := by
  have hreach : system.Reach Bounded (system.last idle twoTicks twoTicks_enabled) := by
    apply TransitionSystem.reach_last
    · exact ⟨rfl, rfl, rfl, rfl, rfl, rfl⟩
    · decide
  exact ⟨by decide, (rates_consistent hreach (by decide) .rx).2.2⟩

end Traced

end Nsp
