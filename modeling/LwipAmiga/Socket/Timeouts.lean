import LwipAmiga.Lib.Transition
import LwipAmiga.Socket.Basic

/-!
# Timeouts and lingering

Timeouts are kept in milliseconds, and `sb_wait_to` compares a latched deadline with the wrapping
clock.
-/

structure SbTimeval where
  tvSecs : UInt32
  tvMicro : UInt32
  deriving DecidableEq

structure SbLinger where
  lOnoff : Int32
  lLinger : Int32
  deriving DecidableEq

structure TimeOpts where
  sndTimeoMs : UInt32
  rcvTimeoMs : UInt32
  lingerOn : Bool
  lingerTime : UInt16
  deriving DecidableEq

inductive TimeoName where
  | sndtimeo
  | rcvtimeo
  deriving DecidableEq

/-! ### Setting and getting -/

namespace TimeOpts

def timeoMs (o : TimeOpts) : TimeoName → UInt32
  | .sndtimeo => o.sndTimeoMs
  | .rcvtimeo => o.rcvTimeoMs

/-- `bsd_setsockopt` of `SO_SNDTIMEO` and `SO_RCVTIMEO`, where `none` is `NULL`. -/
def setTimeo (o : TimeOpts) (name : TimeoName) (tv : Option SbTimeval) (optlen : ℤ) :
    Except Errno TimeOpts :=
  match tv with
  | none => .error .einval
  | some tv =>
      if optlen < 8 then .error .einval
      else
        let ms := tv.tvSecs * 1000 + tv.tvMicro / 1000
        match name with
        | .sndtimeo => .ok { o with sndTimeoMs := ms }
        | .rcvtimeo => .ok { o with rcvTimeoMs := ms }

/-- `bsd_getsockopt` of `SO_SNDTIMEO` and `SO_RCVTIMEO`. -/
def getTimeo (o : TimeOpts) (name : TimeoName) (optlen : ℤ) : Except Errno SbTimeval :=
  if optlen < 8 then .error .einval
  else .ok { tvSecs := o.timeoMs name / 1000, tvMicro := o.timeoMs name % 1000 * 1000 }

/-- `bsd_setsockopt` of `SO_LINGER`. -/
def setLinger (o : TimeOpts) (lg : Option SbLinger) (optlen : ℤ) : Except Errno TimeOpts :=
  match lg with
  | none => .error .einval
  | some lg =>
      if optlen < 8 then .error .einval
      else .ok { o with lingerOn := lg.lOnoff ≠ 0, lingerTime := lg.lLinger.toUInt32.toUInt16 }

/-- `bsd_getsockopt` of `SO_LINGER`. -/
def getLinger (o : TimeOpts) (optlen : ℤ) : Except Errno SbLinger :=
  if optlen < 8 then .error .einval
  else .ok { lOnoff := if o.lingerOn then 1 else 0, lLinger := o.lingerTime.toUInt32.toInt32 }

end TimeOpts

namespace SbTimeval

def millis (tv : SbTimeval) : ℕ :=
  tv.tvSecs.toNat * 1000 + tv.tvMicro.toNat / 1000

def micros (tv : SbTimeval) : ℕ :=
  tv.tvSecs.toNat * 1000000 + tv.tvMicro.toNat

def trunc (tv : SbTimeval) : SbTimeval :=
  { tv with tvMicro := tv.tvMicro / 1000 * 1000 }

def Exact (tv : SbTimeval) : Prop :=
  tv.tvMicro.toNat % 1000 = 0 ∧ tv.millis < 2 ^ 31

theorem ofNat_millis (tv : SbTimeval) :
  UInt32.ofNat tv.millis = tv.tvSecs * 1000 + tv.tvMicro / 1000
  := by
  apply UInt32.toNat_inj.mp
  simp only [millis, UInt32.toNat_ofNat', UInt32.toNat_add, UInt32.toNat_mul, UInt32.toNat_div,
    UInt32.reduceToNat]
  omega

end SbTimeval

theorem TimeOpts.timeoMs_setTimeo
    {o o' : TimeOpts} {name : TimeoName} {tv : SbTimeval} {optlen : ℤ}
    (h : o.setTimeo name (some tv) optlen = .ok o') :
  o'.timeoMs name = UInt32.ofNat tv.millis
  := by
  rw [SbTimeval.ofNat_millis]
  grind [setTimeo, timeoMs]

theorem TimeOpts.getTimeo_setTimeo
    {o o' : TimeOpts} {name : TimeoName} {tv : SbTimeval} {optlen optlen' : ℤ}
    (hmicro : tv.tvMicro.toNat < 1000000) (hfits : tv.millis < 2 ^ 32) (hlen : 8 ≤ optlen')
    (h : o.setTimeo name (some tv) optlen = .ok o') :
  o'.getTimeo name optlen' = .ok tv.trunc
  := by
  have hnat : (o'.timeoMs name).toNat = tv.tvSecs.toNat * 1000 + tv.tvMicro.toNat / 1000 := by
    rw [timeoMs_setTimeo h, UInt32.toNat_ofNat', Nat.mod_eq_of_lt hfits, SbTimeval.millis]
  rw [getTimeo, if_neg (by omega)]
  have hsecs : o'.timeoMs name / 1000 = tv.tvSecs := by
    apply UInt32.toNat_inj.mp
    simp only [UInt32.toNat_div, UInt32.reduceToNat]
    omega
  have hrest : o'.timeoMs name % 1000 * 1000 = tv.tvMicro / 1000 * 1000 := by
    apply UInt32.toNat_inj.mp
    simp only [UInt32.toNat_mul, UInt32.toNat_mod, UInt32.toNat_div, UInt32.reduceToNat]
    rw [hnat, show (tv.tvSecs.toNat * 1000 + tv.tvMicro.toNat / 1000) % 1000 =
      tv.tvMicro.toNat / 1000 by omega]
  rw [hsecs, hrest]
  rfl

theorem Int32.toInt32_toUInt16 {n : Int32} (h : 0 ≤ n ∧ n < 65536) :
  n.toUInt32.toUInt16.toUInt32.toInt32 = n
  := by
  have hlt : n.toUInt32.toNat < 65536 := by
    obtain ⟨hle, hlt⟩ := h
    rw [Int32.le_iff_toInt_le] at hle
    rw [Int32.lt_iff_toInt_lt] at hlt
    change 0 ≤ n.toBitVec.toInt at hle
    change n.toBitVec.toInt < 65536 at hlt
    change n.toBitVec.toNat < 65536
    have := n.toBitVec.isLt
    rw [BitVec.toInt_eq_toNat_cond] at hle hlt
    grind
  have hwide : n.toUInt32.toUInt16.toUInt32 = n.toUInt32 := by
    apply UInt32.toNat_inj.mp
    rw [UInt16.toNat_toUInt32, UInt32.toNat_toUInt16, Nat.mod_eq_of_lt hlt]
  rw [hwide]
  rfl

theorem TimeOpts.getLinger_setLinger
    {o o' : TimeOpts} {lg : SbLinger} {optlen optlen' : ℤ} (honoff : lg.lOnoff = 0 ∨ lg.lOnoff = 1)
    (hlinger : 0 ≤ lg.lLinger ∧ lg.lLinger < 65536) (hlen : 8 ≤ optlen')
    (h : o.setLinger (some lg) optlen = .ok o') :
  o'.getLinger optlen' = .ok lg
  := by
  have hset : o'.lingerOn = decide (lg.lOnoff ≠ 0) ∧
      o'.lingerTime = lg.lLinger.toUInt32.toUInt16 := by
    grind [setLinger]
  have hon : (if o'.lingerOn then 1 else 0) = lg.lOnoff := by
    rw [hset.1]
    rcases honoff with honoff | honoff <;> rw [honoff] <;> rfl
  rw [getLinger, if_neg (by omega), hon, hset.2, Int32.toInt32_toUInt16 hlinger]

/-! ### Waiting -/

structure SbTimedWait where
  deadlineMs : UInt32
  set : Bool
  deriving DecidableEq

inductive WaitTo where
  | wait
  | timed (left : UInt32)
  | expired
  deriving DecidableEq

/-- `sb_wait_to` up to its `Wait`. -/
def sbWaitTo (timerReq : Bool) (ms now : UInt32) (tw : SbTimedWait) : SbTimedWait × WaitTo :=
  if ms = 0 || !timerReq then (tw, .wait)
  else
    let tw := if tw.set then tw else { deadlineMs := now + ms, set := true }
    if (tw.deadlineMs - now).toInt32 ≤ 0 then (tw, .expired)
    else (tw, .timed (tw.deadlineMs - now))

theorem sbWaitTo_spec (timerReq : Bool) (ms now : UInt32) (tw : SbTimedWait) :
  ((sbWaitTo timerReq ms now tw).1 = tw ∨
      tw.set = false ∧ (sbWaitTo timerReq ms now tw).1 = { deadlineMs := now + ms, set := true }) ∧
    ((sbWaitTo timerReq ms now tw).2 = .expired → (sbWaitTo timerReq ms now tw).1.set = true ∧
      ((sbWaitTo timerReq ms now tw).1.deadlineMs - now).toInt32 ≤ 0)
  := by
  grind [sbWaitTo]

structure BlockedCall where
  timerReq : Bool
  name : TimeoName
  opts : TimeOpts
  time : ℕ
  tw : SbTimedWait
  value : SbTimeval
  since : ℕ × SbTimeval
  failed : Bool

inductive BlockedLabel where
  | elapse (micros : ℕ)
  | setTimeo (tv : SbTimeval)
  | wait
  deriving DecidableEq

namespace BlockedCall

/-- `netstack_now_ms`. -/
def nowMs (c : BlockedCall) : UInt32 :=
  UInt32.ofNat (c.time / 1000)

def next (c : BlockedCall) : BlockedLabel → Option BlockedCall
  | .elapse micros => some { c with time := c.time + micros }
  | .setTimeo tv =>
      (c.opts.setTimeo c.name (some tv) 8).toOption.map fun o => { c with opts := o, value := tv }
  | .wait =>
      if c.failed then none
      else
        let r := sbWaitTo c.timerReq (c.opts.timeoMs c.name) c.nowMs c.tw
        some { c with
          tw := r.1
          since := if c.tw.set then c.since else (c.time, c.value)
          failed := r.2 = .expired }

def Timely : BlockedLabel → Prop
  | .setTimeo tv => tv.Exact
  | _ => True

instance : DecidablePred Timely
  | .setTimeo tv => inferInstanceAs (Decidable (tv.tvMicro.toNat % 1000 = 0 ∧ tv.millis < 2 ^ 31))
  | .elapse _ => inferInstanceAs (Decidable True)
  | .wait => inferInstanceAs (Decidable True)

def system : TransitionSystem BlockedCall BlockedLabel where
  init c := c.opts.timeoMs c.name = 0 ∧ c.value = ⟨0, 0⟩ ∧ c.tw.set = false ∧ c.failed = false
  next := next

theorem le_of_expired {a m t : ℕ} (hat : a ≤ t) (hm : m < 2 ^ 31)
    (h : (UInt32.ofNat (a + m) - UInt32.ofNat t).toInt32 ≤ 0) :
  a + m ≤ t
  := by
  by_contra hlt
  have hnat : (UInt32.ofNat (a + m - t)).toNat = a + m - t := by
    rw [UInt32.toNat_ofNat', Nat.mod_eq_of_lt (by omega)]
  have hint : (UInt32.ofNat (a + m - t)).toInt32.toInt = (a + m - t : ℕ) := by
    change (UInt32.ofNat (a + m - t)).toBitVec.toInt = (a + m - t : ℕ)
    rw [BitVec.toInt_eq_toNat_cond, UInt32.toNat_toBitVec, hnat, if_pos (by omega)]
  rw [← UInt32.ofNat_sub (by omega), Int32.le_iff_toInt_le, hint, Int32.toInt_zero] at h
  omega

structure Inv (c : BlockedCall) : Prop where
  exact : c.value.Exact
  opts : c.opts.timeoMs c.name = UInt32.ofNat c.value.millis
  latched : c.tw.set = true → c.since.1 ≤ c.time ∧ c.since.2.Exact ∧
    c.tw.deadlineMs = UInt32.ofNat (c.since.1 / 1000 + c.since.2.millis)
  failed : c.failed = true →
    c.tw.set = true ∧ c.since.1 / 1000 + c.since.2.millis ≤ c.time / 1000

theorem Inv.wait
    {c c' : BlockedCall} (hc : c.Inv) (h : c.next .wait = some c') :
  c'.Inv
  := by
  simp only [BlockedCall.next] at h
  split at h
  next => cases h
  next =>
    cases h
    obtain ⟨htw, hexpired⟩ :=
      sbWaitTo_spec c.timerReq (c.opts.timeoMs c.name) c.nowMs c.tw
    have hlatched : (sbWaitTo c.timerReq (c.opts.timeoMs c.name) c.nowMs c.tw).1.set = true →
        (if c.tw.set then c.since else (c.time, c.value)).1 ≤ c.time ∧
        (if c.tw.set then c.since else (c.time, c.value)).2.Exact ∧
        (sbWaitTo c.timerReq (c.opts.timeoMs c.name) c.nowMs c.tw).1.deadlineMs =
          UInt32.ofNat ((if c.tw.set then c.since else (c.time, c.value)).1 / 1000 +
            (if c.tw.set then c.since else (c.time, c.value)).2.millis) := by
      intro hset
      rcases htw with htw | ⟨hunset, htw⟩
      · rw [htw] at hset ⊢
        rw [if_pos hset]
        apply hc.latched hset
      · rw [htw, hunset, if_neg Bool.false_ne_true, hc.opts, nowMs, UInt32.ofNat_add]
        exact ⟨Nat.le_refl _, hc.exact, rfl⟩
    refine ⟨hc.exact, hc.opts, hlatched, ?_⟩
    intro hfailed
    obtain ⟨hset, hpast⟩ := hexpired (of_decide_eq_true hfailed)
    obtain ⟨hle, hexact, hdeadline⟩ := hlatched hset
    rw [hdeadline] at hpast
    exact ⟨hset, le_of_expired (Nat.div_le_div_right hle) hexact.2 hpast⟩

theorem Inv.next
    {c c' : BlockedCall} {l : BlockedLabel} (hc : c.Inv) (hl : Timely l) (h : c.next l = some c') :
  c'.Inv
  := by
  cases l with
  | elapse micros =>
    cases h
    refine ⟨hc.exact, hc.opts, ?_, ?_⟩
    · intro hset
      obtain ⟨hle, hlatched⟩ := hc.latched hset
      exact ⟨by dsimp only; omega, hlatched⟩
    · intro hfailed
      obtain ⟨hset, hle⟩ := hc.failed hfailed
      exact ⟨hset, by dsimp only; omega⟩
  | setTimeo tv =>
    obtain ⟨o, ho, rfl⟩ := Option.map_eq_some_iff.mp h
    refine ⟨hl, ?_, hc.latched, hc.failed⟩
    cases hset : c.opts.setTimeo c.name (some tv) 8 with
    | ok o' =>
      rw [hset] at ho
      cases ho
      apply TimeOpts.timeoMs_setTimeo hset
    | error e =>
      rw [hset] at ho
      cases ho
  | wait => apply hc.wait h

def idle : BlockedCall where
  timerReq := true
  name := .rcvtimeo
  opts := { sndTimeoMs := 0, rcvTimeoMs := 0, lingerOn := false, lingerTime := 0 }
  time := 4294967295000
  tw := { deadlineMs := 0, set := false }
  value := ⟨0, 0⟩
  since := (0, ⟨0, 0⟩)
  failed := false

def secondRun : List BlockedLabel :=
  [.setTimeo ⟨1, 500000⟩, .wait, .elapse 700000, .wait, .elapse 800000, .wait]

end BlockedCall
