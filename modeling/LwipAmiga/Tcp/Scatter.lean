import LwipAmiga.Tcp.Peek

/-!
# Scattered reads

`bsd_recvmsg` calls `bsd_recv` for one buffer after the other, and stops at the first that is not
filled.
-/

open List

namespace Call

variable {β κ : Type} {s : SbSocket β κ} {o : RecvOutcome β κ}
  {fut : List (Option Errno × SbSocket β κ)}

def Resumes (l : ℕ) (acc : List UInt8)
    (rest : List UInt8 → List (Option Errno × SbSocket β κ) → SbSocket β κ → RecvOutcome β κ → Prop)
    (fut : List (Option Errno × SbSocket β κ)) (o₁ o : RecvOutcome β κ) : Prop :=
  match o₁.res with
  | .error e => fut = [] ∧ o = ⟨o₁.sock, acc, if acc = [] then .error e else .ok acc.length⟩
  | .ok n =>
      if n = 0 ∨ n < l then fut = [] ∧ o = ⟨o₁.sock, acc ++ o₁.buf, .ok (acc.length + n)⟩
      else rest (acc ++ o₁.buf) fut o₁.sock o

/-- `bsd_recvmsg` on a stream with buffers of the given lengths, `acc` being the bytes it has. -/
def Recvmsg (peek waitall dontwait : Bool) : List ℕ → List UInt8 →
    List (Option Errno × SbSocket β κ) → SbSocket β κ → RecvOutcome β κ → Prop
  | [], acc, fut, s, o => fut = [] ∧ o = ⟨s, acc, .ok acc.length⟩
  | l :: lens, acc, fut, s, o =>
      if l = 0 then Recvmsg peek waitall dontwait lens acc fut s o
      else if h : l < 2 ^ 31 then
        ∃ fut₁ fut₂ o₁, fut = fut₁ ++ fut₂ ∧
          Ends fut₁ s (.entry ⟨l, h, peek, waitall, dontwait || !acc.isEmpty⟩) o₁ ∧
          Resumes l acc (Recvmsg peek waitall dontwait lens) fut₂ o₁ o
      else fut = [] ∧ o = ⟨s, acc, if acc = [] then .error .einval else .ok acc.length⟩

variable {peek waitall dontwait : Bool} {l : ℕ} {lens : List ℕ} {acc : List UInt8}

theorem recvmsg_zero :
  Recvmsg peek waitall dontwait (0 :: lens) acc fut s o ↔
    Recvmsg peek waitall dontwait lens acc fut s o
  := by
  rw [Recvmsg, if_pos rfl]

theorem recvmsg_cons
    (hl : l ≠ 0) (h : l < 2 ^ 31) :
  Recvmsg peek waitall dontwait (l :: lens) acc fut s o ↔
    ∃ fut₁ fut₂ o₁, fut = fut₁ ++ fut₂ ∧
      Ends fut₁ s (.entry ⟨l, h, peek, waitall, dontwait || !acc.isEmpty⟩) o₁ ∧
      Resumes l acc (Recvmsg peek waitall dontwait lens) fut₂ o₁ o
  := by
  rw [Recvmsg, if_neg hl, dif_pos h]

theorem resumes_of_returning
    {c : Call} {o₁ : RecvOutcome β κ} (hc : Returning s c o₁)
    (K : List (Option Errno × SbSocket β κ) → RecvOutcome β κ → Prop) :
  (∃ fut₁ fut₂ x, fut = fut₁ ++ fut₂ ∧ Ends fut₁ s c x ∧ K fut₂ x) ↔ K fut o₁
  := by
  constructor
  · rintro ⟨fut₁, fut₂, x, rfl, hx, hK⟩
    obtain ⟨rfl, rfl⟩ := (hc fut₁ x).mp hx
    exact hK
  · intro hK
    exact ⟨[], fut, o₁, rfl, (hc [] o₁).mpr ⟨rfl, rfl⟩, hK⟩

theorem recvmsg_of_zeros
    (h : ∀ l ∈ lens, l = 0) :
  Recvmsg peek waitall dontwait lens acc fut s o ↔ fut = [] ∧ o = ⟨s, acc, .ok acc.length⟩
  := by
  induction lens with
  | nil => rfl
  | cons l lens ih =>
    obtain ⟨rfl, hrest⟩ := forall_mem_cons.mp h
    rw [recvmsg_zero, ih hrest]

/-! ### Peeking -/

theorem acc_prefix
    (h : Recvmsg peek waitall dontwait lens acc fut s o) :
  acc <+: o.buf
  := by
  induction lens generalizing acc fut s with
  | nil =>
    obtain ⟨-, rfl⟩ := h
    exact prefix_rfl
  | cons l lens ih =>
    by_cases hl : l = 0
    · subst hl
      exact ih (recvmsg_zero.mp h)
    · by_cases hlt : l < 2 ^ 31
      · obtain ⟨fut₁, fut₂, o₁, -, -, hresume⟩ := (recvmsg_cons hl hlt).mp h
        unfold Resumes at hresume
        split at hresume
        · obtain ⟨-, rfl⟩ := hresume
          exact prefix_rfl
        · split at hresume
          · obtain ⟨-, rfl⟩ := hresume
            exact prefix_append _ _
          · exact (prefix_append _ _).trans (ih hresume)
      · rw [Recvmsg, if_neg hl, dif_neg hlt] at h
        obtain ⟨-, rfl⟩ := h
        exact prefix_rfl

def PeeksShort (s : SbSocket β κ) (l : ℕ) : Prop :=
  Pbuf.size s.rxq < l ∨ 65535 < l ∨
    s.markUp = true ∧ 0 < s.oobMarkDist ∧ s.oobMarkDist.toNat < l

theorem peekLen_lt
    (hs : s.RxqOk) (h : PeeksShort s l) (hl : l < 2 ^ 31) (w d : Bool) :
  s.peekLen (readLim s ⟨l, hl, true, w, d⟩) < l
  := by
  have hle := readLim_le s ⟨l, hl, true, w, d⟩
  rw [SbSocket.peekLen, hs.rxBytes_eq]
  obtain hsize | hmax | ⟨hup, hpos, hlt⟩ := h
  · omega
  · omega
  · have hlim : readLim s ⟨l, hl, true, w, d⟩ = s.oobMarkDist.toNat := by
      simp [readLim, SbSocket.recvClamp, hup, hpos, Nat.le_of_lt hlt]
    omega

end Call

/-! ### Reading on -/

namespace SbSocket

variable {β κ : Type} (s : SbSocket β κ)

def markLim (n : ℕ) : ℕ :=
  if s.markUp = true ∧ s.oobMarkDist.toNat ≤ n then s.oobMarkDist.toNat else n

theorem readLim_eq {n : ℕ} (h : n < 2 ^ 31) (w d : Bool) :
  Call.readLim s ⟨n, h, false, w, d⟩ = s.markLim n
  := by
  simp only [Call.readLim, recvClamp, markLim]
  by_cases hup : s.markUp = true
  · by_cases hle : s.oobMarkDist.toNat ≤ n <;> simp [hup, hle]
  · simp [hup]

theorem readUpTo_of_pos {a : ℕ} (ha : 0 < a) :
  s.readUpTo a = (s.taken a).flushCredit (min a (Pbuf.size s.rxq))
  := by
  rw [readUpTo, if_pos ha]

theorem readUpTo_readUpTo {a : ℕ} (ha : 0 < a) (b : ℕ) :
  (s.readUpTo a).readUpTo b = s.readUpTo (a + b)
  := by
  have hmin : min (a + b) (Pbuf.size s.rxq) =
      min a (Pbuf.size s.rxq) + min b (Pbuf.size (Pbuf.dropBytes a s.rxq)) := by
    rw [Pbuf.size_dropBytes]
    omega
  rw [s.readUpTo_of_pos ha, s.readUpTo_of_pos (Nat.add_pos_left ha b), hmin,
    ← flushCredit_flushCredit, readUpTo]
  split
  · rw [← taken_taken]
    rfl
  next hb =>
    obtain rfl : b = 0 := by omega
    rfl

theorem readUpTo_of_size_le
    {a b : ℕ} (ha : 0 < a) (hb : 0 < b) (hsa : Pbuf.size s.rxq ≤ a) (hsb : Pbuf.size s.rxq ≤ b) :
  s.readUpTo a = s.readUpTo b
  := by
  simp only [readUpTo, if_pos ha, if_pos hb, taken, Pbuf.dropBytes_eq_nil hsa,
    Pbuf.dropBytes_eq_nil hsb, Nat.min_eq_right hsa, Nat.min_eq_right hsb]

theorem rxq_readUpTo {a : ℕ} (ha : 0 < a) :
  (s.readUpTo a).rxq = Pbuf.dropBytes a s.rxq
  := by
  rw [s.readUpTo_of_pos ha]
  rfl

theorem markUp_readUpTo (a : ℕ) :
  (s.readUpTo a).markUp = s.markUp
  := by
  rw [readUpTo]
  split <;> rfl

theorem oobMarkDist_readUpTo
    {a : ℕ} (ha : 0 < a) (hsize : a ≤ Pbuf.size s.rxq) (hup : s.markUp = true)
    (hle : a ≤ s.oobMarkDist.toNat) :
  (s.readUpTo a).oobMarkDist.toNat = s.oobMarkDist.toNat - a
  := by
  have hlt := s.oobMarkDist.toNat_lt
  have hofNat : (UInt32.ofNat a).toNat = a := by
    rw [UInt32.toNat_ofNat']
    omega
  rw [s.readUpTo_of_pos ha]
  change (s.markDistAfter (min a (Pbuf.size s.rxq))).toNat = _
  rw [Nat.min_eq_left hsize, markDistAfter, if_pos hup, UInt32.toNat_sub_of_le, hofNat]
  rw [UInt32.le_iff_toNat_le, hofNat]
  exact hle

theorem markLim_readUpTo
    {a : ℕ} (ha : 0 < a) (hsize : a ≤ Pbuf.size s.rxq)
    (hmark : s.markUp = true → a ≤ s.oobMarkDist.toNat) (l : ℕ) :
  a + (s.readUpTo a).markLim l = s.markLim (a + l)
  := by
  rw [markLim, markLim, markUp_readUpTo]
  by_cases hup : s.markUp = true
  · have hle := hmark hup
    rw [s.oobMarkDist_readUpTo ha hsize hup hle]
    by_cases hd : s.oobMarkDist.toNat ≤ a + l
    · rw [if_pos ⟨hup, by omega⟩, if_pos ⟨hup, hd⟩]
      omega
    · rw [if_neg (fun h => hd (by omega)), if_neg (fun h => hd h.2)]
  · rw [if_neg (fun h => hup h.1), if_neg (fun h => hup h.1)]

theorem le_markLim
    {a : ℕ} (hmark : s.markUp = true → a ≤ s.oobMarkDist.toNat) (n : ℕ) :
  a ≤ s.markLim (a + n)
  := by
  rw [markLim]
  split
  next h => exact hmark h.1
  next => exact Nat.le_add_right a n

def ClearAt (b : ℕ) : Prop :=
  ¬ (s.markUp = true ∧ s.oobMarkDist.toNat = b) ∧ ¬ (s.err.isSome = true ∧ Pbuf.size s.rxq = b)

def Unbroken (lens : List ℕ) : Prop :=
  ∀ k, 0 < (lens.take k).sum → (lens.take k).sum < lens.sum → s.ClearAt (lens.take k).sum

theorem Unbroken.passMark
    {s : SbSocket β κ} {lens : List ℕ} (h : s.Unbroken lens) (r : RecvReq) :
  (s.passMark r).Unbroken lens
  := by
  rw [SbSocket.passMark]
  split
  · intro k hpos hlt
    refine ⟨?_, (h k hpos hlt).2⟩
    rintro ⟨hup, -⟩
    simp [markUp] at hup
  · exact h

theorem recvEmpty_of_dontwait
    {r : RecvReq} (hd : r.dontwait = true) (herr : s.err = none) :
  s.recvEmpty r 0 = .ret 0 ∨ ∃ e, s.recvEmpty r 0 = .fail e
  := by
  simp only [recvEmpty, herr, hd]
  cases s.rxeof <;> cases s.shutRd <;> cases s.pcb <;> cases s.connected <;> cases s.connecting <;>
    simp

end SbSocket

namespace Call

variable {β κ : Type} {s : SbSocket β κ} {o : RecvOutcome β κ}
  {fut : List (Option Errno × SbSocket β κ)} {r : RecvReq}

theorem ends_empty (hq : s.rxq = []) :
  Ends fut s (.top r ⟨[], []⟩) o ↔
    match s.recvEmpty r 0 with
    | .ret n => fut = [] ∧ o = ⟨s, [], .ok n⟩
    | .fail e => fut = [] ∧ o = ⟨s, [], .error e⟩
    | .clearErr e => fut = [] ∧ o = ⟨{ s with err := none }, [], .error e⟩
    | .sleep => Ends fut s (.asleep r ⟨[], []⟩) o
  := by
  rw [ends_next rfl]
  have hzero : Progress.copied ⟨[], []⟩ = 0 := rfl
  rw [atTop, if_pos hq, hzero]
  cases s.recvEmpty r 0 with
  | ret n | fail e => exact ends_done
  | clearErr e =>
    dsimp only
    rw [ends_next rfl]
    exact ends_done
  | sleep => rfl

theorem returning_nothing
    (hq : s.rxq = []) (herr : s.err = none) (hd : r.dontwait = true) (hpass : s.passMark r = s) :
  Returning s (.entry r) ⟨s, [], .ok 0⟩ ∨ ∃ e, Returning s (.entry r) ⟨s, [], .error e⟩
  := by
  have hentry (fut : List (Option Errno × SbSocket β κ)) (o : RecvOutcome β κ) :
      Ends fut s (.entry r) o ↔ Ends fut s (.top r ⟨[], []⟩) o := by
    rw [ends_next rfl, hpass]
  obtain hret | ⟨e, hfail⟩ := s.recvEmpty_of_dontwait hd herr
  · left
    intro fut o
    rw [hentry, ends_empty hq, hret]
  · right
    refine ⟨e, fun fut o => ?_⟩
    rw [hentry, ends_empty hq, hfail]

def readOutcome (s : SbSocket β κ) (n : ℕ) : RecvOutcome β κ :=
  ⟨s.readUpTo n, (Pbuf.bytes s.rxq).take n, .ok (min n (Pbuf.size s.rxq))⟩

theorem readOutcome_of_size_le
    {a b : ℕ} (ha : 0 < a) (hb : 0 < b) (hsa : Pbuf.size s.rxq ≤ a) (hsb : Pbuf.size s.rxq ≤ b) :
  readOutcome s a = readOutcome s b
  := by
  have hlen := Pbuf.length_bytes s.rxq
  rw [readOutcome, readOutcome, s.readUpTo_of_size_le ha hb hsa hsb, Nat.min_eq_right hsa,
    Nat.min_eq_right hsb, take_of_length_le (hlen.trans_le hsa),
    take_of_length_le (hlen.trans_le hsb)]

theorem resumes_readOutcome
    {d : Bool} {lens : List ℕ} {a l : ℕ} (hl : l ≠ 0) (hsize : a ≤ Pbuf.size s.rxq)
    (hmark : s.markUp = true → a ≤ s.oobMarkDist.toNat) {u : SbSocket β κ} {buf : List UInt8}
    (hu : u = s.readUpTo (s.markLim (a + l)))
    (hbuf : (Pbuf.bytes s.rxq).take a ++ buf = (Pbuf.bytes s.rxq).take (s.markLim (a + l)))
    (hrest : a + l ≤ Pbuf.size s.rxq → (s.markUp = true → a + l ≤ s.oobMarkDist.toNat) →
      (Recvmsg false false d lens ((Pbuf.bytes s.rxq).take (a + l)) fut (s.readUpTo (a + l)) o ↔
        fut = [] ∧ o = readOutcome s (s.markLim (a + l + lens.sum)))) :
  Resumes l ((Pbuf.bytes s.rxq).take a) (Recvmsg false false d lens) fut
      ⟨u, buf, .ok (min (s.markLim (a + l)) (Pbuf.size s.rxq) - a)⟩ o ↔
    fut = [] ∧ o = readOutcome s (s.markLim (a + l + lens.sum))
  := by
  have hlen : ((Pbuf.bytes s.rxq).take a).length = a := by
    rw [length_take, Pbuf.length_bytes, Nat.min_eq_left hsize]
  have hle := s.le_markLim hmark l
  rw [Resumes]
  dsimp only
  rw [hu, hbuf, hlen]
  split
  next hshort =>
    have hlim : readOutcome s (s.markLim (a + l)) = readOutcome s (s.markLim (a + l + lens.sum)) := by
      by_cases hstop : s.markUp = true ∧ s.oobMarkDist.toNat ≤ a + l
      · congr 1
        rw [SbSocket.markLim, if_pos hstop, SbSocket.markLim, if_pos ⟨hstop.1, by omega⟩]
      · have heq : s.markLim (a + l) = a + l := if_neg hstop
        have hge : a + l ≤ s.markLim (a + l + lens.sum) := by
          apply s.le_markLim
          intro hup
          by_contra hlt
          exact hstop ⟨hup, by omega⟩
        rw [heq] at hshort ⊢
        apply readOutcome_of_size_le <;> omega
    rw [← hlim, readOutcome]
    have hadd : a + (min (s.markLim (a + l)) (Pbuf.size s.rxq) - a) =
        min (s.markLim (a + l)) (Pbuf.size s.rxq) := by
      omega
    rw [hadd]
  next hfull =>
    have hfit : s.markLim (a + l) = a + l ∧ a + l ≤ Pbuf.size s.rxq := by
      have hmax : s.markLim (a + l) ≤ a + l := by
        rw [SbSocket.markLim]
        split
        next h => exact h.2
        next => exact le_rfl
      omega
    rw [hfit.1]
    apply hrest hfit.2
    intro hup
    by_contra hlt
    have := hfit.1
    rw [SbSocket.markLim, if_pos ⟨hup, by omega⟩] at this
    omega

theorem recvmsg_rest
    {d : Bool} {lens : List ℕ} {a : ℕ} (ha : 0 < a) (hsize : a ≤ Pbuf.size s.rxq)
    (hmark : s.markUp = true → a ≤ s.oobMarkDist.toNat) (hlt : a + lens.sum < 2 ^ 31)
    (hclear : ∀ k, (lens.take k).sum < lens.sum → s.ClearAt (a + (lens.take k).sum)) :
  Recvmsg false false d lens ((Pbuf.bytes s.rxq).take a) fut (s.readUpTo a) o ↔
    fut = [] ∧ o = readOutcome s (s.markLim (a + lens.sum))
  := by
  induction lens generalizing a with
  | nil =>
    have hlim : s.markLim a = a := by
      rw [SbSocket.markLim]
      split
      next h => exact le_antisymm h.2 (hmark h.1)
      next => rfl
    simp [Recvmsg, readOutcome, hlim]
  | cons l lens ih =>
    have htail (k : ℕ) (hk : (lens.take k).sum < lens.sum) :
        s.ClearAt (a + l + (lens.take k).sum) := by
      have hcons := hclear (k + 1)
      rw [take_succ_cons, sum_cons, sum_cons, ← Nat.add_assoc] at hcons
      exact hcons (Nat.add_lt_add_left hk l)
    rw [sum_cons, ← Nat.add_assoc] at hlt ⊢
    by_cases hl : l = 0
    · subst hl
      rw [recvmsg_zero]
      exact ih ha hsize hmark hlt htail
    · have hpos : 0 < (l :: lens).sum := by
        rw [sum_cons]
        omega
      obtain ⟨hnomark, hnoerr⟩ := hclear 0 hpos
      rw [take_zero, sum_nil, Nat.add_zero] at hnomark hnoerr
      have hne : (Pbuf.bytes s.rxq).take a ≠ [] := by
        rw [← length_pos_iff, length_take, Pbuf.length_bytes]
        omega
      have hr : l < 2 ^ 31 := by omega
      have hwait : (d || !((Pbuf.bytes s.rxq).take a).isEmpty) = true := by
        simp only [isEmpty_eq_false_iff.mpr hne, Bool.not_false, Bool.or_true]
      have hpass : (s.readUpTo a).passMark ⟨l, hr, false, false, true⟩ = s.readUpTo a := by
        rw [SbSocket.passMark, if_neg]
        simp only [SbSocket.startsAtMark, s.markUp_readUpTo, Bool.not_false, Bool.true_and,
          Bool.and_eq_true, beq_iff_eq, not_and]
        intro hzero hup
        have hdist := s.oobMarkDist_readUpTo ha hsize hup (hmark hup)
        rw [hzero, UInt32.toNat_zero] at hdist
        exact hnomark ⟨hup, le_antisymm (by omega) (hmark hup)⟩
      rw [recvmsg_cons hl hr, hwait]
      by_cases hend : Pbuf.size s.rxq = a
      · have herr : (s.readUpTo a).err = none := by
          rw [s.readUpTo_of_pos ha]
          change s.err = none
          by_contra hsome
          exact hnoerr ⟨Option.isSome_iff_ne_none.mpr hsome, hend⟩
        have hempty : (s.readUpTo a).rxq = [] := by
          rw [s.rxq_readUpTo ha, Pbuf.dropBytes_eq_nil hend.le]
        have hall : readOutcome s (s.markLim (a + l + lens.sum)) =
            ⟨s.readUpTo a, (Pbuf.bytes s.rxq).take a, .ok a⟩ := by
          have hge : a ≤ s.markLim (a + l + lens.sum) := by
            rw [Nat.add_assoc]
            exact s.le_markLim hmark _
          rw [readOutcome_of_size_le (b := a) (by omega) ha (by omega) hend.le, readOutcome,
            Nat.min_eq_left hsize]
        rw [hall]
        obtain hret | ⟨e, hret⟩ := returning_nothing hempty herr (r := ⟨l, hr, false, false, true⟩)
          rfl hpass
        all_goals
          rw [resumes_of_returning hret, Resumes]
          simp [hne, hsize]
      · have hq : (s.readUpTo a).rxq ≠ [] := by
          intro hnil
          have hleft := s.rxq_readUpTo ha
          rw [hnil] at hleft
          have hzero := Pbuf.size_dropBytes a s.rxq
          rw [← hleft, Pbuf.size_nil] at hzero
          omega
        have hread := returning_read (r := ⟨l, hr, false, false, true⟩) rfl rfl hq
        have hlim := s.markLim_readUpTo ha hsize hmark l
        have hlim' : (s.readUpTo a).markLim l = s.markLim (a + l) - a := by
          omega
        rw [hpass, SbSocket.readLim_eq, s.readUpTo_readUpTo ha, hlim, s.rxq_readUpTo ha,
          Pbuf.size_dropBytes, Pbuf.bytes_dropBytes, hlim', Nat.sub_min_sub_right] at hread
        rw [resumes_of_returning hread]
        apply resumes_readOutcome hl hsize hmark rfl
        · rw [← take_add]
          congr 1
          omega
        · intro hsize' hmark'
          exact ih (by omega) hsize' hmark' hlt htail

theorem ends_asleep :
  Ends fut s (.asleep r ⟨[], []⟩) o ↔ ∃ we t fut', fut = (we, t) :: fut' ∧
    match we with
    | none => Ends fut' t (.top r ⟨[], []⟩) o
    | some e => (e = .eintr ∨ e = .ewouldblock) ∧ fut' = [] ∧ o = ⟨t, [], .error e⟩
  := by
  constructor
  · intro h
    cases h with
    | next h => cases h
    | @wake fut' _ t _ c' we _ hwake hrest =>
      refine ⟨we, t, fut', rfl, ?_⟩
      cases we with
      | none =>
        cases hwake
        exact hrest
      | some e =>
        obtain ⟨he, ⟨⟩⟩ := Option.ite_none_right_eq_some.mp hwake
        exact ⟨he, ends_done.mp hrest⟩
  · rintro ⟨we, t, fut', rfl, h⟩
    cases we with
    | none => exact .wake rfl h
    | some e =>
      obtain ⟨he, hdone⟩ := h
      refine .wake (if_pos he) ?_
      exact ends_done.mpr hdone

section First

variable {d : Bool} {l : ℕ} {lens : List ℕ} (hl : l ≠ 0) (hr : l < 2 ^ 31)
  (hlt : l + lens.sum < 2 ^ 31)

include hl

theorem resumes_data
    (hs : s.Unbroken (l :: lens)) (hq : s.rxq ≠ []) :
  (∃ fut₁ fut₂ o₁, fut = fut₁ ++ fut₂ ∧ Ends fut₁ s (.top ⟨l, hr, false, false, d⟩ ⟨[], []⟩) o₁ ∧
      Resumes l [] (Recvmsg false false d lens) fut₂ o₁ o) ↔
    Ends fut s (.top ⟨l + lens.sum, hlt, false, false, d⟩ ⟨[], []⟩) o
  := by
  have hread := returning_top (r := ⟨l, hr, false, false, d⟩) rfl rfl hq
  have hall := returning_top (r := ⟨l + lens.sum, hlt, false, false, d⟩) rfl rfl hq
  rw [s.readLim_eq] at hread hall
  rw [resumes_of_returning hread, hall fut o]
  have hfirst := @resumes_readOutcome β κ s o fut d lens 0 l hl (Nat.zero_le _)
    (fun _ => Nat.zero_le _) _ _ rfl (nil_append _)
  simp only [Nat.zero_add, Nat.sub_zero, take_zero] at hfirst
  apply hfirst
  intro hsize hmark
  apply recvmsg_rest (Nat.pos_of_ne_zero hl) hsize hmark hlt
  intro k hk
  have hclear := hs (k + 1)
  rw [take_succ_cons, sum_cons, sum_cons] at hclear
  exact hclear (by omega) (by omega)

omit hl in
theorem resumes_empty
    (hq : s.rxq = []) (hsleep : s.recvEmpty ⟨l, hr, false, false, d⟩ 0 ≠ .sleep) :
  (∃ fut₁ fut₂ o₁, fut = fut₁ ++ fut₂ ∧ Ends fut₁ s (.top ⟨l, hr, false, false, d⟩ ⟨[], []⟩) o₁ ∧
      Resumes l [] (Recvmsg false false d lens) fut₂ o₁ o) ↔
    Ends fut s (.top ⟨l + lens.sum, hlt, false, false, d⟩ ⟨[], []⟩) o
  := by
  have hsame : s.recvEmpty ⟨l + lens.sum, hlt, false, false, d⟩ 0 =
      s.recvEmpty ⟨l, hr, false, false, d⟩ 0 := rfl
  have hends (fut : List (Option Errno × SbSocket β κ)) (o : RecvOutcome β κ) :
      Ends fut s (.top ⟨l, hr, false, false, d⟩ ⟨[], []⟩) o ↔ _ :=
    ends_empty hq
  rw [ends_empty hq, hsame]
  cases hempty : s.recvEmpty ⟨l, hr, false, false, d⟩ 0 with
  | ret n =>
    obtain rfl : n = 0 := by
      have hzero := hempty
      rw [SbSocket.recvEmpty] at hzero
      grind
    simp only [hempty] at hends
    rw [resumes_of_returning hends]
    simp [Resumes]
  | fail e | clearErr e =>
    simp only [hempty] at hends
    rw [resumes_of_returning hends]
    simp [Resumes]
  | sleep => exact absurd hempty hsleep

theorem resumes_top
    {fut : List (Option Errno × SbSocket β κ)} :
  ∀ {s : SbSocket β κ}, (∀ t, t = s ∨ t ∈ fut.map Prod.snd → t.Unbroken (l :: lens)) →
    ((∃ fut₁ fut₂ o₁, fut = fut₁ ++ fut₂ ∧
        Ends fut₁ s (.top ⟨l, hr, false, false, d⟩ ⟨[], []⟩) o₁ ∧
        Resumes l [] (Recvmsg false false d lens) fut₂ o₁ o) ↔
      Ends fut s (.top ⟨l + lens.sum, hlt, false, false, d⟩ ⟨[], []⟩) o)
  := by
  induction fut with
  | nil =>
    intro s hclear
    by_cases hq : s.rxq = []
    · by_cases hsleep : s.recvEmpty ⟨l, hr, false, false, d⟩ 0 = .sleep
      · have hsame : s.recvEmpty ⟨l + lens.sum, hlt, false, false, d⟩ 0 = .sleep := hsleep
        simp only [ends_empty hq, hsleep, hsame, ends_asleep]
        grind
      · exact resumes_empty hr hlt hq hsleep
    · exact resumes_data hl hr hlt (hclear s (.inl rfl)) hq
  | cons x fut ih =>
    intro s hclear
    by_cases hq : s.rxq = []
    · by_cases hsleep : s.recvEmpty ⟨l, hr, false, false, d⟩ 0 = .sleep
      · have hsame : s.recvEmpty ⟨l + lens.sum, hlt, false, false, d⟩ 0 = .sleep := hsleep
        simp only [ends_empty hq, hsleep, hsame, ends_asleep]
        obtain ⟨we, t⟩ := x
        have hnext := ih (s := t) fun u hu => hclear u (.inr (by simpa using hu))
        constructor
        · rintro ⟨fut₁, fut₂, o₁, heq, ⟨we', t', fut', rfl, h⟩, hres⟩
          cases heq
          refine ⟨we, t, _, rfl, ?_⟩
          cases we with
          | none => exact hnext.mp ⟨fut', fut₂, o₁, rfl, h, hres⟩
          | some e =>
            obtain ⟨he, rfl, rfl⟩ := h
            exact ⟨he, hres⟩
        · rintro ⟨we', t', fut', heq, h⟩
          cases heq
          cases we with
          | none =>
            obtain ⟨fut₁, fut₂, o₁, rfl, hends, hres⟩ := hnext.mpr h
            exact ⟨(none, t) :: fut₁, fut₂, o₁, rfl, ⟨none, t, fut₁, rfl, hends⟩, hres⟩
          | some e =>
            obtain ⟨he, rfl, rfl⟩ := h
            exact ⟨[(some e, t)], [], ⟨t, [], .error e⟩, rfl, ⟨_, _, _, rfl, he, rfl, rfl⟩, rfl, rfl⟩
      · exact resumes_empty hr hlt hq hsleep
    · exact resumes_data hl hr hlt (hclear s (.inl rfl)) hq

end First

def pairRun : List (TcpLabel Bool Unit) :=
  [.event (.deliver (.single 1 [1, 2] (by decide)))]

theorem pairRun_enabled :
  ((TcpWorld.system Lwip.reference).exec TcpWorld.connection pairRun).isSome = true
  := by
  decide

def pair : TcpWorld Bool Unit :=
  (TcpWorld.system Lwip.reference).last TcpWorld.connection pairRun pairRun_enabled

def refilled : SbSocket Bool Unit :=
  ((pair.sock.readUpTo 2).sbTcpRecvCb (some (.single 2 [3, 4] (by decide)))).1

end Call
