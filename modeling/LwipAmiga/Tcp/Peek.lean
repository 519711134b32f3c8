import LwipAmiga.Tcp.Queue

/-!
# What a receive call leaves

A receive call that runs alone is deterministic; `Call.Ends` runs it to its end.
-/

open List

namespace Pbuf

/-! ### Queues without their first bytes -/

def dropBytes : ℕ → List Pbuf → List Pbuf
  | _, [] => []
  | n, h :: t => if h.len ≤ n then dropBytes (n - h.len) t else h.removeHeader n :: t

theorem bytes_dropBytes (n : ℕ) (q : List Pbuf) :
  bytes (dropBytes n q) = (bytes q).drop n
  := by
  induction q generalizing n with
  | nil => simp [dropBytes]
  | cons h t ih =>
    rw [dropBytes, bytes_cons, drop_append]
    split
    next hle => rw [ih, drop_eq_nil_of_le hle, nil_append, len]
    next hlt =>
      have hzero : n - h.payload.length = 0 := Nat.sub_eq_zero_of_le (Nat.le_of_not_le hlt)
      rw [bytes_cons, hzero]
      rfl

theorem size_dropBytes (n : ℕ) (q : List Pbuf) :
  size (dropBytes n q) = size q - n
  := by
  rw [← length_bytes, bytes_dropBytes, length_drop, length_bytes]

theorem dropBytes_append
    {run : List Pbuf} {n : ℕ} (h : size run ≤ n) (rest : List Pbuf) :
  dropBytes n (run ++ rest) = dropBytes (n - size run) rest
  := by
  induction run generalizing n with
  | nil => rfl
  | cons p run ih =>
    rw [size_cons] at h
    rw [cons_append, dropBytes, if_pos (by omega), ih (by omega), size_cons, Nat.sub_sub]

theorem dropBytes_dropBytes (a b : ℕ) (q : List Pbuf) :
  dropBytes b (dropBytes a q) = dropBytes (a + b) q
  := by
  induction q generalizing a with
  | nil => rfl
  | cons h t ih =>
    rw [dropBytes, dropBytes]
    by_cases hle : h.len ≤ a
    · rw [if_pos hle, if_pos (by omega), ih, Nat.sub_add_comm hle]
    · rw [if_neg hle, dropBytes, len_removeHeader]
      by_cases hall : h.len - a ≤ b
      · rw [if_pos hall, if_pos (by omega)]
        congr 1
        omega
      · rw [if_neg hall, if_neg (by omega)]
        simp only [removeHeader, drop_drop, Nat.sub_sub]

theorem dropBytes_eq_nil
    {n : ℕ} {q : List Pbuf} (h : size q ≤ n) :
  dropBytes n q = []
  := by
  have hall := dropBytes_append h []
  rwa [append_nil] at hall

theorem dropBytes_zero_takeRun
    {room take : ℕ} (q : List Pbuf) (hroom : take ≤ room) (hcap : take ≤ 0xFFFF) :
  dropBytes 0 (takeRun room take q).2 = (takeRun room take q).2
  := by
  induction q generalizing take with
  | nil => rfl
  | cons p q ih =>
    by_cases hp : take + p.len ≤ room ∧ take + p.len ≤ 0xFFFF
    · simp only [takeRun, if_pos hp]
      exact ih hp.1 hp.2
    · simp only [takeRun, if_neg hp, dropBytes]
      rw [if_neg (by omega)]
      rfl

end Pbuf

/-! ### The socket after a read -/

theorem UInt32.sub_ofNat_add (x : UInt32) (a b : ℕ) :
  x - UInt32.ofNat (a + b) = x - UInt32.ofNat a - UInt32.ofNat b
  := by
  rw [UInt32.ofNat_add]
  grind

namespace SbSocket

variable {β κ : Type} (s : SbSocket β κ)

def taken (m : ℕ) : SbSocket β κ :=
  { s with
    rxq := Pbuf.dropBytes m s.rxq
    rxqTail := if Pbuf.dropBytes m s.rxq = [] ∧ s.rxq ≠ [] then none else s.rxqTail
    rxBytes := s.rxBytes - UInt32.ofNat (min m (Pbuf.size s.rxq))
    oobMarkDist := s.markDistAfter (min m (Pbuf.size s.rxq)) }

def readUpTo (m : ℕ) : SbSocket β κ :=
  (if 0 < m then s.taken m else s).flushCredit (min m (Pbuf.size s.rxq))

theorem taken_of_nil (h : s.rxq = []) (m : ℕ) :
  s.taken m = s
  := by
  cases s
  cases h
  simp [taken, Pbuf.dropBytes, markDistAfter]

theorem markDistAfter_taken (a n : ℕ) :
  (s.taken a).markDistAfter n = s.markDistAfter (min a (Pbuf.size s.rxq) + n)
  := by
  have hup : (s.taken a).markUp = s.markUp := rfl
  rw [markDistAfter, markDistAfter, hup]
  split
  next h =>
    change s.markDistAfter _ - _ = _
    rw [markDistAfter, if_pos h, UInt32.sub_ofNat_add]
  next h =>
    change s.markDistAfter _ = _
    rw [markDistAfter, if_neg h]

theorem taken_taken (a b : ℕ) :
  (s.taken a).taken b = s.taken (a + b)
  := by
  have hmin : min (a + b) (Pbuf.size s.rxq) =
      min a (Pbuf.size s.rxq) + min b (Pbuf.size s.rxq - a) := by
    omega
  have htail : (if Pbuf.dropBytes (a + b) s.rxq = [] ∧ Pbuf.dropBytes a s.rxq ≠ [] then none
      else (s.taken a).rxqTail) =
      if Pbuf.dropBytes (a + b) s.rxq = [] ∧ s.rxq ≠ [] then none else s.rxqTail := by
    rw [taken, ← Pbuf.dropBytes_dropBytes]
    by_cases hq : s.rxq = []
    · simp [hq, Pbuf.dropBytes]
    · by_cases ha : Pbuf.dropBytes a s.rxq = []
      · simp [hq, ha, Pbuf.dropBytes]
      · simp [hq, ha]
  have hbytes : (s.taken a).rxBytes - UInt32.ofNat (min b (Pbuf.size s.rxq - a)) =
      s.rxBytes - UInt32.ofNat (min (a + b) (Pbuf.size s.rxq)) := by
    rw [hmin, UInt32.sub_ofNat_add]
    rfl
  have hmark := s.markDistAfter_taken a (min b (Pbuf.size s.rxq - a))
  rw [← hmin] at hmark
  calc (s.taken a).taken b
      = { s with
          rxq := Pbuf.dropBytes b (Pbuf.dropBytes a s.rxq)
          rxqTail :=
            if Pbuf.dropBytes b (Pbuf.dropBytes a s.rxq) = [] ∧ Pbuf.dropBytes a s.rxq ≠ [] then none
            else (s.taken a).rxqTail
          rxBytes := (s.taken a).rxBytes -
            UInt32.ofNat (min b (Pbuf.size (Pbuf.dropBytes a s.rxq)))
          oobMarkDist := (s.taken a).markDistAfter (min b (Pbuf.size (Pbuf.dropBytes a s.rxq))) } :=
        rfl
    _ = s.taken (a + b) := by
        rw [Pbuf.size_dropBytes, Pbuf.dropBytes_dropBytes, htail, hbytes, hmark]
        rfl

theorem unlinkRun_eq_taken
    {room : ℕ} {run rest : List Pbuf} (h : Pbuf.takeRun room 0 s.rxq = (run, rest))
    (hne : run ≠ []) :
  s.unlinkRun rest (Pbuf.size run) = s.taken (Pbuf.size run)
  := by
  have happend := Pbuf.takeRun_append room 0 s.rxq
  have hzero := Pbuf.dropBytes_zero_takeRun s.rxq (Nat.zero_le room) (Nat.zero_le 0xFFFF)
  rw [h] at happend hzero
  change run ++ rest = s.rxq at happend
  have hdrop : Pbuf.dropBytes (Pbuf.size run) s.rxq = rest := by
    rw [← happend, Pbuf.dropBytes_append le_rfl, Nat.sub_self]
    exact hzero
  have hmin : min (Pbuf.size run) (Pbuf.size s.rxq) = Pbuf.size run := by
    rw [← happend, Pbuf.size_append]
    omega
  have hq : s.rxq ≠ [] := by
    rw [← happend]
    simp [hne]
  rw [taken, hdrop, hmin]
  simp [unlinkRun, hq]

theorem consumeHead_eq_taken
    {h : Pbuf} {t : List Pbuf} (hq : s.rxq = h :: t) {n : ℕ} (hn : n < h.len) :
  s.consumeHead h t n = s.taken n
  := by
  have hdrop : Pbuf.dropBytes n s.rxq = h.removeHeader n :: t := by
    rw [hq, Pbuf.dropBytes, if_neg (by omega)]
  have hmin : min n (Pbuf.size s.rxq) = n := by
    rw [hq, Pbuf.size_cons]
    omega
  rw [taken, hdrop, hmin]
  simp [consumeHead]

theorem flushCredit_flushCredit (a b : ℕ) :
  (s.flushCredit a).flushCredit b = s.flushCredit (a + b)
  := by
  simp only [flushCredit, Option.map_map]
  congr 2
  funext pcb
  simp only [Function.comp_apply, ackFlush_eq _ le_rfl, Nat.add_assoc]

end SbSocket

/-! ### Calls that run alone -/

structure RecvOutcome (β κ : Type) where
  sock : SbSocket β κ
  buf : List UInt8
  res : Except Errno ℕ

namespace Call

variable {β κ : Type} {s : SbSocket β κ} {r : RecvReq} {p : Progress} {o : RecvOutcome β κ}
  {fut : List (Option Errno × SbSocket β κ)}

def next (s : SbSocket β κ) : Call → Option (Section β κ)
  | .entry r => enter s (.entry r)
  | .copy r p d run => (relock (.copy r p d run)).map fun c => ⟨s, c, []⟩
  | .clearErr r p e => clear s (.clearErr r p e)
  | c => locked s 0 c

inductive Ends :
    List (Option Errno × SbSocket β κ) → SbSocket β κ → Call → RecvOutcome β κ → Prop where
  | done (s : SbSocket β κ) (r : RecvReq) (p : Progress) (res : Except Errno ℕ) :
      Ends [] s (.done r p res) ⟨s, p.buf, res⟩
  | next {fut : List (Option Errno × SbSocket β κ)} {s : SbSocket β κ} {c : Call}
      {sec : Section β κ} {o : RecvOutcome β κ} (h : Call.next s c = some sec)
      (hrest : Ends fut sec.sock sec.call o) : Ends fut s c o
  | wake {fut : List (Option Errno × SbSocket β κ)} {s s' : SbSocket β κ} {c c' : Call}
      {we : Option Errno} {o : RecvOutcome β κ} (h : Call.wake we c = some c')
      (hrest : Ends fut s' c' o) : Ends ((we, s') :: fut) s c o

theorem ends_done {res : Except Errno ℕ} :
  Ends fut s (.done r p res) o ↔ fut = [] ∧ o = ⟨s, p.buf, res⟩
  := by
  constructor
  · intro h
    cases h with
    | done => exact ⟨rfl, rfl⟩
    | next h | wake h => cases h
  · rintro ⟨rfl, rfl⟩
    apply Ends.done

theorem ends_next
    {c : Call} {sec : Section β κ} (hc : next s c = some sec) :
  Ends fut s c o ↔ Ends fut sec.sock sec.call o
  := by
  constructor
  · intro h
    cases h with
    | done => cases hc
    | next h hrest =>
      cases hc.symm.trans h
      exact hrest
    | wake h =>
      cases c with
      | asleep | oobAsleep => cases hc
      | _ => cases h
  · exact Ends.next hc

theorem ends_after
    (hall : r.waitall = false) (d : Drain) :
  Ends fut s (.after r p d) o ↔ fut = [] ∧ o = ⟨s.flushCredit d.acked, p.buf, .ok p.buf.length⟩
  := by
  rw [ends_next rfl]
  rw [atAfter, hall, Bool.not_false, Bool.or_true, if_pos rfl]
  apply ends_done

def drained (s : SbSocket β κ) (p : Progress) (d : Drain) : RecvOutcome β κ where
  sock := (if p.copied < d.lim then s.taken (d.lim - p.copied) else s).flushCredit
    (d.acked + min (d.lim - p.copied) (Pbuf.size s.rxq))
  buf := p.buf ++ (Pbuf.bytes s.rxq).take (d.lim - p.copied)
  res := .ok (p.copied + min (d.lim - p.copied) (Pbuf.size s.rxq))

theorem ends_leave
    (hall : r.waitall = false) {d : Drain} (h : d.lim ≤ p.copied ∨ s.rxq = []) :
  Ends fut s (.after r p d) o ↔ fut = [] ∧ o = drained s p d
  := by
  rw [ends_after hall, drained]
  obtain hle | hq := h
  · rw [if_neg (Nat.not_lt.mpr hle), Nat.sub_eq_zero_of_le hle]
    simp [Progress.copied]
  · simp [hq, s.taken_of_nil hq, Progress.copied]

theorem drained_taken
    {d : Drain} {n : ℕ} (hlt : p.copied < d.lim) (hn : n ≤ d.lim - p.copied)
    (hsize : n ≤ Pbuf.size s.rxq) (tk : List ℕ) :
  drained (s.taken n) ⟨p.buf ++ (Pbuf.bytes s.rxq).take n, tk⟩ { d with acked := d.acked + n }
    = drained s p d
  := by
  have hrxq : (s.taken n).rxq = Pbuf.dropBytes n s.rxq := rfl
  have hcopied : (Progress.mk (p.buf ++ (Pbuf.bytes s.rxq).take n) tk).copied = p.copied + n := by
    rw [copied_append, length_take, Pbuf.length_bytes, Nat.min_eq_left hsize]
  have hmin : n + min (d.lim - (p.copied + n)) (Pbuf.size s.rxq - n) =
      min (d.lim - p.copied) (Pbuf.size s.rxq) := by
    omega
  have hsock : (if p.copied + n < d.lim then (s.taken n).taken (d.lim - (p.copied + n))
      else s.taken n) = s.taken (d.lim - p.copied) := by
    split
    · rw [s.taken_taken]
      congr 1
      omega
    · congr 1
      omega
  have hbuf : (Pbuf.bytes s.rxq).take n ++ ((Pbuf.bytes s.rxq).drop n).take (d.lim - (p.copied + n))
      = (Pbuf.bytes s.rxq).take (d.lim - p.copied) := by
    rw [← take_add]
    congr 1
    omega
  simp only [drained, hrxq, hcopied, Pbuf.size_dropBytes, Pbuf.bytes_dropBytes]
  rw [hsock, append_assoc, hbuf, if_pos hlt, Nat.add_assoc, hmin,
    Nat.add_assoc, hmin]

theorem ends_drain_of_le
    (hall : r.waitall = false) {d : Drain} (h : d.lim ≤ p.copied) :
  Ends fut s (.drain r p d) o ↔ fut = [] ∧ o = drained s p d
  := by
  rw [ends_next rfl]
  rw [atDrain, if_neg (Nat.not_lt.mpr h)]
  exact ends_leave hall (.inl h)

theorem ends_drain (hall : r.waitall = false) :
  ∀ (n : ℕ) {s : SbSocket β κ} {p : Progress} {d : Drain}, s.rxq.length < n →
    (Ends fut s (.drain r p d) o ↔ fut = [] ∧ o = drained s p d)
  := by
  intro n
  induction n with
  | zero => nofun
  | succ n ih =>
    intro s p d hlen
    rw [ends_next rfl]
    have hstep := step_atDrain s 0 r p d
    generalize atDrain s 0 r p d = sec at hstep
    cases hstep with
    | leave _ _ _ h => exact ends_leave hall h
    | consume _ _ _ h t hq hlt hn =>
      have hhead : h.payload.take (d.lim - p.copied)
          = (Pbuf.bytes s.rxq).take (d.lim - p.copied) := by
        rw [hq, Pbuf.bytes_cons, take_append_of_le_length (Nat.le_of_lt hn)]
      have hsize : d.lim - p.copied ≤ Pbuf.size s.rxq := by
        rw [hq, Pbuf.size_cons]
        omega
      dsimp only
      rw [ends_drain_of_le hall, s.consumeHead_eq_taken hq hn, hhead,
        drained_taken hlt le_rfl hsize]
      change d.lim ≤ _
      rw [copied_append, length_consumed hn]
      omega
    | detach _ _ _ run rest hlt hrun hne =>
      have happend := Pbuf.takeRun_append (d.lim - p.copied) 0 s.rxq
      have hle := Pbuf.size_takeRun_le s.rxq (Nat.zero_le (d.lim - p.copied))
      rw [hrun] at happend hle
      change run ++ rest = s.rxq at happend
      change 0 + Pbuf.size run ≤ _ at hle
      have hbytes : Pbuf.bytes run = (Pbuf.bytes s.rxq).take (Pbuf.size run) := by
        rw [← happend, Pbuf.bytes_append, take_left' (Pbuf.length_bytes run)]
      have hsize : Pbuf.size run ≤ Pbuf.size s.rxq := by
        rw [← happend, Pbuf.size_append]
        omega
      dsimp only
      rw [ends_next rfl]
      dsimp only
      rw [ih, s.unlinkRun_eq_taken hrun hne, hbytes, drained_taken hlt (by omega) hsize]
      have hpos : 0 < run.length := length_pos_iff.mpr hne
      rw [← happend, length_append] at hlen
      change rest.length < n
      omega
    | oob h => cases h

def readLim (s : SbSocket β κ) (r : RecvReq) : ℕ :=
  (s.recvClamp r 0).1

def Returning (s : SbSocket β κ) (c : Call) (o : RecvOutcome β κ) : Prop :=
  ∀ fut x, Ends fut s c x ↔ fut = [] ∧ x = o

theorem returning_top
    (hall : r.waitall = false) (hpeek : r.peek = false) (hq : s.rxq ≠ []) :
  Returning s (.top r ⟨[], []⟩)
    ⟨s.readUpTo (readLim s r), (Pbuf.bytes s.rxq).take (readLim s r),
      .ok (min (readLim s r) (Pbuf.size s.rxq))⟩
  := by
  intro fut o
  have hdrained : drained s ⟨[], []⟩ ⟨readLim s r, (s.recvClamp r 0).2, 0⟩ =
      ⟨s.readUpTo (readLim s r), (Pbuf.bytes s.rxq).take (readLim s r),
        .ok (min (readLim s r) (Pbuf.size s.rxq))⟩ := by
    simp only [drained, Progress.copied, length_nil, Nat.sub_zero, Nat.zero_add,
      nil_append]
    rfl
  rw [← hdrained, ends_next rfl]
  change Ends fut (atTop s r ⟨[], []⟩).sock (atTop s r ⟨[], []⟩).call o ↔ _
  rw [atTop, if_neg hq]
  simp only [hpeek, Bool.false_eq_true, if_false]
  exact ends_drain hall _ (Nat.lt_succ_self _)

theorem rxq_passMark (s : SbSocket β κ) (r : RecvReq) :
  (s.passMark r).rxq = s.rxq
  := by
  simp only [SbSocket.passMark]
  split <;> rfl

theorem returning_read
    (hall : r.waitall = false) (hpeek : r.peek = false) (hq : s.rxq ≠ []) :
  Returning s (.entry r)
    ⟨(s.passMark r).readUpTo (readLim (s.passMark r) r),
      (Pbuf.bytes s.rxq).take (readLim (s.passMark r) r),
      .ok (min (readLim (s.passMark r) r) (Pbuf.size s.rxq))⟩
  := by
  intro fut o
  have htop := returning_top (s := s.passMark r) hall hpeek (by rwa [rxq_passMark]) fut o
  rw [rxq_passMark] at htop
  rw [ends_next rfl]
  exact htop

theorem returning_peek
    (hpeek : r.peek = true) (hq : s.rxq ≠ []) :
  Returning s (.entry r)
    ⟨s, (Pbuf.bytes s.rxq).take (s.peekLen (readLim s r)), .ok (s.peekLen (readLim s r))⟩
  := by
  intro fut o
  rw [ends_next rfl]
  have hpass : s.passMark r = s := by
    simp [SbSocket.passMark, SbSocket.startsAtMark, hpeek]
  dsimp only
  rw [hpass, ends_next rfl]
  change Ends fut (atTop s r ⟨[], []⟩).sock (atTop s r ⟨[], []⟩).call o ↔ _
  rw [atTop, if_neg hq]
  simp only [hpeek, if_true]
  rw [ends_done]
  simp [Progress.copied, readLim]

theorem readLim_passMark
    (s : SbSocket β κ) {len : ℕ} (h : len < 2 ^ 31) (w d w' d' : Bool) :
  readLim (s.passMark ⟨len, h, false, w', d'⟩) ⟨len, h, false, w', d'⟩ =
    readLim s ⟨len, h, true, w, d⟩
  := by
  by_cases hstarts : s.startsAtMark ⟨len, h, false, w', d'⟩ = true
  · rw [SbSocket.passMark, if_pos hstarts]
    simp only [SbSocket.startsAtMark, Bool.and_eq_true, beq_iff_eq] at hstarts
    simp [readLim, SbSocket.recvClamp, SbSocket.markUp, hstarts]
  · rw [SbSocket.passMark, if_neg hstarts]
    have hpos : s.markUp = true → 0 < s.oobMarkDist := by
      intro hup
      apply UInt32.pos_iff_ne_zero.mpr
      intro hzero
      simp [SbSocket.startsAtMark, hup, hzero] at hstarts
    by_cases hup : s.markUp = true
    · simp [readLim, SbSocket.recvClamp, hup, hpos hup]
    · simp [readLim, SbSocket.recvClamp, hup]

theorem readLim_le (s : SbSocket β κ) (r : RecvReq) :
  readLim s r ≤ r.len
  := by
  rw [readLim, SbSocket.recvClamp]
  split
  next h =>
    simp only [Bool.and_eq_true, decide_eq_true_eq] at h
    have := h.2
    omega
  next => exact le_rfl

/-- A peek leaves the socket as it is, and the bytes it copies are the first ones that the read after
it returns. -/
theorem peek_predicts_read
    (hs : s.RxqOk) (hq : s.rxq ≠ []) {n : ℕ} (hn : n < 2 ^ 31) (w d d' : Bool) :
  ∃ o o' : RecvOutcome β κ,
    Returning s (.entry ⟨n, hn, true, w, d⟩) o ∧
    Returning o.sock (.entry ⟨n, hn, false, false, d'⟩) o' ∧
    o.sock = s ∧ o.res = .ok o.buf.length ∧ o'.res = .ok o'.buf.length ∧ o.buf <+: o'.buf ∧
    (n ≤ 65535 → o.buf = o'.buf)
  := by
  have hlim := readLim_passMark s hn w d false d'
  refine ⟨_, _, returning_peek rfl hq, returning_read rfl rfl hq, rfl, ?_, ?_, ?_, ?_⟩
  · simp [SbSocket.peekLen, hs.rxBytes_eq]
  · simp
  · rw [hlim]
    apply take_prefix_take_left
    rw [SbSocket.peekLen]
    omega
  · intro hle
    have hlen := readLim_le s ⟨n, hn, true, w, d⟩
    have hpeek : s.peekLen (readLim s ⟨n, hn, true, w, d⟩) =
        min (readLim s ⟨n, hn, true, w, d⟩) (Pbuf.size s.rxq) := by
      rw [SbSocket.peekLen, hs.rxBytes_eq]
      apply Nat.min_eq_left
      exact (Nat.min_le_left _ _).trans (hlen.trans hle)
    rw [hlim, hpeek, ← Pbuf.length_bytes, ← take_eq_take_min]

def markedRun : List (TcpLabel Bool Unit) :=
  [.event (.urgent 2), .event (.deliver (.single 1 [1, 2, 9, 3, 4] (by decide)))]

theorem markedRun_enabled :
  ((TcpWorld.system Lwip.reference).exec TcpWorld.connection markedRun).isSome = true
  := by
  decide

def marked : TcpWorld Bool Unit :=
  (TcpWorld.system Lwip.reference).last TcpWorld.connection markedRun markedRun_enabled

theorem rxqOk_marked :
  marked.sock.RxqOk
  := by
  have hreach : (TcpWorld.system Lwip.reference).Reachable marked :=
    TransitionSystem.reachable_last (TcpWorld.init_connection _)
  exact (TcpWorld.streamInv_of_reach Lwip.reference_documented hreach).rxqOk

theorem peek_predicts_read_marked :
  ∃ o o' : RecvOutcome Bool Unit,
    Returning marked.sock (.entry ⟨10, by decide, true, false, false⟩) o ∧
    Returning o.sock (.entry ⟨10, by decide, false, false, false⟩) o' ∧ o.buf = o'.buf
  := by
  obtain ⟨o, o', hpeek, hread, -, -, -, -, hall⟩ :=
    peek_predicts_read rxqOk_marked (by decide) (n := 10) (by decide) false false false
  exact ⟨o, o', hpeek, hread, hall (by decide)⟩

end Call
