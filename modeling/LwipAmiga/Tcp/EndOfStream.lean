import LwipAmiga.Tcp.System

/-!
# Zero means end of stream

Applications read a receive call that returns 0 as the end of the connection.
-/

open Function TransitionSystem List

def SbSocket.Ended {β κ : Type} (s : SbSocket β κ) : Prop :=
  s.rxeof = true ∨ s.shutRd = true ∨ s.pcb = none

instance {β κ : Type} (s : SbSocket β κ) : Decidable s.Ended :=
  inferInstanceAs (Decidable (_ ∨ _ ∨ _))

namespace SbSocket

variable {β κ : Type} {s : SbSocket β κ}

theorem ended_of_recvEmpty
    {r : RecvReq} {copied : ℕ} (h : s.recvEmpty r copied = .ret 0) :
  s.Ended
  := by
  unfold recvEmpty at h
  split at h
  next hend =>
    rw [Bool.or_eq_true] at hend
    exact hend.elim Or.inl fun h => Or.inr (Or.inl h)
  next =>
    split at h
    next =>
      split at h
      next hpos =>
        cases h
        contradiction
      next => contradiction
    next =>
      split at h
      next hnone => exact Or.inr (Or.inr (Option.isNone_iff_eq_none.mp hnone))
      next =>
        split at h
        next =>
          split at h
          next hpos =>
            cases h
            contradiction
          next => contradiction
        next =>
          split at h
          next hpos =>
            cases h
            simp at hpos
          next =>
            split at h
            next =>
              split at h
              next hpos =>
                cases h
                contradiction
              next => contradiction
            next => contradiction

def markAtHead (s : SbSocket β κ) : Bool :=
  s.markUp && s.oobMarkDist == 0 && !s.rxq.isEmpty

end SbSocket

namespace Call

variable {β κ : Type} {s s' : SbSocket β κ} {pos : ℕ} {c : Call} {sec : Section β κ}

def Attentive (s : SbSocket β κ) : Call → Prop
  | .asleep r p => r.peek = false → p.copied = 0 → s.markAtHead = false
  | .copy r p _ run =>
      p.copied + Pbuf.size run = 0 → r.waitall = false → s.rxq ≠ [] ∨ s.Ended
  | _ => True

instance decidableAttentive (s : SbSocket β κ) : DecidablePred (Attentive s)
  | .asleep r p =>
      inferInstanceAs (Decidable (r.peek = false → p.copied = 0 → s.markAtHead = false))
  | .copy r p _ run =>
      inferInstanceAs (Decidable
        (p.copied + Pbuf.size run = 0 → r.waitall = false → s.rxq ≠ [] ∨ s.Ended))
  | .idle | .entry .. | .top .. | .drain .. | .after .. | .clearErr .. | .oobEntry ..
  | .oobTop .. | .oobAsleep .. | .done .. => inferInstanceAs (Decidable True)

def ZeroOk (s : SbSocket β κ) : Call → Prop
  | .top r p => r.peek = false → p.copied = 0 → s.markAtHead = false
  | .drain r p d =>
      0 < r.len → p.copied = 0 → 0 < d.lim ∧ (r.waitall = false → s.rxq ≠ [] ∨ s.Ended)
  | .copy _ _ d _ => 0 < d.lim
  | .after r p d =>
      0 < r.len → p.copied = 0 → 0 < d.lim ∧ s.rxq = [] ∧ (r.waitall = false → s.Ended)
  | _ => True

theorem ZeroOk.of_not_holds
    (hc : c.ZeroOk s) (hholds : c.holds = false) :
  c.ZeroOk s'
  := by
  cases c with
  | copy r p d run => exact hc
  | top r p | drain r p d | after r p d => contradiction
  | _ => exact trivial

theorem markAtHead_passMark
    {r : RecvReq} (hpeek : r.peek = false) :
  (s.passMark r).markAtHead = false
  := by
  unfold SbSocket.passMark
  split
  · simp [SbSocket.markAtHead, SbSocket.markUp]
  · rename_i h
    simp only [SbSocket.startsAtMark, hpeek, Bool.not_false, Bool.true_and, Bool.and_eq_true,
      not_and, Bool.not_eq_true] at h
    simp only [SbSocket.markAtHead, Bool.and_eq_false_iff]
    left
    cases hz : s.oobMarkDist == 0 with
    | true => exact Or.inl (h hz)
    | false => exact Or.inr rfl

theorem recvClamp_pos
    {r : RecvReq} (hlen : 0 < r.len) (hq : s.rxq ≠ []) (hmark : s.markAtHead = false) :
  0 < (s.recvClamp r 0).1
  := by
  unfold SbSocket.recvClamp
  split
  · rename_i h
    simp only [Bool.and_eq_true, decide_eq_true_eq] at h
    obtain ⟨⟨hup, -⟩, -⟩ := h
    have hne : s.oobMarkDist ≠ 0 := by
      intro hzero
      simp [SbSocket.markAtHead, hup, hzero, hq] at hmark
    have hnat : s.oobMarkDist.toNat ≠ 0 := fun h => hne (UInt32.toNat_inj.mp h)
    simp only
    omega
  · exact hlen

theorem Step.zeroOk
    (h : Step s pos c sec) (hc : c.ZeroOk s) (hatt : c.Attentive s) :
  sec.call.ZeroOk sec.sock
  := by
  cases h with
  | enter r =>
    intro hpeek _
    exact markAtHead_passMark hpeek
  | clamp r p hq hp =>
    intro hlen hzero
    refine ⟨?_, fun _ => Or.inl hq⟩
    simp only [hzero]
    exact recvClamp_pos hlen hq (hc hp hzero)
  | leave r p d h =>
    intro hlen hzero
    obtain ⟨hlim, hend⟩ := hc hlen hzero
    have hq : s.rxq = [] := h.resolve_left (by omega)
    exact ⟨hlim, hq, fun hall => (hend hall).resolve_left fun hne => hne hq⟩
  | consume r p d head t hq hlt hn =>
    intro _ hzero
    have hlen : (head.payload.take (d.lim - p.copied)).length = d.lim - p.copied :=
      length_take_of_le (Nat.le_of_lt hn)
    simp only [Progress.copied, length_append] at hzero hlen hlt
    omega
  | detach r p d run rest hlt hrun hne => exact Nat.lt_of_le_of_lt (Nat.zero_le _) hlt
  | again r p d hmark hlen hall =>
    intro _ hzero
    obtain ⟨-, hq, -⟩ := hc (by omega) hzero
    simp only [SbSocket.markAtHead, SbSocket.flushCredit, hq, isEmpty_nil, Bool.not_true,
      Bool.and_false]
  | wake r p => exact hatt
  | relock r p d run =>
    intro _ hzero
    simp only [Progress.copied, length_append, Pbuf.length_bytes] at hzero
    exact ⟨hc, hatt hzero⟩
  | oob hoob h =>
    obtain hcall | ⟨r, p, res, hcall, -, -⟩ := h.call_eq
    · cases hsec : sec.call <;> first | exact trivial | simp [hsec, isOob] at hcall
    · rw [hcall]
      exact trivial
  | _ => exact trivial

theorem Step.ended_of_zero
    (h : Step s pos c sec) (hc : c.ZeroOk s) {r : RecvReq} {p : Progress}
    (hdone : sec.call = .done r p (.ok 0)) (hpeek : r.peek = false) (hlen : 0 < r.len) :
  sec.sock.Ended ∧ sec.sock.rxq = []
  := by
  cases h with
  | stop r p n hq h =>
    cases hdone
    exact ⟨SbSocket.ended_of_recvEmpty h, hq⟩
  | look r p hq hp buf n =>
    cases hdone
    rw [hp] at hpeek
    contradiction
  | finish r p d h =>
    simp only [done.injEq, Except.ok.injEq] at hdone
    obtain ⟨rfl, rfl, hzero⟩ := hdone
    obtain ⟨hlim, hq, hend⟩ := hc hlen hzero
    have hall : r.waitall = false := by
      obtain ⟨-, hle⟩ | hle | hall := h
      · omega
      · omega
      · exact hall
    refine ⟨?_, hq⟩
    obtain hend | hend | hend := hend hall
    · exact Or.inl hend
    · exact Or.inr (Or.inl hend)
    · refine Or.inr (Or.inr ?_)
      simp [SbSocket.flushCredit, hend]
  | interrupt r p e =>
    simp only [done.injEq] at hdone
    obtain ⟨-, -, hres⟩ := hdone
    split at hres
    · rw [Except.ok.injEq] at hres
      omega
    · contradiction
  | oob hoob h =>
    obtain hcall | ⟨r', p', res, hcall, -, hne⟩ := h.call_eq
    · rw [hdone] at hcall
      contradiction
    · rw [hcall] at hdone
      cases hdone
      contradiction
  | _ => cases hdone

end Call

namespace TcpWorld

variable {β κ : Type} [DecidableEq β] {L : Lwip} {w w' : TcpWorld β κ}

def Attentive (w : TcpWorld β κ) (l : TcpLabel β κ) : Prop :=
  ∀ i ∈ l.caller, (w.call i).Attentive w.sock

instance (w : TcpWorld β κ) (l : TcpLabel β κ) : Decidable (w.Attentive l) :=
  inferInstanceAs (Decidable (∀ i ∈ l.caller, (w.call i).Attentive w.sock))

theorem zeroOk_step
    {l : TcpLabel β κ} (hlocks : w.LockOk) (hw : ∀ i, (w.call i).ZeroOk w.sock)
    (hatt : w.Attentive l) (h : Step L w l w') (i : β) :
  (w'.call i).ZeroOk w'.sock
  := by
  cases h with
  | event e s' hlock h => exact (hw i).of_not_holds (hlocks.not_holds_of_free hlock i)
  | close hrest => exact hw i
  | begin j r oob hrest =>
    by_cases hj : i = j
    · subst hj
      simp only [update_self, Call.begin]
      split
      · split <;> exact trivial
      · exact trivial
    · simp only [update_of_ne hj]
      exact hw i
  | clear j r p e hc =>
    by_cases hj : i = j
    · subst hj
      simp only [update_self]
      exact trivial
    · simp only [update_of_ne hj]
      exact hw i
  | call j sec hl hlock h =>
    by_cases hj : i = j
    · subst hj
      simp only [afterCall, update_self]
      exact h.zeroOk (hw i) (hatt i hl)
    · simp only [afterCall, update_of_ne hj]
      exact (hw i).of_not_holds (hlocks.not_holds_of_ne hlock hj)

variable [Fintype β]

theorem zeroOk_of_reach
    (r : (system L).Reach Attentive w) (i : β) :
  (w.call i).ZeroOk w.sock
  := by
  revert i
  apply r.invariant_of (fun w r => lockOk_of_reach r)
  · rintro _ ⟨b, s, -, rfl⟩ i
    exact trivial
  · intro w l w' hlocks hw hatt h
    exact zeroOk_step hlocks hw hatt (step_of_next h)

/-- A consuming receive call of a positive length returns 0 only if the stream has ended and nothing is
queued. -/
theorem zero_means_end
    {l : TcpLabel β κ} (hreach : (system L).Reach Attentive w) (hatt : w.Attentive l)
    (h : (system L).next w l = some w') {i : β} (hlive : (w.call i).resting = false)
    {r : RecvReq} {p : Progress} (hdone : w'.call i = .done r p (.ok 0))
    (hpeek : r.peek = false) (hlen : 0 < r.len) :
  w'.sock.Ended ∧ w'.sock.rxq = []
  := by
  have hstep : Step L w l w' := step_of_next h
  cases hstep with
  | event e s' hlock h =>
    change w.call i = _ at hdone
    rw [hdone] at hlive
    contradiction
  | close hrest =>
    rw [hrest i] at hlive
    contradiction
  | begin j r' oob hrest =>
    by_cases hj : i = j
    · subst hj
      rw [hrest] at hlive
      contradiction
    · simp only [update_of_ne hj] at hdone
      rw [hdone] at hlive
      contradiction
  | clear j r' p' e hc =>
    by_cases hj : i = j
    · subst hj
      simp only [update_self, Call.done.injEq] at hdone
      obtain ⟨-, -, hres⟩ := hdone
      contradiction
    · simp only [update_of_ne hj] at hdone
      rw [hdone] at hlive
      contradiction
  | call j sec hl hlock hcall =>
    by_cases hj : i = j
    · subst hj
      simp only [afterCall, update_self] at hdone
      exact hcall.ended_of_zero (zeroOk_of_reach hreach i) hdone hpeek hlen
    · simp only [afterCall, update_of_ne hj] at hdone
      rw [hdone] at hlive
      contradiction

/-! ### A reader woken at the mark -/

def wokenAtMarkRun : List (TcpLabel Bool Unit) :=
  [.begin true (.plain 100 (by decide)) false, .enter true, .run true,
   .event (.urgent 0), .event (.deliver (.single 1 [33, 1, 2] (by decide))),
   .wake true none, .run true, .run true, .run true]

theorem wokenAtMarkRun_enabled :
  ((system Lwip.reference).exec connection wokenAtMarkRun).isSome = true
  := by
  decide

def wokenAtMark : TcpWorld Bool Unit :=
  (system Lwip.reference).last connection wokenAtMarkRun wokenAtMarkRun_enabled

def emptyRunRun : List (TcpLabel Bool Unit) :=
  [.event (.urgent 0),
   .event (.deliver
    { bufs := [⟨1, [33], 6, by decide⟩, ⟨2, [1, 2, 3, 4, 5], 5, by decide⟩]
      ne_nil := by decide, totLens := by decide, size_lt := by decide, nodup := by decide }),
   .begin true (.plain 3 (by decide)) false, .enter true, .run true, .run true,
   .begin false (.plain 5 (by decide)) false, .enter false, .run false, .run false,
   .relock true, .run true, .run true]

theorem emptyRunRun_enabled :
  ((system Lwip.reference).exec connection emptyRunRun).isSome = true
  := by
  decide

def emptyRun : TcpWorld Bool Unit :=
  (system Lwip.reference).last connection emptyRunRun emptyRunRun_enabled

def result (w : TcpWorld β κ) (i : β) : Option (Except Errno ℕ) :=
  match w.call i with
  | .done _ _ res => some res
  | _ => none

/-- A reader woken at the urgent mark returns 0 with two bytes queued, and one whose first run holds no
byte returns 0 when another reader is faster. -/
theorem woken_at_mark_returns_zero :
  ((system Lwip.reference).Reachable wokenAtMark ∧ wokenAtMark.result true matches some (.ok 0) ∧
    ¬ wokenAtMark.sock.Ended ∧ Pbuf.bytes wokenAtMark.sock.rxq = [1, 2]) ∧
  ((system Lwip.reference).Reachable emptyRun ∧ emptyRun.result true matches some (.ok 0) ∧
    ¬ emptyRun.sock.Ended)
  := by
  refine ⟨⟨reachable_last (init_connection _), ?_⟩,
    ⟨reachable_last (init_connection _), ?_⟩⟩
  · decide
  · decide

def endOfStreamRun : List (TcpLabel Bool Unit) :=
  [.begin true (.plain 100 (by decide)) false, .enter true, .run true, .event .eof,
   .wake true none]

theorem endOfStreamRun_enabled :
  ((system Lwip.reference).exec connection endOfStreamRun).isSome = true
  := by
  decide

def endOfStream : TcpWorld Bool Unit :=
  (system Lwip.reference).last connection endOfStreamRun endOfStreamRun_enabled

theorem zero_means_end_eof :
  ∃ w', (system Lwip.reference).next endOfStream (.run true) = some w' ∧
    w'.sock.Ended ∧ w'.sock.rxq = []
  := by
  have hreach : (system Lwip.reference).Reach Attentive endOfStream := by
    apply reach_last (init_connection _)
    decide
  refine ⟨_, rfl, ?_⟩
  exact zero_means_end (l := .run true) hreach (by decide) rfl (i := true)
    (by decide) rfl rfl (by decide)

end TcpWorld
