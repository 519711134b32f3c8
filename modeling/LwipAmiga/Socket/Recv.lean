import LwipAmiga.Socket.Basic

/-!
# Receiving from a TCP socket

A call of `sb_tcp_recv` is at a point where it takes or gives up the core lock, or at the head of a
loop.
-/

structure RecvReq where
  len : ℕ
  len_lt : len < 2 ^ 31
  peek : Bool
  waitall : Bool
  dontwait : Bool
  deriving DecidableEq

def RecvReq.plain (len : ℕ) (h : len < 2 ^ 31) : RecvReq where
  len := len
  len_lt := h
  peek := false
  waitall := false
  dontwait := false

structure Progress where
  buf : List UInt8
  taken : List ℕ
  deriving DecidableEq

def Progress.copied (p : Progress) : ℕ := p.buf.length

structure Drain where
  lim : ℕ
  hitmark : Bool
  acked : ℕ
  deriving DecidableEq

inductive Call where
  | idle
  | entry (r : RecvReq)
  | top (r : RecvReq) (p : Progress)
  | asleep (r : RecvReq) (p : Progress)
  | drain (r : RecvReq) (p : Progress) (d : Drain)
  | copy (r : RecvReq) (p : Progress) (d : Drain) (run : List Pbuf)
  | after (r : RecvReq) (p : Progress) (d : Drain)
  | clearErr (r : RecvReq) (p : Progress) (e : Errno)
  | oobEntry (r : RecvReq)
  | oobTop (r : RecvReq)
  | oobAsleep (r : RecvReq)
  | done (r : RecvReq) (p : Progress) (res : Except Errno ℕ)

namespace Call

def holds : Call → Bool
  | .top .. | .drain .. | .after .. | .oobTop .. => true
  | _ => false

def resting : Call → Bool
  | .idle | .done .. => true
  | _ => false

end Call

inductive EmptyOutcome where
  | ret (n : ℕ)
  | fail (e : Errno)
  | clearErr (e : Errno)
  | sleep
  deriving DecidableEq

namespace SbSocket

variable {β κ : Type}

def startsAtMark (s : SbSocket β κ) (r : RecvReq) : Bool :=
  !r.peek && s.oobMarkDist == 0 && s.markUp

def passMark (s : SbSocket β κ) (r : RecvReq) : SbSocket β κ :=
  if s.startsAtMark r then { s with oobState := .oobNone } else s

def recvEmpty (s : SbSocket β κ) (r : RecvReq) (copied : ℕ) : EmptyOutcome :=
  if s.rxeof || s.shutRd then .ret copied
  else
    match s.err with
    | some e => if 0 < copied then .ret copied else .clearErr e
    | none =>
        if s.pcb.isNone then .ret copied
        else if !s.connected && !s.connecting then
          if 0 < copied then .ret copied else .fail .enotconn
        else if 0 < copied && !r.waitall then .ret copied
        else if r.dontwait then if 0 < copied then .ret copied else .fail .ewouldblock
        else .sleep

def recvClamp (s : SbSocket β κ) (r : RecvReq) (copied : ℕ) : ℕ × Bool :=
  if s.markUp && (0 < s.oobMarkDist || !r.peek) && s.oobMarkDist.toNat ≤ r.len - copied then
    (copied + s.oobMarkDist.toNat, true)
  else (r.len, false)

def peekLen (s : SbSocket β κ) (room : ℕ) : ℕ :=
  min (min room s.rxBytes.toNat) 0xFFFF

def markDistAfter (s : SbSocket β κ) (n : ℕ) : UInt32 :=
  if s.markUp then s.oobMarkDist - UInt32.ofNat n else s.oobMarkDist

def consumeHead (s : SbSocket β κ) (h : Pbuf) (t : List Pbuf) (n : ℕ) : SbSocket β κ :=
  { s with
    rxq := h.removeHeader n :: t
    rxBytes := s.rxBytes - UInt32.ofNat n
    oobMarkDist := s.markDistAfter n }

def unlinkRun (s : SbSocket β κ) (rest : List Pbuf) (take : ℕ) : SbSocket β κ :=
  { s with
    rxq := rest
    rxqTail := if rest = [] then none else s.rxqTail
    rxBytes := s.rxBytes - UInt32.ofNat take
    oobMarkDist := s.markDistAfter take }

end SbSocket

def ackFlush : ℕ → ℕ → TcpPcb → TcpPcb
  | 0, _, pcb => pcb
  | fuel + 1, acked, pcb =>
      if acked = 0 then pcb
      else ackFlush fuel (acked - min acked 0xFFFF) (tcpRecved pcb (min acked 0xFFFF))

theorem ackFlush_eq
    {fuel acked : ℕ} (pcb : TcpPcb) (h : acked ≤ fuel) :
  ackFlush fuel acked pcb = { pcb with recved := pcb.recved + acked }
  := by
  induction fuel generalizing acked pcb with
  | zero =>
    obtain rfl : acked = 0 := by omega
    rfl
  | succ fuel ih =>
    rw [ackFlush]
    split
    · rename_i hz
      subst hz
      rfl
    · rw [ih _ (by omega)]
      simp only [tcpRecved, TcpPcb.mk.injEq, true_and]
      omega

def SbSocket.flushCredit {β κ : Type} (s : SbSocket β κ) (acked : ℕ) : SbSocket β κ :=
  { s with pcb := s.pcb.map (ackFlush acked acked) }

/-! ### From one point of a call to the next -/

structure Section (β κ : Type) where
  sock : SbSocket β κ
  call : Call
  out : List UInt8

namespace Call

variable {β κ : Type}

def atTop (s : SbSocket β κ) (r : RecvReq) (p : Progress) : Section β κ :=
  if s.rxq = [] then
    match s.recvEmpty r p.copied with
    | .ret n => { sock := s, call := .done r p (.ok n), out := [] }
    | .fail e => { sock := s, call := .done r p (.error e), out := [] }
    | .clearErr e => { sock := s, call := .clearErr r p e, out := [] }
    | .sleep => { sock := s, call := .asleep r p, out := [] }
  else
    let (lim, hitmark) := s.recvClamp r p.copied
    if r.peek then
      let want := s.peekLen (lim - p.copied)
      let p' := { p with buf := p.buf ++ (Pbuf.bytes s.rxq).take want }
      { sock := s, call := .done r p' (.ok (p.copied + want)), out := [] }
    else
      { sock := s, call := .drain r p { lim, hitmark, acked := 0 }, out := [] }

def atDrain (s : SbSocket β κ) (pos : ℕ) (r : RecvReq) (p : Progress) (d : Drain) :
    Section β κ :=
  if p.copied < d.lim then
    match s.rxq with
    | [] => { sock := s, call := .after r p d, out := [] }
    | h :: t =>
        let (run, rest) := Pbuf.takeRun (d.lim - p.copied) 0 (h :: t)
        if run = [] then
          let n := d.lim - p.copied
          let out := h.payload.take n
          { sock := s.consumeHead h t n
            call := .drain r ⟨p.buf ++ out, p.taken ++ List.range' pos n⟩
              { d with acked := d.acked + n }
            out }
        else
          let take := Pbuf.size run
          { sock := s.unlinkRun rest take
            call := .copy r { p with taken := p.taken ++ List.range' pos take } d run
            out := Pbuf.bytes run }
  else { sock := s, call := .after r p d, out := [] }

def atAfter (s : SbSocket β κ) (r : RecvReq) (p : Progress) (d : Drain) : Section β κ :=
  if d.hitmark && decide (d.lim ≤ p.copied) || decide (r.len ≤ p.copied) || !r.waitall then
    { sock := s.flushCredit d.acked, call := .done r p (.ok p.copied), out := [] }
  else { sock := s.flushCredit d.acked, call := .top r p, out := [] }

def atOobTop (s : SbSocket β κ) (r : RecvReq) : Section β κ :=
  if s.oobState = .oobHave then
    { sock := if r.peek then s else { s with oobState := .oobRead }
      call := .done r ⟨[s.oobByte], []⟩ (.ok 1), out := [] }
  else if s.oobState ≠ .oobMarked then
    { sock := s, call := .done r ⟨[], []⟩ (.error .einval), out := [] }
  else
    match s.err with
    | some e =>
        { sock := { s with err := none }, call := .done r ⟨[], []⟩ (.error e), out := [] }
    | none =>
        if s.rxeof || s.shutRd || s.pcb.isNone then
          { sock := s, call := .done r ⟨[], []⟩ (.error .einval), out := [] }
        else if r.dontwait then
          { sock := s, call := .done r ⟨[], []⟩ (.error .ewouldblock), out := [] }
        else { sock := s, call := .oobAsleep r, out := [] }

def locked (s : SbSocket β κ) (pos : ℕ) : Call → Option (Section β κ)
  | .top r p => some (atTop s r p)
  | .drain r p d => some (atDrain s pos r p d)
  | .after r p d => some (atAfter s r p d)
  | .oobTop r => some (atOobTop s r)
  | _ => none

def enter (s : SbSocket β κ) : Call → Option (Section β κ)
  | .entry r => some { sock := s.passMark r, call := .top r ⟨[], []⟩, out := [] }
  | .oobEntry r => some { sock := s, call := .oobTop r, out := [] }
  | _ => none

def wake (we : Option Errno) : Call → Option Call
  | .asleep r p =>
      match we with
      | none => some (.top r p)
      | some e =>
          if e = .eintr ∨ e = .ewouldblock then
            some (.done r p (if 0 < p.copied then .ok p.copied else .error e))
          else none
  | .oobAsleep r =>
      match we with
      | none => some (.oobTop r)
      | some e =>
          if e = .eintr ∨ e = .ewouldblock then some (.done r ⟨[], []⟩ (.error e)) else none
  | _ => none

def relock : Call → Option Call
  | .copy r p d run =>
      some (.drain r { p with buf := p.buf ++ Pbuf.bytes run }
        { d with acked := d.acked + Pbuf.size run })
  | _ => none

def clear (s : SbSocket β κ) : Call → Option (Section β κ)
  | .clearErr r p e =>
      some { sock := { s with err := none }, call := .done r p (.error e), out := [] }
  | _ => none

def begin (s : SbSocket β κ) (r : RecvReq) (oob : Bool) : Call :=
  let r := { r with dontwait := r.dontwait || s.nonblock }
  if oob then
    if s.oobInline ∨ r.len < 1 then .done r ⟨[], []⟩ (.error .einval) else .oobEntry r
  else .entry r

theorem holds_of_resting {c : Call} (h : c.resting = true) :
  c.holds = false
  := by
  cases c <;> first | rfl | contradiction

theorem holds_begin (s : SbSocket β κ) (r : RecvReq) (oob : Bool) :
  (begin s r oob).holds = false
  := by
  simp only [begin]
  split
  · split <;> rfl
  · rfl

/-! ### What one step of a call can do -/

def isOob : Call → Bool
  | .oobEntry .. | .oobTop .. | .oobAsleep .. => true
  | _ => false

structure OobStep (s : SbSocket β κ) (sec : Section β κ) : Prop where
  out_eq : sec.out = []
  sock_eq : sec.sock = s ∨ s.oobState = .oobHave ∧ sec.sock = { s with oobState := .oobRead } ∨
    sec.sock = { s with err := none }
  call_eq : sec.call.isOob ∨ ∃ r p res, sec.call = .done r p res ∧ p.taken = [] ∧ res ≠ .ok 0

inductive Step (s : SbSocket β κ) (pos : ℕ) : Call → Section β κ → Prop where
  | enter (r : RecvReq) : Step s pos (.entry r) ⟨s.passMark r, .top r ⟨[], []⟩, []⟩
  | stop (r : RecvReq) (p : Progress) (n : ℕ) (hq : s.rxq = [])
      (h : s.recvEmpty r p.copied = .ret n) :
      Step s pos (.top r p) ⟨s, .done r p (.ok n), []⟩
  | fail (r : RecvReq) (p : Progress) (e : Errno) (hq : s.rxq = [])
      (h : s.recvEmpty r p.copied = .fail e) :
      Step s pos (.top r p) ⟨s, .done r p (.error e), []⟩
  | report (r : RecvReq) (p : Progress) (e : Errno) (hq : s.rxq = [])
      (h : s.recvEmpty r p.copied = .clearErr e) :
      Step s pos (.top r p) ⟨s, .clearErr r p e, []⟩
  | sleep (r : RecvReq) (p : Progress) (hq : s.rxq = [])
      (h : s.recvEmpty r p.copied = .sleep) :
      Step s pos (.top r p) ⟨s, .asleep r p, []⟩
  | look (r : RecvReq) (p : Progress) (hq : s.rxq ≠ []) (hp : r.peek = true) (buf : List UInt8)
      (n : ℕ) : Step s pos (.top r p) ⟨s, .done r ⟨buf, p.taken⟩ (.ok n), []⟩
  | clamp (r : RecvReq) (p : Progress) (hq : s.rxq ≠ []) (hp : r.peek = false) :
      Step s pos (.top r p)
        ⟨s, .drain r p ⟨(s.recvClamp r p.copied).1, (s.recvClamp r p.copied).2, 0⟩, []⟩
  | leave (r : RecvReq) (p : Progress) (d : Drain) (h : d.lim ≤ p.copied ∨ s.rxq = []) :
      Step s pos (.drain r p d) ⟨s, .after r p d, []⟩
  | consume (r : RecvReq) (p : Progress) (d : Drain) (h : Pbuf) (t : List Pbuf)
      (hq : s.rxq = h :: t) (hlt : p.copied < d.lim) (hn : d.lim - p.copied < h.len) :
      Step s pos (.drain r p d)
        ⟨s.consumeHead h t (d.lim - p.copied),
          .drain r ⟨p.buf ++ h.payload.take (d.lim - p.copied),
            p.taken ++ List.range' pos (d.lim - p.copied)⟩
            { d with acked := d.acked + (d.lim - p.copied) },
          h.payload.take (d.lim - p.copied)⟩
  | detach (r : RecvReq) (p : Progress) (d : Drain) (run rest : List Pbuf)
      (hlt : p.copied < d.lim) (hrun : Pbuf.takeRun (d.lim - p.copied) 0 s.rxq = (run, rest))
      (hne : run ≠ []) :
      Step s pos (.drain r p d)
        ⟨s.unlinkRun rest (Pbuf.size run),
          .copy r { p with taken := p.taken ++ List.range' pos (Pbuf.size run) } d run,
          Pbuf.bytes run⟩
  | finish (r : RecvReq) (p : Progress) (d : Drain)
      (h : d.hitmark = true ∧ d.lim ≤ p.copied ∨ r.len ≤ p.copied ∨ r.waitall = false) :
      Step s pos (.after r p d) ⟨s.flushCredit d.acked, .done r p (.ok p.copied), []⟩
  | again (r : RecvReq) (p : Progress) (d : Drain)
      (hmark : d.hitmark = true → p.copied < d.lim) (hlen : p.copied < r.len)
      (hall : r.waitall = true) :
      Step s pos (.after r p d) ⟨s.flushCredit d.acked, .top r p, []⟩
  | wake (r : RecvReq) (p : Progress) : Step s pos (.asleep r p) ⟨s, .top r p, []⟩
  | interrupt (r : RecvReq) (p : Progress) (e : Errno) :
      Step s pos (.asleep r p)
        ⟨s, .done r p (if 0 < p.copied then .ok p.copied else .error e), []⟩
  | relock (r : RecvReq) (p : Progress) (d : Drain) (run : List Pbuf) :
      Step s pos (.copy r p d run)
        ⟨s, .drain r { p with buf := p.buf ++ Pbuf.bytes run }
          { d with acked := d.acked + Pbuf.size run }, []⟩
  | oob {c : Call} {sec : Section β κ} (hc : c.isOob = true) (h : OobStep s sec) : Step s pos c sec

theorem step_atTop (s : SbSocket β κ) (pos : ℕ) (r : RecvReq) (p : Progress) :
  Step s pos (.top r p) (atTop s r p)
  := by
  unfold atTop
  split
  next hq =>
    split
    next n h => exact .stop r p n hq h
    next e h => exact .fail r p e hq h
    next e h => exact .report r p e hq h
    next h => exact .sleep r p hq h
  next hq =>
    dsimp only
    split
    next hp => exact .look r p hq hp _ _
    next hp => exact .clamp r p hq (Bool.eq_false_iff.mpr hp)

theorem step_atDrain (s : SbSocket β κ) (pos : ℕ) (r : RecvReq) (p : Progress) (d : Drain) :
  Step s pos (.drain r p d) (atDrain s pos r p d)
  := by
  unfold atDrain
  split
  next hlt =>
    split
    next hq => exact .leave r p d (Or.inr hq)
    next h t hq =>
      dsimp only
      split
      next hrun => exact .consume r p d h t hq hlt (Pbuf.takeRun_eq_nil hrun)
      next hrun => exact .detach r p d _ _ hlt (by rw [hq]) hrun
  next hlt => exact .leave r p d (Or.inl (Nat.le_of_not_lt hlt))

theorem step_atAfter (s : SbSocket β κ) (pos : ℕ) (r : RecvReq) (p : Progress) (d : Drain) :
  Step s pos (.after r p d) (atAfter s r p d)
  := by
  unfold atAfter
  split
  next h => exact .finish r p d (by simpa [or_assoc] using h)
  next h =>
    obtain ⟨⟨hmark, hlen⟩, hall⟩ : ((d.hitmark = true → p.copied < d.lim) ∧ p.copied < r.len) ∧
        r.waitall = true := by
      simpa using h
    exact .again r p d hmark hlen hall

theorem oobStep_atOobTop (s : SbSocket β κ) (r : RecvReq) :
  OobStep s (atOobTop s r)
  := by
  have hfail : ∀ (s' : SbSocket β κ) (e : Errno), (s' = s ∨ s' = { s with err := none }) →
      OobStep s ⟨s', .done r ⟨[], []⟩ (.error e), []⟩ := by
    intro s' e hs'
    refine ⟨rfl, ?_, Or.inr ⟨r, _, _, rfl, rfl, nofun⟩⟩
    obtain h | h := hs'
    · exact Or.inl h
    · exact Or.inr (Or.inr h)
  unfold atOobTop
  split
  next hhave =>
    refine ⟨rfl, ?_, Or.inr ⟨r, _, _, rfl, rfl, nofun⟩⟩
    dsimp only
    split
    · exact Or.inl rfl
    · exact Or.inr (Or.inl ⟨hhave, rfl⟩)
  next =>
    split
    next => exact hfail s _ (Or.inl rfl)
    next =>
      split
      next e _ => exact hfail _ e (Or.inr rfl)
      next =>
        split
        next => exact hfail s _ (Or.inl rfl)
        next =>
          split
          next => exact hfail s _ (Or.inl rfl)
          next => exact ⟨rfl, Or.inl rfl, Or.inl rfl⟩

theorem copied_append (p : Progress) (out : List UInt8) (taken : List ℕ) :
  (Progress.mk (p.buf ++ out) taken).copied = p.copied + out.length
  := List.length_append

theorem length_consumed
    {h : Pbuf} {n : ℕ} (hn : n < h.len) :
  (h.payload.take n).length = n
  := by
  rw [List.length_take]
  apply Nat.min_eq_left
  exact Nat.le_of_lt hn

theorem step_of_locked
    {s : SbSocket β κ} {pos : ℕ} {c : Call} {sec : Section β κ} (h : locked s pos c = some sec) :
  Step s pos c sec
  := by
  cases c with
  | top r p =>
    cases h
    apply step_atTop
  | drain r p d =>
    cases h
    apply step_atDrain
  | after r p d =>
    cases h
    apply step_atAfter
  | oobTop r =>
    cases h
    exact .oob rfl (oobStep_atOobTop s r)
  | _ => contradiction

theorem step_of_enter
    {s : SbSocket β κ} {pos : ℕ} {c : Call} {sec : Section β κ} (h : enter s c = some sec) :
  Step s pos c sec
  := by
  cases c with
  | entry r =>
    cases h
    exact .enter r
  | oobEntry r =>
    cases h
    exact .oob rfl ⟨rfl, Or.inl rfl, Or.inl rfl⟩
  | _ => contradiction

theorem step_of_wake
    {s : SbSocket β κ} {pos : ℕ} {we : Option Errno} {c c' : Call} (h : wake we c = some c') :
  Step s pos c ⟨s, c', []⟩
  := by
  cases c with
  | asleep r p =>
    cases we with
    | none =>
      cases h
      exact .wake r p
    | some e =>
      simp only [wake, Option.ite_none_right_eq_some, Option.some.injEq] at h
      obtain ⟨-, rfl⟩ := h
      exact .interrupt r p e
  | oobAsleep r =>
    cases we with
    | none =>
      cases h
      exact .oob rfl ⟨rfl, Or.inl rfl, Or.inl rfl⟩
    | some e =>
      simp only [wake, Option.ite_none_right_eq_some, Option.some.injEq] at h
      obtain ⟨-, rfl⟩ := h
      exact .oob rfl ⟨rfl, Or.inl rfl, Or.inr ⟨r, _, _, rfl, rfl, nofun⟩⟩
  | _ => contradiction

theorem step_of_relock
    {s : SbSocket β κ} {pos : ℕ} {c c' : Call} (h : relock c = some c') :
  Step s pos c ⟨s, c', []⟩
  := by
  cases c with
  | copy r p d run =>
    cases h
    exact .relock r p d run
  | _ => contradiction

end Call
