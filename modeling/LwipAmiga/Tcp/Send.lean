import LwipAmiga.Lib.Wakeup
import LwipAmiga.Wake.Event
import Mathlib.Data.List.Flatten

/-!
# Sending on a stream

`sb_tcp_send` passes a buffer to `tcp_write` in chunks under the core lock.
-/

open List TransitionSystem Option Function

/-! ### Requests -/

inductive SendReq where
  | send (buf : List UInt8) (oob dontwait : Bool)
  | sendmsg (iov : List (List UInt8)) (oob dontwait : Bool)

namespace SendReq

def data : SendReq → List UInt8
  | .send buf _ _ => buf
  | .sendmsg iov _ _ => iov.flatten

/-- `SB_MSG_DONTWAIT`. -/
def dontwait : SendReq → Bool
  | .send _ _ d => d
  | .sendmsg _ _ d => d

def lastiov (iov : List (List UInt8)) : ℕ :=
  iov.zipIdx.foldl (fun last b => if b.1.length ≠ 0 then b.2 else last) 0

def buffers : SendReq → List (List UInt8 × Bool)
  | .send buf oob _ => [(buf, oob)]
  | .sendmsg iov oob _ =>
      iov.zipIdx.filterMap fun b =>
        if b.1.length = 0 then none else some (b.1, oob && b.2 == lastiov iov)

theorem flatten_buffers (req : SendReq) :
  (req.buffers.map Prod.fst).flatten = req.data
  := by
  cases req with
  | send buf oob dontwait => simp [buffers, data]
  | sendmsg iov oob dontwait =>
    have hpassed : ∀ last k, (((iov.zipIdx k).filterMap fun b =>
        if b.1.length = 0 then none else some (b.1, oob && b.2 == last)).map Prod.fst).flatten
        = iov.flatten := by
      intro last
      induction iov with
      | nil => simp
      | cons b iov ih =>
        intro k
        rw [zipIdx_cons, filterMap_cons]
        by_cases hb : b.length = 0
        · simpa [length_eq_zero_iff.mp hb] using ih (k + 1)
        · simpa [hb] using ih (k + 1)
    apply hpassed

end SendReq

/-! ### Calls -/

structure TcpWrite where
  bytes : List UInt8
  more : Bool
  urg : Bool

structure SendPass where
  buf : List UInt8
  oob : Bool
  dontwait : Bool
  sent : ℕ

structure SendJob where
  req : SendReq
  rest : List (List UInt8 × Bool)
  total : ℕ
  writes : List TcpWrite

def SendJob.wrote (j : SendJob) : List UInt8 :=
  (j.writes.map TcpWrite.bytes).flatten

inductive SendCall where
  | idle
  | locking (j : SendJob) (p : SendPass)
  | head (j : SendJob) (p : SendPass)
  | asleep (j : SendJob) (p : SendPass)
  | done (j : SendJob) (r : Except Errno ℕ)

namespace SendCall

def resting : SendCall → Bool
  | .idle | .done .. => true
  | _ => false

def isAsleep : SendCall → Bool
  | .asleep .. => true
  | _ => false

end SendCall

def SendPass.sentOr (p : SendPass) (e : Errno) : Except Errno ℕ :=
  if 0 < p.sent then .ok p.sent else .error e

inductive SendRound where
  | returns (n : Except Errno ℕ)
  | sleeps
  | queues (chunk : ℕ)

/-- `sb_send_block` up to its sleep. -/
def SendPass.sbSendBlock (p : SendPass) : SendRound :=
  if p.dontwait then .returns (p.sentOr .ewouldblock) else .sleeps

def SbSocket.sbTcpSend {β κ : Type} (s : SbSocket β κ) (p : SendPass) (r : Err) : SendRound :=
  if p.sent < p.buf.length then
    match s.sendTest (p.buf.length - p.sent) with
    | .stop e => .returns (p.sentOr e)
    | .fail e => .returns (.error e)
    | .block => p.sbSendBlock
    | .write chunk =>
        if r = .mem then p.sbSendBlock
        else
          match sbMapErr r with
          | none => .queues chunk
          | some e => .returns (p.sentOr e)
  else .returns (.ok p.sent)

def SbSocket.tcpQueued {β κ : Type} (s : SbSocket β κ) (n : ℕ) : SbSocket β κ :=
  { s with pcb := s.pcb.map fun pcb => { pcb with sndBuf := pcb.sndBuf - n } }

namespace SendJob

def queue (j : SendJob) (p : SendPass) (chunk : ℕ) : SendJob :=
  let more := decide (p.sent + chunk < p.buf.length)
  { j with
    writes := j.writes ++ [⟨(p.buf.drop p.sent).take chunk, more, !more && p.oob⟩] }

def pass (j : SendJob) (nonblock : Bool) : SendCall :=
  match j.rest with
  | [] => .done j (.ok j.total)
  | (buf, oob) :: rest =>
      .locking { j with rest := rest }
        { buf := buf, oob := oob && !buf.isEmpty, dontwait := nonblock || j.req.dontwait, sent := 0 }

def returned (j : SendJob) (p : SendPass) (nonblock : Bool) : Except Errno ℕ → SendCall
  | .error e => .done j (if 0 < j.total then .ok j.total else .error e)
  | .ok n =>
      if n < p.buf.length then .done { j with total := j.total + n } (.ok (j.total + n))
      else pass { j with total := j.total + n } nonblock

def begin (req : SendReq) (nonblock : Bool) : SendCall :=
  pass { req := req, rest := req.buffers, total := 0, writes := [] } nonblock

end SendJob

/-! ### The system -/

structure StreamWorld (β κ : Type) where
  sock : SbSocket β κ
  lock : Option β
  call : β → SendCall
  sig : β → Bool
  queued : ℕ

inductive StreamLabel (β κ : Type) where
  | event (e : TcpEvent β κ)
  | begin (i : β) (req : SendReq)
  | enter (i : β)
  | run (i : β) (r : Err) (waiters : Bool)
  | wake (i : β) (we : Option Errno)

namespace StreamWorld

variable {β κ : Type} [DecidableEq β]

def afterEvent (L : Lwip) (w : StreamWorld β κ) (e : TcpEvent β κ) : Option (StreamWorld β κ) :=
  (w.sock.event L e).bind fun s' =>
    let w' := { w with
      sock := s'
      sig := if (w.sock.notices e).wake then Wakeup.signal w.sig s'.sbWake else w.sig }
    match e with
    | .write _ => none
    | .sent n _ => if n ≤ w.queued then some { w' with queued := w.queued - n } else none
    | _ => some w'

def setCall (w : StreamWorld β κ) (i : β) (c : SendCall) (holds : Bool) : StreamWorld β κ :=
  { w with call := Function.update w.call i c, lock := if holds then some i else none }

def takeSignal (w : StreamWorld β κ) (i : β) : StreamWorld β κ :=
  { w with sig := Function.update w.sig i false }

def afterRound (w : StreamWorld β κ) (i : β) (j : SendJob) (p : SendPass) (waiters : Bool) :
    SendRound → StreamWorld β κ
  | .returns n => w.setCall i (j.returned p w.sock.nonblock n) false
  | .sleeps => (w.setCall i (.asleep j p) false).takeSignal i
  | .queues chunk =>
      let w' := { w with sock := w.sock.tcpQueued chunk, queued := w.queued + chunk }
      let p' := { p with sent := p.sent + chunk }
      if p'.sent < p.buf.length ∧ waiters = true then
        w'.setCall i (.locking (j.queue p chunk) p') false
      else w'.setCall i (.head (j.queue p chunk) p') true

/-- `sb_wait_to` may answer `we`: 0 after a signal or a timer, `SB_EINTR` after a break, and
`SB_EWOULDBLOCK` past the deadline. -/
def mayWake (w : StreamWorld β κ) (i : β) : Option Errno → Bool
  | none => w.sig i || w.sock.sndTimeoMs != 0
  | some .eintr => true
  | some .ewouldblock => w.sock.sndTimeoMs != 0
  | some _ => false

def next (L : Lwip) (w : StreamWorld β κ) : StreamLabel β κ → Option (StreamWorld β κ)
  | .event e => if w.lock.isNone then w.afterEvent L e else none
  | .begin i req =>
      if (w.call i).resting ∧ req.data.length < 2 ^ 31 then
        some { w with call := Function.update w.call i (SendJob.begin req w.sock.nonblock) }
      else none
  | .enter i =>
      match w.call i with
      | .locking j p => if w.lock.isNone then some (w.setCall i (.head j p) true) else none
      | _ => none
  | .run i r waiters =>
      match w.call i with
      | .head j p =>
          if w.lock = some i then some (w.afterRound i j p waiters (w.sock.sbTcpSend p r)) else none
      | _ => none
  | .wake i we =>
      match w.call i with
      | .asleep j p =>
          if w.lock.isNone ∧ w.mayWake i we then
            match we with
            | none => some ((w.setCall i (.head j p) true).takeSignal i)
            | some e => some (w.setCall i (j.returned p w.sock.nonblock (p.sentOr e)) false)
          else none
      | _ => none

def start (s : SbSocket β κ) : StreamWorld β κ where
  sock := s
  lock := none
  call _ := .idle
  sig _ := false
  queued := 0

def system (L : Lwip) : TransitionSystem (StreamWorld β κ) (StreamLabel β κ) where
  init w := ∃ b s, TcpWorld.Created b s ∧ (∀ pcb ∈ s.pcb, pcb.sndBuf = TCP_SND_BUF) ∧ w = start s
  next := next L

/-! ### What a step can do -/

inductive CallStep (s : SbSocket β κ) (l : StreamLabel β κ) (i : β) : SendCall → SendCall → Prop where
  | stay (c : SendCall) : CallStep s l i c c
  | begin (c : SendCall) (req : SendReq) : CallStep s l i c (SendJob.begin req s.nonblock)
  | resume {c : SendCall} (j : SendJob) (p : SendPass) (hc : c = .locking j p ∨ c = .asleep j p) :
      CallStep s l i c (.head j p)
  | failed (j : SendJob) (p : SendPass) (e : Errno) :
      CallStep s l i (.asleep j p) (j.returned p s.nonblock (p.sentOr e))
  | returns (j : SendJob) (p : SendPass) (r : Err) (waiters : Bool) (n : Except Errno ℕ)
      (hl : l = .run i r waiters) (h : s.sbTcpSend p r = .returns n) :
      CallStep s l i (.head j p) (j.returned p s.nonblock n)
  | sleeps (j : SendJob) (p : SendPass) : CallStep s l i (.head j p) (.asleep j p)
  | queues {c : SendCall} (j : SendJob) (p : SendPass) (r : Err) (chunk : ℕ)
      (h : s.sbTcpSend p r = .queues chunk)
      (hc : c = .locking (j.queue p chunk) { p with sent := p.sent + chunk } ∨
        c = .head (j.queue p chunk) { p with sent := p.sent + chunk }) :
      CallStep s l i (.head j p) c

variable {L : Lwip} {w w' : StreamWorld β κ} {l : StreamLabel β κ}

theorem call_afterEvent
    {e : TcpEvent β κ} (h : w.afterEvent L e = some w') :
  w'.call = w.call
  := by
  obtain ⟨s', -, h⟩ := bind_eq_some_iff.mp h
  dsimp only at h
  split at h
  · contradiction
  · obtain ⟨-, ⟨⟩⟩ := ite_none_right_eq_some.mp h
    rfl
  · cases h
    rfl

theorem callStep_update
    {s : SbSocket β κ} (call : β → SendCall) (k i : β) {c : SendCall}
    (h : CallStep s l k (call k) c) :
  CallStep s l i (call i) (update call k c i)
  := by
  by_cases hik : i = k
  · subst hik
    rw [update_self]
    apply h
  · rw [update_of_ne hik]
    apply CallStep.stay

theorem callStep_afterRound
    {k : β} {j : SendJob} {p : SendPass} {r : Err} {waiters : Bool} (hcall : w.call k = .head j p)
    (i : β) :
  CallStep w.sock (.run k r waiters) i (w.call i)
    ((w.afterRound k j p waiters (w.sock.sbTcpSend p r)).call i)
  := by
  cases hround : w.sock.sbTcpSend p r with
  | returns n =>
    apply callStep_update
    rw [hcall]
    apply CallStep.returns j p r waiters n rfl hround
  | sleeps =>
    apply callStep_update
    rw [hcall]
    apply CallStep.sleeps
  | queues chunk =>
    rw [afterRound]
    split
    · apply callStep_update
      rw [hcall]
      apply CallStep.queues j p r chunk hround (.inl rfl)
    · apply callStep_update
      rw [hcall]
      apply CallStep.queues j p r chunk hround (.inr rfl)

theorem callStep_of_next
    (h : next L w l = some w') (i : β) :
  CallStep w.sock l i (w.call i) (w'.call i)
  := by
  cases l with
  | event e =>
    obtain ⟨-, h⟩ := ite_none_right_eq_some.mp h
    rw [call_afterEvent h]
    apply CallStep.stay
  | begin k req =>
    obtain ⟨-, ⟨⟩⟩ := ite_none_right_eq_some.mp h
    apply callStep_update
    apply CallStep.begin
  | enter k =>
    simp only [next] at h
    split at h
    next j p hcall =>
      obtain ⟨-, ⟨⟩⟩ := ite_none_right_eq_some.mp h
      apply callStep_update
      apply CallStep.resume j p (.inl hcall)
    next => contradiction
  | run k r waiters =>
    simp only [next] at h
    split at h
    next j p hcall =>
      obtain ⟨-, ⟨⟩⟩ := ite_none_right_eq_some.mp h
      apply callStep_afterRound hcall
    next => contradiction
  | wake k we =>
    simp only [next] at h
    split at h
    next j p hcall =>
      obtain ⟨-, h⟩ := ite_none_right_eq_some.mp h
      cases we with
      | none =>
        cases h
        apply callStep_update
        apply CallStep.resume j p (.inr hcall)
      | some e =>
        cases h
        apply callStep_update
        rw [hcall]
        apply CallStep.failed
    next => contradiction

end StreamWorld

/-! ### What has been queued -/

namespace SendJob

structure Progress (j : SendJob) (p : SendPass) : Prop where
  total_le : j.total ≤ j.req.data.length
  left : j.req.data.drop j.total = p.buf ++ (j.rest.map Prod.fst).flatten
  wrote : j.wrote = j.req.data.take (j.total + p.sent)
  sent_le : p.sent ≤ p.buf.length

structure Tells (j : SendJob) (r : Except Errno ℕ) : Prop where
  isPrefix : j.wrote <+: j.req.data
  result : r = .ok j.wrote.length ∨ (∃ e, r = .error e) ∧ j.wrote = []

def Exact (j : SendJob) (r : Except Errno ℕ) : Prop :=
  (∀ n, 0 < n → (r = .ok n ↔ n ≤ j.req.data.length ∧ j.wrote = j.req.data.take n)) ∧
  ∀ e, r = .error e → j.wrote = []

variable {j : SendJob} {p : SendPass}

theorem Tells.exact
    {r : Except Errno ℕ} (h : j.Tells r) :
  j.Exact r
  := by
  have htake := prefix_iff_eq_take.mp h.isPrefix
  constructor
  · intro n hn
    constructor
    · rintro rfl
      obtain hr | ⟨⟨e, he⟩, -⟩ := h.result
      · cases hr
        exact ⟨h.isPrefix.length_le, htake⟩
      · contradiction
    · rintro ⟨hle, hwrote⟩
      have hlen : j.wrote.length = n := by
        rw [hwrote, length_take, Nat.min_eq_left hle]
      obtain hr | ⟨-, hnil⟩ := h.result
      · rw [hr, hlen]
      · rw [hnil] at hlen
        simp at hlen
        omega
  · rintro e rfl
    obtain hr | ⟨-, hnil⟩ := h.result
    · contradiction
    · apply hnil

theorem Progress.le_length (h : j.Progress p) :
  j.total + p.sent ≤ j.req.data.length
  := by
  have hleft := congrArg length h.left
  simp only [length_drop, length_append] at hleft
  have htotal := h.total_le
  have hsent := h.sent_le
  omega

theorem Progress.tells (h : j.Progress p) :
  j.Tells (.ok (j.total + p.sent))
  := by
  refine ⟨h.wrote ▸ take_prefix _ _, .inl ?_⟩
  rw [h.wrote, length_take, Nat.min_eq_left h.le_length]

theorem Progress.queue
    (h : j.Progress p) {chunk : ℕ} (hchunk : p.sent + chunk ≤ p.buf.length) :
  (j.queue p chunk).Progress { p with sent := p.sent + chunk }
  := by
  refine ⟨h.total_le, h.left, ?_, hchunk⟩
  have hdrop : j.req.data.drop (j.total + p.sent)
      = p.buf.drop p.sent ++ (j.rest.map Prod.fst).flatten := by
    rw [← drop_drop, h.left, drop_append_of_le_length h.sent_le]
  have hnew : (j.queue p chunk).wrote = j.wrote ++ (p.buf.drop p.sent).take chunk := by
    simp [SendJob.wrote, SendJob.queue]
  have hle : chunk ≤ (p.buf.drop p.sent).length := by
    rw [length_drop]
    omega
  calc (j.queue p chunk).wrote
      = j.req.data.take (j.total + p.sent) ++ (j.req.data.drop (j.total + p.sent)).take chunk := by
        rw [hnew, h.wrote, hdrop, take_append_of_le_length hle]
    _ = j.req.data.take (j.total + (p.sent + chunk)) := by
        rw [← take_add, Nat.add_assoc]

end SendJob

namespace SendCall

open SendJob

def Ok : SendCall → Prop
  | .idle => True
  | .locking j p | .head j p | .asleep j p => j.Progress p
  | .done j r => j.Tells r

variable {j : SendJob} {p : SendPass}

theorem ok_pass
    (htotal : j.total ≤ j.req.data.length)
    (hleft : j.req.data.drop j.total = (j.rest.map Prod.fst).flatten)
    (hwrote : j.wrote = j.req.data.take j.total) (nonblock : Bool) :
  (j.pass nonblock).Ok
  := by
  unfold SendJob.pass
  split
  next hrest =>
    refine ⟨hwrote ▸ take_prefix _ _, .inl ?_⟩
    rw [hwrote, length_take, Nat.min_eq_left htotal]
  next buf oob rest hrest =>
    refine ⟨htotal, ?_, hwrote, Nat.zero_le _⟩
    rw [hleft, hrest]
    rfl

theorem ok_begin (req : SendReq) (nonblock : Bool) :
  (SendJob.begin req nonblock).Ok
  := by
  apply ok_pass
  · apply Nat.zero_le
  · rw [req.flatten_buffers, drop_zero]
  · rfl

theorem ok_returned
    (h : j.Progress p) {n : Except Errno ℕ}
    (hn : n = .ok p.sent ∨ (∃ e, n = .error e) ∧ p.sent = 0) (nonblock : Bool) :
  (j.returned p nonblock n).Ok
  := by
  obtain rfl | ⟨⟨e, rfl⟩, hsent⟩ := hn
  · rw [returned]
    split
    · exact ⟨h.tells.isPrefix, h.tells.result⟩
    · have hall : p.sent = p.buf.length := by
        have := h.sent_le
        omega
      apply ok_pass
      · apply h.le_length
      · rw [← drop_drop, h.left, hall, drop_left]
      · apply h.wrote
  · have htells := h.tells
    rw [hsent, Nat.add_zero] at htells
    rw [returned]
    split
    · apply htells
    next htotal =>
      obtain hr | ⟨-, hnil⟩ := htells.result
      · have hlen := Except.ok.inj hr
        refine ⟨htells.isPrefix, .inr ⟨⟨e, rfl⟩, length_eq_zero_iff.mp ?_⟩⟩
        omega
      · exact ⟨htells.isPrefix, .inr ⟨⟨e, rfl⟩, hnil⟩⟩

end SendCall

theorem SendPass.sentOr_cases (p : SendPass) (e : Errno) :
  p.sentOr e = .ok p.sent ∨ (∃ e', p.sentOr e = .error e') ∧ p.sent = 0
  := by
  unfold sentOr
  split
  · left
    rfl
  · right
    exact ⟨⟨e, rfl⟩, by omega⟩

namespace SbSocket

variable {β κ : Type} {s : SbSocket β κ} {p : SendPass} {r : Err}

def refusesWrites (s : SbSocket β κ) : Bool :=
  s.shutWr && s.pcb.isSome && s.err.isNone

theorem sendTest_spec (s : SbSocket β κ) (left : ℕ) :
  (∃ e, s.sendTest left = .stop e) ∨
  (s.sendTest left = .fail .eshutdown ∧ s.refusesWrites = true) ∨
  (s.sendTest left = .block ∧ (s.connecting = true ∨ ∃ pcb ∈ s.pcb, pcb.sndBuf = 0)) ∨
  ∃ chunk ≤ left, s.sendTest left = .write chunk ∧ ∃ pcb ∈ s.pcb, chunk ≤ pcb.sndBuf
  := by
  unfold sendTest
  split
  · exact .inl ⟨_, rfl⟩
  next pcb hpcb =>
    split
    · exact .inl ⟨_, rfl⟩
    next herr =>
      split
      next hshut =>
        right; left
        simp [refusesWrites, hshut, hpcb, herr]
      next =>
        split
        next hconnecting => exact .inr (.inr (.inl ⟨rfl, .inl hconnecting⟩))
        next =>
          split
          · exact .inl ⟨_, rfl⟩
          · split
            next hfull => exact .inr (.inr (.inl ⟨rfl, .inr ⟨pcb, hpcb, hfull⟩⟩))
            next => exact .inr (.inr (.inr ⟨_, by omega, rfl, pcb, hpcb, by omega⟩))

theorem sbTcpSend_spec (s : SbSocket β κ) (p : SendPass) (r : Err) :
  (∃ n, s.sbTcpSend p r = .returns n ∧ (n = .ok p.sent ∨ (∃ e, n = .error e) ∧ p.sent = 0)) ∨
  (s.sbTcpSend p r = .returns (.error .eshutdown) ∧ s.refusesWrites = true ∧
    p.sent < p.buf.length) ∨
  (s.sbTcpSend p r = .sleeps ∧
    (r = .mem ∨ s.connecting = true ∨ ∃ pcb ∈ s.pcb, pcb.sndBuf = 0)) ∨
  ∃ chunk, s.sbTcpSend p r = .queues chunk ∧ p.sent + chunk ≤ p.buf.length ∧
    ∃ pcb ∈ s.pcb, chunk ≤ pcb.sndBuf
  := by
  have hblock : (∃ n, p.sbSendBlock = .returns n ∧
      (n = .ok p.sent ∨ (∃ e, n = .error e) ∧ p.sent = 0)) ∨ p.sbSendBlock = .sleeps := by
    unfold SendPass.sbSendBlock
    split
    · exact .inl ⟨_, rfl, p.sentOr_cases _⟩
    · exact .inr rfl
  unfold sbTcpSend
  split
  next hlt =>
    obtain ⟨e, htest⟩ | ⟨htest, hrefuses⟩ | ⟨htest, hwhy⟩ | ⟨chunk, hle, htest, hroom⟩ :=
      s.sendTest_spec (p.buf.length - p.sent)
    · rw [htest]
      exact .inl ⟨_, rfl, p.sentOr_cases e⟩
    · rw [htest]
      exact .inr (.inl ⟨rfl, hrefuses, hlt⟩)
    · rw [htest]
      obtain hreturns | hsleeps := hblock
      · exact .inl hreturns
      · exact .inr (.inr (.inl ⟨hsleeps, .inr hwhy⟩))
    · rw [htest]
      dsimp only
      split
      next hmem =>
        obtain hreturns | hsleeps := hblock
        · exact .inl hreturns
        · exact .inr (.inr (.inl ⟨hsleeps, .inl hmem⟩))
      next =>
        split
        · exact .inr (.inr (.inr ⟨chunk, rfl, by omega, hroom⟩))
        next e _ => exact .inl ⟨_, rfl, p.sentOr_cases e⟩
  next => exact .inl ⟨_, rfl, .inl rfl⟩

theorem sbTcpSend_returns
    {n : Except Errno ℕ} (h : s.sbTcpSend p r = .returns n)
    (hshut : 0 < p.sent → p.sent < p.buf.length → s.refusesWrites = false) :
  n = .ok p.sent ∨ (∃ e, n = .error e) ∧ p.sent = 0
  := by
  obtain ⟨n', hn', hcases⟩ | ⟨hfail, hrefuses, hlt⟩ | ⟨hsleeps, -⟩ | ⟨chunk, hqueues, -⟩ :=
    s.sbTcpSend_spec p r
  · cases h.symm.trans hn'
    apply hcases
  · cases h.symm.trans hfail
    right
    refine ⟨⟨_, rfl⟩, ?_⟩
    by_contra hpos
    rw [hshut (by omega) hlt] at hrefuses
    contradiction
  · cases h.symm.trans hsleeps
  · cases h.symm.trans hqueues

theorem sbTcpSend_queues
    {chunk : ℕ} (h : s.sbTcpSend p r = .queues chunk) :
  p.sent + chunk ≤ p.buf.length ∧ ∃ pcb ∈ s.pcb, chunk ≤ pcb.sndBuf
  := by
  obtain ⟨n, hn, -⟩ | ⟨hfail, -⟩ | ⟨hsleeps, -⟩ | ⟨chunk', hqueues, hle⟩ := s.sbTcpSend_spec p r
  · cases h.symm.trans hn
  · cases h.symm.trans hfail
  · cases h.symm.trans hsleeps
  · cases h.symm.trans hqueues
    apply hle

theorem sbTcpSend_sleeps
    (h : s.sbTcpSend p r = .sleeps) :
  r = .mem ∨ s.connecting = true ∨ ∃ pcb ∈ s.pcb, pcb.sndBuf = 0
  := by
  obtain ⟨n, hn, -⟩ | ⟨hfail, -⟩ | ⟨-, hwhy⟩ | ⟨chunk, hqueues, -⟩ := s.sbTcpSend_spec p r
  · cases h.symm.trans hn
  · cases h.symm.trans hfail
  · apply hwhy
  · cases h.symm.trans hqueues

end SbSocket

namespace StreamWorld

variable {β κ : Type} [DecidableEq β] {L : Lwip} {w : StreamWorld β κ}

def unshut (w : StreamWorld β κ) : StreamLabel β κ → Bool
  | .run i _ _ =>
      match w.call i with
      | .head _ p =>
          !(decide (0 < p.sent) && decide (p.sent < p.buf.length) && w.sock.refusesWrites)
      | _ => true
  | _ => true

omit [DecidableEq β] in
theorem refusesWrites_of_unshut
    {i : β} {r : Err} {waiters : Bool} {j : SendJob} {p : SendPass}
    (h : w.unshut (.run i r waiters) = true) (hcall : w.call i = .head j p) (hpos : 0 < p.sent)
    (hlt : p.sent < p.buf.length) :
  w.sock.refusesWrites = false
  := by
  simpa [unshut, hcall, hpos, hlt] using h

omit [DecidableEq β] in
theorem CallStep.ok
    {l : StreamLabel β κ} {i : β} {c c' : SendCall} (h : CallStep w.sock l i c c')
    (hcall : w.call i = c) (hl : w.unshut l = true) (hok : c.Ok) :
  c'.Ok
  := by
  cases h with
  | stay | sleeps => apply hok
  | begin => apply SendCall.ok_begin
  | resume j p hc => obtain rfl | rfl := hc <;> apply hok
  | failed j p e =>
    apply SendCall.ok_returned
    · apply hok
    · apply p.sentOr_cases
  | returns j p r waiters n hrun hround =>
    subst hrun
    apply SendCall.ok_returned
    · apply hok
    · apply SbSocket.sbTcpSend_returns hround
      apply refusesWrites_of_unshut hl hcall
  | queues j p r chunk hround hc =>
    have hqueue := SendJob.Progress.queue hok (SbSocket.sbTcpSend_queues hround).1
    obtain rfl | rfl := hc <;> apply hqueue

/-- On every run in which the send direction is not shut down while a buffer is queued in part, the
result of every send call is exact. -/
theorem send_exact
    (hw : (system L).Reach (fun w l => w.unshut l = true) w) {i : β} {j : SendJob} {r : Except Errno ℕ}
    (hdone : w.call i = .done j r) :
  j.Exact r
  := by
  have hok : ∀ i, (w.call i).Ok := by
    apply hw.invariant
    · rintro _ ⟨b, s, -, -, rfl⟩ i
      trivial
    · intro w l w' ih hl hnext i
      apply (callStep_of_next hnext i).ok rfl hl (ih i)
  have htells := hok i
  rw [hdone] at htells
  apply SendJob.Tells.exact htells

/-! ### Runs -/

def connection : StreamWorld Bool Unit :=
  start (SbSocket.accepted true { tcpNew TCP_SND_BUF with state := .established })

theorem init_connection (L : Lwip) :
  (system L).init connection
  := by
  refine ⟨true, _, .accepted _ rfl rfl rfl, ?_, rfl⟩
  rintro _ ⟨⟩
  rfl

def shortRun : List (StreamLabel Bool Unit) :=
  [.begin true (.sendmsg [[1, 2], [], [3]] false false), .enter true, .run true .ok false,
    .run true .ok false, .enter true, .run true .ok false, .run true .ok false]

theorem shortRun_enabled :
  ((system Lwip.reference).exec connection shortRun).isSome = true
  := by
  decide +kernel

def short : StreamWorld Bool Unit :=
  (system Lwip.reference).last connection shortRun shortRun_enabled

def shortJob : SendJob where
  req := .sendmsg [[1, 2], [], [3]] false false
  rest := []
  total := 3
  writes := [⟨[1, 2], false, false⟩, ⟨[3], false, false⟩]

theorem send_exact_short :
  short.call true = .done shortJob (.ok 3) ∧ shortJob.Exact (.ok 3)
  := by
  have hreach : (system Lwip.reference).Reach (fun w l => w.unshut l = true) short := by
    apply reach_last (init_connection _)
    decide +kernel
  have hdone : short.call true = .done shortJob (.ok 3) := rfl
  exact ⟨hdone, send_exact hreach hdone⟩

def longBuf : List UInt8 :=
  List.replicate 16385 0

def cutRun : List (StreamLabel Bool Unit) :=
  [.begin true (.send longBuf false false), .enter true, .run true .ok true,
    .event (.shutdown 1 .ok), .enter true, .run true .ok false]

def cutJob : SendJob where
  req := .send longBuf false false
  rest := []
  total := 0
  writes := [⟨longBuf.take 16384, true, false⟩]

theorem length_longBuf :
  longBuf.length = 16385
  := length_replicate

theorem wrote_cutJob :
  cutJob.wrote.length = 16384
  := by
  simp [SendJob.wrote, cutJob, length_longBuf]

theorem call_cutRun :
  ∃ w, (system Lwip.reference).exec connection cutRun = some w ∧
    w.call true = .done cutJob (.error .eshutdown)
  := by
  simp [cutRun, exec, system, next, connection, start, SendCall.resting,
    SendReq.data, length_longBuf, SendJob.begin, SendJob.pass, SendReq.buffers, SendReq.dontwait,
    setCall, afterRound, SbSocket.sbTcpSend, SbSocket.sendTest, SbSocket.accepted,
    SbSocket.sbSockAlloc, tcpNew, TCP_SND_BUF, sbMapErr, SbSocket.tcpQueued, SendJob.queue,
    afterEvent, SbSocket.event, SbSocket.bsdShutdown, SbSocket.notices, SbSocket.quiet,
    SendJob.returned, cutJob]

/-- The call fails with 16384 bytes queued. -/
theorem shutdown_hides_sent :
  ∃ w : StreamWorld Bool Unit, (system Lwip.reference).Reachable w ∧
    w.call true = .done cutJob (.error .eshutdown) ∧ cutJob.wrote.length = 16384 ∧
    ¬ cutJob.Exact (.error .eshutdown)
  := by
  obtain ⟨w, hexec, hcall⟩ := call_cutRun
  use w
  refine ⟨?_, hcall, wrote_cutJob, ?_⟩
  · apply TransitionSystem.Reach.exec (.init (init_connection _)) (along_true _ _)
    apply hexec
  · intro hexact
    have hnil := hexact.2 .eshutdown rfl
    have hlen := wrote_cutJob
    rw [hnil, length_nil] at hlen
    omega

end StreamWorld
