import LwipAmiga.Lib.Transition
import LwipAmiga.Socket.Api
import Mathlib.Algebra.BigOperators.Group.List.Basic

/-!
# The datagram queue

Datagrams arrive by `sb_dgram_queue` and leave by the receive calls of the holders.
-/

open List Option

/-! ### Receive calls -/

inductive DgramReq where
  | recv (len : ℕ) (fromAddr peek dontwait : Bool)
  | recvmsg (iov : List UInt32) (name peek dontwait : Bool)

structure DgramResult where
  count : ℕ
  bufs : List (List UInt8)
  trunc : Bool
  source : Option (UInt32 × UInt16)

def scatter (p : List UInt8) : ℕ → List UInt32 → List (List UInt8) × ℕ
  | off, [] => ([], off)
  | off, len :: iov =>
      if off < p.length then
        if len = 0 then scatter p off iov
        else
          let chunk := min len.toNat (p.length - off)
          let rest := scatter p (off + chunk) iov
          (((p.drop (off % 0x10000)).take (chunk % 0x10000)) :: rest.1, rest.2)
      else ([], off)

namespace DgramReq

/-- `MSG_PEEK`. -/
def peek : DgramReq → Bool
  | .recv _ _ p _ => p
  | .recvmsg _ _ p _ => p

/-- `MSG_DONTWAIT`. -/
def dontwait : DgramReq → Bool
  | .recv _ _ _ d => d
  | .recvmsg _ _ _ d => d

/-- `sb_dgram_recv` and `sb_dgram_recvmsg` once there is a datagram. -/
def result (d : SbDgram) : DgramReq → DgramResult
  | .recv len fromAddr _ _ =>
      let n := min d.payload.length len
      { count := n, bufs := [d.payload.take (n % 0x10000)], trunc := false
        source := if fromAddr then some (d.addr, d.port) else none }
  | .recvmsg iov name _ _ =>
      let (bufs, off) := scatter d.payload 0 iov
      { count := off, bufs := bufs, trunc := decide (off < d.payload.length)
        source := if name then some (d.addr, d.port) else none }

def room : DgramReq → ℕ
  | .recv len _ _ _ => len
  | .recvmsg iov _ _ _ => (iov.map UInt32.toNat).sum

def wantsSource : DgramReq → Bool
  | .recv _ f _ _ => f
  | .recvmsg _ n _ _ => n

def tellsTrunc : DgramReq → Bool
  | .recv .. => false
  | .recvmsg .. => true

structure Yields (req : DgramReq) (d : SbDgram) (res : DgramResult) : Prop where
  bytes : res.bufs.flatten = d.payload.take req.room
  count : res.count = min d.payload.length req.room
  source : res.source = if req.wantsSource then some (d.addr, d.port) else none
  trunc : res.trunc = (req.tellsTrunc && decide (req.room < d.payload.length))

end DgramReq

theorem scatter_spec
    {p : List UInt8} (hp : p.length < 0x10000) {off : ℕ} (hoff : off ≤ p.length) (iov : List UInt32) :
  (scatter p off iov).1.flatten = (p.drop off).take (iov.map UInt32.toNat).sum ∧
    (scatter p off iov).2 = min p.length (off + (iov.map UInt32.toNat).sum)
  := by
  induction iov generalizing off with
  | nil => simp [scatter, hoff]
  | cons len iov ih =>
    rw [scatter, map_cons, sum_cons]
    split
    next hlt =>
      split
      next hzero =>
        subst hzero
        rw [UInt32.toNat_zero, Nat.zero_add]
        exact ih hoff
      next =>
        have hle : off + min len.toNat (p.length - off) ≤ p.length := by omega
        obtain ⟨hbufs, hend⟩ := ih hle
        dsimp only
        rw [Nat.mod_eq_of_lt (by omega : off < 0x10000),
          Nat.mod_eq_of_lt (by omega : min len.toNat (p.length - off) < 0x10000),
          flatten_cons, hbufs, hend, ← drop_drop, ← length_drop,
          ← take_eq_take_min]
        constructor
        · rcases Nat.le_total len.toNat (p.drop off).length with hle | hle
          · rw [Nat.min_eq_left hle, ← take_add]
          · rw [Nat.min_eq_right hle, drop_length, take_nil, append_nil,
              take_of_length_le hle, take_of_length_le (by omega)]
        · rw [length_drop]
          omega
    next hge =>
      rw [drop_eq_nil_of_le (by omega)]
      simp
      omega

theorem DgramReq.yields_result
    {d : SbDgram} (hd : d.payload.length < 0x10000) (req : DgramReq) :
  req.Yields d (req.result d)
  := by
  cases req with
  | recv len fromAddr peek dontwait =>
    constructor
    · simp only [result, room, flatten_cons, flatten_nil, append_nil]
      rw [Nat.mod_eq_of_lt (by omega), Nat.min_comm, ← take_eq_take_min]
    · rfl
    · rfl
    · rfl
  | recvmsg iov name peek dontwait =>
    obtain ⟨hbufs, hend⟩ := scatter_spec hd (Nat.zero_le _) iov
    rw [Nat.zero_add] at hend
    rw [drop_zero] at hbufs
    refine ⟨hbufs, hend, rfl, ?_⟩
    simp only [result, hend, tellsTrunc, room, Bool.true_and]
    apply decide_eq_decide.mpr
    omega

/-! ### The system -/

inductive DgramCall where
  | idle
  | asleep (req : DgramReq)
  | done (req : DgramReq) (res : Except Errno DgramResult)

def DgramCall.resting : DgramCall → Bool
  | .asleep .. => false
  | _ => true

structure DgramWorld (β κ : Type) where
  sock : SbSocket β κ
  dgramRxDrops : UInt32
  call : β → DgramCall
  arrived : List (SbDgram × Bool)
  received : List SbDgram

inductive DgramLabel (β κ : Type) where
  | deliver (d : SbDgram) (alloc : Bool)
  | call (i : β) (req : DgramReq)
  | wake (i : β) (we : Option Errno)
  | other (s : SbSocket β κ)

namespace DgramWorld

variable {β κ : Type} [DecidableEq β]

/-- `sb_dgram_queue` finds room for a datagram. -/
def queues (w : DgramWorld β κ) (alloc : Bool) : Bool :=
  decide (w.sock.ndgrams < SB_DGRAM_QMAX) && alloc

def attempt (w : DgramWorld β κ) (i : β) (req : DgramReq) (dontwait : Bool) :
    Option (DgramWorld β κ) :=
  match w.sock.sbDgramWait dontwait with
  | (.fail e, s) => some { w with sock := s, call := Function.update w.call i (.done req (.error e)) }
  | (.sleep, s) => some { w with sock := s, call := Function.update w.call i (.asleep req) }
  | (.take, s) =>
      s.dgrams.head?.map fun d =>
        { w with
          sock := if req.peek then s else s.sbDgramDrop
          received := if req.peek then w.received else w.received ++ [d]
          call := Function.update w.call i (.done req (.ok (req.result d))) }

def next (w : DgramWorld β κ) : DgramLabel β κ → Option (DgramWorld β κ)
  | .deliver d alloc =>
      if d.payload.length < 0x10000 then
        some { w with
          sock := (w.sock.sbDgramQueue d alloc).1
          dgramRxDrops := if w.queues alloc then w.dgramRxDrops else w.dgramRxDrops + 1
          arrived := w.arrived ++ [(d, w.queues alloc)] }
      else none
  | .call i req =>
      if (w.call i).resting then w.attempt i req (w.sock.nonblock || req.dontwait) else none
  | .wake i we =>
      match w.call i, we with
      | .asleep req, none => w.attempt i req false
      | .asleep req, some e =>
          if e = .eintr ∨ e = .ewouldblock then
            some { w with call := Function.update w.call i (.done req (.error e)) }
          else none
      | _, _ => none
  | .other s =>
      if s.dgrams = w.sock.dgrams ∧ s.ndgrams = w.sock.ndgrams then some { w with sock := s } else none

def start (s : SbSocket β κ) : DgramWorld β κ where
  sock := s
  dgramRxDrops := 0
  call _ := .idle
  arrived := []
  received := []

def system : TransitionSystem (DgramWorld β κ) (DgramLabel β κ) where
  init w := ∃ b type, w = start (SbSocket.sbSockAlloc b type)
  next := next

/-! ### The queue -/

structure Inv (w : DgramWorld β κ) : Prop where
  ndgrams_eq : w.sock.ndgrams = w.sock.dgrams.length
  ndgrams_le : w.sock.ndgrams ≤ SB_DGRAM_QMAX
  queued : (w.arrived.filter Prod.snd).map Prod.fst = w.received ++ w.sock.dgrams
  drops : w.dgramRxDrops = UInt32.ofNat (w.arrived.countP fun a => !a.2)
  short : ∀ d ∈ w.sock.dgrams, d.payload.length < 0x10000

def Moves (w w' : DgramWorld β κ) : DgramLabel β κ → Prop
  | .deliver d _ =>
      w'.sock.dgrams = w.sock.dgrams ++ [d] ∧ w'.dgramRxDrops = w.dgramRxDrops ∨
        w'.sock.dgrams = w.sock.dgrams ∧ w'.dgramRxDrops = w.dgramRxDrops + 1
  | .call i _ | .wake i _ =>
      match w'.call i with
      | .done req (.ok res) =>
          ∃ d rest, w.sock.dgrams = d :: rest ∧ req.Yields d res ∧
            w'.sock.dgrams = if req.peek then d :: rest else rest
      | _ => w'.sock.dgrams = w.sock.dgrams
  | .other _ => w'.sock.dgrams = w.sock.dgrams

variable {w w' : DgramWorld β κ}

omit [DecidableEq β] in
theorem sbDgramQueue_spec (w : DgramWorld β κ) (d : SbDgram) (alloc : Bool) :
  (w.sock.sbDgramQueue d alloc).1.dgrams =
      (if w.queues alloc then w.sock.dgrams ++ [d] else w.sock.dgrams) ∧
    (w.sock.sbDgramQueue d alloc).1.ndgrams =
      if w.queues alloc then w.sock.ndgrams + 1 else w.sock.ndgrams
  := by
  by_cases hroom : w.sock.ndgrams < SB_DGRAM_QMAX
  · cases alloc <;> simp [queues, SbSocket.sbDgramQueue, hroom, Nat.not_le.mpr hroom,
      SbSocket.sbEvent]
  · simp [queues, SbSocket.sbDgramQueue, hroom, Nat.not_lt.mp hroom]

omit [DecidableEq β] in
theorem Inv.deliver
    (hw : w.Inv) {d : SbDgram} (hd : d.payload.length < 0x10000) (alloc : Bool) :
  Inv { w with
    sock := (w.sock.sbDgramQueue d alloc).1
    dgramRxDrops := if w.queues alloc then w.dgramRxDrops else w.dgramRxDrops + 1
    arrived := w.arrived ++ [(d, w.queues alloc)] }
  := by
  obtain ⟨hdgrams, hn⟩ := w.sbDgramQueue_spec d alloc
  cases hq : w.queues alloc with
  | true =>
    have hroom : w.sock.ndgrams < SB_DGRAM_QMAX := by
      simp only [queues, Bool.and_eq_true, decide_eq_true_eq] at hq
      exact hq.1
    rw [hq, if_pos rfl] at hdgrams hn
    constructor
    · rw [hn, hdgrams, hw.ndgrams_eq, length_append]
      rfl
    · rw [hn]
      exact hroom
    · rw [hdgrams, filter_append, map_append, hw.queued, append_assoc]
      rfl
    · simpa using hw.drops
    · rw [hdgrams]
      exact forall_mem_append.mpr ⟨hw.short, by simpa using hd⟩
  | false =>
    rw [hq, if_neg Bool.false_ne_true] at hdgrams hn
    constructor
    · rw [hn, hdgrams, hw.ndgrams_eq]
    · rw [hn]
      exact hw.ndgrams_le
    · rw [hdgrams, filter_append, map_append, hw.queued]
      exact append_nil _
    · rw [if_neg Bool.false_ne_true, hw.drops, countP_append, UInt32.ofNat_add]
      rfl
    · rw [hdgrams]
      exact hw.short

def take (w : DgramWorld β κ) (i : β) (req : DgramReq) (d : SbDgram) : DgramWorld β κ :=
  { w with
    sock := if req.peek then w.sock else w.sock.sbDgramDrop
    received := if req.peek then w.received else w.received ++ [d]
    call := Function.update w.call i (.done req (.ok (req.result d))) }

def pass (w : DgramWorld β κ) (i : β) (c : DgramCall) (s : SbSocket β κ) : DgramWorld β κ :=
  { w with sock := s, call := Function.update w.call i c }

theorem attempt_cases
    {i : β} {req : DgramReq} {dontwait : Bool} (h : w.attempt i req dontwait = some w') :
  (∃ d rest, w.sock.dgrams = d :: rest ∧ w' = w.take i req d) ∨
    ∃ s c, s.dgrams = w.sock.dgrams ∧ s.ndgrams = w.sock.ndgrams ∧
      (∀ req res, c ≠ .done req (.ok res)) ∧ w' = w.pass i c s
  := by
  unfold attempt SbSocket.sbDgramWait at h
  split at h
  next e s hwait =>
    cases h
    refine .inr ⟨s, .done req (.error e), ?_, ?_, ?_, rfl⟩ <;> grind
  next s hwait =>
    cases h
    refine .inr ⟨s, .asleep req, ?_, ?_, ?_, rfl⟩ <;> grind
  next s hwait =>
    obtain ⟨d, hhead, rfl⟩ := map_eq_some_iff.mp h
    obtain rfl : w.sock = s := by grind
    obtain ⟨rest, hq⟩ := head?_eq_some_iff.mp hhead
    exact .inl ⟨d, rest, hq, rfl⟩

theorem Inv.take
    (hw : w.Inv) {d : SbDgram} {rest : List SbDgram} (hq : w.sock.dgrams = d :: rest) (i : β)
    (req : DgramReq) :
  (w.take i req d).Inv
  := by
  cases hpeek : req.peek with
  | true =>
    simp only [DgramWorld.take, hpeek, if_true]
    exact ⟨hw.ndgrams_eq, hw.ndgrams_le, hw.queued, hw.drops, hw.short⟩
  | false =>
    simp only [DgramWorld.take, hpeek, Bool.false_eq_true, if_false, SbSocket.sbDgramDrop]
    have hn := hw.ndgrams_eq
    have hle := hw.ndgrams_le
    have hqueued := hw.queued
    have hshort := hw.short
    rw [hq] at hn hqueued hshort
    constructor
    · simp [hn, hq]
    · dsimp only
      omega
    · simpa [hq] using hqueued
    · exact hw.drops
    · simp only [hq, tail_cons]
      exact fun x hx => hshort x (mem_cons_of_mem _ hx)

theorem Inv.pass
    (hw : w.Inv) (i : β) (c : DgramCall) {s : SbSocket β κ} (hs : s.dgrams = w.sock.dgrams)
    (hn : s.ndgrams = w.sock.ndgrams) :
  (w.pass i c s).Inv
  := by
  constructor
  · rw [DgramWorld.pass, hn, hs, hw.ndgrams_eq]
  · rw [DgramWorld.pass, hn]
    exact hw.ndgrams_le
  · rw [DgramWorld.pass, hs]
    exact hw.queued
  · exact hw.drops
  · rw [DgramWorld.pass, hs]
    exact hw.short

theorem Inv.attempt
    (hw : w.Inv) {i : β} {req : DgramReq} {dontwait : Bool}
    (h : w.attempt i req dontwait = some w') :
  w'.Inv ∧ ∀ req', w.Moves w' (.call i req')
  := by
  obtain ⟨d, rest, hq, rfl⟩ | ⟨s, c, hs, hn, hc, rfl⟩ := attempt_cases h
  · refine ⟨hw.take hq i req, fun _ => ?_⟩
    have hyields := req.yields_result (hw.short d (by simp [hq]))
    simp only [Moves, DgramWorld.take, Function.update_self]
    refine ⟨d, rest, hq, hyields, ?_⟩
    split
    · exact hq
    · rw [SbSocket.sbDgramDrop, hq]
      rfl
  · refine ⟨hw.pass i c hs hn, fun _ => ?_⟩
    simp only [Moves, DgramWorld.pass, Function.update_self]
    exact hs

theorem Inv.next
    (hw : w.Inv) {l : DgramLabel β κ} (h : next w l = some w') :
  w'.Inv ∧ w.Moves w' l
  := by
  cases l with
  | deliver d alloc =>
    obtain ⟨hd, ⟨⟩⟩ := ite_none_right_eq_some.mp h
    refine ⟨hw.deliver hd alloc, ?_⟩
    simp only [Moves, (w.sbDgramQueue_spec d alloc).1]
    cases w.queues alloc <;> simp
  | call i req =>
    obtain ⟨-, h⟩ := ite_none_right_eq_some.mp h
    exact (hw.attempt h).imp_right fun hmoves => hmoves req
  | wake i we =>
    simp only [DgramWorld.next] at h
    split at h
    next req hcall => exact (hw.attempt h).imp_right fun hmoves => hmoves req
    next req e hcall =>
      obtain ⟨-, ⟨⟩⟩ := ite_none_right_eq_some.mp h
      refine ⟨hw.pass i _ rfl rfl, ?_⟩
      simp [Moves]
    next => contradiction
  | other s =>
    obtain ⟨⟨hs, hn⟩, ⟨⟩⟩ := ite_none_right_eq_some.mp h
    refine ⟨⟨?_, ?_, ?_, hw.drops, ?_⟩, hs⟩
    · rw [hn, hs, hw.ndgrams_eq]
    · rw [hn]
      exact hw.ndgrams_le
    · rw [hs]
      exact hw.queued
    · rw [hs]
      exact hw.short

def receiveRun : List (DgramLabel Bool Unit) :=
  [.call true (.recvmsg [1, 0, 1] true false false), .deliver ⟨[1, 2, 3], 7, 8⟩ true,
    .deliver ⟨[4], 9, 10⟩ true, .wake true none]

theorem receiveRun_enabled :
  (system.exec (start (SbSocket.sbSockAlloc true .udp)) receiveRun).isSome = true
  := by
  decide

end DgramWorld
