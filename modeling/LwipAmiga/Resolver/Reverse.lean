import LwipAmiga.Lib.Bytes
import LwipAmiga.Lib.Transition

/-!
# Reverse lookups

`sb_ptr_resolve` sends one query from a port of its own and waits for one datagram.
-/

open Bytes

def SB_RDNS_PORT : UInt16 := 53

def SB_RDNS_TIMEOUT_MS : UInt32 := 5000

def SB_RDNS_MAXPKT : ℕ := 512

def SB_DNS_TYPE_PTR : ℕ := 12

def SB_DNS_CLASS_IN : ℕ := 1

/-! ### The query -/

def decimalDigits (n : ℕ) : List UInt8 :=
  if n < 10 then [UInt8.ofNat (48 + n)]
  else decimalDigits (n / 10) ++ [UInt8.ofNat (48 + n % 10)]

def putLabel (max : ℕ) (label buf : List UInt8) : Option (List UInt8) :=
  if buf.length + 1 + label.length > max then none
  else some (buf ++ UInt8.ofNat label.length :: label)

def sbDnsPutOctet (max : ℕ) (octet : ℕ) (buf : List UInt8) : Option (List UInt8) :=
  putLabel max (decimalDigits octet) buf

def sbDnsPutLabel (max : ℕ) (label : String) (buf : List UInt8) : Option (List UInt8) :=
  putLabel max (label.toList.map fun c => UInt8.ofNat c.toNat) buf

/-- `sb_rdns_build`: a query for the name of an address, which is in network order. -/
def sbRdnsBuild (max : ℕ) (addr : UInt32) (id : UInt16) : Option (List UInt8) := do
  if max < 12 then none
  let buf := word16 id.toNat ++ [0x01, 0x00, 0x00, 0x01, 0, 0, 0, 0, 0, 0]
  let buf ← sbDnsPutOctet max (addr.toNat % 0x100) buf
  let buf ← sbDnsPutOctet max (addr.toNat / 0x100 % 0x100) buf
  let buf ← sbDnsPutOctet max (addr.toNat / 0x10000 % 0x100) buf
  let buf ← sbDnsPutOctet max (addr.toNat / 0x1000000 % 0x100) buf
  let buf ← sbDnsPutLabel max "in-addr" buf
  let buf ← sbDnsPutLabel max "arpa" buf
  if buf.length + 5 > max then none
  else some (buf ++ 0 :: word16 SB_DNS_TYPE_PTR ++ word16 SB_DNS_CLASS_IN)

/-! ### The answer -/

def isPointer (b : UInt8) : Bool :=
  b &&& 0xC0 = 0xC0

def sbDnsSkipName (pkt : List UInt8) (pos : ℕ) : Option ℕ :=
  if pos < pkt.length then
    let b := mem pkt pos
    if isPointer b then
      if pos + 2 ≤ pkt.length then some (pos + 2) else none
    else if b = 0 then some (pos + 1)
    else sbDnsSkipName pkt (pos + (1 + b.toNat))
  else none
  termination_by pkt.length - pos

def putName (outmax : ℕ) (out bytes : List UInt8) : List UInt8 :=
  out ++ bytes.take (outmax - 1 - out.length)

def sbDnsName.loop (pkt : List UInt8) (outmax : ℕ) :
    (left : ℕ) → (pos : ℕ) → (out : List UInt8) → Option (List UInt8)
  | left, pos, out =>
      if pos < pkt.length then
        let b := mem pkt pos
        if isPointer b then
          if pos + 1 ≥ pkt.length then none
          else
            match left with
            | 0 => none
            | left + 1 =>
                sbDnsName.loop pkt outmax left
                  (b.toNat % 0x40 * 0x100 + (mem pkt (pos + 1)).toNat) out
        else if b = 0 then some out
        else if b.toNat > 63 ∨ pos + 1 + b.toNat > pkt.length then none
        else
          let out := if out.length ≠ 0 then putName outmax out [46] else out
          let out := putName outmax out (slice pkt (pos + 1) b.toNat)
          match left with
          | 0 => none
          | left + 1 => sbDnsName.loop pkt outmax left (pos + 1 + b.toNat) out
      else some out

/-- `sb_dns_name`: the name at a place, with dots between its labels. -/
def sbDnsName (pkt : List UInt8) (pos outmax : ℕ) : Option (List UInt8) := do
  let out ← sbDnsName.loop pkt outmax 128 pos []
  if outmax = 0 ∨ out.length = 0 then none else some out

def skipQuestions (pkt : List UInt8) : (qd : ℕ) → (pos : ℕ) → Option ℕ
  | 0, pos => some pos
  | qd + 1, pos => do
      let pos ← sbDnsSkipName pkt pos
      if pos + 4 > pkt.length then none
      else skipQuestions pkt qd (pos + 4)

def findPtr (pkt : List UInt8) (outmax : ℕ) : (an : ℕ) → (pos : ℕ) → Option (List UInt8)
  | 0, _ => none
  | an + 1, pos => do
      let pos ← sbDnsSkipName pkt pos
      if pos + 10 > pkt.length then none
      else
        let rdlen := be16 (mem pkt) (pos + 8)
        let rdata := pos + 10
        if rdata + rdlen > pkt.length then none
        else if be16 (mem pkt) pos = SB_DNS_TYPE_PTR then sbDnsName pkt rdata outmax
        else findPtr pkt outmax an (rdata + rdlen)

def sbRdnsParse (pkt : List UInt8) (id : UInt16) (outmax : ℕ) : Option (List UInt8) :=
  if pkt.length < 12 then none
  else if be16 (mem pkt) 0 ≠ id.toNat then none
  else if mem pkt 2 &&& 0x80 = 0 then none
  else if mem pkt 3 &&& 0x0F ≠ 0 then none
  else if be16 (mem pkt) 6 = 0 then none
  else (skipQuestions pkt (be16 (mem pkt) 4) 12).bind (findPtr pkt outmax (be16 (mem pkt) 6))

/-! ### The lookup -/

structure UdpDatagram where
  addr : UInt32
  port : UInt16
  bytes : List UInt8
  deriving DecidableEq

inductive WaitEnd where
  | answered
  | timedOut
  | interrupted
  deriving DecidableEq

structure PtrOutcome where
  name : Option (List UInt8)
  waitEnd : WaitEnd
  time : UInt32
  deriving DecidableEq

structure PtrLookup where
  server : UInt32
  id : UInt16
  outmax : ℕ
  timerReq : Bool
  deadline : UInt32
  now : UInt32
  reply : Option (List UInt8)
  sigSock : Bool
  sigBreak : Bool
  sigTimer : Bool
  outcome : Option PtrOutcome
  deriving DecidableEq

inductive PtrEvent where
  | recv (d : UdpDatagram)
  | signal
  | interrupt
  | timer
  | elapse (ms : UInt32)
  | run
  deriving DecidableEq

structure PtrSetup where
  out : Bool
  server : Option UInt32
  udpNew : Bool
  udpBind : Bool
  pbufAlloc : Bool
  udpSendto : Bool
  deriving DecidableEq

namespace PtrLookup

variable {q : PtrLookup} {e : PtrEvent} {es : List PtrEvent}

def start (server : UInt32) (id : UInt16) (outmax : ℕ) (timerReq : Bool) (now : UInt32) :
    PtrLookup where
  server := server
  id := id
  outmax := outmax
  timerReq := timerReq
  deadline := now + SB_RDNS_TIMEOUT_MS
  now := now
  reply := none
  sigSock := false
  sigBreak := false
  sigTimer := false
  outcome := none

/-- `sb_ptr_resolve` up to its first wait; there is none when something fails. -/
def sbPtrResolve
    (setup : PtrSetup) (addr : UInt32) (outmax : ℕ) (timerReq : Bool) (now : UInt32) :
    Option PtrLookup :=
  if !setup.out || outmax = 0 then none
  else
    match setup.server with
    | none => none
    | some server =>
        if !setup.udpNew || !setup.udpBind then none
        else
          let id := now.toUInt16
          match sbRdnsBuild SB_RDNS_MAXPKT addr id with
          | none => none
          | some _ =>
              if !setup.pbufAlloc || !setup.udpSendto then none
              else some (start server id outmax timerReq now)

def sbRdnsRecvCb (q : PtrLookup) (d : UdpDatagram) : PtrLookup :=
  if q.reply.isSome then q else { q with reply := some d.bytes, sigSock := true }

/-- `sb_ptr_resolve` behind its loop. -/
def finish (q : PtrLookup) (waitEnd : WaitEnd) : PtrLookup :=
  { q with
    reply := none
    outcome := some {
      name := q.reply.bind fun bytes => sbRdnsParse (bytes.take SB_RDNS_MAXPKT) q.id q.outmax
      waitEnd := waitEnd
      time := q.now } }

def expired (q : PtrLookup) : Bool :=
  q.timerReq && (q.deadline - q.now).toInt32 ≤ 0

/-- `Wait` returns when a signal is pending: `sb_wait_to` returns, and the loop goes on to the next. -/
def wake (q : PtrLookup) : PtrLookup :=
  if q.sigSock || q.sigBreak || q.timerReq && q.sigTimer then
    let q := { q with sigTimer := false }
    if q.sigBreak then q.finish .interrupted
    else if q.reply.isSome then q.finish .answered
    else if q.expired then q.finish .timedOut
    else { q with sigSock := false }
  else q

def step (q : PtrLookup) (e : PtrEvent) : PtrLookup :=
  if q.outcome.isSome then q
  else
    match e with
    | .recv d => q.sbRdnsRecvCb d
    | .signal => { q with sigSock := true }
    | .interrupt => { q with sigBreak := true }
    | .timer => { q with sigTimer := true }
    | .elapse ms => { q with now := q.now + ms }
    | .run => q.wake

def system : TransitionSystem PtrLookup PtrEvent where
  init q := ∃ setup addr outmax timerReq now, sbPtrResolve setup addr outmax timerReq now = some q
  next q e := some (q.step e)

def outcomeOf
    (setup : PtrSetup) (addr : UInt32) (outmax : ℕ) (timerReq : Bool) (now : UInt32)
    (es : List PtrEvent) : Option PtrOutcome :=
  match sbPtrResolve setup addr outmax timerReq now with
  | some q => (system.exec q es).bind outcome
  | none => some { name := none, waitEnd := .answered, time := now }

/-! ### Genuine datagrams -/

def genuine (server : UInt32) (id : UInt16) (d : UdpDatagram) : Bool :=
  d.addr = server && d.port = SB_RDNS_PORT && 2 ≤ d.bytes.length && be16 (mem d.bytes) 0 = id.toNat

def heeds (server : UInt32) (id : UInt16) : PtrEvent → Bool
  | .recv d => genuine server id d
  | _ => true

def trusty (q : PtrLookup) : PtrEvent → Prop
  | .recv d => q.reply = none → q.outcome = none → genuine q.server q.id d = true
  | _ => True

instance (q : PtrLookup) (e : PtrEvent) : Decidable (q.trusty e) := by
  unfold trusty
  split <;> infer_instance

theorem step_query (q : PtrLookup) (e : PtrEvent) :
  (q.step e).server = q.server ∧ (q.step e).id = q.id
  := by
  unfold step
  split
  · exact ⟨rfl, rfl⟩
  cases e with
  | recv d =>
    dsimp only
    unfold sbRdnsRecvCb
    split <;> exact ⟨rfl, rfl⟩
  | run =>
    dsimp only
    unfold wake
    split
    · dsimp only
      split
      · exact ⟨rfl, rfl⟩
      split
      · exact ⟨rfl, rfl⟩
      split <;> exact ⟨rfl, rfl⟩
    · exact ⟨rfl, rfl⟩
  | _ => exact ⟨rfl, rfl⟩

theorem step_of_not_heeds
    (htrusty : q.trusty e) (hnot : heeds q.server q.id e = false) :
  q.step e = q
  := by
  cases e with
  | recv d =>
    unfold step
    split
    · rfl
    · rename_i hopen
      have hsome : q.reply.isSome = true := by
        by_contra hnone
        have hgenuine := htrusty (by simpa using hnone) (by simpa using hopen)
        cases hnot.symm.trans hgenuine
      dsimp only
      rw [sbRdnsRecvCb, if_pos hsome]
  | _ => contradiction

theorem exec_filter (h : system.Along trusty q es) :
  system.exec q (es.filter (heeds q.server q.id)) = system.exec q es
  := by
  induction es generalizing q with
  | nil => rfl
  | cons e es ih =>
    obtain ⟨htrusty, hrest⟩ := h
    have hnext : system.next q e = some (q.step e) := rfl
    have hexec := ih (hrest _ hnext)
    obtain ⟨hserver, hid⟩ := q.step_query e
    rw [hserver, hid] at hexec
    change _ = system.exec (q.step e) es
    cases hheeds : heeds q.server q.id e with
    | true =>
      rw [List.filter_cons_of_pos hheeds]
      apply hexec
    | false =>
      rw [List.filter_cons_of_neg (by rw [hheeds]; nofun), ← hexec,
        step_of_not_heeds htrusty hheeds]

theorem query_of_sbPtrResolve
    {setup : PtrSetup} {addr : UInt32} {outmax : ℕ} {timerReq : Bool} {now : UInt32}
    (h : sbPtrResolve setup addr outmax timerReq now = some q) :
  setup.server = some q.server ∧ q.id = now.toUInt16
  := by
  unfold sbPtrResolve at h
  split at h
  · contradiction
  split at h
  · contradiction
  split at h
  · contradiction
  dsimp only at h
  split at h
  · contradiction
  split at h
  · contradiction
  cases h
  rename_i hserver _ _ _ _ _
  exact ⟨hserver, rfl⟩

/-- When the datagram that finds the cell empty is always a genuine one, the outcome, its time included,
is the one without the others. -/
theorem determined_by_genuine
    {setup : PtrSetup} {server addr : UInt32} {outmax : ℕ} {timerReq : Bool} {now : UInt32}
    (hserver : setup.server = some server)
    (h : ∀ q, sbPtrResolve setup addr outmax timerReq now = some q → system.Along trusty q es) :
  outcomeOf setup addr outmax timerReq now es =
    outcomeOf setup addr outmax timerReq now (es.filter (heeds server now.toUInt16))
  := by
  unfold outcomeOf
  split
  · rename_i q hq
    obtain ⟨hserver', hid⟩ := query_of_sbPtrResolve hq
    cases hserver.symm.trans hserver'
    rw [← hid, exec_filter (h q hq)]
  · rfl

/-! ### A lookup of 10.0.0.1 -/

def reachable : PtrSetup where
  out := true
  server := some 0x08080808
  udpNew := true
  udpBind := true
  pbufAlloc := true
  udpSendto := true

def gateway : UdpDatagram where
  addr := 0x08080808
  port := 53
  bytes := [0, 7, 0x81, 0x80, 0, 0, 0, 1, 0, 0, 0, 0, 0, 0, 12, 0, 1, 0, 0, 0, 60, 0, 4, 2, 103, 119, 0]

def stranger : UdpDatagram where
  addr := 0x0A000063
  port := 53
  bytes := [0, 0]

theorem determined_by_genuine_late :
  outcomeOf reachable 0x0100000A 64 true 7
      [.elapse 20, .signal, .run, .recv gateway, .recv stranger, .run] =
    some { name := some [103, 119], waitEnd := .answered, time := 27 }
  := by
  rw [determined_by_genuine rfl]
  · decide +kernel
  · intro q hq
    have hstart : q = start 0x08080808 7 64 true 7 := by
      apply Option.some.inj
      rw [← hq]
      decide +kernel
    subst hstart
    decide +kernel

/-- A datagram of a stranger that comes before the answer makes the lookup fail, and fail at once; with
the answer alone it succeeds. -/
theorem stranger_ends_lookup :
  outcomeOf reachable 0x0100000A 64 true 7
      [.recv stranger, .run, .elapse 20, .recv gateway, .run] =
    some { name := none, waitEnd := .answered, time := 7 } ∧
  outcomeOf reachable 0x0100000A 64 true 7
      ([.recv stranger, .run, .elapse 20, .recv gateway, .run].filter (heeds 0x08080808 7)) =
    some { name := some [103, 119], waitEnd := .answered, time := 27 }
  := by
  constructor <;> decide +kernel

end PtrLookup
