import LwipAmiga.Lib.Family
import LwipAmiga.Lib.Transition
import LwipAmiga.Socket.Api

/-!
# Openers, descriptors and sockets

Each opener base has a descriptor table, and released sockets wait in a parking lot for another opener.
-/

open Option

def SB_FD_COUNT : ℕ := 64

def SB_FD_MAX : ℕ := 256

structure SbReleased (κ : Type) where
  id : ℤ
  s : κ

inductive OpenerState where
  | closed
  | opened
  | closing (i : ℕ)
  deriving DecidableEq

def OpenerState.position : OpenerState → Option ℕ
  | .closing i => some i
  | _ => none

structure World (β κ : Type) where
  opener : β → OpenerState
  fds : β → List (Option κ)
  socks : κ → Option (SbSocket β κ)
  parked : List (SbReleased κ)
  nextSockId : ℤ

/-! ### Descriptor tables -/

def sbFdGet {κ : Type} (tab : List (Option κ)) (fd : ℤ) : Option κ :=
  if fd < 0 then none else tab[fd.toNat]?.join

def sbFdAlloc {κ : Type} (k : κ) : List (Option κ) → Option (ℕ × List (Option κ))
  | [] => none
  | none :: tab => some (0, some k :: tab)
  | some j :: tab => (sbFdAlloc k tab).map fun (i, tab') => (i + 1, some j :: tab')

theorem count_sbFdAlloc
    {κ : Type} [DecidableEq κ] {k : κ} {tab tab' : List (Option κ)} {i : ℕ}
    (h : sbFdAlloc k tab = some (i, tab')) (j : κ) :
  tab'.count (some j) = tab.count (some j) + if k = j then 1 else 0
  := by
  induction tab generalizing i tab' with
  | nil => contradiction
  | cons x tab ih =>
    cases x with
    | none =>
      simp only [sbFdAlloc, some.injEq, Prod.mk.injEq] at h
      obtain ⟨-, rfl⟩ := h
      simp [List.count_cons]
    | some x =>
      simp only [sbFdAlloc, map_eq_some_iff, Prod.exists, Prod.mk.injEq] at h
      obtain ⟨i', tab'', h, -, rfl⟩ := h
      have := ih h
      simp only [List.count_cons]
      omega

theorem length_sbFdAlloc
    {κ : Type} {k : κ} {tab tab' : List (Option κ)} {i : ℕ}
    (h : sbFdAlloc k tab = some (i, tab')) :
  tab'.length = tab.length
  := by
  induction tab generalizing i tab' with
  | nil => contradiction
  | cons x tab ih =>
    cases x with
    | none =>
      simp only [sbFdAlloc, some.injEq, Prod.mk.injEq] at h
      obtain ⟨-, rfl⟩ := h
      rfl
    | some x =>
      simp only [sbFdAlloc, map_eq_some_iff, Prod.exists, Prod.mk.injEq] at h
      obtain ⟨i', tab'', h, -, rfl⟩ := h
      simp [ih h]

theorem getElem?_of_sbFdGet
    {κ : Type} {tab : List (Option κ)} {fd : ℤ} {k : κ} (h : sbFdGet tab fd = some k) :
  tab[fd.toNat]? = some (some k)
  := by
  unfold sbFdGet at h
  split at h
  · contradiction
  · apply join_eq_some_iff.mp h

/-! ### Releasing a socket -/

section Free

variable {β κ : Type} [DecidableEq β] [DecidableEq κ]

/-- `sb_owner_decref` for an opener, or for the root base, which owns no socket. -/
def OwnerTable.decrefBy (t : OwnerTable β) : Option β → OwnerTable β
  | none => t
  | some b => t.decref b

/-- `sb_sock_free`: the base gives up one descriptor of the socket at `k`, and the last reference
frees it and the connections in its accept queue.  The fuel bounds how deep queues nest. -/
def sbSockFree :
    ℕ → (κ → Option (SbSocket β κ)) → Option β → κ → (κ → Option (SbSocket β κ))
  | 0, socks, _, _ => socks
  | fuel + 1, socks, base, k =>
      match socks k with
      | none => socks
      | some s =>
          let s := { s with owners := s.owners.decrefBy base, refs := s.refs - 1 }
          if s.refs ≠ 0 then Function.update socks k (some s)
          else
            Function.update (s.acceptq.foldl (fun m q => sbSockFree fuel m none q) socks) k none

def FREE_DEPTH : ℕ := 2

end Free

/-! ### The calls -/

def sockType (domain type protocol : ℤ) : Except Errno SbSockType :=
  if domain ≠ 2 then .error .eafnosupport
  else if type = 1 then
    if protocol ≠ 0 ∧ protocol ≠ 6 then .error .eprotonosupport else .ok .tcp
  else if type = 2 then
    if protocol ≠ 0 ∧ protocol ≠ 17 then .error .eprotonosupport else .ok .udp
  else if type = 3 then .ok .raw
  else .error .esocktnosupport

def SbSockType.sockValue : SbSockType → ℤ
  | .tcp => 1
  | .udp => 2
  | .raw => 3

def SbSocket.keepRefs {β κ : Type} (s s' : SbSocket β κ) : SbSocket β κ :=
  { s' with
    owners := s.owners, refs := s.refs, type := s.type, listening := s.listening
    acceptq := s.acceptq, naccept := s.naccept }

def nextId (id : ℤ) : ℤ :=
  if id + 1 < 2 ^ 31 then id + 1 else 1

namespace World

variable {β κ : Type} [DecidableEq β] [DecidableEq κ]

/-- `sb_released_find`: the parked socket with an id. -/
def sbReleasedFind (w : World β κ) (id : ℤ) : Option (SbReleased κ) :=
  w.parked.find? (·.id == id)

def uniqueId (w : World β κ) : ℕ → ℤ → Option (ℤ × ℤ)
  | 0, _ => none
  | fuel + 1, id =>
      if (w.sbReleasedFind id).isSome then w.uniqueId fuel (nextId id) else some (id, nextId id)

def setSock (w : World β κ) (k : κ) (s : SbSocket β κ) : World β κ :=
  { w with socks := Function.update w.socks k (some s) }

def setFds (w : World β κ) (b : β) (tab : List (Option κ)) : World β κ :=
  { w with fds := Function.update w.fds b tab }

def free (w : World β κ) (b : β) (k : κ) : World β κ :=
  { w with socks := sbSockFree FREE_DEPTH w.socks (some b) k }

/-- `bsd_socket`.  `mem` is the address allocated, and `made` whether lwIP had memory for a
control block. -/
def bsdSocket (w : World β κ) (b : β) (domain type protocol : ℤ) (mem : Option κ) (made : Bool) :
    World β κ × Except Errno ℤ :=
  match sockType domain type protocol with
  | .error e => (w, .error e)
  | .ok st =>
      match mem with
      | none => (w, .error .enobufs)
      | some k =>
          let s : SbSocket β κ := SbSocket.sbSockAlloc b st
          if made then
            let pcb := if st = .tcp then some (tcpNew TCP_SND_BUF) else none
            let w' := w.setSock k { s with pcb := pcb }
            match sbFdAlloc k (w.fds b) with
            | none => (w'.free b k, .error .emfile)
            | some (fd, tab) => (w'.setFds b tab, .ok fd)
          else ((w.setSock k s).free b k, .error .enobufs)

/-- `sb_tcp_accept_cb` at the listener `l`: the connection is refused without an owner to charge it
to, without room in the queue or without memory. -/
def sbTcpAcceptCb (w : World β κ) (l : κ) (lst : SbSocket β κ) (newpcb : TcpPcb)
    (mem : Option κ) : World β κ :=
  match lst.acceptOwner with
  | none => w
  | some owner =>
      match mem with
      | none => w
      | some k => (w.setSock k (SbSocket.accepted owner newpcb)).setSock l (lst.acceptLink k).1

/-- `bsd_accept`; `none` while it sleeps. -/
def bsdAccept (w : World β κ) (b : β) (fd : ℤ) : Option (World β κ × Except Errno ℤ) :=
  match sbFdGet (w.fds b) fd with
  | none => some (w, .error .ebadf)
  | some l =>
      match w.socks l with
      | none => none
      | some s =>
          if s.type ≠ .tcp ∨ s.listening = false then some (w, .error .einval)
          else
            match s.acceptTest with
            | (.fail e, _) => some (w, .error e)
            | (.sleep, _) => none
            | (.take ns, s') =>
                match sbFdAlloc ns (w.fds b) with
                | none => some ((w.setSock l s').free b ns, .error .emfile)
                | some (fd, tab) => some ((w.setSock l s').setFds b tab, .ok fd)

def addRef (w : World β κ) (b : β) (k : κ) (s : SbSocket β κ) : World β κ :=
  w.setSock k { s with refs := s.refs + 1, owners := (s.owners.incref b).getD s.owners }

def bsdDup2Socket (w : World β κ) (b : β) (oldSock newSock : ℤ) :
    Option (World β κ × Except Errno ℤ) :=
  match sbFdGet (w.fds b) oldSock with
  | none => some (w, .error .ebadf)
  | some k =>
      if newSock = -1 then
        match sbFdAlloc k (w.fds b) with
        | none => some (w, .error .emfile)
        | some (fd, tab) => (w.socks k).map fun s => ((w.setFds b tab).addRef b k s, .ok fd)
      else if newSock < 0 ∨ (w.fds b).length ≤ newSock.toNat then some (w, .error .ebadf)
      else
        let tab := (w.fds b).set newSock.toNat (some k)
        match sbFdGet (w.fds b) newSock with
        | none => (w.socks k).map fun s => ((w.setFds b tab).addRef b k s, .ok newSock)
        | some j =>
            if j = k then some (w, .ok newSock)
            else
              let w' := (w.free b j).setFds b tab
              (w'.socks k).map fun s => (w'.addRef b k s, .ok newSock)

def bsdCloseSocket (w : World β κ) (b : β) (fd : ℤ) : World β κ × Except Errno ℤ :=
  match sbFdGet (w.fds b) fd with
  | none => (w, .error .ebadf)
  | some k => ((w.free b k).setFds b ((w.fds b).set fd.toNat none), .ok 0)

def park (w : World β κ) (b : β) (fd : ℤ) (k : κ) (s : SbSocket β κ) (id : ℤ) (copy : Bool) :
    World β κ :=
  let w := { w with parked := w.parked ++ [SbReleased.mk id k] }
  if copy then w.setSock k { s with refs := s.refs + 1 }
  else
    (w.setFds b ((w.fds b).set fd.toNat none)).setSock k { s with owners := s.owners.decref b }

/-- `sb_release_common`, for `bsd_ReleaseSocket` and `bsd_ReleaseCopyOfSocket`.  `mem` is whether
there is memory for the parking lot's entry. -/
def sbReleaseCommon (w : World β κ) (b : β) (fd id : ℤ) (copy mem : Bool) :
    Option (World β κ × Except Errno ℤ) :=
  match sbFdGet (w.fds b) fd with
  | none => some (w, .error .ebadf)
  | some k =>
      (w.socks k).bind fun s =>
        if id = -1 then
          (w.uniqueId (w.parked.length + 1) w.nextSockId).map fun (id, nextSockId) =>
            let w := { w with nextSockId := nextSockId }
            if mem then (w.park b fd k s id copy, .ok id) else (w, .error .enobufs)
        else if (w.sbReleasedFind id).isSome then some (w, .error .eaddrinuse)
        else if mem then some (w.park b fd k s id copy, .ok id)
        else some (w, .error .enobufs)

def bsdObtainSocket (w : World β κ) (b : β) (id type : ℤ) :
    Option (World β κ × Except Errno ℤ) :=
  match w.sbReleasedFind id with
  | none => some (w, .error .einval)
  | some r =>
      (w.socks r.s).map fun s =>
        if type ≠ 0 ∧ s.type.sockValue ≠ type then (w, .error .einval)
        else
          match sbFdAlloc r.s (w.fds b) with
          | none => (w, .error .emfile)
          | some (fd, tab) =>
              match s.owners.incref b with
              | none => (w, .error .enobufs)
              | some owners =>
                  let w := { w with parked := w.parked.eraseP (·.id == id) }
                  ((w.setFds b tab).setSock r.s { s with owners := owners }, .ok fd)

/-- `SBTC_DTABLESIZE`: a descriptor table grows up to `SB_FD_MAX`. -/
def growTable (w : World β κ) (b : β) (want : ℕ) : World β κ :=
  let want := min want SB_FD_MAX
  w.setFds b (w.fds b ++ List.replicate (want - (w.fds b).length) none)

def cleanup (w : World β κ) (b : β) (i : ℕ) : World β κ :=
  if i < (w.fds b).length then
    let w' := { w with opener := Function.update w.opener b (.closing (i + 1)) }
    match (w.fds b)[i]?.join with
    | none => w'
    | some k => (w'.free b k).setFds b ((w.fds b).set i none)
  else
    { w.setFds b [] with opener := Function.update w.opener b .closed }

/-! ### The transition system -/

inductive Label (β κ : Type) where
  | libOpen (b : β)
  | socket (b : β) (domain type protocol : ℤ) (mem : Option κ) (made : Bool)
  | listen (b : β) (fd backlog : ℤ) (listens : Bool)
  | incoming (l : κ) (newpcb : TcpPcb) (mem : Option κ)
  | accept (b : β) (fd : ℤ)
  | dup2 (b : β) (oldSock newSock : ℤ)
  | close (b : β) (fd : ℤ)
  | release (b : β) (fd id : ℤ) (copy mem : Bool)
  | obtain (b : β) (id type : ℤ)
  | grow (b : β) (want : ℕ)
  | libClose (b : β)
  | cleanup (b : β)
  | other (k : κ) (f : SbSocket β κ → SbSocket β κ)

def IsFree (w : World β κ) (mem : Option κ) : Prop :=
  ∀ k ∈ mem, w.socks k = none

instance (w : World β κ) (mem : Option κ) : Decidable (w.IsFree mem) :=
  match mem with
  | none => isTrue nofun
  | some k =>
      decidable_of_iff ((w.socks k).isNone = true) (by simp [IsFree])

def next (w : World β κ) : Label β κ → Option (World β κ)
  | .libOpen b =>
      if w.opener b = .closed then
        some { w.setFds b (List.replicate SB_FD_COUNT none) with
          opener := Function.update w.opener b .opened }
      else none
  | .socket b domain type protocol mem made =>
      if w.opener b = .opened ∧ w.IsFree mem then
        some (w.bsdSocket b domain type protocol mem made).1
      else none
  | .listen b fd backlog listens =>
      if w.opener b = .opened then
        (sbFdGet (w.fds b) fd).bind fun k =>
          (w.socks k).map fun s => w.setSock k (s.bsdListen backlog listens).1
      else none
  | .incoming l newpcb mem =>
      (w.socks l).bind fun lst =>
        if (lst.listening && lst.pcb.isSome) ∧ w.IsFree mem then
          some (w.sbTcpAcceptCb l lst newpcb mem)
        else none
  | .accept b fd =>
      if w.opener b = .opened then (w.bsdAccept b fd).map Prod.fst else none
  | .dup2 b oldSock newSock =>
      if w.opener b = .opened then (w.bsdDup2Socket b oldSock newSock).map Prod.fst else none
  | .close b fd => if w.opener b = .opened then some (w.bsdCloseSocket b fd).1 else none
  | .release b fd id copy mem =>
      if w.opener b = .opened then (w.sbReleaseCommon b fd id copy mem).map Prod.fst else none
  | .obtain b id type =>
      if w.opener b = .opened then (w.bsdObtainSocket b id type).map Prod.fst else none
  | .grow b want => if w.opener b = .opened then some (w.growTable b want) else none
  | .libClose b =>
      if w.opener b = .opened then
        some { w with opener := Function.update w.opener b (.closing 0) }
      else none
  | .cleanup b =>
      match w.opener b with
      | .closing i => some (w.cleanup b i)
      | _ => none
  | .other k f => (w.socks k).map fun s => w.setSock k (s.keepRefs (f s))

def start : World β κ where
  opener _ := .closed
  fds _ := []
  socks _ := none
  parked := []
  nextSockId := 1

def system (β κ : Type) [DecidableEq β] [DecidableEq κ] :
    TransitionSystem (World β κ) (Label β κ) where
  init w := w = start
  next := next

end World
