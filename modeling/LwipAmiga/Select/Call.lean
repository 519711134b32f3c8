import LwipAmiga.Lib.Transition
import LwipAmiga.Select.Scan

/-!
# WaitSelect

Between the points of a call the sockets change, signals are posted, and the timer request is replied
to.
-/

structure Timeval where
  secs : UInt32
  micro : UInt32

structure SelectArgs where
  nfds : ℤ
  sets : FdKind → Option FdSet
  timeout : Option Timeval
  signals : Option (BitVec 32)

structure SelectBase where
  fdCount : ℕ
  fdCount_le : fdCount ≤ 32 * SB_FD_WORDS
  sigBit : ℕ
  timerBit : ℕ
  breakMask : BitVec 32

namespace SelectBase

def sigMask (base : SelectBase) : BitVec 32 := 1#32 <<< base.sigBit

def timerMask (base : SelectBase) : BitVec 32 := 1#32 <<< base.timerBit

end SelectBase

namespace SelectArgs

def userMask (args : SelectArgs) : BitVec 32 := args.signals.getD 0

def limit (args : SelectArgs) (base : SelectBase) : ℕ := min args.nfds.toNat base.fdCount

def poll (args : SelectArgs) : Bool :=
  match args.timeout with
  | none => false
  | some tv => tv.secs == 0 && tv.micro == 0

end SelectArgs

def fdWords (n : ℕ) : ℕ := (n + 31) / 32

def workingCopy (n : ℕ) (ws : FdSet) : FdSet :=
  ws.take (fdWords n) ++ List.replicate (SB_FD_WORDS - fdWords n) 0

def copyBack (n : ℕ) (out ws : FdSet) : FdSet :=
  out.take (fdWords n) ++ ws.drop (fdWords n)

inductive TimerState where
  | home
  | running
  | replied
  deriving DecidableEq

structure SelectLocals where
  n : ℕ
  ins : FdKind → Option FdSet
  timerArmed : Bool
  timedOut : Bool
  gotUser : BitVec 32

inductive SelectPoint (κ : Type) where
  | entry
  | top (l : SelectLocals)
  | waiting (l : SelectLocals)
  | waitIo (l : SelectLocals)
  | brkReclaim (l : SelectLocals) (sigs : BitVec 32)
  | brkPost (sigs : BitVec 32)
  | reclaim (l : SelectLocals) (sc : Scan κ)
  | finish (l : SelectLocals) (sc : Scan κ)
  | done (ret : ℤ)

structure Snapshot (β κ : Type) where
  tab : List (Option κ)
  socks : κ → SbSocket β κ
  txRoom : Bool

structure SelectState (β κ : Type) where
  pc : SelectPoint κ
  now : Snapshot β κ
  pending : BitVec 32
  timer : TimerState
  sets : FdKind → Option FdSet
  signals : Option (BitVec 32)
  errno : Option Errno
  posted : BitVec 32
  took : BitVec 32
  seen : Option (Snapshot β κ)

inductive SelectLabel (β κ : Type) where
  | call
  | post (m : BitVec 32)
  | reply
  | world (now : Snapshot β κ)

def Snapshot.scan {β κ : Type} (w : Snapshot β κ) (n : ℕ) (ins : FdKind → Option FdSet) :
    Scan κ :=
  sbSelectScan w.tab w.socks w.txRoom ins (List.range n) .start

namespace SelectState

variable {β κ : Type} (base : SelectBase) (args : SelectArgs)

def enter (s : SelectState β κ) : SelectState β κ :=
  if args.nfds < 0 ∨ (args.timeout.elim false fun tv => decide (1000000 ≤ tv.micro)) = true then
    { s with errno := some .einval, pc := .done (-1) }
  else
    { s with
      pc := .top
        { n := args.limit base
          ins := fun x => (args.sets x).map (workingCopy (args.limit base))
          timerArmed := false
          timedOut := false
          gotUser := 0 } }

def round (s : SelectState β κ) (l : SelectLocals) : SelectState β κ :=
  let sc := s.now.scan l.n l.ins
  let s := { s with seen := some s.now }
  if sc.hits ≠ 0 ∨ l.gotUser ≠ 0 ∨ l.timedOut = true ∨ args.poll = true then
    { s with pc := .reclaim l sc }
  else
    let s := { s with pending := s.pending &&& ~~~base.sigMask }
    if args.timeout.isSome && !l.timerArmed then
      { s with timer := .running, pc := .waiting { l with timerArmed := true } }
    else { s with pc := .waiting l }

def waitMask (l : SelectLocals) : BitVec 32 :=
  base.sigMask ||| base.breakMask ||| args.userMask ||| if l.timerArmed then base.timerMask else 0

def brkMask : BitVec 32 :=
  base.breakMask &&& ~~~args.userMask

def afterWait (l : SelectLocals) (sigs : BitVec 32) : SelectLocals :=
  { l with gotUser := l.gotUser ||| (sigs &&& args.userMask) }

def expire (l : SelectLocals) : SelectLocals :=
  { l with timerArmed := false, timedOut := true }

def wait (s : SelectState β κ) (l : SelectLocals) : SelectState β κ :=
  let sigs := s.pending &&& waitMask base args l
  let s := { s with
    pending := s.pending &&& ~~~waitMask base args l
    took := s.took ||| sigs }
  if sigs &&& brkMask base args ≠ 0 then { s with pc := .brkReclaim l sigs }
  else
    let l := afterWait args l sigs
    if l.timerArmed && sigs &&& base.timerMask != 0 then
      if s.timer = .replied then { s with timer := .home, pc := .top (expire l) }
      else { s with pc := .waitIo l }
    else { s with pc := .top l }

def takeBack (s : SelectState β κ) (l : SelectLocals) : SelectState β κ :=
  if l.timerArmed then { s with timer := .home, pending := s.pending &&& ~~~base.timerMask } else s

def report (s : SelectState β κ) (l : SelectLocals) (sc : Scan κ) : SelectState β κ :=
  if sc.hits < 0 then
    { s with
      pending := s.pending ||| l.gotUser
      errno := some .ebadf
      pc := .done (-1) }
  else
    { s with
      sets := fun x => (s.sets x).map (copyBack l.n (sc.out x))
      signals := s.signals.map fun _ => l.gotUser ||| (s.pending &&& args.userMask)
      pending := s.pending &&& ~~~args.userMask
      pc := .done sc.hits }

def advance (s : SelectState β κ) : Option (SelectState β κ) :=
  match s.pc with
  | .entry => some (s.enter base args)
  | .top l => some (s.round base args l)
  | .waiting l =>
      if s.pending &&& waitMask base args l = 0 then none else some (s.wait base args l)
  | .waitIo l =>
      if s.timer = .replied then
        some { s with
          timer := .home
          pending := s.pending &&& ~~~base.timerMask
          pc := .top (expire l) }
      else none
  | .brkReclaim l sigs => some { s.takeBack base l with pc := .brkPost sigs }
  | .brkPost sigs =>
      some { s with
        pending := s.pending ||| (sigs &&& (base.breakMask ||| args.userMask))
        errno := some .eintr
        pc := .done (-1) }
  | .reclaim l sc => some { s.takeBack base l with pc := .finish l sc }
  | .finish l sc => some (s.report args l sc)
  | .done _ => none

def result (s : SelectState β κ) : Option ℤ :=
  match s.pc with
  | .done ret => some ret
  | _ => none

def next (s : SelectState β κ) (l : SelectLabel β κ) : Option (SelectState β κ) :=
  if s.result.isSome then none
  else
    match l with
    | .call => s.advance base args
    | .post m => some { s with pending := s.pending ||| m, posted := s.posted ||| m }
    | .reply =>
        if s.timer = .running then
          some { s with timer := .replied, pending := s.pending ||| base.timerMask }
        else none
    | .world now => some { s with now := now }

def start (now : Snapshot β κ) (pending : BitVec 32) : SelectState β κ where
  pc := .entry
  now := now
  pending := pending
  timer := .home
  sets := args.sets
  signals := args.signals
  errno := none
  posted := pending
  took := 0
  seen := none

def system : TransitionSystem (SelectState β κ) (SelectLabel β κ) where
  init s := ∃ now pending, pending &&& base.timerMask = 0 ∧ s = start args now pending
  next := next base args

end SelectState
