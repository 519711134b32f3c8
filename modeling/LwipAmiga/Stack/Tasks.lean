import LwipAmiga.Stack.Netctl

/-!
# Clients and stack tasks

`LibOpen` starts a stack task when there is none, and waits under `openLock` for its start-up
handshake.
-/

open Option

inductive ClientPc where
  | out
  | opening
  | starting
  | started (ok : Bool)
  | opened
  | closing
  deriving DecidableEq

inductive TaskPc (ω ι : Type) where
  | unborn
  | starting (o : ω)
  | waiting
  | serving
  | lockShutdown (m : ι)
  | setShutdown (m : ι)
  | lockCancel (m : ι)
  | cancelled (m : ι)
  | checking
  | lockReady
  | quitting
  | failed
  | captured (msg : Option ι)
  | leaving (msg : Option ι)
  | cleared (msg : Option ι)
  | ended
  deriving DecidableEq

def ClientPc.startsTask : ClientPc → Bool
  | starting | started _ => true
  | _ => false

namespace TaskPc

variable {ω ι : Type}

def inLoop : TaskPc ω ι → Bool
  | waiting | serving | lockShutdown _ | setShutdown _ | lockCancel _ | cancelled _ | checking
  | lockReady => true
  | _ => false

def serves : TaskPc ω ι → Bool
  | quitting => true
  | pc => pc.inLoop

def goingOut : TaskPc ω ι → Bool
  | failed | captured _ | leaving _ => true
  | _ => false

def locks : TaskPc ω ι → Bool
  | lockShutdown _ | lockCancel _ | lockReady | leaving _ => true
  | _ => false

def pastHandshake (pc : TaskPc ω ι) : Bool :=
  pc.serves || pc.goingOut

def live : TaskPc ω ι → Bool
  | starting _ => true
  | pc => pc.pastHandshake

end TaskPc

inductive LockUser (ω : Type) where
  | libOpen (o : ω)
  | libClose (o : ω)
  | task (t : ℕ)
  deriving DecidableEq

inductive CtlMsg (ι : Type) where
  | shutdown (m : ι)
  | cancelShutdown (m : ι)
  | other (m : ι)
  deriving DecidableEq

inductive SpawnResult where
  | noPool
  | noProc
  | ok
  deriving DecidableEq

structure StackTasks (ω ι : Type) where
  stackTask : Option ℕ
  shuttingDown : Bool
  openCount : ℕ
  openers : List ω
  lock : List (LockUser ω)
  pendingShutdown : Option ι
  port : Option (List (CtlMsg ι))
  sigCtl : Bool
  sigE : ℕ → Bool
  clients : ω → ClientPc
  tasks : ℕ → TaskPc ω ι
  born : ℕ
  asked : ℕ → Option ι
  opens : ℕ → ℕ
  decided : ℕ → Option (List ω)
  log : List (CtlMsg ι × NetctlResult)

namespace StackTasks

variable {ω ι : Type} [DecidableEq ω]

/-! ### Sections of the clients -/

/-- `ReleaseSemaphore`, by the user that has the lock. -/
def release (s : StackTasks ω ι) : StackTasks ω ι :=
  { s with lock := s.lock.tail }

def setClient (s : StackTasks ω ι) (o : ω) (pc : ClientPc) : StackTasks ω ι :=
  { s with clients := Function.update s.clients o pc }

def setTask (s : StackTasks ω ι) (t : ℕ) (pc : TaskPc ω ι) : StackTasks ω ι :=
  { s with tasks := Function.update s.tasks t pc }

/-- `LibOpen` fails. -/
def refuse (s : StackTasks ω ι) (o : ω) : StackTasks ω ι :=
  (s.setClient o .out).release

def register (s : StackTasks ω ι) (o : ω) (alloc : Bool) : StackTasks ω ι :=
  if alloc then
    { (s.setClient o .opened).release with
      openers := s.openers ++ [o]
      openCount := s.openCount + 1
      opens := match s.stackTask with
        | none => s.opens
        | some t => Function.update s.opens t (s.opens t + 1) }
  else s.refuse o

/-- `sb_stack_start` up to its `Wait`: the context is zeroed, and the task created. -/
def sbStackStart (s : StackTasks ω ι) (o : ω) : StackTasks ω ι :=
  { s with
    pendingShutdown := none
    clients := Function.update s.clients o .starting
    tasks := Function.update s.tasks s.born (.starting o)
    born := s.born + 1 }

/-- `LibOpen` with the lock, up to the start of a stack task. -/
def libOpen (s : StackTasks ω ι) (o : ω) (spawn : SpawnResult) (alloc : Bool) : StackTasks ω ι :=
  if s.shuttingDown then s.refuse o
  else
    match s.stackTask with
    | some _ => s.register o alloc
    | none =>
        match spawn with
        | .noPool => s.refuse o
        | .noProc => ({ s with pendingShutdown := none }).refuse o
        | .ok => s.sbStackStart o

/-- `LibClose` with the lock. -/
def libClose (s : StackTasks ω ι) (o : ω) : StackTasks ω ι :=
  let openCount := s.openCount - 1
  { (s.setClient o .out).release with
    openers := s.openers.erase o
    openCount := openCount
    sigE := match s.stackTask with
      | none => s.sigE
      | some t =>
          if s.shuttingDown ∧ openCount = 0 then Function.update s.sigE t true else s.sigE }

/-! ### Steps of a stack task -/

def handshake (s : StackTasks ω ι) (t : ℕ) (o : ω) (ok : Bool) : StackTasks ω ι :=
  if ok then
    { (s.setTask t .waiting).setClient o (.started true) with
      stackTask := some t
      port := some (s.port.getD []) }
  else (s.setTask t .failed).setClient o (.started false)

def wake (s : StackTasks ω ι) (t : ℕ) : StackTasks ω ι :=
  { s.setTask t (if s.sigCtl then .serving else .checking) with
    sigCtl := false
    sigE := Function.update s.sigE t false }

def queueTask (s : StackTasks ω ι) (t : ℕ) (pc : TaskPc ω ι) : StackTasks ω ι :=
  { s.setTask t pc with lock := s.lock ++ [.task t] }

def answer (s : StackTasks ω ι) (msg : CtlMsg ι) (result : NetctlResult) : StackTasks ω ι :=
  { s with log := (msg, result) :: s.log }

def serve (s : StackTasks ω ι) (t : ℕ) : StackTasks ω ι :=
  match s.port with
  | none | some [] => s.setTask t .checking
  | some (msg :: queue) =>
      let s := { s with port := some queue }
      match msg, s.pendingShutdown with
      | .shutdown m, none => s.queueTask t (.lockShutdown m)
      | .shutdown _, some _ => s.answer msg .errExists
      | .cancelShutdown _, none => s.answer msg .errNotfound
      | .cancelShutdown m, some _ => s.queueTask t (.lockCancel m)
      | .other _, _ => s

def answerCancel (s : StackTasks ω ι) (m : ι) : List (CtlMsg ι × NetctlResult) :=
  (.cancelShutdown m, .ok) ::
    (s.pendingShutdown.toList.map fun m => (.shutdown m, .errAborted)) ++ s.log

def capture (s : StackTasks ω ι) (t : ℕ) : StackTasks ω ι :=
  { s.setTask t (.captured s.pendingShutdown) with pendingShutdown := none }

def sbNetctlStop (s : StackTasks ω ι) : StackTasks ω ι :=
  { s with
    port := none
    log := ((s.port.getD []).map fun msg => (msg, NetctlResult.errInactive)) ++ s.log }

def lastAct (s : StackTasks ω ι) (t : ℕ) (msg : Option ι) : StackTasks ω ι :=
  { s.setTask t .ended with log := (msg.toList.map fun m => (.shutdown m, .ok)) ++ s.log }

def taskStep (s : StackTasks ω ι) (t : ℕ) : Option (StackTasks ω ι) :=
  match s.tasks t with
  | .serving => some (s.serve t)
  | .setShutdown m => some { s.setTask t .serving with pendingShutdown := some m }
  | .cancelled m =>
      some { s.setTask t .serving with pendingShutdown := none, log := s.answerCancel m }
  | .checking =>
      if s.pendingShutdown.isSome then
        some (s.queueTask t .lockReady)
      else some (s.setTask t .waiting)
  | .quitting => some (s.sbNetctlStop.capture t)
  | .failed => some (s.capture t)
  | .captured msg => some (s.queueTask t (.leaving msg))
  | .cleared msg => some (s.lastAct t msg)
  | _ => none

def taskSection (s : StackTasks ω ι) (t : ℕ) : Option (StackTasks ω ι) :=
  match s.tasks t with
  | .lockShutdown m =>
      some { (s.setTask t (.setShutdown m)).release with
        shuttingDown := true
        asked := Function.update s.asked t (some m)
        opens := Function.update s.opens t 0 }
  | .lockCancel m => some { (s.setTask t (.cancelled m)).release with shuttingDown := false }
  | .lockReady =>
      if s.openCount = 0 then
        some { (s.setTask t .quitting).release with
          decided := Function.update s.decided t (some s.openers) }
      else some (s.setTask t .waiting).release
  | .leaving msg =>
      some { (s.setTask t (.cleared msg)).release with stackTask := none, shuttingDown := false }
  | _ => none

/-! ### The transition system -/

inductive Label (ω ι : Type) where
  | callOpen (o : ω)
  | libOpen (o : ω) (spawn : SpawnResult) (alloc : Bool)
  | resume (o : ω) (alloc : Bool)
  | callClose (o : ω)
  | libClose (o : ω)
  | put (msg : CtlMsg ι)
  | handshake (t : ℕ) (ok : Bool)
  | wake (t : ℕ) (tick : Bool)
  | ctrlC (t : ℕ)
  | step (t : ℕ)
  | locked (t : ℕ)

def next (s : StackTasks ω ι) : Label ω ι → Option (StackTasks ω ι)
  | .callOpen o =>
      if s.clients o = .out then
        some { s.setClient o .opening with lock := s.lock ++ [.libOpen o] }
      else none
  | .libOpen o spawn alloc =>
      if s.lock.head? = some (.libOpen o) ∧ s.clients o = .opening then
        some (s.libOpen o spawn alloc)
      else none
  | .resume o alloc =>
      if s.lock.head? = some (.libOpen o) then
        match s.clients o with
        | .started true => some (s.register o alloc)
        | .started false => some (s.refuse o)
        | _ => none
      else none
  | .callClose o =>
      if s.clients o = .opened then
        some { s.setClient o .closing with lock := s.lock ++ [.libClose o] }
      else none
  | .libClose o =>
      if s.lock.head? = some (.libClose o) ∧ s.clients o = .closing then some (s.libClose o)
      else none
  | .put msg =>
      match s.port with
      | none => none
      | some queue => some { s with port := some (queue ++ [msg]), sigCtl := true }
  | .handshake t ok =>
      match s.tasks t with
      | .starting o => some (s.handshake t o ok)
      | _ => none
  | .wake t tick =>
      match s.tasks t with
      | .waiting => if tick || s.sigE t || s.sigCtl then some (s.wake t) else none
      | _ => none
  | .ctrlC t =>
      match s.tasks t with
      | .checking => some (s.setTask t .quitting)
      | _ => none
  | .step t => s.taskStep t
  | .locked t => if s.lock.head? = some (.task t) then s.taskSection t else none

def start : StackTasks ω ι where
  stackTask := none
  shuttingDown := false
  openCount := 0
  openers := []
  lock := []
  pendingShutdown := none
  port := none
  sigCtl := false
  sigE := fun _ => false
  clients := fun _ => .out
  tasks := fun _ => .unborn
  born := 0
  asked := fun _ => none
  opens := fun _ => 0
  decided := fun _ => none
  log := []

def system (ω ι : Type) [DecidableEq ω] : TransitionSystem (StackTasks ω ι) (Label ω ι) where
  init s := s = start
  next := next

def quietStart (s : StackTasks ω ι) : Label ω ι → Prop
  | .libOpen _ .ok _ =>
      s.shuttingDown = false → s.stackTask = none → ∀ t < s.born, (s.tasks t).goingOut = false
  | _ => True

instance (s : StackTasks ω ι) (l : Label ω ι) : Decidable (s.quietStart l) := by
  unfold quietStart
  split <;> infer_instance

/-! ### What a step can do -/

inductive Step (s : StackTasks ω ι) : Label ω ι → StackTasks ω ι → Prop where
  | callOpen (o : ω) (hclient : s.clients o = .out) :
      Step s (.callOpen o) { s.setClient o .opening with lock := s.lock ++ [.libOpen o] }
  | refused (o : ω) (spawn : SpawnResult) (alloc : Bool) (hhead : s.lock.head? = some (.libOpen o))
      (hclient : s.clients o = .opening) : Step s (.libOpen o spawn alloc) (s.refuse o)
  | registered (o : ω) (spawn : SpawnResult) (alloc : Bool)
      (hhead : s.lock.head? = some (.libOpen o)) (hclient : s.clients o = .opening)
      (hclear : s.shuttingDown = false) : Step s (.libOpen o spawn alloc) (s.register o alloc)
  | zeroed (o : ω) (alloc : Bool) (hhead : s.lock.head? = some (.libOpen o))
      (hclient : s.clients o = .opening) (hclear : s.shuttingDown = false)
      (hstack : s.stackTask = none) :
      Step s (.libOpen o .noProc alloc) (({ s with pendingShutdown := none }).refuse o)
  | started (o : ω) (alloc : Bool) (hhead : s.lock.head? = some (.libOpen o))
      (hclient : s.clients o = .opening) (hclear : s.shuttingDown = false)
      (hstack : s.stackTask = none) : Step s (.libOpen o .ok alloc) (s.sbStackStart o)
  | resumed (o : ω) (alloc : Bool) (hhead : s.lock.head? = some (.libOpen o))
      (hclient : s.clients o = .started true) : Step s (.resume o alloc) (s.register o alloc)
  | unresumed (o : ω) (alloc : Bool) (hhead : s.lock.head? = some (.libOpen o))
      (hclient : s.clients o = .started false) : Step s (.resume o alloc) (s.refuse o)
  | callClose (o : ω) (hclient : s.clients o = .opened) :
      Step s (.callClose o) { s.setClient o .closing with lock := s.lock ++ [.libClose o] }
  | libClose (o : ω) (hhead : s.lock.head? = some (.libClose o)) (hclient : s.clients o = .closing) :
      Step s (.libClose o) (s.libClose o)
  | put (msg : CtlMsg ι) (queue : List (CtlMsg ι)) :
      Step s (.put msg) { s with port := some (queue ++ [msg]), sigCtl := true }
  | handshake (t : ℕ) (o : ω) (ok : Bool) (hpc : s.tasks t = .starting o) :
      Step s (.handshake t ok) (s.handshake t o ok)
  | wake (t : ℕ) (tick : Bool) (hpc : s.tasks t = .waiting) : Step s (.wake t tick) (s.wake t)
  | ctrlC (t : ℕ) (hpc : s.tasks t = .checking) : Step s (.ctrlC t) (s.setTask t .quitting)
  | served (t : ℕ) (hpc : s.tasks t = .serving) : Step s (.step t) (s.setTask t .checking)
  | asked (t : ℕ) (m : ι) (msg : CtlMsg ι) (queue : List (CtlMsg ι)) (hpc : s.tasks t = .serving)
      (hport : s.port = some (msg :: queue)) (hnone : s.pendingShutdown = none) :
      Step s (.step t) (({ s with port := some queue }).queueTask t (.lockShutdown m))
  | cancels (t : ℕ) (m p : ι) (msg : CtlMsg ι) (queue : List (CtlMsg ι)) (hpc : s.tasks t = .serving)
      (hport : s.port = some (msg :: queue)) (hsome : s.pendingShutdown = some p) :
      Step s (.step t) (({ s with port := some queue }).queueTask t (.lockCancel m))
  | answered (t : ℕ) (msg : CtlMsg ι) (queue : List (CtlMsg ι))
      (new : List (CtlMsg ι × NetctlResult)) (hpc : s.tasks t = .serving)
      (hport : s.port = some (msg :: queue)) (hnew : ∀ msg, (msg, .ok) ∉ new) :
      Step s (.step t) { s with port := some queue, log := new ++ s.log }
  | parked (t : ℕ) (m : ι) (hpc : s.tasks t = .setShutdown m) :
      Step s (.step t) { s.setTask t .serving with pendingShutdown := some m }
  | unparked (t : ℕ) (m : ι) (hpc : s.tasks t = .cancelled m) :
      Step s (.step t) { s.setTask t .serving with pendingShutdown := none, log := s.answerCancel m }
  | ready (t : ℕ) (m : ι) (hpc : s.tasks t = .checking) (hsome : s.pendingShutdown = some m) :
      Step s (.step t) (s.queueTask t .lockReady)
  | waits (t : ℕ) (hpc : s.tasks t = .checking) (hnone : s.pendingShutdown = none) :
      Step s (.step t) (s.setTask t .waiting)
  | stops (t : ℕ) (hpc : s.tasks t = .quitting) : Step s (.step t) (s.sbNetctlStop.capture t)
  | fails (t : ℕ) (hpc : s.tasks t = .failed) : Step s (.step t) (s.capture t)
  | leaves (t : ℕ) (msg : Option ι) (hpc : s.tasks t = .captured msg) :
      Step s (.step t) (s.queueTask t (.leaving msg))
  | ends (t : ℕ) (msg : Option ι) (hpc : s.tasks t = .cleared msg) :
      Step s (.step t) (s.lastAct t msg)
  | setShutdown (t : ℕ) (m : ι) (hpc : s.tasks t = .lockShutdown m)
      (hhead : s.lock.head? = some (.task t)) :
      Step s (.locked t) { (s.setTask t (.setShutdown m)).release with
        shuttingDown := true
        asked := Function.update s.asked t (some m)
        opens := Function.update s.opens t 0 }
  | cancelled (t : ℕ) (m : ι) (hpc : s.tasks t = .lockCancel m)
      (hhead : s.lock.head? = some (.task t)) :
      Step s (.locked t) { (s.setTask t (.cancelled m)).release with shuttingDown := false }
  | quits (t : ℕ) (hpc : s.tasks t = .lockReady) (hhead : s.lock.head? = some (.task t))
      (hzero : s.openCount = 0) :
      Step s (.locked t) { (s.setTask t .quitting).release with
        decided := Function.update s.decided t (some s.openers) }
  | stays (t : ℕ) (hpc : s.tasks t = .lockReady) (hhead : s.lock.head? = some (.task t))
      (hpos : s.openCount ≠ 0) : Step s (.locked t) (s.setTask t .waiting).release
  | cleared (t : ℕ) (msg : Option ι) (hpc : s.tasks t = .leaving msg)
      (hhead : s.lock.head? = some (.task t)) :
      Step s (.locked t) { (s.setTask t (.cleared msg)).release with
        stackTask := none, shuttingDown := false }

variable {s s' : StackTasks ω ι} {t : ℕ} {o : ω}

theorem step_libOpen
    {spawn : SpawnResult} {alloc : Bool} (hhead : s.lock.head? = some (.libOpen o))
    (hclient : s.clients o = .opening) :
  Step s (.libOpen o spawn alloc) (s.libOpen o spawn alloc)
  := by
  unfold libOpen
  split
  next => exact .refused o spawn alloc hhead hclient
  next hset =>
    rw [Bool.not_eq_true] at hset
    split
    next => exact .registered o spawn alloc hhead hclient hset
    next hstack =>
      cases spawn with
      | noPool => exact .refused o .noPool alloc hhead hclient
      | noProc => exact .zeroed o alloc hhead hclient hset hstack
      | ok => exact .started o alloc hhead hclient hset hstack

theorem step_serve (hpc : s.tasks t = .serving) :
  Step s (.step t) (s.serve t)
  := by
  unfold serve
  split
  next => exact .served t hpc
  next => exact .served t hpc
  next msg queue hport =>
    dsimp only
    split
    next m hnone => exact .asked t m _ queue hpc hport hnone
    next => exact .answered t _ queue [(_, _)] hpc hport (by simp)
    next => exact .answered t _ queue [(_, _)] hpc hport (by simp)
    next m p hsome => exact .cancels t m p _ queue hpc hport hsome
    next => exact .answered t _ queue [] hpc hport nofun

theorem step_of_taskStep (h : s.taskStep t = some s') :
  Step s (.step t) s'
  := by
  unfold taskStep at h
  split at h
  case h_1 hpc =>
    cases h
    exact step_serve hpc
  case h_2 m hpc =>
    cases h
    exact .parked t m hpc
  case h_3 m hpc =>
    cases h
    exact .unparked t m hpc
  case h_4 hpc =>
    cases hpending : s.pendingShutdown with
    | none =>
      rw [hpending] at h
      cases h
      exact .waits t hpc hpending
    | some m =>
      rw [hpending] at h
      cases h
      exact .ready t m hpc hpending
  case h_5 hpc =>
    cases h
    exact .stops t hpc
  case h_6 hpc =>
    cases h
    exact .fails t hpc
  case h_7 msg hpc =>
    cases h
    exact .leaves t msg hpc
  case h_8 msg hpc =>
    cases h
    exact .ends t msg hpc
  case h_9 => contradiction

theorem step_of_taskSection
    (hhead : s.lock.head? = some (.task t)) (h : s.taskSection t = some s') :
  Step s (.locked t) s'
  := by
  unfold taskSection at h
  split at h
  case h_1 m hpc =>
    cases h
    exact .setShutdown t m hpc hhead
  case h_2 m hpc =>
    cases h
    exact .cancelled t m hpc hhead
  case h_3 hpc =>
    split at h
    next hzero =>
      cases h
      exact .quits t hpc hhead hzero
    next hpos =>
      cases h
      exact .stays t hpc hhead hpos
  case h_4 msg hpc =>
    cases h
    exact .cleared t msg hpc hhead
  case h_5 => contradiction

theorem step_of_next {l : Label ω ι} (h : s.next l = some s') :
  Step s l s'
  := by
  cases l with
  | callOpen o =>
    obtain ⟨hclient, ⟨⟩⟩ := ite_none_right_eq_some.mp h
    exact .callOpen o hclient
  | libOpen o spawn alloc =>
    obtain ⟨⟨hhead, hclient⟩, ⟨⟩⟩ := ite_none_right_eq_some.mp h
    exact step_libOpen hhead hclient
  | resume o alloc =>
    obtain ⟨hhead, h⟩ := ite_none_right_eq_some.mp h
    split at h
    next hclient =>
      cases h
      exact .resumed o alloc hhead hclient
    next hclient =>
      cases h
      exact .unresumed o alloc hhead hclient
    next => contradiction
  | callClose o =>
    obtain ⟨hclient, ⟨⟩⟩ := ite_none_right_eq_some.mp h
    exact .callClose o hclient
  | libClose o =>
    obtain ⟨⟨hhead, hclient⟩, ⟨⟩⟩ := ite_none_right_eq_some.mp h
    exact .libClose o hhead hclient
  | put msg =>
    simp only [next] at h
    split at h
    next => contradiction
    next queue _ =>
      cases h
      exact .put msg queue
  | handshake t ok =>
    simp only [next] at h
    split at h
    next o hpc =>
      cases h
      exact .handshake t o ok hpc
    next => contradiction
  | wake t tick =>
    simp only [next] at h
    split at h
    next hpc =>
      obtain ⟨-, ⟨⟩⟩ := ite_none_right_eq_some.mp h
      exact .wake t tick hpc
    next => contradiction
  | ctrlC t =>
    simp only [next] at h
    split at h
    next hpc =>
      cases h
      exact .ctrlC t hpc
    next => contradiction
  | step t => exact step_of_taskStep h
  | locked t =>
    obtain ⟨hhead, h⟩ := ite_none_right_eq_some.mp h
    exact step_of_taskSection hhead h

end StackTasks
