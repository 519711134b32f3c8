import LwipAmiga.Lib.Behaviour
import LwipAmiga.Lib.Lineup
import LwipAmiga.Stack.Shutdown
import Mathlib.Data.Prod.Lex

/-!
# The exit of the stack task

The lock is granted in the order of its queue, which has those that wait for it (`Queued`).
-/

open Function List

inductive Agent (ω : Type) where
  | client (o : ω)
  | task (t : ℕ)
  deriving DecidableEq

def LockUser.agent {ω : Type} : LockUser ω → Agent ω
  | .libOpen o | .libClose o => .client o
  | .task t => .task t

def ClientPc.user {ω : Type} (o : ω) : ClientPc → Option (LockUser ω)
  | .opening | .starting | .started _ => some (.libOpen o)
  | .closing => some (.libClose o)
  | .out | .opened => none

def TaskPc.user {ω ι : Type} (t : ℕ) (pc : TaskPc ω ι) : Option (LockUser ω) :=
  if pc.locks then some (.task t) else none

def TaskPc.rank {ω ι : Type} (messages : ℕ) : TaskPc ω ι → ℕ
  | .waiting | .setShutdown _ => messages + 8
  | .serving => messages + 7
  | .lockCancel _ => messages + 6
  | .checking => 6
  | .lockReady => 5
  | .quitting => 4
  | .captured _ => 3
  | .leaving _ => 2
  | .cleared _ => 1
  | _ => 0

namespace StackTasks

variable {ω ι : Type} {s s' : StackTasks ω ι} {t u : ℕ} {o : ω} {m : ι} {k : Agent ω}

/-! ### The queue of the lock -/

def wants (s : StackTasks ω ι) : Agent ω → Option (LockUser ω)
  | .client o => (s.clients o).user o
  | .task t => (s.tasks t).user t

def Queued (s : StackTasks ω ι) : Prop :=
  Lineup LockUser.agent s.wants s.lock

theorem wants_task (h : (s.tasks t).locks = true) :
  s.wants (.task t) = some (.task t)
  := by
  change (s.tasks t).user t = _
  rw [TaskPc.user, h]
  rfl

theorem wants_of_client
    (hclients : ∀ o', o' ≠ o → s'.clients o' = s.clients o') (htasks : s'.tasks = s.tasks)
    (hk : k ≠ .client o) :
  s'.wants k = s.wants k
  := by
  cases k with
  | client o' =>
    change (s'.clients o').user o' = (s.clients o').user o'
    rw [hclients o' fun heq => hk (congrArg _ heq)]
  | task u =>
    change (s'.tasks u).user u = (s.tasks u).user u
    rw [htasks]

theorem wants_of_task
    (hclients : s'.clients = s.clients) (htasks : ∀ u, u ≠ t → s'.tasks u = s.tasks u)
    (hk : k ≠ .task t) :
  s'.wants k = s.wants k
  := by
  cases k with
  | client o =>
    change (s'.clients o).user o = (s.clients o).user o
    rw [hclients]
  | task u =>
    change (s'.tasks u).user u = (s.tasks u).user u
    rw [htasks u fun heq => hk (congrArg _ heq)]

theorem Queued.call
    {pc' : ClientPc} {user : LockUser ω} [DecidableEq ω] (h : s.Queued)
    (hold : (s.clients o).user o = none) (hnew : pc'.user o = some user)
    (hagent : user.agent = .client o) :
  ({ s.setClient o pc' with lock := s.lock ++ [user] }).Queued
  := by
  refine Lineup.join h ?_ ?_ ?_
  · rw [hagent]
    apply hold
  · rw [hagent]
    change (update s.clients o pc' o).user o = some user
    rw [update_self]
    apply hnew
  · intro k hk
    rw [hagent] at hk
    refine wants_of_client (fun o' hne => ?_) rfl hk
    apply update_of_ne hne

theorem Queued.leave
    {user : LockUser ω} (h : s.Queued) (hhead : s.lock.head? = some user)
    (hagent : user.agent = .client o) (hnew : (s'.clients o).user o = none)
    (hclients : ∀ o', o' ≠ o → s'.clients o' = s.clients o') (htasks : s'.tasks = s.tasks)
    (hlock : s'.lock = s.lock.tail) :
  s'.Queued
  := by
  unfold Queued
  rw [hlock]
  refine Lineup.leave h hhead ?_ fun k hk => ?_
  · rw [hagent]
    apply hnew
  · rw [hagent] at hk
    apply wants_of_client hclients htasks hk

theorem Queued.queueTask
    (h : s.Queued) (pc : TaskPc ω ι) (hold : (s.tasks t).locks = false) (hnew : pc.locks = true)
    (hclients : s'.clients = s.clients) (htasks : s'.tasks = update s.tasks t pc)
    (hlock : s'.lock = s.lock ++ [.task t]) :
  s'.Queued
  := by
  unfold Queued
  rw [hlock]
  refine Lineup.join h ?_ ?_ fun k hk => ?_
  · change (s.tasks t).user t = none
    rw [TaskPc.user, hold]
    rfl
  · change (s'.tasks t).user t = _
    rw [htasks, update_self, TaskPc.user, hnew]
    rfl
  · refine wants_of_task hclients (fun u hne => ?_) hk
    rw [htasks, update_of_ne hne]

theorem Queued.setTask
    (h : s.Queued) (pc : TaskPc ω ι) (hold : (s.tasks t).locks = false) (hnew : pc.locks = false)
    (hclients : s'.clients = s.clients) (htasks : s'.tasks = update s.tasks t pc)
    (hlock : s'.lock = s.lock) :
  s'.Queued
  := by
  unfold Queued
  rw [hlock]
  refine Lineup.congr h fun k => ?_
  by_cases hk : k = .task t
  · subst hk
    change (s'.tasks t).user t = (s.tasks t).user t
    rw [htasks, update_self, TaskPc.user, TaskPc.user, hold, hnew]
  · refine wants_of_task hclients (fun u hne => ?_) hk
    rw [htasks, update_of_ne hne]

theorem Queued.release
    (h : s.Queued) (pc : TaskPc ω ι) (hhead : s.lock.head? = some (.task t)) (hnew : pc.locks = false)
    (hclients : s'.clients = s.clients) (htasks : s'.tasks = update s.tasks t pc)
    (hlock : s'.lock = s.lock.tail) :
  s'.Queued
  := by
  unfold Queued
  rw [hlock]
  refine Lineup.leave h hhead ?_ fun k hk => ?_
  · change (s'.tasks t).user t = none
    rw [htasks, update_self, TaskPc.user, hnew]
    rfl
  · refine wants_of_task hclients (fun u hne => ?_) hk
    rw [htasks, update_of_ne hne]

variable [DecidableEq ω]

theorem Queued.handshake
    (h : s.Queued) (hpc : s.tasks t = .starting o) (hclient : s.clients o = .starting) (ok : Bool) :
  (s.handshake t o ok).Queued
  := by
  have hlock : (s.handshake t o ok).lock = s.lock := by cases ok <;> rfl
  have hclients : (s.handshake t o ok).clients = update s.clients o (.started ok) := by
    cases ok <;> rfl
  have htasks : ∃ pc : TaskPc ω ι, pc.locks = false ∧
      (s.handshake t o ok).tasks = update s.tasks t pc := by
    cases ok with
    | true => exact ⟨.waiting, rfl, rfl⟩
    | false => exact ⟨.failed, rfl, rfl⟩
  obtain ⟨pc, hlocks, htasks⟩ := htasks
  unfold Queued
  rw [hlock]
  refine Lineup.congr h fun k => ?_
  cases k with
  | client o' =>
    change ((s.handshake t o ok).clients o').user o' = (s.clients o').user o'
    rw [hclients]
    by_cases hne : o' = o
    · rw [hne, update_self, hclient]
      rfl
    · rw [update_of_ne hne]
  | task u =>
    change ((s.handshake t o ok).tasks u).user u = (s.tasks u).user u
    rw [htasks]
    by_cases hne : u = t
    · rw [hne, update_self, hpc, TaskPc.user, hlocks]
      rfl
    · rw [update_of_ne hne]

theorem Queued.refuse (h : s.Queued) (hhead : s.lock.head? = some (.libOpen o)) :
  (s.refuse o).Queued
  := by
  refine h.leave hhead rfl ?_ (fun o' hne => ?_) rfl rfl
  · change (update s.clients o .out o).user o = none
    rw [update_self]
    rfl
  · apply update_of_ne hne

theorem Queued.register
    (h : s.Queued) (hhead : s.lock.head? = some (.libOpen o)) (alloc : Bool) :
  (s.register o alloc).Queued
  := by
  cases alloc with
  | false => apply h.refuse hhead
  | true =>
    refine h.leave hhead rfl ?_ (fun o' hne => ?_) rfl rfl
    · change (update s.clients o .opened o).user o = none
      rw [update_self]
      rfl
    · apply update_of_ne hne

theorem Queued.libClose (h : s.Queued) (hhead : s.lock.head? = some (.libClose o)) :
  (s.libClose o).Queued
  := by
  refine h.leave hhead rfl ?_ (fun o' hne => ?_) rfl rfl
  · change (update s.clients o .out o).user o = none
    rw [update_self]
    rfl
  · apply update_of_ne hne

theorem Queued.sbStackStart
    (h : s.Queued) (hclient : s.clients o = .opening) (hunborn : s.tasks s.born = .unborn) :
  (s.sbStackStart o).Queued
  := by
  refine Lineup.congr h fun k => ?_
  cases k with
  | client o' =>
    change (update s.clients o .starting o').user o' = (s.clients o').user o'
    by_cases hne : o' = o
    · rw [hne, update_self, hclient]
      rfl
    · rw [update_of_ne hne]
  | task u =>
    change (update s.tasks s.born (.starting o) u).user u = (s.tasks u).user u
    by_cases hne : u = s.born
    · rw [hne, update_self, hunborn]
      rfl
    · rw [update_of_ne hne]

theorem Queued.next {l : Label ω ι} (h : s.Queued) (hshut : s.Shut) (hnext : s.next l = some s') :
  s'.Queued
  := by
  cases step_of_next hnext with
  | callOpen o hclient | callClose o hclient => exact h.call (by rw [hclient]; rfl) rfl rfl
  | refused o _ _ hhead | unresumed o _ hhead => apply h.refuse hhead
  | registered o _ _ hhead | resumed o _ hhead => apply h.register hhead
  | zeroed o _ hhead =>
    have hzeroed : ({ s with pendingShutdown := none }).Queued := h
    exact hzeroed.refuse hhead
  | started o _ _ hclient => apply h.sbStackStart hclient (hshut.single.unborn _ le_rfl)
  | libClose o hhead => apply h.libClose hhead
  | put | answered => exact h
  | handshake t o ok hpc => apply h.handshake hpc (hshut.single.starter t o hpc).2
  | wake t _ hpc =>
    refine h.setTask _ (by rw [hpc]; rfl) ?_ rfl rfl rfl
    split <;> rfl
  | ctrlC t hpc => exact h.setTask .quitting (by rw [hpc]; rfl) rfl rfl rfl rfl
  | served t hpc => exact h.setTask .checking (by rw [hpc]; rfl) rfl rfl rfl rfl
  | asked t m _ _ hpc => exact h.queueTask (.lockShutdown m) (by rw [hpc]; rfl) rfl rfl rfl rfl
  | cancels t m _ _ _ hpc => exact h.queueTask (.lockCancel m) (by rw [hpc]; rfl) rfl rfl rfl rfl
  | parked t _ hpc | unparked t _ hpc => exact h.setTask .serving (by rw [hpc]; rfl) rfl rfl rfl rfl
  | ready t _ hpc => exact h.queueTask .lockReady (by rw [hpc]; rfl) rfl rfl rfl rfl
  | waits t hpc => exact h.setTask .waiting (by rw [hpc]; rfl) rfl rfl rfl rfl
  | stops t hpc | fails t hpc => exact h.setTask (.captured s.pendingShutdown) (by rw [hpc]; rfl) rfl rfl rfl rfl
  | leaves t msg hpc => exact h.queueTask (.leaving msg) (by rw [hpc]; rfl) rfl rfl rfl rfl
  | ends t _ hpc => exact h.setTask .ended (by rw [hpc]; rfl) rfl rfl rfl rfl
  | setShutdown t m _ hhead => exact h.release (.setShutdown m) hhead rfl rfl rfl rfl
  | cancelled t m _ hhead => exact h.release (.cancelled m) hhead rfl rfl rfl rfl
  | quits t _ hhead => exact h.release .quitting hhead rfl rfl rfl rfl
  | stays t _ hhead => exact h.release .waiting hhead rfl rfl rfl rfl
  | cleared t msg _ hhead => exact h.release (.cleared msg) hhead rfl rfl rfl rfl

theorem queued_of_reach (h : (system ω ι).Reach calm s) :
  s.Queued
  := by
  refine TransitionSystem.Reach.invariant_of (fun s hs => shut_of_reach hs) ?_ ?_ h
  · rintro s rfl
    exact ⟨nodup_nil, fun user => by cases user <;> exact ⟨nofun, nofun⟩⟩
  · intro s l s' hshut hs _ hnext
    apply hs.next hshut hnext

/-! ### Steps on the way out -/

def Label.task : Label ω ι → Option ℕ
  | .handshake t _ | .wake t _ | .ctrlC t | .step t | .locked t => some t
  | _ => none

def Label.agent : Label ω ι → Option (Agent ω)
  | .libOpen o _ _ | .resume o _ | .libClose o => some (.client o)
  | .handshake t _ | .wake t false | .step t | .locked t => some (.task t)
  | _ => none

omit [DecidableEq ω] in
theorem task_of_agent {l : Label ω ι} (h : l.agent = some (.task t)) :
  l.task = some t
  := by
  cases l with
  | wake u tick =>
    cases tick <;> cases h
    rfl
  | _ => cases h <;> rfl

def Closing (s : StackTasks ω ι) (t : ℕ) : Prop :=
  s.stackTask = some t ∧ s.shuttingDown = true ∧ s.openCount = 0

def Stopping (s : StackTasks ω ι) (t : ℕ) : Prop :=
  (∃ msg, s.tasks t = .cleared msg) ∨ s.Closing t

def Stopped (s : StackTasks ω ι) (t : ℕ) : Prop :=
  s.tasks t = .ended ∨ ∃ m, s.tasks t = .cancelled m

def rank (s : StackTasks ω ι) (t : ℕ) : ℕ :=
  (s.tasks t).rank (s.port.getD []).length

omit [DecidableEq ω] in
theorem Closing.move
    {pc : TaskPc ω ι} (h : s.Closing t) (htasks : s'.tasks t = pc) (hstack : s'.stackTask = s.stackTask)
    (hflag : s'.shuttingDown = s.shuttingDown) (hcount : s'.openCount = s.openCount)
    (hrank : pc.rank (s'.port.getD []).length < (s.tasks t).rank (s.port.getD []).length) :
  s'.Stopping t ∧ s'.rank t < s.rank t
  := by
  constructor
  · right
    rw [Closing, hstack, hflag, hcount]
    apply h
  · rw [rank, rank, htasks]
    apply hrank

theorem lastAct_of_dead
    {l : Label ω ι} (hl : l.task = some u) (hdead : (s.tasks u).live = false)
    (hnext : s.next l = some s') :
  ∃ msg, l = .step u ∧ s.tasks u = .cleared msg ∧ s' = s.lastAct u msg
  := by
  cases step_of_next hnext
  case ends t msg hpc =>
    cases hl
    exact ⟨msg, rfl, hpc, rfl⟩
  all_goals
    cases hl
    all_goals
      rw [‹s.tasks u = _›] at hdead
      contradiction

theorem Stopping.own
    {l : Label ω ι} (h : s.Stopping t) (hshut : s.Shut) (hcalm : s.calm l) (hl : l.task = some t)
    (hnext : s.next l = some s') :
  s'.Stopped t ∨ s'.Stopping t ∧ s'.rank t < s.rank t
  := by
  have hself : ∀ pc, (s.setTask t pc).tasks t = pc := fun pc => update_self ..
  rcases h with ⟨msg, hpc⟩ | hclosing
  · obtain ⟨msg', -, -, rfl⟩ := lastAct_of_dead hl (by rw [hpc]; rfl) hnext
    exact .inl (.inl (hself .ended))
  obtain ⟨-, hset, hzero⟩ := id hclosing
  cases step_of_next hnext with
  | handshake u o ok hpc | fails u hpc | setShutdown u m hpc =>
    cases hl
    cases hset.symm.trans (hshut.fitsAt hpc).1
  | wake u tick hpc =>
    cases hl
    right
    refine hclosing.move (update_self ..) rfl rfl rfl ?_
    rw [hpc]
    split
    · apply Nat.lt_succ_self
    · simp only [TaskPc.rank]
      omega
  | ctrlC | stays u hpc hhead hpos => contradiction
  | served u hpc =>
    cases hl
    right
    refine hclosing.move (hself .checking) rfl rfl rfl ?_
    rw [hpc]
    simp only [TaskPc.rank]
    omega
  | asked u m msg queue hpc hport hnone | waits u hpc hnone =>
    cases hl
    obtain ⟨hflag, -⟩ := hshut.fitsAt hpc
    rw [hset, hnone] at hflag
    contradiction
  | cancels u m p msg queue hpc hport =>
    cases hl
    right
    refine hclosing.move (hself (.lockCancel m)) rfl rfl rfl ?_
    rw [hpc, hport]
    simp [TaskPc.rank, StackTasks.queueTask, StackTasks.setTask]
  | answered u msg queue new hpc hport =>
    cases hl
    right
    refine hclosing.move hpc rfl rfl rfl ?_
    rw [hpc, hport]
    simp [TaskPc.rank]
  | parked u m hpc =>
    cases hl
    right
    refine hclosing.move (hself .serving) rfl rfl rfl ?_
    rw [hpc]
    apply Nat.lt_succ_self
  | unparked u m hpc =>
    cases hl
    cases hset.symm.trans (hshut.fitsAt hpc)
  | ready u m hpc =>
    cases hl
    right
    refine hclosing.move (hself .lockReady) rfl rfl rfl ?_
    rw [hpc]
    apply Nat.lt_succ_self
  | stops u hpc =>
    cases hl
    right
    refine hclosing.move (hself (.captured s.pendingShutdown)) rfl rfl rfl ?_
    rw [hpc]
    apply Nat.lt_succ_self
  | leaves u msg hpc =>
    cases hl
    right
    refine hclosing.move (hself (.leaving msg)) rfl rfl rfl ?_
    rw [hpc]
    apply Nat.lt_succ_self
  | ends u msg hpc =>
    cases hl
    exact .inl (.inl (hself .ended))
  | cancelled u m hpc =>
    cases hl
    exact .inl (.inr ⟨m, hself _⟩)
  | quits u hpc =>
    cases hl
    right
    refine hclosing.move (hself .quitting) rfl rfl rfl ?_
    rw [hpc]
    apply Nat.lt_succ_self
  | cleared u msg hpc =>
    cases hl
    right
    refine ⟨.inl ⟨msg, hself _⟩, ?_⟩
    change (update s.tasks t (.cleared msg) t).rank _ < (s.tasks t).rank _
    rw [update_self, hpc]
    apply Nat.lt_succ_self
  | _ => cases hl

/-! ### Steps of others -/

structure Aside (t : ℕ) (l : Label ω ι) (s s' : StackTasks ω ι) : Prop where
  tasks : s'.tasks t = s.tasks t
  stackTask : s'.stackTask = s.stackTask
  shuttingDown : s'.shuttingDown = s.shuttingDown
  openCount : s'.openCount = 0
  port : (∀ msg, l ≠ .put msg) → s'.port = s.port
  lock : (∃ users, s'.lock = s.lock ++ users ∧ ∀ k, l.agent = some k → s.wants k = none) ∨
    ∃ user, s.lock.head? = some user ∧ user ≠ .task t ∧ s'.lock = s.lock.tail

omit [DecidableEq ω] in
theorem Aside.of_client
    {l : Label ω ι} {user : LockUser ω} (htasks : s'.tasks = s.tasks)
    (hstack : s'.stackTask = s.stackTask) (hflag : s'.shuttingDown = s.shuttingDown)
    (hcount : s'.openCount = 0) (hport : s'.port = s.port) (hhead : s.lock.head? = some user)
    (hne : user ≠ .task t) (hlock : s'.lock = s.lock.tail) :
  Aside t l s s'
  := by
  constructor
  · rw [htasks]
  · apply hstack
  · apply hflag
  · apply hcount
  · intro _
    apply hport
  · right
    exact ⟨user, hhead, hne, hlock⟩

omit [DecidableEq ω] in
theorem Aside.of_cleared
    {msg : Option ι} (hne : u ≠ t) (hpc : s.tasks u = .cleared msg) (hcount : s.openCount = 0) :
  Aside t (.step u) s (s.lastAct u msg)
  := by
  constructor
  · apply update_of_ne hne.symm
  · rfl
  · rfl
  · apply hcount
  · intro _
    rfl
  · left
    refine ⟨[], (append_nil _).symm, ?_⟩
    rintro k ⟨⟩
    change (s.tasks u).user u = none
    rw [hpc]
    rfl

omit [DecidableEq ω] in
theorem Shut.dead_of_ne (h : s.Shut) (hlive : (s.tasks t).live = true) (hne : u ≠ t) :
  (s.tasks u).live = false
  := by
  rw [← Bool.not_eq_true]
  intro hu
  apply hne (h.single.one u t hu hlive)

theorem Closing.aside
    {l : Label ω ι} (h : s.Closing t) (hshut : s.Shut) (hl : l.task ≠ some t)
    (hnext : s.next l = some s') :
  Aside t l s s'
  := by
  obtain ⟨hstack, hset, hzero⟩ := h
  cases htask : l.task with
  | some u =>
    have hne : u ≠ t := fun heq => hl (htask.trans (congrArg some heq))
    have hdead := hshut.dead_of_ne (hshut.single.names t hstack).1 hne
    obtain ⟨msg, rfl, hpc, rfl⟩ := lastAct_of_dead htask hdead hnext
    apply Aside.of_cleared hne hpc hzero
  | none =>
    -- A client that starts a task has found the flag clear.
    have hclear : ∀ o, (s.clients o).startsTask ≠ true := fun o hstarts =>
      Bool.noConfusion (hset.symm.trans (hshut.starter o hstarts).2)
    cases step_of_next hnext with
    | callOpen o =>
      exact ⟨rfl, rfl, rfl, hzero, fun _ => rfl, .inl ⟨[.libOpen o], rfl, nofun⟩⟩
    | refused o _ _ hhead => exact .of_client rfl rfl rfl hzero rfl hhead nofun rfl
    | registered o _ _ _ _ hclear | zeroed o _ _ _ hclear | started o _ _ _ hclear => cases hset.symm.trans hclear
    | resumed o _ _ hclient | unresumed o _ _ hclient => exact absurd (by rw [hclient]; rfl) (hclear o)
    | callClose o =>
      exact ⟨rfl, rfl, rfl, hzero, fun _ => rfl, .inl ⟨[.libClose o], rfl, nofun⟩⟩
    | libClose o hhead =>
      refine .of_client rfl rfl rfl ?_ rfl hhead nofun rfl
      change s.openCount - 1 = 0
      rw [hzero]
    | put msg =>
      exact ⟨rfl, rfl, rfl, hzero, fun hput => absurd rfl (hput msg), .inl ⟨[],
        (append_nil _).symm, nofun⟩⟩
    | _ => cases htask

theorem tasks_of_next
    {l : Label ω ι} (hl : l.task ≠ some t) (hborn : t ≠ s.born) (hnext : s.next l = some s') :
  s'.tasks t = s.tasks t
  := by
  have hother : ∀ u, l.task = some u → t ≠ u := by
    rintro u hu rfl
    apply hl hu
  cases step_of_next hnext with
  | registered _ _ alloc | resumed _ alloc => cases alloc <;> rfl
  | started => apply update_of_ne hborn
  | handshake u _ ok => cases ok <;> apply update_of_ne (hother u rfl)
  | _ => first | rfl | apply update_of_ne (hother _ rfl)

/-! ### The exit -/

def place (s : StackTasks ω ι) (t : ℕ) : ℕ :=
  if (s.tasks t).locks then s.lock.idxOf (.task t) else 0

def helper (s : StackTasks ω ι) (t : ℕ) : Agent ω :=
  if (s.tasks t).locks then s.lock.head?.elim (.task t) LockUser.agent else .task t

def measure (s : StackTasks ω ι) (t : ℕ) : ℕ ×ₗ ℕ :=
  toLex (s.rank t, s.place t)

theorem Closing.waits
    {l : Label ω ι} (h : Aside t l s s') (hqueued : s.Queued) (hlocks : (s.tasks t).locks = true) :
  s'.place t < s.place t ∨
    l.agent ≠ some (s.helper t) ∧ s'.place t = s.place t ∧ s'.helper t = s.helper t
  := by
  have hwant := wants_task hlocks
  rw [place, place, helper, helper, h.tasks, if_pos hlocks, if_pos hlocks, if_pos hlocks, if_pos hlocks]
  rcases h.lock with ⟨users, hlock, hagent⟩ | ⟨user, hhead, hne, hlock⟩
  · right
    have hmem : .task t ∈ s.lock := (hqueued.mem _).mpr hwant
    obtain ⟨user, hhead, hwant'⟩ := hqueued.head_of_want (.task t) hwant
    rw [hlock, idxOf_append_of_mem hmem, head?_append, hhead, Option.some_or]
    refine ⟨?_, rfl, rfl⟩
    intro hl
    cases (hagent _ hl).symm.trans hwant'
  · left
    rw [hlock]
    apply Lineup.idxOf_tail_lt hhead hne

theorem Stopping.other
    {l : Label ω ι} (h : s.Stopping t) (hshut : s.Shut) (hqueued : s.Queued) (hl : l.task ≠ some t)
    (hnext : s.next l = some s') :
  s'.Stopping t ∧ ((∀ msg, l ≠ .put msg) → s'.measure t < s.measure t ∨
    l.agent ≠ some (s.helper t) ∧ s'.measure t = s.measure t ∧ s'.helper t = s.helper t)
  := by
  have hagent : l.agent ≠ some (.task t) := fun heq => hl (task_of_agent heq)
  rcases h with ⟨msg, hpc⟩ | hclosing
  · have hborn : t ≠ s.born := by
      rintro rfl
      cases hpc.symm.trans (hshut.single.unborn _ le_rfl)
    have hpc' : s'.tasks t = .cleared msg := (tasks_of_next hl hborn hnext).trans hpc
    refine ⟨.inl ⟨msg, hpc'⟩, fun _ => .inr ?_⟩
    simp only [measure, rank, place, helper, hpc, hpc', TaskPc.rank, TaskPc.locks]
    exact ⟨hagent, rfl, rfl⟩
  · have haside := hclosing.aside hshut hl hnext
    constructor
    · right
      rw [Closing, haside.stackTask, haside.shuttingDown, haside.openCount]
      exact ⟨hclosing.1, hclosing.2.1, rfl⟩
    · intro hput
      have hrank : s'.rank t = s.rank t := by
        rw [rank, rank, haside.tasks, haside.port hput]
      rw [measure, measure, hrank, Prod.Lex.toLex_lt_toLex]
      cases hlocks : (s.tasks t).locks with
      | true =>
        rcases Closing.waits haside hqueued hlocks with hlt | ⟨hne, hplace, hhelper⟩
        · left
          right
          exact ⟨rfl, hlt⟩
        · right
          rw [hplace, hhelper]
          exact ⟨hne, rfl, rfl⟩
      | false =>
        right
        rw [place, place, helper, helper, haside.tasks, hlocks]
        exact ⟨hagent, rfl, rfl⟩

theorem head_enabled
    {user : LockUser ω} (hshut : s.Shut) (hset : s.shuttingDown = true)
    (hhead : s.lock.head? = some user) (hwant : s.wants user.agent = some user) :
  (system ω ι).Enabled Label.agent user.agent s
  := by
  cases user with
  | libOpen o =>
    refine ⟨.libOpen o .ok true, rfl, ?_⟩
    have hclient : s.clients o = .opening := by
      have hstarts : (s.clients o).startsTask = true → False := fun hstarts =>
        Bool.noConfusion (hset.symm.trans (hshut.starter o hstarts).2)
      change (s.clients o).user o = _ at hwant
      cases hpc : s.clients o with
      | opening => rfl
      | starting | started ok => exact (hstarts (by rw [hpc]; rfl)).elim
      | _ =>
        rw [hpc] at hwant
        cases hwant
    change (s.next (.libOpen o .ok true)).isSome = true
    simp only [StackTasks.next]
    rw [if_pos ⟨hhead, hclient⟩]
    rfl
  | libClose o =>
    refine ⟨.libClose o, rfl, ?_⟩
    have hclient : s.clients o = .closing := by
      change (s.clients o).user o = _ at hwant
      cases hpc : s.clients o with
      | closing => rfl
      | _ =>
        rw [hpc] at hwant
        cases hwant
    change (s.next (.libClose o)).isSome = true
    simp only [StackTasks.next]
    rw [if_pos ⟨hhead, hclient⟩]
    rfl
  | task u =>
    refine ⟨.locked u, rfl, ?_⟩
    change (s.tasks u).user u = _ at hwant
    change (s.next (.locked u)).isSome = true
    simp only [StackTasks.next, StackTasks.taskSection]
    rw [if_pos hhead]
    cases hpc : s.tasks u with
    | lockShutdown m | lockCancel m | leaving msg => rfl
    | lockReady =>
      dsimp only
      split <;> rfl
    | _ =>
      rw [hpc] at hwant
      cases hwant

theorem Stopping.enabled_own
    (h : s.Stopping t) (hshut : s.Shut) (hlocks : (s.tasks t).locks = false) :
  (system ω ι).Enabled Label.agent (.task t) s
  := by
  have hstep : (s.taskStep t).isSome = true → (system ω ι).Enabled Label.agent (.task t) s :=
    fun hstep => ⟨.step t, rfl, hstep⟩
  rcases h with ⟨msg, hpc⟩ | ⟨hstack, hset, hzero⟩
  · apply hstep
    rw [StackTasks.taskStep, hpc]
    rfl
  obtain ⟨hlive, hfailed, hstarting⟩ := hshut.single.names t hstack
  cases hpc : s.tasks t with
  | waiting =>
    refine ⟨.wake t false, rfl, ?_⟩
    change (s.next (.wake t false)).isSome = true
    simp only [StackTasks.next, hpc]
    rw [hshut.woken t hstack hpc hset hzero]
    rfl
  | checking =>
    apply hstep
    simp only [StackTasks.taskStep, hpc]
    split <;> rfl
  | cancelled m =>
    have hflag : s.shuttingDown = false := hshut.fitsAt hpc
    cases hset.symm.trans hflag
  | starting o => exact absurd hpc (hstarting o)
  | failed => exact absurd hpc hfailed
  | unborn | cleared msg | ended =>
    rw [hpc] at hlive
    contradiction
  | lockShutdown m | lockCancel m | lockReady | leaving msg =>
    rw [hpc] at hlocks
    contradiction
  | _ =>
    apply hstep
    simp only [StackTasks.taskStep, hpc]
    rfl

theorem Stopping.enabled (h : s.Stopping t) (hshut : s.Shut) (hqueued : s.Queued) :
  (system ω ι).Enabled Label.agent (s.helper t) s
  := by
  cases hlocks : (s.tasks t).locks with
  | true =>
    obtain ⟨user, hhead, hwant'⟩ := hqueued.head_of_want (.task t) (wants_task hlocks)
    rw [helper, if_pos hlocks, hhead]
    rcases h with ⟨msg, hpc⟩ | ⟨-, hset, -⟩
    · rw [hpc] at hlocks
      contradiction
    · apply head_enabled hshut hset hhead hwant'
  | false =>
    rw [helper, hlocks]
    apply h.enabled_own hshut hlocks

theorem Stopping.next
    {l : Label ω ι} (h : s.Stopping t) (hshut : s.Shut) (hqueued : s.Queued) (hcalm : s.calm l)
    (hnext : s.next l = some s') :
  s'.Stopped t ∨ s'.Stopping t ∧ ((∀ msg, l ≠ .put msg) → s'.measure t < s.measure t ∨
    l.agent ≠ some (s.helper t) ∧ s'.measure t = s.measure t ∧ s'.helper t = s.helper t)
  := by
  by_cases hl : l.task = some t
  · rcases h.own hshut hcalm hl hnext with hstopped | ⟨hstopping, hrank⟩
    · left
      apply hstopped
    · right
      refine ⟨hstopping, fun _ => .inl ?_⟩
      rw [measure, measure, Prod.Lex.toLex_lt_toLex]
      left
      apply hrank
  · right
    apply h.other hshut hqueued hl hnext

theorem Stopping.leadsTo
    {b : (system ω ι).Behaviour} {n : ℕ} (hcalm : b.Meets calm) (hfair : b.Fair Label.agent)
    (hputs : ∃ N, ∀ k msg, N ≤ k → b.act k ≠ some (.put msg)) (h : (b.state n).Stopping t) :
  ∃ k, n ≤ k ∧ (b.state k).Stopped t
  := by
  obtain ⟨N, hN⟩ := hputs
  by_contra hnone
  have hnot : ∀ k, n ≤ k → ¬ (b.state k).Stopped t := fun k hk hstopped => hnone ⟨k, hk, hstopped⟩
  -- Up to the time of the last message, the task stays on its way.
  have hlast : (b.state (max n N)).Stopping t := by
    refine b.holds_to (P := fun s => s.Stopping t) h (le_max_left n N) fun i l hi _ hs hact => ?_
    have hreach := hcalm.reach i
    rcases hs.next (shut_of_reach hreach) (queued_of_reach hreach) (hcalm i l hact) (b.step i l hact)
      with hstopped | ⟨hstopping, -⟩
    · exact absurd hstopped (hnot (i + 1) (hi.trans (Nat.le_succ i)))
    · apply hstopping
  -- From there on, the measure decreases.
  obtain ⟨k, hk, hstopped⟩ := hfair.leadsTo (P := fun s => s.Stopping t) (Q := fun s => s.Stopped t)
    (fun s => s.measure t) (fun s => s.helper t)
    (fun k _ hs => hs.enabled (shut_of_reach (hcalm.reach k)) (queued_of_reach (hcalm.reach k)))
    (fun k l hk hs hact => by
      have hput : ∀ msg, l ≠ .put msg := by
        rintro msg rfl
        exact hN k msg ((le_max_right n N).trans hk) hact
      rcases hs.next (shut_of_reach (hcalm.reach k)) (queued_of_reach (hcalm.reach k)) (hcalm k l hact)
        (b.step k l hact) with hstopped | ⟨hstopping, hmeasure⟩
      · left
        apply hstopped
      · right
        exact ⟨hstopping, hmeasure hput⟩)
    hlast
  apply hnot k ((le_max_left n N).trans hk) hstopped

end StackTasks
