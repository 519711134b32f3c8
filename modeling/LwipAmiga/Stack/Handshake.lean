import LwipAmiga.Stack.Exit

/-!
# What a `SHUTDOWN` promises

A `SHUTDOWN` is answered with `NETCTL_OK` by a task that has decided to quit without a client.
-/

open Function List Option

namespace StackTasks

variable {ω ι : Type} {s s' : StackTasks ω ι} {t u : ℕ} {o : ω} {m : ι} {l : Label ω ι}

/-! ### Answers -/

def Answers (s s' : StackTasks ω ι) (msg : CtlMsg ι) (result : NetctlResult) : Prop :=
  ∃ new, s'.log = new ++ s.log ∧ (msg, result) ∈ new

def Answering (s : StackTasks ω ι) (t : ℕ) : CtlMsg ι → Prop
  | .shutdown m => s.tasks t = .cleared (some m)
  | .cancelShutdown m => s.tasks t = .cancelled m
  | .other _ => False

variable [DecidableEq ω]

theorem log_of_next (hnext : s.next l = some s') :
  ∃ new, s'.log = new ++ s.log ∧ ∀ msg, (msg, .ok) ∈ new → ∃ t, l = .step t ∧ s.Answering t msg
  := by
  cases step_of_next hnext with
  | registered _ _ alloc | resumed _ alloc => cases alloc <;> exact ⟨[], rfl, nofun⟩
  | handshake _ _ ok => cases ok <;> exact ⟨[], rfl, nofun⟩
  | answered t msg queue new _ _ hnew => exact ⟨new, rfl, fun msg hmsg => absurd hmsg (hnew msg)⟩
  | unparked t m hpc =>
    refine ⟨_, cons_append.symm, ?_⟩
    intro msg hmsg
    rcases mem_cons.mp hmsg with heq | hparked
    · cases heq
      exact ⟨t, rfl, hpc⟩
    · obtain ⟨m', -, heq⟩ := mem_map.mp hparked
      cases heq
  | stops t =>
    refine ⟨_, rfl, ?_⟩
    intro msg hmsg
    obtain ⟨msg', -, heq⟩ := mem_map.mp hmsg
    cases heq
  | ends t msg hpc =>
    refine ⟨_, rfl, ?_⟩
    intro msg' hmsg
    obtain ⟨m, hm, heq⟩ := mem_map.mp hmsg
    cases heq
    rw [mem_toList] at hm
    refine ⟨t, rfl, ?_⟩
    rw [Answering, hpc, hm]
  | _ => exact ⟨[], rfl, nofun⟩

theorem answering_of_answers
    {msg : CtlMsg ι} (hnext : s.next l = some s') (h : s.Answers s' msg .ok) :
  ∃ t, l = .step t ∧ s.Answering t msg
  := by
  obtain ⟨new, hlog, hmem⟩ := h
  obtain ⟨new', hlog', hnew'⟩ := log_of_next hnext
  rw [hlog] at hlog'
  apply hnew' msg (append_cancel_right hlog' ▸ hmem)

/-! ### Clients that come in again -/

def Admits (s : StackTasks ω ι) (t : ℕ) : Prop :=
  s.stackTask = some t ∧ (s.tasks t).inLoop = true ∧ s.shuttingDown = false

def Accepts (s : StackTasks ω ι) : Label ω ι → Prop
  | .locked t => ∃ m, s.tasks t = .lockShutdown m
  | _ => False

theorem Admits.own
    (h : s.Admits t) (hshut : s.Shut) (hcalm : s.calm l) (hl : l.task = some t) (hnot : ¬ s.Accepts l)
    (hnext : s.next l = some s') :
  s'.Admits t
  := by
  obtain ⟨hstack, hloop, hclear⟩ := h
  have hself : ∀ pc : TaskPc ω ι, (update s.tasks t pc) t = pc := fun pc =>
    update_self ..
  have hgo : ∀ pc : TaskPc ω ι, pc.inLoop = true → s'.tasks = update s.tasks t pc →
      s'.stackTask = s.stackTask → s'.shuttingDown = s.shuttingDown → s'.Admits t := by
    intro pc hpc htasks hstack' hflag'
    rw [Admits, htasks, hself, hstack', hflag']
    exact ⟨hstack, hpc, hclear⟩
  cases step_of_next hnext with
  | wake u tick =>
    cases hl
    exact hgo (if s.sigCtl then .serving else .checking) (by split <;> rfl) rfl rfl rfl
  | ctrlC => contradiction
  | served =>
    cases hl
    exact hgo .checking rfl rfl rfl rfl
  | asked u m =>
    cases hl
    exact hgo (.lockShutdown m) rfl rfl rfl rfl
  | cancels u m =>
    cases hl
    exact hgo (.lockCancel m) rfl rfl rfl rfl
  | answered => exact ⟨hstack, hloop, hclear⟩
  | parked u m hpc | cancelled u m hpc | quits u hpc | stays u hpc =>
    cases hl
    cases hclear.symm.trans (hshut.fitsAt hpc).1
  | unparked =>
    cases hl
    exact hgo .serving rfl rfl rfl rfl
  | ready u m hpc hsome =>
    cases hl
    obtain ⟨hflag, -⟩ := hshut.fitsAt hpc
    rw [hclear, hsome] at hflag
    contradiction
  | waits =>
    cases hl
    exact hgo .waiting rfl rfl rfl rfl
  | setShutdown u m hpc => exact absurd ⟨m, hpc⟩ hnot
  -- The other places of a task are not in its loop.
  | _ =>
    cases hl
    all_goals
      rw [‹s.tasks t = _›] at hloop
      contradiction

theorem shared_of_next (hl : l.task = none) (hnext : s.next l = some s') :
  s'.stackTask = s.stackTask ∧ s'.shuttingDown = s.shuttingDown
  := by
  cases step_of_next hnext with
  | registered _ _ alloc | resumed _ alloc => cases alloc <;> exact ⟨rfl, rfl⟩
  | _ => first | exact ⟨rfl, rfl⟩ | cases hl

theorem Admits.next
    (h : s.Admits t) (hshut : s.Shut) (hcalm : s.calm l) (hnot : ¬ s.Accepts l)
    (hnext : s.next l = some s') :
  s'.Admits t
  := by
  obtain ⟨hstack, hloop, hclear⟩ := id h
  have hlive : (s.tasks t).live = true := (hshut.single.names t hstack).1
  have hborn : t ≠ s.born := by
    rintro rfl
    rw [hshut.single.unborn _ le_rfl] at hlive
    contradiction
  cases htask : l.task with
  | none =>
    have hne : l.task ≠ some t := by
      rw [htask]
      nofun
    obtain ⟨hstack', hflag'⟩ := shared_of_next htask hnext
    rw [Admits, hstack', hflag', tasks_of_next hne hborn hnext]
    apply h
  | some u =>
    by_cases hne : u = t
    · subst hne
      apply h.own hshut hcalm htask hnot hnext
    · obtain ⟨msg, -, -, rfl⟩ := lastAct_of_dead htask (hshut.dead_of_ne hlive hne) hnext
      refine ⟨hstack, ?_, hclear⟩
      change (update s.tasks u _ t).inLoop = true
      rw [update_of_ne fun heq => hne heq.symm]
      apply hloop

theorem Admits.libOpen {spawn : SpawnResult} (h : s.Admits t) :
  (s.libOpen o spawn true).clients o = .opened ∧ o ∈ (s.libOpen o spawn true).openers
  := by
  obtain ⟨hstack, -, hclear⟩ := h
  have hregister : s.libOpen o spawn true = s.register o true := by
    unfold StackTasks.libOpen
    rw [hclear, hstack]
    rfl
  rw [hregister]
  constructor
  · apply update_self
  · apply mem_append_right _ mem_cons_self

/-! ### The handshake -/

structure ShutdownHandshake (b : (system ω ι).Behaviour) : Prop where
  granted : ∀ n m, (b.state n).Answers (b.state (n + 1)) (.shutdown m) .ok →
    ∃ t, (b.state n).tasks t = .cleared (some m) ∧ (b.state n).Settled t m
  cancelled : ∀ n m, (b.state n).Answers (b.state (n + 1)) (.cancelShutdown m) .ok →
    (b.state (n + 1)).shuttingDown = false ∧
      ∀ k o spawn, n < k →
        (∀ i l, n < i → i < k → b.act i = some l → ¬ (b.state i).Accepts l) →
        b.act k = some (.libOpen o spawn true) →
        (b.state (k + 1)).clients o = .opened ∧ o ∈ (b.state (k + 1)).openers
  exits : b.Fair Label.agent → (∃ N, ∀ k msg, N ≤ k → b.act k ≠ some (.put msg)) →
    ∀ n o, b.act n = some (.libClose o) → (b.state n).shuttingDown = true →
      (b.state (n + 1)).openCount = 0 →
      ∃ t k, (b.state n).stackTask = some t ∧ n < k ∧ (b.state k).Stopped t

/-- A behaviour whose steps are all calm keeps what a `SHUTDOWN` promises. -/
theorem shutdown_handshake (b : (system ω ι).Behaviour) (hcalm : b.Meets calm) :
  ShutdownHandshake b
  := by
  have hshut : ∀ n, (b.state n).Shut := fun n => shut_of_reach (hcalm.reach n)
  have hanswers : ∀ n msg, (b.state n).Answers (b.state (n + 1)) msg .ok →
      ∃ t, b.act n = some (.step t) ∧ (b.state n).Answering t msg := by
    intro n msg h
    cases hact : b.act n with
    | none =>
      obtain ⟨new, hlog, hmem⟩ := h
      rw [b.pause n hact, self_eq_append_left] at hlog
      rw [hlog] at hmem
      contradiction
    | some l =>
      obtain ⟨t, rfl, hpc⟩ := answering_of_answers (b.step n l hact) h
      exact ⟨t, rfl, hpc⟩
  constructor
  · intro n m h
    obtain ⟨t, -, hpc⟩ := hanswers n _ h
    exact ⟨t, hpc, (hshut n).fitsAt hpc m rfl⟩
  · intro n m h
    obtain ⟨t, hact, hpc⟩ := hanswers n _ h
    have hadmits : (b.state n).Admits t := by
      refine ⟨(hshut n).single.named t ?_, ?_, (hshut n).fitsAt hpc⟩
      all_goals
        rw [show (b.state n).tasks t = .cancelled m from hpc]
        rfl
    have hnot : ∀ l, b.act n = some l → ¬ (b.state n).Accepts l := by
      intro l hl
      cases hact.symm.trans hl
      apply id
    have hlets : ∀ k, n < k →
        (∀ i l, n < i → i < k → b.act i = some l → ¬ (b.state i).Accepts l) →
        (b.state k).Admits t := by
      intro k hk haccepts
      refine b.holds_to (P := fun s => s.Admits t) hadmits hk.le fun i l hi hik hs hl => ?_
      refine hs.next (hshut i) (hcalm i l hl) ?_ (b.step i l hl)
      rcases hi.eq_or_lt with rfl | hlt
      · apply hnot l hl
      · apply haccepts i l hlt hik hl
    constructor
    · apply (hlets (n + 1) (Nat.lt_succ_self n) fun i l hi hik => absurd hik (by omega)).2.2
    · intro k o spawn hk haccepts hl
      have hnext := b.step k _ hl
      obtain ⟨-, heq⟩ := ite_none_right_eq_some.mp hnext
      rw [← some.inj heq]
      apply (hlets k hk haccepts).libOpen
  · intro hfair hputs n o hl hset hzero
    obtain ⟨t, hstack⟩ := (hshut n).flag hset
    have hnext := b.step n _ hl
    obtain ⟨hstack', hset'⟩ := shared_of_next (l := .libClose o) rfl hnext
    have hstopping : (b.state (n + 1)).Stopping t :=
      .inr ⟨hstack'.trans hstack, hset'.trans hset, hzero⟩
    obtain ⟨k, hk, hstopped⟩ := hstopping.leadsTo hcalm hfair hputs
    exact ⟨t, k, hstack, hk, hstopped⟩

theorem not_enabled_of_quiet
    {a : Agent ω} (hlock : s.lock = []) (htasks : ∀ t, s.tasks t = .unborn ∨ s.tasks t = .ended) :
  ¬ (system ω ι).Enabled Label.agent a s
  := by
  have hhead : ∀ user, s.lock.head? ≠ some user := by
    rw [hlock]
    nofun
  have hpcs : ∀ t pc, s.tasks t = pc → pc = .unborn ∨ pc = .ended := by
    rintro t pc rfl
    apply htasks t
  rintro ⟨l, hagent, hsome⟩
  obtain ⟨s', hnext⟩ := isSome_iff_exists.mp hsome
  change s.next l = some s' at hnext
  cases step_of_next hnext
  all_goals
    first
      | exact hhead _ ‹_›
      | exact absurd (hpcs _ _ ‹_›) (by simp)
      | cases hagent

def secondRun : List (Label (Fin 2) ℕ) :=
  [.callOpen 0, .libOpen 0 .ok true, .handshake 0 true, .resume 0 true,
    .put (.shutdown 1), .wake 0 false, .step 0, .locked 0, .step 0, .step 0, .step 0, .locked 0,
    .put (.cancelShutdown 2), .wake 0 false, .step 0, .locked 0, .step 0,
    .callOpen 1, .libOpen 1 .ok true, .step 0, .step 0,
    .put (.shutdown 3), .wake 0 false, .step 0, .locked 0, .step 0, .step 0, .step 0, .locked 0,
    .callClose 0, .libClose 0, .callClose 1, .libClose 1,
    .wake 0 false, .step 0, .locked 0, .step 0, .step 0, .locked 0, .step 0]

theorem secondRun_enabled :
  ((system (Fin 2) ℕ).exec start secondRun).isSome = true
  := by decide

def secondBehaviour : (system (Fin 2) ℕ).Behaviour :=
  .ofList start secondRun rfl secondRun_enabled

def secondEnd : StackTasks (Fin 2) ℕ :=
  (system (Fin 2) ℕ).last start secondRun secondRun_enabled

theorem secondBehaviour_calm :
  secondBehaviour.Meets calm
  := by
  apply TransitionSystem.Behaviour.meets_ofList
  decide

theorem secondBehaviour_fair :
  secondBehaviour.Fair Label.agent
  := by
  have hexec : (system (Fin 2) ℕ).exec start secondRun = some secondEnd :=
    (some_get secondRun_enabled).symm
  have hshut : secondEnd.Shut :=
    shut_of_reach (TransitionSystem.reach_last rfl (by decide))
  have hborn : secondEnd.born = 1 := by decide
  refine TransitionSystem.Behaviour.fair_ofList rfl hexec fun a => not_enabled_of_quiet ?_ ?_
  · decide
  · intro t
    cases t with
    | zero =>
      right
      decide
    | succ t =>
      left
      apply hshut.single.unborn
      rw [hborn]
      apply Nat.le_add_left

/-- The shutdown is taken back at time 16, the client comes in at 18, the last one leaves at 32, and the
second shutdown is granted at 39. -/
theorem shutdown_handshake_second :
  ShutdownHandshake secondBehaviour ∧ secondBehaviour.Fair Label.agent ∧
    (∃ t k, (secondBehaviour.state 32).stackTask = some t ∧ 32 < k ∧
      (secondBehaviour.state k).Stopped t) ∧
    (secondBehaviour.state 40).log =
      [(.shutdown 3, .ok), (.cancelShutdown 2, .ok), (.shutdown 1, .errAborted)]
  := by
  have h : ShutdownHandshake secondBehaviour := shutdown_handshake _ secondBehaviour_calm
  refine ⟨h, secondBehaviour_fair, ?_, by decide⟩
  refine h.exits secondBehaviour_fair ⟨40, ?_⟩ 32 1 rfl (by decide) (by decide)
  intro k msg hk hput
  have hnone : secondRun[k]? = none := getElem?_eq_none_iff.mpr hk
  cases hnone.symm.trans hput

def strayRun : List (Label (Fin 2) ℕ) :=
  [.callOpen 0, .libOpen 0 .ok true, .callOpen 1, .handshake 0 false, .resume 0 true,
    .libOpen 1 .ok true, .handshake 1 true, .resume 1 true, .put (.shutdown 0), .wake 1 false,
    .step 1, .locked 1, .step 1, .step 0, .step 0, .locked 0, .step 0]

theorem strayRun_enabled :
  ((system (Fin 2) ℕ).exec start strayRun).isSome = true
  := by decide

def strayBehaviour : (system (Fin 2) ℕ).Behaviour :=
  .ofList start strayRun rfl strayRun_enabled

/-- The `SHUTDOWN` is granted by a task that has never decided to quit, with a client registered and
while the task that accepted it goes on to serve. -/
theorem shutdown_answered_by_failed_task :
  (∀ t, Label.ctrlC t ∉ strayRun) ∧
    (strayBehaviour.state 16).Answers (strayBehaviour.state 17) (.shutdown 0) .ok ∧
    (strayBehaviour.state 16).openers = [1] ∧ (strayBehaviour.state 16).tasks 1 = .serving ∧
    (∀ t, (strayBehaviour.state 16).decided t = none) ∧ ¬ ShutdownHandshake strayBehaviour
  := by
  have hanswers : (strayBehaviour.state 16).Answers (strayBehaviour.state 17) (.shutdown 0) .ok := by
    refine ⟨[(.shutdown 0, .ok)], ?_, mem_cons_self⟩
    decide
  have hdecided : ∀ t, (strayBehaviour.state 16).decided t = none := fun t => rfl
  refine ⟨?_, hanswers, by decide, by decide, hdecided, ?_⟩
  · intro t
    simp [strayRun]
  · intro h
    obtain ⟨t, -, -, hsettled⟩ := h.granted 16 0 hanswers
    cases (hdecided t).symm.trans hsettled

end StackTasks
