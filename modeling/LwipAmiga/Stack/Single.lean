import LwipAmiga.Stack.Tasks

/-!
# One stack task

A stack task that fails to start signals its starter before it queues for the lock under which it
clears `stackTask`.
-/

open Function TransitionSystem

namespace StackTasks

variable {ω ι : Type} {s s' : StackTasks ω ι} {t : ℕ} {o : ω}

def OneStack (s : StackTasks ω ι) : Prop :=
  (∀ t t', (s.tasks t).pastHandshake = true → (s.tasks t').pastHandshake = true → t = t') ∧
    ∀ t, (s.tasks t).inLoop = true → s.stackTask = some t

structure Single (s : StackTasks ω ι) : Prop where
  one : ∀ t t', (s.tasks t).live = true → (s.tasks t').live = true → t = t'
  named : ∀ t, (s.tasks t).serves = true → s.stackTask = some t
  names : ∀ t, s.stackTask = some t → (s.tasks t).live = true ∧ s.tasks t ≠ .failed ∧
    ∀ o, s.tasks t ≠ .starting o
  starter : ∀ t o, s.tasks t = .starting o →
    s.lock.head? = some (.libOpen o) ∧ s.clients o = .starting
  unborn : ∀ t, s.born ≤ t → s.tasks t = .unborn

theorem live_of_serves {pc : TaskPc ω ι} (h : pc.serves = true) :
  pc.live = true
  := by
  cases pc <;> simp_all [TaskPc.serves, TaskPc.inLoop, TaskPc.live, TaskPc.pastHandshake]

theorem live_of_pastHandshake {pc : TaskPc ω ι} (h : pc.pastHandshake = true) :
  pc.live = true
  := by
  cases pc <;> simp_all [TaskPc.serves, TaskPc.inLoop, TaskPc.live, TaskPc.pastHandshake]

theorem serves_of_inLoop {pc : TaskPc ω ι} (h : pc.inLoop = true) :
  pc.serves = true
  := by
  cases pc <;> simp_all [TaskPc.serves, TaskPc.inLoop]

theorem Single.oneStack (h : s.Single) :
  s.OneStack
  := by
  constructor
  · intro t t' ht ht'
    apply h.one t t' (live_of_pastHandshake ht) (live_of_pastHandshake ht')
  · intro t ht
    apply h.named t (serves_of_inLoop ht)

/-! ### Steps of the tasks -/

theorem Single.move
    (h : s.Single) (pc : TaskPc ω ι) (hlive : (s.tasks t).live = true)
    (htasks : s'.tasks = update s.tasks t pc) (hborn : s'.born = s.born)
    (hstart : ∀ o, pc ≠ .starting o) (hnamed : pc.serves = true → s'.stackTask = some t)
    (hnames : ∀ u, s'.stackTask = some u → u = t ∧ pc.live = true ∧ pc ≠ .failed) :
  s'.Single
  := by
  have hself : s'.tasks t = pc := by rw [htasks, update_self]
  -- The others are not live, before the step and behind it.
  have hother : ∀ u, u ≠ t → (s'.tasks u).live = false := by
    intro u hne
    rw [htasks, update_of_ne hne, ← Bool.not_eq_true]
    intro hu
    apply hne (h.one u t hu hlive)
  have honly : ∀ u, (s'.tasks u).live = true → u = t := by
    intro u hu
    by_contra hne
    rw [hother u hne] at hu
    contradiction
  constructor
  · intro u u' hu hu'
    rw [honly u hu, honly u' hu']
  · intro u hu
    obtain rfl := honly u (live_of_serves hu)
    rw [hself] at hu
    apply hnamed hu
  · intro u hu
    obtain ⟨rfl, hpc, hfailed⟩ := hnames u hu
    rw [hself]
    exact ⟨hpc, hfailed, hstart⟩
  · intro u o hu
    obtain rfl := honly u (by rw [hu]; rfl)
    rw [hself] at hu
    exact absurd hu (hstart o)
  · intro u hu
    rw [hborn] at hu
    have hne : u ≠ t := by
      rintro rfl
      rw [h.unborn u hu] at hlive
      contradiction
    rw [htasks, update_of_ne hne]
    apply h.unborn u hu

theorem Single.of_tasks
    (h : s.Single) (htasks : s'.tasks = s.tasks) (hborn : s'.born = s.born)
    (hstack : s'.stackTask = s.stackTask)
    (hstarter : ∀ o, s.lock.head? = some (.libOpen o) → s.clients o = .starting →
      s'.lock.head? = some (.libOpen o) ∧ s'.clients o = .starting) :
  s'.Single
  := by
  constructor
  · rw [htasks]
    apply h.one
  · rw [htasks, hstack]
    apply h.named
  · rw [htasks, hstack]
    apply h.names
  · intro t o ht
    rw [htasks] at ht
    obtain ⟨hlock, hclient⟩ := h.starter t o ht
    apply hstarter o hlock hclient
  · rw [htasks, hborn]
    apply h.unborn

theorem Single.eq_of_stackTask
    {u : ℕ} (h : s.Single) (hlive : (s.tasks t).live = true) (hu : s.stackTask = some u) :
  u = t
  := h.one u t (h.names u hu).1 hlive

theorem Single.moveOn
    (h : s.Single) (pc : TaskPc ω ι) (hlive : (s.tasks t).live = true)
    (htasks : s'.tasks = update s.tasks t pc) (hborn : s'.born = s.born)
    (hstack : s'.stackTask = s.stackTask) (hpast : pc.pastHandshake = true) (hfailed : pc ≠ .failed)
    (hserves : pc.serves = true → (s.tasks t).serves = true) :
  s'.Single
  := by
  apply h.move pc hlive htasks hborn
  · rintro o rfl
    contradiction
  · intro hpc
    rw [hstack]
    apply h.named t (hserves hpc)
  · intro u hu
    rw [hstack] at hu
    exact ⟨h.eq_of_stackTask hlive hu, live_of_pastHandshake hpast, hfailed⟩

theorem Single.afterwards
    {msg : Option ι} (h : s.Single) (hpc : s.tasks t = .cleared msg)
    (htasks : s'.tasks = update s.tasks t .ended) (hborn : s'.born = s.born)
    (hstack : s'.stackTask = s.stackTask) (hlock : s'.lock = s.lock)
    (hclients : s'.clients = s.clients) :
  s'.Single
  := by
  have hother : ∀ u, (s'.tasks u).live = true → s'.tasks u = s.tasks u := by
    intro u hu
    rw [htasks] at hu ⊢
    apply update_of_ne
    rintro rfl
    rw [update_self] at hu
    contradiction
  have hsame : ∀ u, (s.tasks u).live = true → s'.tasks u = s.tasks u := by
    intro u hu
    rw [htasks]
    apply update_of_ne
    rintro rfl
    rw [hpc] at hu
    contradiction
  constructor
  · intro u u' hu hu'
    rw [hother u hu] at hu
    rw [hother u' hu'] at hu'
    apply h.one u u' hu hu'
  · intro u hu
    rw [hother u (live_of_serves hu)] at hu
    rw [hstack]
    apply h.named u hu
  · intro u hu
    rw [hstack] at hu
    rw [hsame u (h.names u hu).1]
    apply h.names u hu
  · intro u o hu
    rw [hother u (by rw [hu]; rfl)] at hu
    rw [hlock, hclients]
    apply h.starter u o hu
  · intro u hu
    rw [hborn] at hu
    have hne : u ≠ t := by
      rintro rfl
      rw [h.unborn u hu] at hpc
      contradiction
    rw [htasks, update_of_ne hne]
    apply h.unborn u hu

variable [DecidableEq ω]

theorem Single.handshake (h : s.Single) (hpc : s.tasks t = .starting o) (ok : Bool) :
  (s.handshake t o ok).Single
  := by
  have hlive : (s.tasks t).live = true := by
    rw [hpc]
    rfl
  cases ok with
  | true =>
    refine h.move .waiting hlive rfl rfl nofun (fun _ => rfl) ?_
    rintro u ⟨⟩
    exact ⟨rfl, rfl, nofun⟩
  | false =>
    refine h.move .failed hlive rfl rfl nofun nofun ?_
    intro u hu
    obtain rfl := h.eq_of_stackTask hlive hu
    exact absurd hpc ((h.names u hu).2.2 o)

omit [DecidableEq ω] in
theorem Single.loopOn
    (h : s.Single) (pc : TaskPc ω ι) (hloop : (s.tasks t).inLoop = true) (hpc : pc.inLoop = true)
    (htasks : s'.tasks = update s.tasks t pc) (hborn : s'.born = s.born)
    (hstack : s'.stackTask = s.stackTask) :
  s'.Single
  := by
  have hserves := serves_of_inLoop hloop
  have hpast : pc.pastHandshake = true := by
    rw [TaskPc.pastHandshake, serves_of_inLoop hpc, Bool.true_or]
  refine h.moveOn pc (live_of_serves hserves) htasks hborn hstack hpast ?_ fun _ => hserves
  rintro rfl
  contradiction

/-! ### Steps of the clients -/

omit [DecidableEq ω] in
theorem not_starting
    {user : LockUser ω} (hhead : s.lock.head? = some user)
    (huser : ∀ o, user = .libOpen o → s.clients o ≠ .starting)
    {P : ω → Prop} :
  ∀ o, s.lock.head? = some (.libOpen o) → s.clients o = .starting → P o
  := by
  intro o ho hclient
  rw [hhead] at ho
  exact absurd hclient (huser o (Option.some.inj ho))

theorem Single.call
    {pc : ClientPc} {user : LockUser ω} (h : s.Single) (hclient : s.clients o ≠ .starting) :
  ({ s.setClient o pc with lock := s.lock ++ [user] }).Single
  := by
  refine h.of_tasks rfl rfl rfl ?_
  intro o' hhead hstarting
  constructor
  · rw [List.head?_append, hhead, Option.some_or]
  · apply (update_of_ne _ ..).trans hstarting
    rintro rfl
    contradiction

theorem Single.sbStackStart
    (h : s.Single) (hhead : s.lock.head? = some (.libOpen o)) (hclient : s.clients o = .opening)
    (hstack : s.stackTask = none) (hquiet : ∀ t < s.born, (s.tasks t).goingOut = false) :
  (s.sbStackStart o).Single
  := by
  -- There is no other task.
  have hdead : ∀ u, (s.tasks u).live = false := by
    intro u
    rw [← Bool.not_eq_true]
    intro hlive
    have hserves : (s.tasks u).serves = false := by
      rw [← Bool.not_eq_true]
      intro hserves
      rw [h.named u hserves] at hstack
      contradiction
    have hborn : u < s.born := by
      by_contra hge
      rw [h.unborn u (Nat.le_of_not_lt hge)] at hlive
      contradiction
    have hout := hquiet u hborn
    cases hpc : s.tasks u with
    | starting o' =>
      obtain ⟨hhead', hclient'⟩ := h.starter u o' hpc
      rw [hhead] at hhead'
      cases Option.some.inj hhead'
      rw [hclient] at hclient'
      contradiction
    | _ => simp_all [TaskPc.live, TaskPc.pastHandshake, TaskPc.serves, TaskPc.inLoop, TaskPc.goingOut]
  have hnew : ∀ u, ((s.sbStackStart o).tasks u).live = true → u = s.born := by
    intro u hu
    by_contra hne
    rw [StackTasks.sbStackStart] at hu
    dsimp only at hu
    rw [update_of_ne hne, hdead u] at hu
    contradiction
  have hself : (s.sbStackStart o).tasks s.born = .starting o := update_self ..
  constructor
  · intro u u' hu hu'
    rw [hnew u hu, hnew u' hu']
  · intro u hu
    obtain rfl := hnew u (live_of_serves hu)
    rw [hself] at hu
    contradiction
  · intro u hu
    change s.stackTask = some u at hu
    rw [hstack] at hu
    contradiction
  · intro u o' hu
    obtain rfl := hnew u (by rw [hu]; rfl)
    rw [hself] at hu
    cases hu
    exact ⟨hhead, update_self ..⟩
  · intro u hu
    have hne : u ≠ s.born := Nat.ne_of_gt hu
    apply (update_of_ne hne ..).trans
    apply h.unborn u (Nat.le_of_succ_le hu)

theorem Single.refuse
    (h : s.Single) (hhead : s.lock.head? = some (.libOpen o)) (hclient : s.clients o ≠ .starting) :
  (s.refuse o).Single
  := by
  refine h.of_tasks rfl rfl rfl ?_
  apply not_starting hhead
  rintro o' ⟨⟩
  apply hclient

theorem Single.register
    (h : s.Single) (hhead : s.lock.head? = some (.libOpen o)) (hclient : s.clients o ≠ .starting)
    (alloc : Bool) :
  (s.register o alloc).Single
  := by
  cases alloc with
  | true =>
    refine h.of_tasks rfl rfl rfl ?_
    apply not_starting hhead
    rintro o' ⟨⟩
    apply hclient
  | false => apply h.refuse hhead hclient

theorem Single.step {l : Label ω ι} (h : s.Single) (hquiet : s.quietStart l)
    (hnext : s.next l = some s') :
  s'.Single
  := by
  cases step_of_next hnext with
  | callOpen o hclient => exact h.call (by simp [hclient])
  | refused o _ _ hhead hclient => exact h.refuse hhead (by simp [hclient])
  | registered o _ alloc hhead hclient => exact h.register hhead (by simp [hclient]) alloc
  | zeroed o _ hhead hclient =>
    have hzeroed : ({ s with pendingShutdown := none }).Single :=
      ⟨h.one, h.named, h.names, h.starter, h.unborn⟩
    exact hzeroed.refuse hhead (by simp [hclient])
  | started o _ hhead hclient hclear hstack =>
    apply h.sbStackStart hhead hclient hstack (hquiet hclear hstack)
  | resumed o alloc hhead hclient => exact h.register hhead (by simp [hclient]) alloc
  | unresumed o _ hhead hclient => exact h.refuse hhead (by simp [hclient])
  | callClose o hclient => exact h.call (by simp [hclient])
  | libClose o hhead =>
    refine h.of_tasks rfl rfl rfl ?_
    apply not_starting hhead
    nofun
  | put msg queue => exact ⟨h.one, h.named, h.names, h.starter, h.unborn⟩
  | handshake t o ok hpc => apply h.handshake hpc
  | wake t _ hpc =>
    exact h.loopOn (if s.sigCtl then .serving else .checking) (by rw [hpc]; rfl)
      (by split <;> rfl) rfl rfl rfl
  | served t hpc => exact h.loopOn .checking (by rw [hpc]; rfl) rfl rfl rfl rfl
  | asked t m _ _ hpc => exact h.loopOn (.lockShutdown m) (by rw [hpc]; rfl) rfl rfl rfl rfl
  | cancels t m _ _ _ hpc => exact h.loopOn (.lockCancel m) (by rw [hpc]; rfl) rfl rfl rfl rfl
  | answered => exact ⟨h.one, h.named, h.names, h.starter, h.unborn⟩
  | parked t _ hpc => exact h.loopOn .serving (by rw [hpc]; rfl) rfl rfl rfl rfl
  | unparked t _ hpc => exact h.loopOn .serving (by rw [hpc]; rfl) rfl rfl rfl rfl
  | ready t _ hpc => exact h.loopOn .lockReady (by rw [hpc]; rfl) rfl rfl rfl rfl
  | waits t hpc => exact h.loopOn .waiting (by rw [hpc]; rfl) rfl rfl rfl rfl
  | setShutdown t m hpc => exact h.loopOn (.setShutdown m) (by rw [hpc]; rfl) rfl rfl rfl rfl
  | cancelled t m hpc => exact h.loopOn (.cancelled m) (by rw [hpc]; rfl) rfl rfl rfl rfl
  | stays t hpc => exact h.loopOn .waiting (by rw [hpc]; rfl) rfl rfl rfl rfl
  -- Out of its loop the task goes on to its end.
  | ctrlC t hpc =>
    exact h.moveOn .quitting (by rw [hpc]; rfl) rfl rfl rfl rfl nofun fun _ => by rw [hpc]; rfl
  | quits t hpc =>
    exact h.moveOn .quitting (by rw [hpc]; rfl) rfl rfl rfl rfl nofun fun _ => by rw [hpc]; rfl
  | stops t hpc =>
    exact h.moveOn (.captured s.pendingShutdown) (by rw [hpc]; rfl) rfl rfl rfl rfl nofun nofun
  | fails t hpc =>
    exact h.moveOn (.captured s.pendingShutdown) (by rw [hpc]; rfl) rfl rfl rfl rfl nofun nofun
  | leaves t msg hpc => exact h.moveOn (.leaving msg) (by rw [hpc]; rfl) rfl rfl rfl rfl nofun nofun
  | cleared t msg hpc => exact h.move (.cleared msg) (by rw [hpc]; rfl) rfl rfl nofun nofun nofun
  | ends t msg hpc => exact h.afterwards hpc rfl rfl rfl rfl rfl

theorem single_of_reach (h : (system ω ι).Reach quietStart s) :
  s.Single
  := by
  apply h.invariant
  · rintro s rfl
    exact ⟨nofun, nofun, nofun, nofun, fun _ _ => rfl⟩
  · intro s l s' hs hquiet hnext
    apply hs.step hquiet hnext

/-- At most one stack task is alive past its handshake, and `stackTask` names the one that runs its
loop. -/
theorem one_stack_task (h : (system ω ι).Reach quietStart s) :
  s.OneStack
  := (single_of_reach h).oneStack

/-! ### Runs of three clients -/

def quietRun : List (Label (Fin 3) ℕ) :=
  [.callOpen 0, .libOpen 0 .ok true, .handshake 0 false, .resume 0 true, .step 0, .step 0, .locked 0,
    .callOpen 1, .libOpen 1 .ok true, .handshake 1 true, .resume 1 true, .callClose 1, .libClose 1,
    .put (.shutdown 0), .wake 1 false, .step 1, .locked 1, .step 1, .step 1, .step 1, .locked 1,
    .callOpen 2, .step 1, .libOpen 2 .ok true, .step 1, .locked 1, .callOpen 2, .libOpen 2 .ok true,
    .handshake 2 true, .step 1, .resume 2 true]

theorem quietRun_enabled :
  ((system (Fin 3) ℕ).exec start quietRun).isSome = true
  := by
  decide

def quietEnd : StackTasks (Fin 3) ℕ :=
  (system (Fin 3) ℕ).last start quietRun quietRun_enabled

theorem one_stack_task_quiet :
  quietEnd.tasks 0 = .cleared none ∧ quietEnd.tasks 1 = .ended ∧ quietEnd.tasks 2 = .waiting ∧
    quietEnd.stackTask = some 2
  := by
  have hreach : (system (Fin 3) ℕ).Reach quietStart quietEnd :=
    reach_last rfl (by decide)
  have hpc : quietEnd.tasks 2 = .waiting := by decide
  refine ⟨by decide, by decide, hpc, ?_⟩
  apply (one_stack_task hreach).2
  rw [hpc]
  rfl

def overtakenRun : List (Label (Fin 3) ℕ) :=
  [.callOpen 0, .libOpen 0 .ok true, .callOpen 1, .handshake 0 false, .step 0, .step 0, .resume 0 true,
    .libOpen 1 .ok true, .handshake 1 true, .resume 1 true, .locked 0, .callOpen 2,
    .libOpen 2 .ok true, .handshake 2 true]

theorem overtakenRun_enabled :
  ((system (Fin 3) ℕ).exec start overtakenRun).isSome = true
  := by
  decide

def overtakenEnd : StackTasks (Fin 3) ℕ :=
  (system (Fin 3) ℕ).last start overtakenRun overtakenRun_enabled

/-- The failed task has cleared the pointer of the second, which is in its loop like the third. -/
theorem failed_task_clears_pointer :
  (system (Fin 3) ℕ).Reachable overtakenEnd ∧
    overtakenEnd.tasks 1 = .waiting ∧ overtakenEnd.tasks 2 = .waiting ∧
    overtakenEnd.stackTask ≠ some 1 ∧ ¬ overtakenEnd.OneStack
  := by
  have hone : overtakenEnd.tasks 1 = .waiting := by decide
  have hstack : overtakenEnd.stackTask ≠ some 1 := by decide
  refine ⟨reachable_last rfl, hone, by decide, hstack, ?_⟩
  intro h
  apply hstack (h.2 1 _)
  rw [hone]
  rfl

end StackTasks
