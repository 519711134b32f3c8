import LwipAmiga.Stack.Single

/-!
# The shutdown handshake

`shuttingDown` keeps clients out, and the stack task quits when it finds no client registered.
-/

open Function List Option

namespace StackTasks

variable {ω ι : Type} {s s' : StackTasks ω ι} {t : ℕ} {o : ω} {m : ι}

def calm (s : StackTasks ω ι) : Label ω ι → Prop
  | .ctrlC _ => False
  | l => s.quietStart l

instance (s : StackTasks ω ι) (l : Label ω ι) : Decidable (s.calm l) := by
  induction l using Label.casesOn <;> dsimp only [calm] <;> infer_instance

theorem quietStart_of_calm {l : Label ω ι} (h : s.calm l) :
  s.quietStart l
  := by
  cases l <;> first | exact h | trivial

/-! ### What holds at each place of the task -/

def Promised (s : StackTasks ω ι) (t : ℕ) (m : ι) : Prop :=
  s.asked t = some m ∧ s.opens t = 0

def Settled (s : StackTasks ω ι) (t : ℕ) (m : ι) : Prop :=
  s.Promised t m ∧ s.decided t = some []

def Fits (s : StackTasks ω ι) (t : ℕ) : TaskPc ω ι → Prop
  | .unborn | .ended => True
  | .starting _ | .failed | .lockShutdown _ => s.shuttingDown = false ∧ s.pendingShutdown = none
  | .waiting | .serving | .checking =>
      s.shuttingDown = s.pendingShutdown.isSome ∧ ∀ m, s.pendingShutdown = some m → s.Promised t m
  | .setShutdown m => s.shuttingDown = true ∧ s.pendingShutdown = none ∧ s.Promised t m
  | .lockCancel _ | .lockReady =>
      s.shuttingDown = true ∧ ∃ m, s.pendingShutdown = some m ∧ s.Promised t m
  | .cancelled _ => s.shuttingDown = false
  | .quitting => s.shuttingDown = true ∧ ∃ m, s.pendingShutdown = some m ∧ s.Settled t m
  | .captured msg | .leaving msg =>
      s.pendingShutdown = none ∧
        match msg with
        | none => s.shuttingDown = false
        | some m => s.shuttingDown = true ∧ s.Settled t m
  | .cleared msg => ∀ m, msg = some m → s.Settled t m

variable {pc : TaskPc ω ι}

theorem Fits.congr
    (h : s.Fits t pc) (hflag : s'.shuttingDown = s.shuttingDown)
    (hpending : s'.pendingShutdown = s.pendingShutdown) (hasked : s'.asked t = s.asked t)
    (hopens : s'.opens t = s.opens t) (hdecided : s'.decided t = s.decided t) :
  s'.Fits t pc
  := by
  unfold Fits Settled Promised at *
  rw [hflag, hpending, hasked, hopens, hdecided]
  apply h

theorem Fits.of_dead
    (h : s.Fits t pc) (hdead : pc.live = false) (hasked : s'.asked t = s.asked t)
    (hopens : s'.opens t = s.opens t) (hdecided : s'.decided t = s.decided t) :
  s'.Fits t pc
  := by
  unfold Fits Settled Promised at *
  rw [hasked, hopens, hdecided]
  cases pc with
  | unborn => trivial
  | ended => trivial
  | cleared msg => apply h
  | _ => contradiction

theorem Fits.of_opens
    (h : s.Fits t pc) (hlive : pc.live = true) (hclear : s.shuttingDown = false)
    (hflag : s'.shuttingDown = s.shuttingDown)
    (hpending : s'.pendingShutdown = s.pendingShutdown) :
  s'.Fits t pc
  := by
  unfold Fits Settled Promised at *
  rw [hflag, hpending]
  cases pc <;> simp_all [TaskPc.live, TaskPc.pastHandshake, TaskPc.serves, TaskPc.inLoop,
    TaskPc.goingOut]

/-! ### The invariant -/

structure Shut (s : StackTasks ω ι) : Prop where
  single : s.Single
  fits : ∀ t, s.Fits t (s.tasks t)
  flag : s.shuttingDown = true → ∃ t, s.stackTask = some t
  starter : ∀ o, (s.clients o).startsTask = true →
    s.lock.head? = some (.libOpen o) ∧ s.shuttingDown = false
  count : s.openCount = s.openers.length
  registered : ∀ o, s.clients o = .opened ∨ s.clients o = .closing → o ∈ s.openers
  woken : ∀ t, s.stackTask = some t → s.tasks t = .waiting → s.shuttingDown = true →
    s.openCount = 0 → s.sigE t = true

/-! ### Steps of the task -/

structure OwnStep (t : ℕ) (s s' : StackTasks ω ι) : Prop where
  bases : ∀ o, s'.clients o = .opened ∨ s'.clients o = .closing →
    s.clients o = .opened ∨ s.clients o = .closing
  starts : ∀ o, (s'.clients o).startsTask = true → (s.clients o).startsTask = true
  openers : s'.openers = s.openers
  openCount : s'.openCount = s.openCount
  asked : ∀ u, u ≠ t → s'.asked u = s.asked u
  opens : ∀ u, u ≠ t → s'.opens u = s.opens u
  decided : ∀ u, u ≠ t → s'.decided u = s.decided u

theorem Shut.move
    (h : s.Shut) (pc : TaskPc ω ι) (hlive : (s.tasks t).live = true) (hsingle : s'.Single)
    (htasks : s'.tasks = update s.tasks t pc) (hfits : s'.Fits t pc) (hown : OwnStep t s s')
    (hflag : s'.shuttingDown = true → ∃ t, s'.stackTask = some t)
    (hstarter : ∀ o, (s.clients o).startsTask = true →
      s'.lock.head? = some (.libOpen o) ∧ s'.shuttingDown = false)
    (hwoken : pc = .waiting → s'.shuttingDown = true → s'.openCount = 0 → s'.sigE t = true) :
  s'.Shut
  := by
  have hself : s'.tasks t = pc := by rw [htasks, update_self]
  have hother : ∀ u, u ≠ t → s'.tasks u = s.tasks u := by
    intro u hne
    rw [htasks, update_of_ne hne]
  constructor
  · apply hsingle
  · intro u
    by_cases hne : u = t
    · subst hne
      rw [hself]
      apply hfits
    · rw [hother u hne]
      apply (h.fits u).of_dead
      · rw [← Bool.not_eq_true]
        intro hu
        apply hne (h.single.one u t hu hlive)
      · apply hown.asked u hne
      · apply hown.opens u hne
      · apply hown.decided u hne
  · apply hflag
  · intro o ho
    apply hstarter o (hown.starts o ho)
  · rw [hown.openCount, hown.openers]
    apply h.count
  · intro o ho
    rw [hown.openers]
    apply h.registered o (hown.bases o ho)
  · intro u hstack hpc
    -- The task that waits is the one that went on.
    by_cases hne : u = t
    · subst hne
      apply hwoken (hself.symm.trans hpc)
    · have hu : (s.tasks u).live = true := by
        rw [← hother u hne, hpc]
        rfl
      exact absurd (h.single.one u t hu hlive) hne

theorem Shut.step
    (h : s.Shut) (pc : TaskPc ω ι) (hlive : (s.tasks t).live = true) (hsingle : s'.Single)
    (htasks : s'.tasks = update s.tasks t pc) (hfits : s'.Fits t pc) (hown : OwnStep t s s')
    (hstack : s'.stackTask = s.stackTask) (hflag : s'.shuttingDown = s.shuttingDown)
    (hlock : ∃ users, s'.lock = s.lock ++ users) (hwaiting : pc = .waiting → s.shuttingDown = false) :
  s'.Shut
  := by
  apply h.move pc hlive hsingle htasks hfits hown
  · rw [hstack, hflag]
    apply h.flag
  · intro o ho
    obtain ⟨hhead, hclear⟩ := h.starter o ho
    obtain ⟨users, hlock⟩ := hlock
    rw [hlock, hflag, head?_append, hhead, some_or]
    exact ⟨rfl, hclear⟩
  · intro hpc hset
    rw [hflag, hwaiting hpc] at hset
    contradiction

theorem Shut.locked
    (h : s.Shut) (pc : TaskPc ω ι) (hlive : (s.tasks t).live = true) (hsingle : s'.Single)
    (hhead : s.lock.head? = some (.task t))
    (htasks : s'.tasks = update s.tasks t pc) (hfits : s'.Fits t pc) (hown : OwnStep t s s')
    (hflag : s'.shuttingDown = true → s'.stackTask = some t)
    (hwaiting : pc = .waiting → s.openCount ≠ 0) :
  s'.Shut
  := by
  apply h.move pc hlive hsingle htasks hfits hown
  · intro hset
    exact ⟨t, hflag hset⟩
  · intro o ho
    obtain ⟨hhead', -⟩ := h.starter o ho
    rw [hhead] at hhead'
    cases hhead'
  · intro hpc _ hzero
    rw [hown.openCount] at hzero
    exact absurd hzero (hwaiting hpc)

theorem Shut.fitsAt (h : s.Shut) (hpc : s.tasks t = pc) :
  s.Fits t pc
  := by
  rw [← hpc]
  apply h.fits t

theorem OwnStep.of_eq
    (hclients : s'.clients = s.clients) (hopeners : s'.openers = s.openers)
    (hcount : s'.openCount = s.openCount) (hasked : s'.asked = s.asked)
    (hopens : s'.opens = s.opens) (hdecided : s'.decided = s.decided) :
  OwnStep t s s'
  := by
  constructor
  · simp [hclients]
  · simp [hclients]
  · apply hopeners
  · apply hcount
  · simp [hasked]
  · simp [hopens]
  · simp [hdecided]

theorem Shut.alone
    (h : s.Shut) (pc : TaskPc ω ι) (hlive : (s.tasks t).live = true) (hsingle : s'.Single)
    (htasks : s'.tasks = update s.tasks t pc) (hfits : s'.Fits t pc) (hown : OwnStep t s s')
    (hstack : s'.stackTask = s.stackTask) (hflag : s'.shuttingDown = s.shuttingDown)
    (hlock : s'.lock = s.lock) (hwaiting : pc = .waiting → s.shuttingDown = false) :
  s'.Shut
  :=
  h.step pc hlive hsingle htasks hfits hown hstack hflag ⟨[], by rw [hlock, append_nil]⟩ hwaiting

theorem Shut.lastAct
    {msg : Option ι} (h : s.Shut) (hpc : s.tasks t = .cleared msg) (hsingle : (s.lastAct t msg).Single) :
  (s.lastAct t msg).Shut
  := by
  have hother : ∀ u, u ≠ t → (s.setTask t .ended).tasks u = s.tasks u := fun u hne =>
    update_of_ne hne ..
  have hself : (s.setTask t .ended).tasks t = .ended := update_self ..
  constructor
  · apply hsingle
  · intro u
    by_cases hne : u = t
    · subst hne
      change Fits _ u ((s.setTask u .ended).tasks u)
      rw [hself]
      trivial
    · change Fits _ u ((s.setTask t .ended).tasks u)
      rw [hother u hne]
      apply (h.fits u).congr rfl rfl rfl rfl rfl
  · apply h.flag
  · apply h.starter
  · apply h.count
  · apply h.registered
  · intro u hstack hu
    have hne : u ≠ t := by
      rintro rfl
      cases hself.symm.trans hu
    apply h.woken u hstack ((hother u hne).symm.trans hu)

theorem Shut.wake (h : s.Shut) (hpc : s.tasks t = .waiting) (hsingle : (s.wake t).Single) :
  (s.wake t).Shut
  := by
  refine h.alone (if s.sigCtl then .serving else .checking) (by rw [hpc]; rfl) hsingle rfl ?_
    (.of_eq rfl rfl rfl rfl rfl rfl) rfl rfl rfl ?_
  · have hfits : (s.wake t).Fits t .waiting := h.fitsAt hpc
    split <;> exact hfits
  · split <;> nofun

variable [DecidableEq ω]

theorem Shut.handshake (h : s.Shut) (hpc : s.tasks t = .starting o) (ok : Bool) :
  (s.handshake t o ok).Shut
  := by
  obtain ⟨hhead, hclient⟩ := h.single.starter t o hpc
  obtain ⟨hflag, hnone⟩ := h.fitsAt hpc
  have hsingle := h.single.handshake hpc ok
  have hlive : (s.tasks t).live = true := by
    rw [hpc]
    rfl
  have hother : ∀ o' pc, o' ≠ o → update s.clients o pc o' = s.clients o' := fun _ _ hne =>
    update_of_ne hne ..
  have hown : ∀ s' : StackTasks ω ι, s'.clients = update s.clients o (.started ok) →
      s'.openers = s.openers → s'.openCount = s.openCount → s'.asked = s.asked →
      s'.opens = s.opens → s'.decided = s.decided → OwnStep t s s' := by
    intro s' hclients hopeners hcount hasked hopens hdecided
    constructor
    · intro o' ho'
      rw [hclients] at ho'
      by_cases hne : o' = o
      · subst hne
        rw [update_self] at ho'
        rcases ho' with ho' | ho' <;> cases ho'
      · rw [hother o' _ hne] at ho'
        apply ho'
    · intro o' ho'
      by_cases hne : o' = o
      · subst hne
        rw [hclient]
        rfl
      · rw [hclients, hother o' _ hne] at ho'
        apply ho'
    · apply hopeners
    · apply hcount
    · simp [hasked]
    · simp [hopens]
    · simp [hdecided]
  cases ok with
  | true =>
    refine h.move .waiting hlive hsingle rfl ⟨?_, ?_⟩ (hown _ rfl rfl rfl rfl rfl rfl)
      (fun _ => ⟨t, rfl⟩) (fun o' ho' => h.starter o' ho') ?_
    · change s.shuttingDown = s.pendingShutdown.isSome
      rw [hflag, hnone]
      rfl
    · intro m hm
      cases hnone.symm.trans hm
    · intro _ hset
      cases hflag.symm.trans hset
  | false =>
    refine h.move .failed hlive hsingle rfl ⟨hflag, hnone⟩ (hown _ rfl rfl rfl rfl rfl rfl) ?_
      (fun o' ho' => h.starter o' ho') nofun
    intro hset
    cases hflag.symm.trans hset

/-! ### Steps of the clients -/

omit [DecidableEq ω] in
theorem Shut.client
    (h : s.Shut) (hsingle : s'.Single) (htasks : s'.tasks = s.tasks)
    (hstack : s'.stackTask = s.stackTask) (hflag : s'.shuttingDown = s.shuttingDown)
    (hpending : s'.pendingShutdown = s.pendingShutdown) (hasked : s'.asked = s.asked)
    (hdecided : s'.decided = s.decided)
    (hopens : ∀ u, s'.opens u ≠ s.opens u → s.stackTask = some u ∧ s.shuttingDown = false)
    (hstarter : ∀ o, (s'.clients o).startsTask = true →
      s'.lock.head? = some (.libOpen o) ∧ s'.shuttingDown = false)
    (hcount : s'.openCount = s'.openers.length)
    (hregistered : ∀ o, s'.clients o = .opened ∨ s'.clients o = .closing → o ∈ s'.openers)
    (hwoken : ∀ u, s.stackTask = some u → s.tasks u = .waiting → s.shuttingDown = true →
      s'.openCount = 0 → s'.sigE u = true) :
  s'.Shut
  := by
  constructor
  · apply hsingle
  · intro u
    rw [htasks]
    by_cases hsame : s'.opens u = s.opens u
    · apply (h.fits u).congr hflag hpending (by rw [hasked]) hsame (by rw [hdecided])
    · obtain ⟨hnamed, hclear⟩ := hopens u hsame
      apply (h.fits u).of_opens (h.single.names u hnamed).1 hclear hflag hpending
  · rw [hflag, hstack]
    apply h.flag
  · apply hstarter
  · apply hcount
  · apply hregistered
  · rw [hstack, htasks, hflag]
    apply hwoken

omit [DecidableEq ω] in
theorem Shut.not_startsTask
    {user : LockUser ω} (h : s.Shut) (hhead : s.lock.head? = some user) (hne : user ≠ .libOpen o) :
  (s.clients o).startsTask = false
  := by
  rw [← Bool.not_eq_true]
  intro hstarts
  obtain ⟨hhead', -⟩ := h.starter o hstarts
  apply hne (some.inj (hhead.symm.trans hhead'))

theorem Shut.call
    {pc' : ClientPc} {user : LockUser ω} (h : s.Shut) (hclient : s.clients o ≠ .starting)
    (hpc : pc'.startsTask = false)
    (hbase : pc' = .opened ∨ pc' = .closing → s.clients o = .opened ∨ s.clients o = .closing) :
  ({ s.setClient o pc' with lock := s.lock ++ [user] }).Shut
  := by
  have hself : (s.setClient o pc').clients o = pc' := update_self ..
  have hother : ∀ o', o' ≠ o → (s.setClient o pc').clients o' = s.clients o' := fun _ hne =>
    update_of_ne hne ..
  refine h.client (h.single.call hclient) rfl rfl rfl rfl rfl rfl ?_ ?_ h.count ?_ h.woken
  · intro u hne
    exact absurd rfl hne
  · intro o' ho'
    have hne : o' ≠ o := by
      rintro rfl
      cases (hself ▸ hpc).symm.trans ho'
    obtain ⟨hhead, hclear⟩ := h.starter o' (hother o' hne ▸ ho')
    constructor
    · rw [head?_append, hhead, some_or]
    · apply hclear
  · intro o' ho'
    apply h.registered
    by_cases hne : o' = o
    · subst hne
      apply hbase (hself ▸ ho')
    · apply hother o' hne ▸ ho'

theorem Shut.refuse
    (h : s.Shut) (hhead : s.lock.head? = some (.libOpen o)) (hclient : s.clients o ≠ .starting) :
  (s.refuse o).Shut
  := by
  have hself : (s.refuse o).clients o = .out := update_self ..
  have hother : ∀ o', o' ≠ o → (s.refuse o).clients o' = s.clients o' := fun _ hne =>
    update_of_ne hne ..
  refine h.client (h.single.refuse hhead hclient) rfl rfl rfl rfl rfl rfl ?_ ?_ h.count ?_ h.woken
  · intro u hne
    exact absurd rfl hne
  · intro o' ho'
    by_cases hne : o' = o
    · subst hne
      rw [hself] at ho'
      contradiction
    · rw [hother o' hne, h.not_startsTask hhead fun heq => hne (LockUser.libOpen.inj heq).symm] at ho'
      contradiction
  · intro o' ho'
    by_cases hne : o' = o
    · subst hne
      rw [hself] at ho'
      rcases ho' with ho' | ho' <;> cases ho'
    · apply h.registered o' (hother o' hne ▸ ho')

theorem Shut.register
    (h : s.Shut) (hhead : s.lock.head? = some (.libOpen o)) (hclient : s.clients o ≠ .starting)
    (hclear : s.shuttingDown = false) (alloc : Bool) :
  (s.register o alloc).Shut
  := by
  cases alloc with
  | false => apply h.refuse hhead hclient
  | true =>
    have hself : (s.register o true).clients o = .opened := update_self ..
    have hother : ∀ o', o' ≠ o → (s.register o true).clients o' = s.clients o' := fun _ hne =>
      update_of_ne hne ..
    refine h.client (h.single.register hhead hclient true) rfl rfl rfl rfl rfl rfl ?_ ?_ ?_ ?_ ?_
    · intro u hne
      refine ⟨?_, hclear⟩
      cases hstack : s.stackTask with
      | none =>
        simp only [StackTasks.register, hstack, if_true] at hne
        contradiction
      | some v =>
        simp only [StackTasks.register, hstack, if_true] at hne
        by_cases heq : u = v
        · rw [heq]
        · rw [update_of_ne heq] at hne
          contradiction
    · intro o' ho'
      by_cases hne : o' = o
      · subst hne
        rw [hself] at ho'
        contradiction
      · rw [hother o' hne, h.not_startsTask hhead fun heq => hne (LockUser.libOpen.inj heq).symm]
          at ho'
        contradiction
    · change s.openCount + 1 = (s.openers ++ [o]).length
      rw [length_append, h.count, length_singleton]
    · intro o' ho'
      change o' ∈ s.openers ++ [o]
      by_cases hne : o' = o
      · subst hne
        apply mem_append_right _ mem_cons_self
      · apply mem_append_left _ (h.registered o' (hother o' hne ▸ ho'))
    · intro u _ _ hset
      cases hclear.symm.trans hset

theorem Shut.libClose
    (h : s.Shut) (hhead : s.lock.head? = some (.libClose o)) (hclient : s.clients o = .closing) :
  (s.libClose o).Shut
  := by
  have hself : (s.libClose o).clients o = .out := update_self ..
  have hother : ∀ o', o' ≠ o → (s.libClose o).clients o' = s.clients o' := fun _ hne =>
    update_of_ne hne ..
  have hsingle : (s.libClose o).Single := by
    refine h.single.of_tasks rfl rfl rfl ?_
    apply not_starting hhead
    nofun
  refine h.client hsingle rfl rfl rfl rfl rfl rfl ?_ ?_ ?_ ?_ ?_
  · intro u hne
    exact absurd rfl hne
  · intro o' ho'
    by_cases hne : o' = o
    · subst hne
      rw [hself] at ho'
      contradiction
    · rw [hother o' hne, h.not_startsTask hhead nofun] at ho'
      contradiction
  · change s.openCount - 1 = (s.openers.erase o).length
    rw [length_erase_of_mem (h.registered o (.inr hclient)), h.count]
  · intro o' ho'
    change o' ∈ s.openers.erase o
    have hne : o' ≠ o := by
      rintro rfl
      rw [hself] at ho'
      rcases ho' with ho' | ho' <;> cases ho'
    apply (mem_erase_of_ne hne).mpr (h.registered o' (hother o' hne ▸ ho'))
  · intro u hstack _ hset hzero
    simp only [StackTasks.libClose, hstack] at hzero ⊢
    rw [if_pos ⟨hset, hzero⟩, update_self]

omit [DecidableEq ω] in
theorem Shut.zeroed
    (h : s.Shut) (hstack : s.stackTask = none) :
  ({ s with pendingShutdown := none }).Shut
  := by
  obtain ⟨hsingle, hfits, hflag, hstarter, hcount, hregistered, hwoken⟩ := h
  refine ⟨⟨hsingle.one, hsingle.named, hsingle.names, hsingle.starter, hsingle.unborn⟩, ?_, hflag,
    hstarter, hcount, hregistered, hwoken⟩
  intro t
  have hserves : (s.tasks t).serves = false := by
    rw [← Bool.not_eq_true]
    intro hserves
    cases hstack.symm.trans (hsingle.named t hserves)
  have ht := hfits t
  change Fits _ t (s.tasks t)
  unfold Fits Settled Promised at *
  cases hpc : s.tasks t with
  | starting o =>
    rw [hpc] at ht
    exact ⟨ht.1, rfl⟩
  | failed =>
    rw [hpc] at ht
    exact ⟨ht.1, rfl⟩
  | captured msg =>
    rw [hpc] at ht
    exact ⟨rfl, ht.2⟩
  | leaving msg =>
    rw [hpc] at ht
    exact ⟨rfl, ht.2⟩
  | cleared msg =>
    rw [hpc] at ht
    exact ht
  | unborn => trivial
  | ended => trivial
  | _ =>
    rw [hpc] at hserves
    contradiction

theorem Shut.sbStackStart
    (h : s.Shut) (hhead : s.lock.head? = some (.libOpen o)) (hclient : s.clients o = .opening)
    (hstack : s.stackTask = none) (hclear : s.shuttingDown = false)
    (hquiet : ∀ t < s.born, (s.tasks t).goingOut = false) :
  (s.sbStackStart o).Shut
  := by
  have hsingle := h.single.sbStackStart hhead hclient hstack hquiet
  have hself : (s.sbStackStart o).tasks s.born = .starting o := update_self ..
  have hother : ∀ u, u ≠ s.born → (s.sbStackStart o).tasks u = s.tasks u := fun _ hne =>
    update_of_ne hne ..
  have hcself : (s.sbStackStart o).clients o = .starting := update_self ..
  have hcother : ∀ o', o' ≠ o → (s.sbStackStart o).clients o' = s.clients o' := fun _ hne =>
    update_of_ne hne ..
  constructor
  · apply hsingle
  · intro u
    by_cases hne : u = s.born
    · rw [hne, hself]
      exact ⟨hclear, rfl⟩
    · rw [hother u hne]
      refine (h.fits u).of_dead ?_ rfl rfl rfl
      rw [← Bool.not_eq_true, ← hother u hne]
      intro hlive
      apply hne (hsingle.one u s.born hlive (by rw [hself]; rfl))
  · intro hset
    cases hclear.symm.trans hset
  · intro o' ho'
    by_cases hne : o' = o
    · subst hne
      exact ⟨hhead, hclear⟩
    · rw [hcother o' hne] at ho'
      apply h.starter o' ho'
  · apply h.count
  · intro o' ho'
    have hne : o' ≠ o := by
      rintro rfl
      rw [hcself] at ho'
      rcases ho' with ho' | ho' <;> cases ho'
    apply h.registered o' (hcother o' hne ▸ ho')
  · intro u hnamed
    cases hstack.symm.trans hnamed

theorem Shut.next {l : Label ω ι} (h : s.Shut) (hcalm : s.calm l) (hnext : s.next l = some s') :
  s'.Shut
  := by
  have hsingle := h.single.step (quietStart_of_calm hcalm) hnext
  cases step_of_next hnext with
  | callOpen o hclient => exact h.call (by simp [hclient]) rfl nofun
  | refused o _ _ hhead hclient => exact h.refuse hhead (by simp [hclient])
  | registered o _ alloc hhead hclient hclear =>
    exact h.register hhead (by simp [hclient]) hclear alloc
  | zeroed o _ hhead hclient _ hstack => exact (h.zeroed hstack).refuse hhead (by simp [hclient])
  | started o _ hhead hclient hclear hstack =>
    apply h.sbStackStart hhead hclient hstack hclear (hcalm hclear hstack)
  | resumed o alloc hhead hclient =>
    obtain ⟨-, hclear⟩ := h.starter o (by rw [hclient]; rfl)
    exact h.register hhead (by simp [hclient]) hclear alloc
  | unresumed o _ hhead hclient => exact h.refuse hhead (by simp [hclient])
  | callClose o hclient => exact h.call (by simp [hclient]) rfl fun _ => .inl hclient
  | libClose o hhead hclient => apply h.libClose hhead hclient
  | put msg queue => exact ⟨hsingle, h.fits, h.flag, h.starter, h.count, h.registered, h.woken⟩
  | handshake t o ok hpc => apply h.handshake hpc
  | wake t _ hpc => apply h.wake hpc hsingle
  | ctrlC => contradiction
  | served t hpc =>
    exact h.alone .checking (by rw [hpc]; rfl) hsingle rfl (h.fitsAt hpc)
      (.of_eq rfl rfl rfl rfl rfl rfl) rfl rfl rfl nofun
  | asked t m _ _ hpc _ hnone =>
    obtain ⟨hflag, -⟩ := h.fitsAt hpc
    rw [hnone] at hflag
    exact h.step (.lockShutdown m) (by rw [hpc]; rfl) hsingle rfl ⟨hflag, hnone⟩
      (.of_eq rfl rfl rfl rfl rfl rfl) rfl rfl ⟨[.task t], rfl⟩ nofun
  | cancels t m p _ _ hpc _ hsome =>
    obtain ⟨hflag, hpromised⟩ := h.fitsAt hpc
    rw [hsome] at hflag
    exact h.step (.lockCancel m) (by rw [hpc]; rfl) hsingle rfl ⟨hflag, p, hsome, hpromised p hsome⟩
      (.of_eq rfl rfl rfl rfl rfl rfl) rfl rfl ⟨[.task t], rfl⟩ nofun
  | answered => exact ⟨hsingle, h.fits, h.flag, h.starter, h.count, h.registered, h.woken⟩
  | parked t m hpc =>
    obtain ⟨hflag, -, hpromised⟩ := h.fitsAt hpc
    refine h.alone .serving (by rw [hpc]; rfl) hsingle rfl ⟨hflag, ?_⟩
      (.of_eq rfl rfl rfl rfl rfl rfl) rfl rfl rfl nofun
    rintro m' ⟨⟩
    apply hpromised
  | unparked t m hpc =>
    have hflag : s.shuttingDown = false := h.fitsAt hpc
    exact h.alone .serving (by rw [hpc]; rfl) hsingle rfl ⟨hflag, nofun⟩
      (.of_eq rfl rfl rfl rfl rfl rfl) rfl rfl rfl nofun
  | ready t p hpc hsome =>
    obtain ⟨hflag, hpromised⟩ := h.fitsAt hpc
    rw [hsome] at hflag
    exact h.step .lockReady (by rw [hpc]; rfl) hsingle rfl ⟨hflag, p, hsome, hpromised p hsome⟩
      (.of_eq rfl rfl rfl rfl rfl rfl) rfl rfl ⟨[.task t], rfl⟩ nofun
  | waits t hpc hnone =>
    have hfits := h.fitsAt hpc
    refine h.alone .waiting (by rw [hpc]; rfl) hsingle rfl hfits
      (.of_eq rfl rfl rfl rfl rfl rfl) rfl rfl rfl fun _ => ?_
    rw [hfits.1, hnone]
    rfl
  | stops t hpc =>
    obtain ⟨hflag, m, hm, hsettled⟩ := h.fitsAt hpc
    refine h.alone (.captured s.pendingShutdown) (by rw [hpc]; rfl) hsingle rfl ⟨rfl, ?_⟩
      (.of_eq rfl rfl rfl rfl rfl rfl) rfl rfl rfl nofun
    rw [hm]
    exact ⟨hflag, hsettled⟩
  | fails t hpc =>
    obtain ⟨hflag, hnone⟩ := h.fitsAt hpc
    refine h.alone (.captured s.pendingShutdown) (by rw [hpc]; rfl) hsingle rfl ⟨rfl, ?_⟩
      (.of_eq rfl rfl rfl rfl rfl rfl) rfl rfl rfl nofun
    rw [hnone]
    apply hflag
  | leaves t msg hpc =>
    exact h.step (.leaving msg) (by rw [hpc]; rfl) hsingle rfl (h.fitsAt hpc)
      (.of_eq rfl rfl rfl rfl rfl rfl) rfl rfl ⟨[.task t], rfl⟩ nofun
  | ends t msg hpc => apply h.lastAct hpc hsingle
  | setShutdown t m hpc hhead =>
    obtain ⟨-, hnone⟩ := h.fitsAt hpc
    have hnamed : s.stackTask = some t := h.single.named t (by rw [hpc]; rfl)
    refine h.locked (.setShutdown m) (by rw [hpc]; rfl) hsingle hhead rfl
      ⟨rfl, hnone, update_self .., update_self ..⟩ ?_ (fun _ => hnamed) nofun
    exact ⟨fun _ => id, fun _ => id, rfl, rfl, fun u hne => update_of_ne hne .., fun u hne =>
      update_of_ne hne .., fun _ _ => rfl⟩
  | cancelled t m hpc hhead =>
    exact h.locked (.cancelled m) (by rw [hpc]; rfl) hsingle hhead rfl rfl
      (.of_eq rfl rfl rfl rfl rfl rfl) nofun nofun
  | quits t hpc hhead hzero =>
    obtain ⟨hflag, m, hm, hpromised⟩ := h.fitsAt hpc
    have hnamed : s.stackTask = some t := h.single.named t (by rw [hpc]; rfl)
    have hnil : s.openers = [] := eq_nil_of_length_eq_zero (h.count.symm.trans hzero)
    refine h.locked .quitting (by rw [hpc]; rfl) hsingle hhead rfl ⟨hflag, m, hm, hpromised, ?_⟩ ?_
      (fun _ => hnamed) nofun
    · apply (update_self ..).trans
      rw [hnil]
    · exact ⟨fun _ => id, fun _ => id, rfl, rfl, fun _ _ => rfl, fun _ _ => rfl, fun u hne =>
        update_of_ne hne ..⟩
  | stays t hpc hhead hpos =>
    obtain ⟨hflag, m, hm, hpromised⟩ := h.fitsAt hpc
    refine h.locked .waiting (by rw [hpc]; rfl) hsingle hhead rfl ⟨?_, ?_⟩
      (.of_eq rfl rfl rfl rfl rfl rfl) (fun _ => h.single.named t (by rw [hpc]; rfl)) fun _ => hpos
    · change s.shuttingDown = s.pendingShutdown.isSome
      rw [hflag, hm]
      rfl
    · intro m' hm'
      obtain rfl : m = m' := some.inj (hm.symm.trans hm')
      apply hpromised
  | cleared t msg hpc hhead =>
    obtain ⟨-, hmsg⟩ := h.fitsAt hpc
    refine h.locked (.cleared msg) (by rw [hpc]; rfl) hsingle hhead rfl ?_
      (.of_eq rfl rfl rfl rfl rfl rfl) nofun nofun
    rintro m rfl
    apply hmsg.2

theorem shut_of_reach (h : (system ω ι).Reach calm s) :
  s.Shut
  := by
  apply h.invariant
  · rintro s rfl
    constructor
    · exact ⟨nofun, nofun, nofun, nofun, fun _ _ => rfl⟩
    · intro _
      trivial
    · nofun
    · nofun
    · rfl
    · rintro o (ho | ho) <;> cases ho
    · nofun
  · intro s l s' hs hcalm hnext
    apply hs.next hcalm hnext

end StackTasks
