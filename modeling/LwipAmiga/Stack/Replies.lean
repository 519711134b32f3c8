import LwipAmiga.Stack.Netctl
import Mathlib.Algebra.Order.Group.Multiset
import Mathlib.Tactic.Abel

/-!
# Every message of the control port is replied once

A message is queued, in hand, in one of the two places where it is parked, or kept for the last act of
the task.
-/

namespace SbNetctl

variable {ι : Type} {c c' : SbNetctl ι} {m : ι} {hand : Multiset ι} {env : NetctlEnv}

/-! ### Where the messages are -/

def slot : Option ι → Multiset ι
  | none => 0
  | some m => {m}

def queue (c : SbNetctl ι) : List ι :=
  c.port.getD []

def held (c : SbNetctl ι) : Multiset ι :=
  c.queue + slot c.pendingAdd + slot c.pendingShutdown + slot c.shutdownMsg

structure Keeps (c : SbNetctl ι) (hand : Multiset ι) : Prop where
  owes : Ledger.Owes c.log (hand + c.held)
  add : ∀ m, c.pendingAdd = some m → (c.msgs m).op = .addIf
  shutdown : ∀ m, c.pendingShutdown = some m → (c.msgs m).op = .shutdown
  captured : ∀ m, c.shutdownMsg = some m → (c.msgs m).op = .shutdown

/-! ### Access to the messages -/

theorem mem_of_hand (hm : m ∈ hand) :
  m ∈ hand + c.held
  := Multiset.mem_add.mpr (.inl hm)

theorem mem_of_pendingAdd (hm : c.pendingAdd = some m) :
  m ∈ hand + c.held
  := by
  simp [held, slot, hm]

theorem mem_of_pendingShutdown (hm : c.pendingShutdown = some m) :
  m ∈ hand + c.held
  := by
  simp [held, slot, hm]

theorem mem_of_shutdownMsg (hm : c.shutdownMsg = some m) :
  m ∈ hand + c.held
  := by
  simp [held, slot, hm]

theorem Keeps.look (h : c.Keeps hand) (hm : m ∈ hand + c.held) :
  (c.look m).Keeps hand
  := ⟨h.owes.touch hm, h.add, h.shutdown, h.captured⟩

theorem Keeps.reply (h : c.Keeps {m}) :
  (c.replyMsg m).Keeps 0
  := by
  constructor
  · have howes := h.owes
    rw [Multiset.singleton_add] at howes
    rw [zero_add]
    apply howes.reply
  · apply h.add
  · apply h.shutdown
  · apply h.captured

theorem Keeps.replyAdd (h : c.Keeps hand) (hm : c.pendingAdd = some m) :
  ({ c.replyMsg m with pendingAdd := none }).Keeps hand
  := by
  constructor
  · apply Ledger.Owes.reply
    have howes := h.owes
    rw [held, hm] at howes
    convert howes using 1
    simp only [held, slot, queue, replyMsg, ← Multiset.singleton_add]
    abel
  · nofun
  · apply h.shutdown
  · apply h.captured

theorem Keeps.replyShutdown (h : c.Keeps hand) (hm : c.pendingShutdown = some m) :
  ({ c.replyMsg m with pendingShutdown := none }).Keeps hand
  := by
  constructor
  · apply Ledger.Owes.reply
    have howes := h.owes
    rw [held, hm] at howes
    convert howes using 1
    simp only [held, slot, queue, replyMsg, ← Multiset.singleton_add]
    abel
  · apply h.add
  · nofun
  · apply h.captured

theorem Keeps.parkAdd
    (h : c.Keeps {m}) (hnone : c.pendingAdd = none) (hop : (c.msgs m).op = .addIf)
    (created : Bool) :
  ({ c with created := created, pendingAdd := some m }).Keeps 0
  := by
  constructor
  · have howes := h.owes
    rw [held, hnone] at howes
    convert howes using 1
    simp only [held, slot, queue]
    abel
  · intro n hn
    cases hn
    apply hop
  · apply h.shutdown
  · apply h.captured

theorem Keeps.parkShutdown
    (h : c.Keeps {m}) (hnone : c.pendingShutdown = none) (hop : (c.msgs m).op = .shutdown) :
  ({ c with shuttingDown := true, pendingShutdown := some m }).Keeps 0
  := by
  constructor
  · have howes := h.owes
    rw [held, hnone] at howes
    convert howes using 1
    simp only [held, slot, queue]
    abel
  · apply h.add
  · intro n hn
    cases hn
    apply hop
  · apply h.captured

section Write

variable [DecidableEq ι]

theorem op_write (f : NetCtlMsg → NetCtlMsg) (hf : ∀ msg, (f msg).op = msg.op) (n : ι) :
  ((c.write m f).msgs n).op = (c.msgs n).op
  := by
  change (Function.update c.msgs m (f (c.msgs m)) n).op = _
  by_cases heq : n = m
  · subst heq
    rw [Function.update_self, hf]
  · rw [Function.update_of_ne heq]

theorem Keeps.write
    (h : c.Keeps hand) (hm : m ∈ hand + c.held) (f : NetCtlMsg → NetCtlMsg)
    (hf : ∀ msg, (f msg).op = msg.op) :
  (c.write m f).Keeps hand
  := by
  constructor
  · apply h.owes.touch hm
  · intro n hn
    rw [op_write f hf]
    apply h.add n hn
  · intro n hn
    rw [op_write f hf]
    apply h.shutdown n hn
  · intro n hn
    rw [op_write f hf]
    apply h.captured n hn

theorem Keeps.writeHand
    (h : c.Keeps {m}) (f : NetCtlMsg → NetCtlMsg) (hf : ∀ msg, (f msg).op = msg.op) :
  (c.write m f).Keeps {m}
  := h.write (mem_of_hand (Multiset.mem_singleton_self m)) f hf

theorem Keeps.answer (h : c.Keeps {m}) (result : NetctlResult) :
  (c.answer m result).Keeps 0
  := (h.writeHand (.withResult result) fun _ => rfl).reply

theorem Keeps.answerAdd (h : c.Keeps hand) (hm : c.pendingAdd = some m) (result : NetctlResult) :
  ({ c.answer m result with pendingAdd := none }).Keeps hand
  := (h.write (mem_of_pendingAdd hm) (.withResult result) fun _ => rfl).replyAdd hm

end Write

/-! ### The handlers -/

variable [DecidableEq ι]

def Handled (m : ι) (r : SbNetctl ι × Option NetctlResult) : Prop :=
  match r.2 with
  | none => r.1.Keeps 0
  | some _ => r.1.Keeps {m}

theorem Keeps.sbNetctlTryCompleteAdd (h : c.Keeps hand) (env : NetctlEnv) :
  (c.sbNetctlTryCompleteAdd env).1.Keeps hand
  := by
  unfold SbNetctl.sbNetctlTryCompleteAdd
  cases hadd : c.pendingAdd with
  | none => apply h
  | some m =>
    have hlook := h.look (mem_of_pendingAdd hadd)
    dsimp only
    split
    · apply hlook
    · have hfill : ((c.look m).sbNetctlFillOutputs env m).Keeps hand :=
        hlook.write (mem_of_pendingAdd hadd) (.withOut env.out) fun _ => rfl
      apply hfill.answerAdd hadd

theorem pendingAdd_of_not_done (h : (c.sbNetctlTryCompleteAdd env).2 = false) :
  (c.sbNetctlTryCompleteAdd env).1.pendingAdd = c.pendingAdd
  := by
  unfold SbNetctl.sbNetctlTryCompleteAdd at *
  cases hadd : c.pendingAdd with
  | none => apply hadd
  | some m =>
    simp only [hadd] at h
    dsimp only
    split
    · apply hadd
    · rename_i hready
      rw [if_neg hready] at h
      contradiction

theorem Keeps.sbNetctlAdd (h : c.Keeps {m}) (hop : (c.msgs m).op = .addIf) (env : NetctlEnv) :
  Handled m (c.sbNetctlAdd env m)
  := by
  unfold SbNetctl.sbNetctlAdd
  split
  · apply h
  split
  · apply h
  rename_i hfree
  have hnone : c.pendingAdd = none := by
    simp only [Bool.or_eq_true, Option.isSome_iff_ne_none, not_or, ne_eq, not_not] at hfree
    apply hfree.2
  have hterm := h.writeHand .terminated fun _ => rfl
  dsimp only
  split
  · apply hterm
  have haux := hterm.writeHand (.withAux env.aux) fun _ => rfl
  split
  · apply haux
  · apply Keeps.sbNetctlTryCompleteAdd
    apply haux.parkAdd hnone
    rw [op_write (.withAux env.aux) fun _ => rfl, op_write .terminated fun _ => rfl, hop]

theorem Keeps.sbNetctlCancelAdd (h : c.Keeps {m}) (env : NetctlEnv) :
  Handled m (c.sbNetctlCancelAdd env)
  := by
  unfold SbNetctl.sbNetctlCancelAdd
  cases hadd : c.pendingAdd with
  | none => apply h
  | some n =>
    have htry := h.sbNetctlTryCompleteAdd env
    dsimp only
    split
    · apply htry
    · rename_i hdone
      have hstill : (c.sbNetctlTryCompleteAdd env).1.pendingAdd = some n := by
        rw [pendingAdd_of_not_done (Bool.eq_false_of_not_eq_true hdone), hadd]
      have hlook := htry.look (mem_of_pendingAdd hstill)
      have hresult := hlook.write (mem_of_pendingAdd hstill) (.withResult .errPending) fun _ => rfl
      have hfill := hresult.write (mem_of_pendingAdd hstill) (.withOut env.out) fun _ => rfl
      apply hfill.replyAdd hstill

theorem Keeps.withdrawAdd (h : c.Keeps hand) :
  c.withdrawAdd.Keeps hand
  := by
  unfold SbNetctl.withdrawAdd
  cases hadd : c.pendingAdd with
  | none => apply h
  | some n => apply h.answerAdd hadd

theorem Keeps.sbNetctlRem (h : c.Keeps {m}) (env : NetctlEnv) :
  Handled m (c.sbNetctlRem env m)
  := by
  unfold SbNetctl.sbNetctlRem
  split
  · apply h
  have hname := h.writeHand .nameTerminated fun _ => rfl
  dsimp only
  split
  · apply hname
  split
  · apply hname
  split
  · apply hname.writeHand (.withCount env.bound) fun _ => rfl
  · have hlook := hname.withdrawAdd.look (mem_of_hand (Multiset.mem_singleton_self m))
    exact ⟨hlook.owes, hlook.add, hlook.shutdown, hlook.captured⟩

omit [DecidableEq ι] in
theorem Keeps.sbNetctlShutdown (h : c.Keeps {m}) (hop : (c.msgs m).op = .shutdown) :
  Handled m (c.sbNetctlShutdown m)
  := by
  unfold SbNetctl.sbNetctlShutdown
  split
  · apply h
  · rename_i hnone
    apply h.parkShutdown (Option.not_isSome_iff_eq_none.mp hnone) hop

theorem Keeps.sbNetctlCancelShutdown (h : c.Keeps {m}) :
  Handled m c.sbNetctlCancelShutdown
  := by
  unfold SbNetctl.sbNetctlCancelShutdown
  cases hshut : c.pendingShutdown with
  | none => apply h
  | some n =>
    have hflag : ({ c with shuttingDown := false }).Keeps {m} := ⟨h.owes, h.add, h.shutdown, h.captured⟩
    have hresult :=
      hflag.write (mem_of_pendingShutdown hshut) (.withResult .errAborted) fun _ => rfl
    have hcount :=
      hresult.write (mem_of_pendingShutdown hshut) (.withCount c.openCount) fun _ => rfl
    apply hcount.replyShutdown hshut

theorem Keeps.sbNetctlHandle (h : c.Keeps {m}) (env : NetctlEnv) :
  Handled m (c.sbNetctlHandle env m)
  := by
  have hlook := h.look (mem_of_hand (Multiset.mem_singleton_self m))
  unfold SbNetctl.sbNetctlHandle
  dsimp only
  split
  · apply hlook
  · split
    · rename_i hop
      apply hlook.sbNetctlAdd hop
    · apply hlook.sbNetctlCancelAdd
    · apply hlook.sbNetctlRem
    · rename_i hop
      apply hlook.sbNetctlShutdown hop
    · apply hlook.sbNetctlCancelShutdown
    · apply hlook

theorem Keeps.serve (h : c.Keeps {m}) (env : NetctlEnv) :
  (c.serve env m).Keeps 0
  := by
  have hhandled := h.sbNetctlHandle env
  unfold SbNetctl.serve
  unfold Handled at hhandled
  split
  · rename_i c' heq
    rw [heq] at hhandled
    apply hhandled
  · rename_i c' result heq
    rw [heq] at hhandled
    apply hhandled.answer

/-! ### What the handlers leave alone -/

structure SameFrame (c c' : SbNetctl ι) : Prop where
  port : c'.port = c.port
  phase : c'.phase = c.phase
  shutdownMsg : c'.shutdownMsg = c.shutdownMsg

omit [DecidableEq ι] in
theorem SameFrame.trans {c'' : SbNetctl ι} (h : SameFrame c c') (h' : SameFrame c' c'') :
  SameFrame c c''
  := ⟨h'.port.trans h.port, h'.phase.trans h.phase, h'.shutdownMsg.trans h.shutdownMsg⟩

theorem sameFrame_tryCompleteAdd (c : SbNetctl ι) (env : NetctlEnv) :
  SameFrame c (c.sbNetctlTryCompleteAdd env).1
  := by
  unfold sbNetctlTryCompleteAdd
  split
  · exact ⟨rfl, rfl, rfl⟩
  · dsimp only
    split <;> exact ⟨rfl, rfl, rfl⟩

theorem sameFrame_add (c : SbNetctl ι) (env : NetctlEnv) (m : ι) :
  SameFrame c (c.sbNetctlAdd env m).1
  := by
  unfold sbNetctlAdd
  dsimp only
  split_ifs
  all_goals try exact ⟨rfl, rfl, rfl⟩
  refine SameFrame.trans ?_ (sameFrame_tryCompleteAdd _ env)
  exact ⟨rfl, rfl, rfl⟩

theorem sameFrame_cancelAdd (c : SbNetctl ι) (env : NetctlEnv) :
  SameFrame c (c.sbNetctlCancelAdd env).1
  := by
  have htry := sameFrame_tryCompleteAdd c env
  unfold sbNetctlCancelAdd
  split
  · exact ⟨rfl, rfl, rfl⟩
  · dsimp only
    split <;> exact ⟨htry.port, htry.phase, htry.shutdownMsg⟩

theorem sameFrame_rem (c : SbNetctl ι) (env : NetctlEnv) (m : ι) :
  SameFrame c (c.sbNetctlRem env m).1
  := by
  unfold sbNetctlRem withdrawAdd
  dsimp only
  split_ifs
  all_goals try exact ⟨rfl, rfl, rfl⟩
  split <;> exact ⟨rfl, rfl, rfl⟩

theorem sameFrame_handle (c : SbNetctl ι) (env : NetctlEnv) (m : ι) :
  SameFrame c (c.sbNetctlHandle env m).1
  := by
  have hlook : SameFrame c (c.look m) := ⟨rfl, rfl, rfl⟩
  unfold sbNetctlHandle
  dsimp only
  split
  · apply hlook
  · split
    · apply hlook.trans (sameFrame_add _ env m)
    · apply hlook.trans (sameFrame_cancelAdd _ env)
    · apply hlook.trans (sameFrame_rem _ env m)
    · unfold sbNetctlShutdown
      split <;> exact ⟨rfl, rfl, rfl⟩
    · unfold sbNetctlCancelShutdown
      split <;> exact ⟨rfl, rfl, rfl⟩
    · apply hlook

theorem sameFrame_serve (c : SbNetctl ι) (env : NetctlEnv) (m : ι) :
  SameFrame c (c.serve env m)
  := by
  have hhandle := sameFrame_handle c env m
  unfold serve
  split
  · rename_i c' heq
    rw [heq] at hhandle
    apply hhandle
  · rename_i c' result heq
    rw [heq] at hhandle
    exact ⟨hhandle.port, hhandle.phase, hhandle.shutdownMsg⟩

/-! ### The steps -/

structure Inv (c : SbNetctl ι) : Prop where
  keeps : c.Keeps 0
  port : c.phase = .running ↔ c.port.isSome
  stopped : c.phase ≠ .running → c.pendingAdd = none
  leaving : c.phase = .leaving ∨ c.phase = .ended → c.pendingShutdown = none
  captured : c.phase ≠ .leaving → c.shutdownMsg = none

theorem Keeps.put
    {queue : List ι} (h : c.Keeps 0) (hport : c.port = some queue) (hnew : ∀ e ∈ c.log, e.msg ≠ m)
    (msg : NetCtlMsg) :
  ({ c with
    port := some (queue ++ [m])
    msgs := Function.update c.msgs m msg
    log := .put m :: c.log }).Keeps 0
  := by
  have hother : ∀ n, n ∈ 0 + c.held → Function.update c.msgs m msg n = c.msgs n := by
    intro n hn
    apply Function.update_of_ne
    rintro rfl
    apply hnew _ ((h.owes.mem n).mp hn).1 rfl
  constructor
  · have howes := h.owes.put hnew
    convert howes using 1
    simp only [held, SbNetctl.queue, hport, Option.getD_some, ← Multiset.singleton_add,
      ← Multiset.coe_add, Multiset.coe_singleton]
    abel
  · intro n hn
    change (Function.update c.msgs m msg n).op = _
    rw [hother n (mem_of_pendingAdd hn)]
    apply h.add n hn
  · intro n hn
    change (Function.update c.msgs m msg n).op = _
    rw [hother n (mem_of_pendingShutdown hn)]
    apply h.shutdown n hn
  · intro n hn
    change (Function.update c.msgs m msg n).op = _
    rw [hother n (mem_of_shutdownMsg hn)]
    apply h.captured n hn

omit [DecidableEq ι] in
theorem Keeps.getMsg {queue : List ι} (h : c.Keeps 0) (hport : c.port = some (m :: queue)) :
  ({ c with port := some queue }).Keeps {m}
  := by
  constructor
  · have howes := h.owes
    convert howes using 1
    simp only [held, SbNetctl.queue, hport, Option.getD_some, ← Multiset.cons_coe,
      ← Multiset.singleton_add]
    abel
  · apply h.add
  · apply h.shutdown
  · apply h.captured

theorem Keeps.drain {queue : List ι} (h : c.Keeps 0) (hport : c.port = some queue) :
  (c.drain queue).Keeps 0 ∧ (c.drain queue).port = some [] ∧
    (c.drain queue).pendingAdd = c.pendingAdd ∧ (c.drain queue).shutdownMsg = c.shutdownMsg
  := by
  induction queue generalizing c with
  | nil => exact ⟨h, hport, rfl, rfl⟩
  | cons m queue ih => apply ih ((h.getMsg hport).answer .errInactive) rfl

omit [DecidableEq ι] in
theorem Keeps.deletePort (h : c.Keeps 0) (hport : c.port = some []) (phase : NetctlPhase) :
  ({ c with port := none, phase := phase }).Keeps 0
  := by
  constructor
  · have howes := h.owes
    rw [held, SbNetctl.queue, hport] at howes
    apply howes
  · apply h.add
  · apply h.shutdown
  · apply h.captured

theorem withdrawAdd_fields (c : SbNetctl ι) :
  c.withdrawAdd.port = c.port ∧ c.withdrawAdd.pendingAdd = none ∧
    c.withdrawAdd.shutdownMsg = c.shutdownMsg
  := by
  unfold withdrawAdd
  cases hadd : c.pendingAdd with
  | none => exact ⟨rfl, hadd, rfl⟩
  | some m => exact ⟨rfl, rfl, rfl⟩

theorem Inv.sbNetctlStop (h : c.Inv) (hphase : c.phase = .running) :
  ({ c.sbNetctlStop with phase := .stopped }).Inv
  := by
  obtain ⟨queue, hport⟩ := Option.isSome_iff_exists.mp (h.port.mp hphase)
  obtain ⟨hwport, hwadd, hwmsg⟩ := c.withdrawAdd_fields
  obtain ⟨hkeeps, hdport, hdadd, hdmsg⟩ := h.keeps.withdrawAdd.drain (hwport.trans hport)
  rw [SbNetctl.sbNetctlStop, hport]
  constructor
  · apply hkeeps.deletePort hdport
  · simp
  · intro _
    apply hdadd.trans hwadd
  · simp
  · intro _
    apply (hdmsg.trans hwmsg).trans (h.captured (by rw [hphase]; nofun))

omit [DecidableEq ι] in
theorem Inv.leave (h : c.Inv) (hphase : c.phase = .stopped) :
  ({ c with
    created := false
    shutdownMsg := c.pendingShutdown
    pendingShutdown := none
    shuttingDown := false
    phase := .leaving }).Inv
  := by
  have hport : c.port = none := by
    rw [← Option.not_isSome_iff_eq_none, ← h.port, hphase]
    nofun
  have hmsg : c.shutdownMsg = none := h.captured (by rw [hphase]; nofun)
  constructor
  · constructor
    · have howes := h.keeps.owes
      rw [held, hmsg] at howes
      convert howes using 1
      simp only [held, SbNetctl.queue, slot]
      abel
    · apply h.keeps.add
    · nofun
    · apply h.keeps.shutdown
  · simp [hport]
  · intro _
    apply h.stopped (by rw [hphase]; nofun)
  · simp
  · simp

omit [DecidableEq ι] in
theorem Keeps.replyCaptured (h : c.Keeps hand) (hm : c.shutdownMsg = some m) (phase : NetctlPhase) :
  ({ c.replyMsg m with shutdownMsg := none, phase := phase }).Keeps hand
  := by
  constructor
  · apply Ledger.Owes.reply
    have howes := h.owes
    rw [held, hm] at howes
    convert howes using 1
    simp only [held, slot, SbNetctl.queue, replyMsg, ← Multiset.singleton_add]
    abel
  · apply h.add
  · apply h.shutdown
  · nofun

theorem Inv.last (h : c.Inv) (hphase : c.phase = .leaving)
    (hlast : c.next .last = some c') :
  c'.Inv
  := by
  have hport : c.port = none := by
    rw [← Option.not_isSome_iff_eq_none, ← h.port, hphase]
    nofun
  have hadd : c.pendingAdd = none := h.stopped (by rw [hphase]; nofun)
  have hshut : c.pendingShutdown = none := h.leaving (.inl hphase)
  simp only [next, hphase, if_true] at hlast
  split at hlast
  · rename_i hmsg
    cases hlast
    refine ⟨⟨h.keeps.owes, h.keeps.add, h.keeps.shutdown, h.keeps.captured⟩, by simp [hport], fun _ => hadd,
      fun _ => hshut, fun _ => hmsg⟩
  · rename_i m hmsg
    cases hlast
    have hmem : m ∈ 0 + c.held := mem_of_shutdownMsg hmsg
    have hresult := h.keeps.write hmem (.withResult .ok) fun _ => rfl
    have hcount := hresult.write hmem (.withCount 0) fun _ => rfl
    refine ⟨hcount.replyCaptured hmsg .ended, ?_, fun _ => hadd, fun _ => hshut, fun _ => rfl⟩
    simp [write, replyMsg, hport]

omit [DecidableEq ι] in
theorem Inv.of_sameFrame
    (h : c.Inv) (hphase : c.phase = .running) (hport : c'.port.isSome) (hframe : c'.phase = c.phase)
    (hmsg : c'.shutdownMsg = c.shutdownMsg) (hkeeps : c'.Keeps 0) :
  c'.Inv
  := by
  rw [hphase] at hframe
  constructor
  · apply hkeeps
  · simp [hframe, hport]
  · intro hne
    contradiction
  · rw [hframe]
    rintro (hne | hne) <;> contradiction
  · intro _
    rw [hmsg]
    apply h.captured
    rw [hphase]
    nofun

theorem Inv.step {l : Label ι} (h : c.Inv) (hnext : c.next l = some c') :
  c'.Inv
  := by
  cases l with
  | put m msg =>
    simp only [next] at hnext
    split at hnext
    · contradiction
    · rename_i queue hport
      obtain ⟨hnew, ⟨⟩⟩ := Option.ite_none_left_eq_some.mp hnext
      have hphase : c.phase = .running := h.port.mpr (by rw [hport]; rfl)
      refine h.of_sameFrame hphase rfl rfl rfl (h.keeps.put hport ?_ msg)
      intro e he heq
      apply hnew ⟨e, he, heq⟩
  | serve env =>
    simp only [next] at hnext
    split at hnext
    · rename_i m queue hphase hport
      cases hnext
      have hframe := sameFrame_serve { c with port := some queue } env m
      apply h.of_sameFrame hphase
      · rw [hframe.port]
        rfl
      · apply hframe.phase
      · apply hframe.shutdownMsg
      · apply (h.keeps.getMsg hport).serve
    · contradiction
  | tick env =>
    obtain ⟨hphase, ⟨⟩⟩ := Option.ite_none_right_eq_some.mp hnext
    have hframe := sameFrame_tryCompleteAdd c env
    apply h.of_sameFrame hphase
    · rw [sbNetctlTick, hframe.port]
      apply h.port.mp hphase
    · apply hframe.phase
    · apply hframe.shutdownMsg
    · apply h.keeps.sbNetctlTryCompleteAdd
  | opened | closed =>
    obtain ⟨-, ⟨⟩⟩ := Option.ite_none_right_eq_some.mp hnext
    exact ⟨⟨h.keeps.owes, h.keeps.add, h.keeps.shutdown, h.keeps.captured⟩, h.port, h.stopped, h.leaving, h.captured⟩
  | stop signalled =>
    obtain ⟨⟨hphase, -⟩, ⟨⟩⟩ := Option.ite_none_right_eq_some.mp hnext
    apply h.sbNetctlStop hphase
  | leave =>
    obtain ⟨hphase, ⟨⟩⟩ := Option.ite_none_right_eq_some.mp hnext
    apply h.leave hphase
  | last =>
    obtain ⟨hphase, -⟩ := Option.ite_none_right_eq_some.mp hnext
    apply h.last hphase hnext

theorem inv_of_reachable (h : (system ι).Reachable c) :
  c.Inv
  := by
  apply h.invariant
  · rintro c ⟨hport, hadd, hshut, hmsg, -, hphase, hlog⟩
    constructor
    · constructor
      · rw [hlog, held, queue, hport, hadd, hshut, hmsg]
        apply Ledger.Owes.nil
      · rw [hadd]
        nofun
      · rw [hshut]
        nofun
      · rw [hmsg]
        nofun
    · simp [hphase, hport]
    · intro _
      apply hadd
    · intro _
      apply hshut
    · intro _
      apply hmsg
  · intro c l c' hc _ hnext
    apply hc.step hnext

/-! ### Parked messages -/

def Parked (c : SbNetctl ι) (m : ι) : Prop :=
  .put m ∈ c.log ∧ .reply m ∉ c.log ∧ m ∉ c.queue

omit [DecidableEq ι] in
theorem mem_held_iff :
  m ∈ 0 + c.held ↔ m ∈ c.queue ∨ c.pendingAdd = some m ∨ c.pendingShutdown = some m ∨
    c.shutdownMsg = some m
  := by
  have hslot : ∀ o : Option ι, m ∈ slot o ↔ o = some m := by
    intro o
    cases o with
    | none => simp [slot]
    | some n => simp [slot, eq_comm]
  simp only [held, zero_add, Multiset.mem_add, Multiset.mem_coe, hslot, or_assoc]

omit [DecidableEq ι] in
theorem Inv.parked (h : c.Inv) (hm : c.Parked m) :
  c.pendingAdd = some m ∨ c.pendingShutdown = some m ∨ c.shutdownMsg = some m
  := by
  obtain ⟨hput, hopen, hqueue⟩ := hm
  apply (mem_held_iff.mp ((h.keeps.owes.mem m).mpr ⟨hput, hopen⟩)).resolve_left hqueue

omit [DecidableEq ι] in
theorem Inv.parked_add
    {n : ι} (h : c.Inv) (hm : c.Parked m) (hn : c.Parked n) (hopm : (c.msgs m).op = .addIf)
    (hopn : (c.msgs n).op = .addIf) :
  m = n
  := by
  have hplace : ∀ k, c.Parked k → (c.msgs k).op = .addIf → c.pendingAdd = some k := by
    intro k hk hop
    rcases h.parked hk with hadd | hshut | hmsg
    · apply hadd
    · rw [h.keeps.shutdown k hshut] at hop
      contradiction
    · rw [h.keeps.captured k hmsg] at hop
      contradiction
  apply Option.some.inj
  rw [← hplace m hm hopm, ← hplace n hn hopn]

omit [DecidableEq ι] in
theorem Inv.parked_shutdown
    {n : ι} (h : c.Inv) (hm : c.Parked m) (hn : c.Parked n) (hopm : (c.msgs m).op = .shutdown)
    (hopn : (c.msgs n).op = .shutdown) :
  m = n
  := by
  have hplace : ∀ k, c.Parked k → (c.msgs k).op = .shutdown →
      c.pendingShutdown = some k ∨ c.shutdownMsg = some k := by
    intro k hk hop
    rcases h.parked hk with hadd | hother
    · rw [h.keeps.add k hadd] at hop
      contradiction
    · apply hother
  -- Only one of the two places is ever taken.
  have honly : c.pendingShutdown = none ∨ c.shutdownMsg = none := by
    by_cases hphase : c.phase = .leaving
    · left
      apply h.leaving (.inl hphase)
    · right
      apply h.captured hphase
  have hm' := hplace m hm hopm
  have hn' := hplace n hn hopn
  rcases honly with hnone | hnone
  · simp only [hnone, reduceCtorEq, false_or] at hm' hn'
    apply Option.some.inj
    rw [← hm', ← hn']
  · simp only [hnone, reduceCtorEq, or_false] at hm' hn'
    apply Option.some.inj
    rw [← hm', ← hn']

/-! ### The way out -/

omit [DecidableEq ι] in
theorem Inv.held_of_ended (h : c.Inv) (hphase : c.phase = .ended) :
  c.held = 0
  := by
  have hport : c.port = none := by
    rw [← Option.not_isSome_iff_eq_none, ← h.port, hphase]
    nofun
  have hadd : c.pendingAdd = none := h.stopped (by rw [hphase]; nofun)
  have hshut : c.pendingShutdown = none := h.leaving (.inr hphase)
  have hmsg : c.shutdownMsg = none := h.captured (by rw [hphase]; nofun)
  rw [held, queue, hport, hadd, hshut, hmsg]
  rfl

theorem log_subset_drain (c : SbNetctl ι) (queue : List ι) :
  c.log ⊆ (c.drain queue).log
  := by
  induction queue generalizing c with
  | nil => apply List.Subset.refl
  | cons m queue ih =>
    apply List.Subset.trans _ (ih _)
    apply List.subset_cons_of_subset _ (List.subset_cons_self _ _)

theorem log_subset_stop (c : SbNetctl ι) :
  c.log ⊆ c.sbNetctlStop.log
  := by
  have hwithdraw : c.log ⊆ c.withdrawAdd.log := by
    unfold withdrawAdd
    split
    · apply List.Subset.refl
    · apply List.subset_cons_of_subset _ (List.subset_cons_self _ _)
  unfold sbNetctlStop
  split
  · apply List.Subset.refl
  · apply List.Subset.trans hwithdraw (log_subset_drain _ _)

theorem exit_replies (hphase : c.phase = .running) :
  ∃ c', (system ι).exec c [.stop true, .leave, .last] = some c' ∧ c'.phase = .ended ∧ c.log ⊆ c'.log
  := by
  simp only [TransitionSystem.exec, system, next, hphase, Bool.true_or, true_and, if_true,
    Option.bind_some]
  cases hmsg : c.sbNetctlStop.pendingShutdown with
  | none => exact ⟨_, rfl, rfl, c.log_subset_stop⟩
  | some m =>
    refine ⟨_, rfl, rfl, ?_⟩
    apply List.Subset.trans c.log_subset_stop
    apply List.subset_cons_of_subset _ (List.subset_cons_of_subset _ (List.subset_cons_self _ _))

/-- No message is replied twice or touched behind its reply, and one that was put and not replied is
queued or parked until the task ends. -/
theorem replied_exactly_once (h : (system ι).Reachable c) :
  (∀ m, c.log.count (.reply m) ≤ 1) ∧
    (∀ m late early, c.log = late ++ .reply m :: early → ∀ e ∈ late, e.msg ≠ m) ∧
    (∀ m, .put m ∈ c.log → c.log.count (.reply m) = 1 ∨ m ∈ c.queue ∨ c.pendingAdd = some m ∨
      c.pendingShutdown = some m ∨ c.shutdownMsg = some m) ∧
    (∀ m, c.pendingAdd = some m →
      .put m ∈ c.log ∧ .reply m ∉ c.log ∧ (c.msgs m).op = .addIf) ∧
    (∀ m, c.pendingShutdown = some m →
      .put m ∈ c.log ∧ .reply m ∉ c.log ∧ (c.msgs m).op = .shutdown) ∧
    (∀ m n, c.Parked m → c.Parked n → (c.msgs m).op = .addIf → (c.msgs n).op = .addIf → m = n) ∧
    (∀ m n, c.Parked m → c.Parked n → (c.msgs m).op = .shutdown → (c.msgs n).op = .shutdown →
      m = n) ∧
    (c.phase = .ended → ∀ m, .put m ∈ c.log → c.log.count (.reply m) = 1) ∧
    (c.phase = .running → ∃ c', (system ι).exec c [.stop true, .leave, .last] = some c' ∧
      c'.phase = .ended ∧ c.log ⊆ c'.log)
  := by
  have hc := inv_of_reachable h
  have howes := hc.keeps.owes
  refine ⟨howes.clean.count_reply_le, ?_, ?_, ?_, ?_, ?_, ?_, ?_, exit_replies⟩
  · intro m late early hlog e he
    have hclean := howes.clean
    rw [hlog] at hclean
    apply hclean.nothing_behind_reply he
  · intro m hput
    by_cases hm : m ∈ 0 + c.held
    · right
      apply mem_held_iff.mp hm
    · left
      apply howes.count_reply hput hm
  · intro m hm
    obtain ⟨hput, hopen⟩ := (howes.mem m).mp (mem_of_pendingAdd hm)
    exact ⟨hput, hopen, hc.keeps.add m hm⟩
  · intro m hm
    obtain ⟨hput, hopen⟩ := (howes.mem m).mp (mem_of_pendingShutdown hm)
    exact ⟨hput, hopen, hc.keeps.shutdown m hm⟩
  · intro m n
    apply hc.parked_add
  · intro m n
    apply hc.parked_shutdown
  · intro hphase m hput
    apply howes.count_reply hput
    rw [hc.held_of_ended hphase]
    apply Multiset.notMem_zero

/-! ### A run -/

def message (op : NetctlOp) : NetCtlMsg where
  version := NETCTL_VERSION
  op := op
  result := .ok
  aux := 0
  force := 0
  count := 0
  config := ⟨[101], [103], 0, NETCTL_IFF_HAS_MASK, 0x0a000002, 0, [], []⟩
  out := ⟨0, 0, 0, 0, 0⟩

def started : SbNetctl (Fin 8) where
  port := some []
  pendingAdd := none
  pendingShutdown := none
  shutdownMsg := none
  created := false
  shuttingDown := false
  openCount := 1
  phase := .running
  msgs := fun _ => message (.unknown 9)
  log := []

def linked (up : Bool) : NetctlEnv :=
  ⟨.ok, 0, false, up, ⟨0x0a000002, 0xffffff00, 0, 0, 0⟩, true, 0⟩

def busyRun : List (Label (Fin 8)) :=
  [.put 0 (message .addIf), .put 1 (message .addIf),
    .put 2 { message .remIf with version := 2 }, .put 3 (message (.unknown 9)),
    .serve (linked false), .serve (linked false), .serve (linked false), .serve (linked false),
    .put 4 (message .shutdown), .put 5 (message .cancelShutdown),
    .serve (linked false), .serve (linked false), .tick (linked true),
    .put 6 (message .shutdown), .serve (linked true), .put 7 (message .remIf),
    .closed, .stop false, .leave, .last]

theorem busyRun_enabled :
  ((system (Fin 8)).exec started busyRun).isSome = true
  := by
  decide

def busyEnd : SbNetctl (Fin 8) :=
  (system (Fin 8)).last started busyRun busyRun_enabled

theorem replied_exactly_once_busy :
  busyEnd.phase = .ended ∧ (∀ m, .put m ∈ busyEnd.log) ∧
    (∀ m, busyEnd.log.count (.reply m) = 1) ∧
    (List.finRange 8).map (fun m => (busyEnd.msgs m).result) =
      [.ok, .errExists, .errVersion, .errOp, .errAborted, .ok, .ok, .errInactive]
  := by
  have hreach : (system (Fin 8)).Reachable busyEnd :=
    TransitionSystem.reachable_last ⟨rfl, rfl, rfl, rfl, rfl, rfl, rfl⟩
  have hphase : busyEnd.phase = .ended := by decide
  have hput : ∀ m, .put m ∈ busyEnd.log := by decide
  obtain ⟨-, -, -, -, -, -, -, hended, -⟩ := replied_exactly_once hreach
  refine ⟨hphase, hput, fun m => hended hphase m (hput m), by decide⟩

end SbNetctl
