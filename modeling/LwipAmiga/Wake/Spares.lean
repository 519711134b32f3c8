import LwipAmiga.Wake.NoLost

/-!
# What a step leaves to the others

A step is taken by one opener, or by none.
-/

open Option Function

namespace WakeWorld

variable {β κ : Type}

def Listed (w : WakeWorld β κ) : Prop :=
  ∀ k, (w.socks k).txWaiting = true → k ∈ w.txWaiters

def EdgeAhead (w : WakeWorld β κ) (k : κ) : Prop :=
  w.tx.txWantSpace = true ∧ k ∈ w.txWaiters ∧ ∃ i ∈ w.tx.activeIf, i.txFree < i.txMaxFrames

structure Spares (who : Option β) (w w' : WakeWorld β κ) : Prop where
  act : ∀ c, some c ≠ who → w'.act c = w.act c
  fds : ∀ c, some c ≠ who → w'.fds c = w.fds c
  sig : ∀ c, some c ≠ who → w.sig c = true → w'.sig c = true
  type : ∀ c k, some c ≠ who → some k ∈ w.fds c → (w'.socks k).type = (w.socks k).type
  edge : ∀ c k, some c ≠ who → some k ∈ w.fds c → w.EdgeAhead k →
    w'.sig c = true ∨ w'.EdgeAhead k
  listed : w.Listed → w'.Listed
  maxFrames : ∀ i' ∈ w'.tx.activeIf, ∃ i ∈ w.tx.activeIf, i'.txMaxFrames = i.txMaxFrames

def Roomy (w : WakeWorld β κ) (b : β) : Prop :=
  ∀ k, (k, Want.write) ∈ w.wants b → (w.socks k).type ≠ .tcp → w.EdgeAhead k

variable {w w' w'' : WakeWorld β κ} {who : Option β} {b : β} {k : κ}

theorem Spares.trans
    (h : Spares who w w') (h' : Spares who w' w'') :
  Spares who w w''
  := by
  have hfds : ∀ c k, some c ≠ who → some k ∈ w.fds c → some k ∈ w'.fds c := by
    intro c k hc hk
    rwa [h.fds c hc]
  constructor
  · intro c hc
    rw [h'.act c hc, h.act c hc]
  · intro c hc
    rw [h'.fds c hc, h.fds c hc]
  · intro c hc hsig
    apply h'.sig c hc (h.sig c hc hsig)
  · intro c k hc hk
    rw [h'.type c k hc (hfds c k hc hk), h.type c k hc hk]
  · intro c k hc hk hedge
    obtain hsig | hedge := h.edge c k hc hk hedge
    · left
      apply h'.sig c hc hsig
    · apply h'.edge c k hc (hfds c k hc hk) hedge
  · exact fun hlisted => h'.listed (h.listed hlisted)
  · intro i'' hi''
    obtain ⟨i', hi', heq⟩ := h'.maxFrames i'' hi''
    obtain ⟨i, hi, heq'⟩ := h.maxFrames i' hi'
    exact ⟨i, hi, heq.trans heq'⟩

theorem Spares.of_tx
    (htx : w'.tx = w.tx) (hwaiters : w'.txWaiters = w.txWaiters)
    (hkind : ∀ k, SbSocket.SameKind (w.socks k) (w'.socks k))
    (hact : ∀ c, some c ≠ who → w'.act c = w.act c) (hfds : ∀ c, some c ≠ who → w'.fds c = w.fds c)
    (hsig : ∀ c, some c ≠ who → w.sig c = true → w'.sig c = true) :
  Spares who w w'
  := by
  refine ⟨hact, hfds, hsig, fun _ k _ _ => (hkind k).type, ?_, ?_, ?_⟩
  · intro c k _ _ hedge
    right
    rw [EdgeAhead, htx, hwaiters]
    apply hedge
  · intro hlisted k hk
    rw [hwaiters]
    apply hlisted k ((hkind k).txWaiting hk)
  · rw [htx]
    exact fun i hi => ⟨i, hi, rfl⟩

theorem spares_refl (who : Option β) (w : WakeWorld β κ) :
  Spares who w w
  := .of_tx rfl rfl (fun _ => .refl _) (fun _ _ => rfl) (fun _ _ => rfl) fun _ _ => id

theorem spares_setLock (w : WakeWorld β κ) (o : Option β) :
  Spares who w { w with lock := o }
  := .of_tx rfl rfl (fun _ => .refl _) (fun _ _ => rfl) (fun _ _ => rfl) fun _ _ => id

theorem Enrols.spares
    {ks : List κ} (h : Enrols w ks w') :
  Spares who w w'
  := by
  constructor
  · intro c _
    rw [h.act]
  · intro c _
    rw [h.fds]
  · intro c _
    rw [h.sig]
    exact id
  · exact fun _ k _ _ => h.type k
  · rintro c k - - ⟨hspace, hmem, i, hi, hlt⟩
    right
    refine ⟨h.space hspace, h.waiters hmem, i, ?_, hlt⟩
    rwa [h.activeIf]
  · exact h.waiting
  · rw [h.activeIf]
    exact fun i hi => ⟨i, hi, rfl⟩

theorem spares_create
    [DecidableEq κ] (hfree : ∀ b, some k ∉ w.fds b) (b : β) (f : Fresh) :
  Spares none w (w.create k b f)
  := by
  have hne : ∀ c j, some j ∈ w.fds c → j ≠ k := by
    rintro c j hj rfl
    exact hfree c hj
  refine ⟨fun _ _ => rfl, fun _ _ => rfl, fun _ _ => id, ?_, ?_, ?_, fun i hi => ⟨i, hi, rfl⟩⟩
  · intro c j _ hj
    simp only [WakeWorld.create, update_of_ne (hne c j hj)]
  · rintro c j - hj ⟨hspace, hmem, hfull⟩
    right
    refine ⟨hspace, ?_, hfull⟩
    apply List.mem_filter.mpr ⟨hmem, _⟩
    simpa using hne c j hj
  · intro hlisted j hj
    by_cases hjk : j = k
    · subst hjk
      simp [WakeWorld.create, fresh_spec] at hj
    · apply List.mem_filter.mpr ⟨hlisted j _, _⟩
      · simpa [WakeWorld.create, hjk] using hj
      · simpa using hjk

/-! ### Waiting for room -/

def selects : Activity κ → Bool
  | .select .. => true
  | _ => false

theorem write_notMem_wants
    {tab : List (Option κ)} {a : Activity κ} (h : selects a = false) :
  (k, Want.write) ∉ a.wants tab
  := by
  cases a with
  | outside => nofun
  | recv j c => cases c <;> simp [Activity.wants, Call.want]
  | dgram j peek dontwait a | accept j a | connect j a | send j left dontwait a =>
    cases a <;> simp [Activity.wants]
  | select nfds sets poll a => contradiction

theorem held_of_write
    {tab : List (Option κ)} {a : Activity κ} (h : (k, Want.write) ∈ a.wants tab) :
  some k ∈ tab
  := by
  cases a with
  | select nfds sets poll a =>
    apply held_of_mem_wants h
    nofun
  | _ =>
    apply absurd h
    apply write_notMem_wants rfl

theorem roomy_of_selects
    (h : selects (w.act b) = false) :
  w.Roomy b
  := by
  intro k hk
  exact absurd hk (write_notMem_wants h)

theorem roomy_of_awake
    (h : (w.act b).asleep = false) :
  w.Roomy b
  := by
  intro k hk
  rw [asleep_of_mem_wants hk] at h
  contradiction

/-! ### The sections of blocking calls -/

section Steps

variable [DecidableEq β]

theorem spares_settle (w : WakeWorld β κ) (b : β) (a : Activity κ) :
  Spares (some b) w (w.settle b a)
  := by
  refine .of_tx rfl rfl (fun _ => .refl _) ?_ (fun _ _ => rfl) ?_
  · intro c hc
    apply update_of_ne
    rintro rfl
    contradiction
  · intro c hc hsig
    have hne : c ≠ b := by
      rintro rfl
      contradiction
    simp only [WakeWorld.settle]
    split
    · rwa [update_of_ne hne]
    · exact hsig

theorem Spares.settle
    {a : Activity κ} (h : Spares (some b) w w') (ha : selects a = false) :
  Spares (some b) w (w'.settle b a) ∧ (w'.settle b a).Roomy b
  := by
  use h.trans (spares_settle w' b a)
  apply roomy_of_selects
  simpa only [WakeWorld.settle, update_self] using ha

theorem spares_setTable (w : WakeWorld β κ) (b : β) (tab : List (Option κ)) :
  Spares (some b) w (w.setTable b tab)
  := by
  refine .of_tx rfl rfl (fun _ => .refl _) (fun _ _ => rfl) ?_ fun _ _ => id
  intro c hc
  apply update_of_ne
  rintro rfl
  contradiction

theorem spares_takeSignal (w : WakeWorld β κ) (b : β) :
  Spares (some b) w { w with sig := update w.sig b false }
  := by
  refine .of_tx rfl rfl (fun _ => .refl _) (fun _ _ => rfl) (fun _ _ => rfl) ?_
  intro c hc hsig
  have hne : c ≠ b := by
    rintro rfl
    contradiction
  simpa only [update_of_ne hne] using hsig

theorem spares_sendBlock (w : WakeWorld β κ) (b : β) (k : κ) (left : ℕ) (dontwait : Bool) :
  Spares (some b) w (w.sendBlock b k left dontwait) ∧ (w.sendBlock b k left dontwait).Roomy b
  := by
  apply (spares_refl _ w).settle
  split <;> rfl

variable [DecidableEq κ]

theorem spares_setSock
    {s : SbSocket β κ} {n : Notices} (h : SbSocket.SameKind (w.socks k) s) :
  Spares who w (w.setSock k s n)
  := by
  refine .of_tx rfl rfl ?_ (fun _ _ => rfl) (fun _ _ => rfl) ?_
  · intro j
    by_cases hj : j = k
    · subst hj
      simpa [WakeWorld.setSock] using h
    · simpa [WakeWorld.setSock, hj] using SbSocket.SameKind.refl _
  · intro c _ hsig
    simp only [WakeWorld.setSock]
    split
    · apply Wakeup.signal_of_pending hsig
    · exact hsig

theorem spares_recvStep
    {sec : Section β κ} (h : SbSocket.SameKind (w.socks k) sec.sock) :
  Spares (some b) w (w.recvStep b k sec) ∧ (w.recvStep b k sec).Roomy b
  := by
  apply ((spares_setSock h).trans (spares_setLock _ _)).settle
  split <;> rfl

theorem spares_runRecv
    {c : Call} (hrun : w.runRecv b k c = some w') :
  Spares (some b) w w' ∧ w'.Roomy b
  := by
  unfold runRecv at hrun
  split at hrun
  next =>
    simp only [ite_none_right_eq_some, map_eq_some_iff] at hrun
    obtain ⟨-, sec, hsec, rfl⟩ := hrun
    apply spares_recvStep (SbSocket.sameKind_of_step (Call.step_of_locked hsec))
  next =>
    split at hrun
    next sec hsec =>
      cases hrun
      apply (spares_setSock (SbSocket.calm_clear hsec).1).settle rfl
    next =>
      simp only [ite_none_right_eq_some] at hrun
      obtain ⟨-, hrun⟩ := hrun
      split at hrun
      next c' _ =>
        cases hrun
        apply spares_recvStep (.refl _)
      next =>
        obtain ⟨sec, hsec, rfl⟩ := map_eq_some_iff.mp hrun
        have hstep : Call.Step (w.socks k) 0 c sec := Call.step_of_enter hsec
        apply spares_recvStep (SbSocket.sameKind_of_step hstep)

theorem spares_runDgram (w : WakeWorld β κ) (b : β) (k : κ) (peek dontwait : Bool) :
  Spares (some b) w (w.runDgram b k peek dontwait) ∧ (w.runDgram b k peek dontwait).Roomy b
  := by
  have hcalm := SbSocket.calm_sbDgramWait (w.socks k) dontwait
  unfold runDgram
  split
  next s hwait =>
    rw [hwait] at hcalm
    refine Spares.settle (spares_setSock ?_) rfl
    split
    · exact hcalm.1
    · exact hcalm.1.trans (SbSocket.calm_sbDgramDrop s).1
  next e s hwait =>
    rw [hwait] at hcalm
    apply (spares_setSock hcalm.1).settle rfl
  next => apply (spares_refl _ w).settle rfl

theorem spares_runAccept (w : WakeWorld β κ) (b : β) (k : κ) :
  Spares (some b) w (w.runAccept b k) ∧ (w.runAccept b k).Roomy b
  := by
  have hcalm := SbSocket.calm_acceptTest (w.socks k)
  unfold runAccept
  split
  next new s htest =>
    rw [htest] at hcalm
    have hsock : Spares (some b) w (w.setSock k s SbSocket.quiet) := spares_setSock hcalm.1
    use (hsock.trans (spares_settle _ b .outside)).trans (spares_setTable _ b _)
    apply roomy_of_selects
    simp only [WakeWorld.setTable, WakeWorld.settle, update_self]
    rfl
  next => apply (spares_refl _ w).settle rfl
  next => apply (spares_refl _ w).settle rfl

theorem spares_runConnect (w : WakeWorld β κ) (b : β) (k : κ) :
  Spares (some b) w (w.runConnect b k) ∧ (w.runConnect b k).Roomy b
  := by
  unfold runConnect
  split
  next => apply (spares_refl _ w).settle rfl
  next => apply (spares_setSock (SbSocket.calm_connectFinish _).1).settle rfl

theorem spares_runSend (w : WakeWorld β κ) (b : β) (k : κ) (left : ℕ) (dontwait : Bool) :
  Spares (some b) w (w.runSend b k left dontwait) ∧ (w.runSend b k left dontwait).Roomy b
  := by
  unfold runSend
  split
  · apply (spares_refl _ w).settle rfl
  · split
    next => apply (spares_refl _ w).settle rfl
    next => apply (spares_refl _ w).settle rfl
    next => apply spares_sendBlock
    next chunk _ =>
      split
      next s hwrite =>
        have hcalm := SbSocket.calm_tcpWrite (w.socks k) chunk
        rw [hwrite] at hcalm
        apply (spares_setSock hcalm.1).settle rfl
      next => apply spares_sendBlock
      next => apply (spares_refl _ w).settle rfl

theorem spares_runSelect
    (hlisted : w.Listed) (b : β) (nfds : ℕ) (sets : FdKind → Option FdSet) (poll : Bool) :
  Spares (some b) w (w.runSelect b nfds sets poll) ∧ (w.runSelect b nfds sets poll).Roomy b
  := by
  have he := enrols_foldl (w.scan b nfds sets).enrol w
  unfold runSelect
  dsimp only
  split
  next => apply he.spares.settle rfl
  next hgo =>
    push Not at hgo
    use he.spares.trans (spares_settle _ b _)
    intro k hk htype
    simp only [wants, WakeWorld.settle, update_self] at hk htype
    rw [he.fds] at hk
    obtain ⟨hready, henrol⟩ := scan_no_hit hgo.1 hk
    have htype' : (w.socks k).type ≠ .tcp := by
      rwa [← he.type k]
    have hmem := henrol rfl htype'
    have hfull : ∃ i ∈ w.tx.activeIf, i.txFree < i.txMaxFrames := by
      simp only [SbSocket.ready, SbSocket.sbSockWritable, ne_eq, htype', not_false_eq_true, if_true,
        TxPath.txWritable] at hready
      split at hready
      next => contradiction
      next =>
        split at hready
        next => contradiction
        next i hi =>
          use i, hi
          simpa using hready
    obtain ⟨i, hi, hlt⟩ := hfull
    refine ⟨he.wanted (List.ne_nil_of_mem hmem) ?_, he.enrolled hlisted k hmem, i, ?_, hlt⟩
    · rw [mem_def.mp hi]
      rfl
    · rwa [← he.activeIf] at hi

theorem spares_run
    (hlisted : w.Listed) (hrun : w.run b = some w') :
  Spares (some b) w w' ∧ w'.Roomy b
  := by
  unfold run at hrun
  split at hrun
  next => apply spares_runRecv hrun
  next =>
    obtain ⟨-, ⟨⟩⟩ := ite_none_right_eq_some.mp hrun
    apply spares_runDgram
  next =>
    obtain ⟨-, ⟨⟩⟩ := ite_none_right_eq_some.mp hrun
    apply spares_runAccept
  next =>
    obtain ⟨-, ⟨⟩⟩ := ite_none_right_eq_some.mp hrun
    apply spares_runConnect
  next =>
    obtain ⟨-, ⟨⟩⟩ := ite_none_right_eq_some.mp hrun
    apply spares_runSend
  next =>
    obtain ⟨-, ⟨⟩⟩ := ite_none_right_eq_some.mp hrun
    apply spares_runSelect hlisted
  next => contradiction

/-! ### The transmit path -/

theorem spares_txWake
    (hlisted : w.Listed) (hcover : w.ownersCover) {i : Option NetIfBase}
    (hmax : ∀ i' ∈ i, ∃ j ∈ w.tx.activeIf, i'.txMaxFrames = j.txMaxFrames) :
  Spares none w (w.setIf i).txWake
  := by
  unfold txWake
  split
  next hspace =>
    have hw := woken_foldl w.txWaiters
      { w with tx := { activeIf := i, txWantSpace := false }, txWaiters := [] }
    constructor
    · intro c _
      exact congrFun hw.act c
    · intro c _
      exact congrFun hw.fds c
    · exact fun c _ => hw.pending c
    · exact fun _ k _ _ => (hw.sock k).1.type
    · rintro c k - hk ⟨-, hmem, -⟩
      left
      apply hw.woken c k hmem (hcover c k hk)
    · intro _ k hk
      obtain ⟨hk, hnot⟩ := hw.off k hk
      exact absurd (hlisted k hk) hnot
    · intro i' hi'
      apply hmax i'
      exact (congrArg TxPath.activeIf hw.tx).symm.trans hi'
  next hspace =>
    refine ⟨fun _ _ => rfl, fun _ _ => rfl, fun _ _ => id, fun _ _ _ _ => rfl, ?_, fun h => h, hmax⟩
    rintro c k - - ⟨hwanted, -, -⟩
    exact absurd hwanted hspace

theorem spares_afterNet
    (hlisted : w.Listed) (hcover : w.ownersCover) {e : NetEvent} (hattach : ∀ i, e ≠ .attach i)
    (he : w.afterNet e = some w') :
  Spares none w w'
  := by
  cases e with
  | attach i => exact absurd rfl (hattach i)
  | taken n =>
    simp only [afterNet, bind_eq_some_iff, ite_none_right_eq_some,
      some.injEq] at he
    obtain ⟨i, hi, -, rfl⟩ := he
    refine ⟨fun _ _ => rfl, fun _ _ => rfl, fun _ _ => id, fun _ _ _ _ => rfl, ?_, fun h => h, ?_⟩
    · rintro c k - - ⟨hspace, hmem, j, hj, hlt⟩
      right
      cases hi.symm.trans hj
      refine ⟨hspace, hmem, _, rfl, ?_⟩
      dsimp only
      omega
    · intro i' hi'
      obtain rfl := some.inj hi'
      exact ⟨i, hi, rfl⟩
  | freed n =>
    simp only [afterNet, map_eq_some_iff] at he
    obtain ⟨i, hi, rfl⟩ := he
    have hmax : ∀ i' ∈ some { i with txFree := i.txFree + n },
        ∃ j ∈ w.tx.activeIf, i'.txMaxFrames = j.txMaxFrames := by
      intro i' hi'
      obtain rfl := some.inj hi'
      exact ⟨i, hi, rfl⟩
    split
    next => apply spares_txWake hlisted hcover hmax
    next hcross =>
      refine ⟨fun _ _ => rfl, fun _ _ => rfl, fun _ _ => id, fun _ _ _ _ => rfl, ?_, fun h => h,
        hmax⟩
      rintro c k - - ⟨hspace, hmem, j, hj, hlt⟩
      right
      cases hi.symm.trans hj
      refine ⟨hspace, hmem, _, rfl, ?_⟩
      dsimp only
      omega
  | detach =>
    cases he
    apply spares_txWake hlisted hcover
    intros
    contradiction

/-! ### The steps -/

def actor : WakeLabel β κ → Option β
  | .table b _ | .begin b _ | .connect b _ _ | .run b | .wake b _ => some b
  | _ => none

variable [Fintype β] [Fintype κ] {L : Lwip}

theorem spares_next
    (hlisted : w.Listed) (hcover : w.ownersCover) {l : WakeLabel β κ}
    (hattach : ∀ i, l ≠ .net (.attach i)) (hstep : next L w l = some w') :
  Spares (actor l) w w' ∧ ∀ b, actor l = some b → w'.Roomy b
  := by
  have hself : ∀ {b}, Spares (some b) w w' ∧ w'.Roomy b →
      Spares (some b) w w' ∧ ∀ c, some b = some c → w'.Roomy c := by
    rintro b ⟨hspares, hroomy⟩
    use hspares
    rintro c ⟨⟩
    exact hroomy
  cases l with
  | event k e =>
    simp only [next, ite_none_right_eq_some, map_eq_some_iff] at hstep
    obtain ⟨-, s, hs, rfl⟩ := hstep
    exact ⟨spares_setSock (SbSocket.event_effect hs).1, (by intros; contradiction)⟩
  | dgram k d alloc =>
    obtain ⟨-, ⟨⟩⟩ := ite_none_right_eq_some.mp hstep
    refine ⟨spares_setSock ?_, (by intros; contradiction)⟩
    unfold SbSocket.sbDgramQueue
    split
    · apply SbSocket.SameKind.refl
    · exact ⟨rfl, id, id⟩
  | net e =>
    simp only [next, ite_none_right_eq_some] at hstep
    refine ⟨spares_afterNet hlisted hcover ?_ hstep.2, (by intros; contradiction)⟩
    rintro i rfl
    exact hattach i rfl
  | enrol k =>
    obtain ⟨-, ⟨⟩⟩ := ite_none_right_eq_some.mp hstep
    exact ⟨(enrols_one w k).spares, (by intros; contradiction)⟩
  | create k b f =>
    simp only [next, ite_none_right_eq_some, some.injEq, unused,
      decide_eq_true_eq] at hstep
    obtain ⟨⟨-, hfree, -⟩, rfl⟩ := hstep
    exact ⟨spares_create hfree b f, (by intros; contradiction)⟩
  | table b tab =>
    obtain ⟨⟨-, hout⟩, ⟨⟩⟩ := ite_none_right_eq_some.mp hstep
    apply hself
    use spares_setTable w b tab
    apply roomy_of_awake
    simp only [WakeWorld.setTable, isOutside_iff.mp hout]
    rfl
  | begin b c =>
    simp only [next, ite_none_right_eq_some, map_eq_some_iff] at hstep
    obtain ⟨-, a, ha, rfl⟩ := hstep
    apply hself
    use spares_settle w b a
    apply roomy_of_awake
    simp only [WakeWorld.settle, update_self, (start_spec ha).1]
  | connect b k r =>
    simp only [next, ite_none_right_eq_some, some.injEq] at hstep
    obtain ⟨-, rfl⟩ := hstep
    apply hself
    have hsock : Spares (some b) w (w.setSock k ((w.socks k).connectStart r).1 SbSocket.quiet) :=
      spares_setSock (SbSocket.calmFor_connectStart _ r).1
    split
    · obtain ⟨hspares, hroomy⟩ := spares_runConnect
        (w.setSock k ((w.socks k).connectStart r).1 SbSocket.quiet) b k
      exact ⟨hsock.trans hspares, hroomy⟩
    · apply hsock.settle rfl
  | run b =>
    apply hself
    apply spares_run hlisted hstep
  | wake b we =>
    simp only [next, ite_none_right_eq_some, map_eq_some_iff] at hstep
    obtain ⟨-, a, ha, rfl⟩ := hstep
    apply hself
    have hawake := (woken_spec ha).1
    constructor
    · have htake := (spares_settle w b a).trans (spares_takeSignal _ b)
      simpa [WakeWorld.settle, hawake] using htake.trans (spares_setLock _ _)
    · apply roomy_of_awake
      simp only [WakeWorld.settle, update_self, hawake]

end Steps

end WakeWorld
