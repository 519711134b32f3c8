import LwipAmiga.Wake.Room

/-!
# No lost wakeup

Every step keeps the invariant, but `shutdown` and memory that comes back to a refused sender.
-/

open Option List TransitionSystem

namespace WakeWorld

variable {β κ : Type} {w w' : WakeWorld β κ}

/-! ### Awake calls and new sockets -/

theorem isOutside_iff {b : β} :
  w.isOutside b = true ↔ w.act b = .outside
  := by
  unfold isOutside
  split
  next h => simp [h]
  next h => simpa using h

theorem want_begin (s : SbSocket β κ) (r : RecvReq) (oob : Bool) :
  (Call.begin s r oob).want = none
  := by
  simp only [Call.begin]
  split
  · split <;> rfl
  · rfl

theorem want_of_wake
    {we : Option Errno} {c c' : Call} (h : c.wake we = some c') :
  c'.want = none
  := by
  cases c <;> cases we <;> simp only [Call.wake, ite_none_right_eq_some,
    some.injEq, reduceCtorEq] at h
  · rw [← h]
    rfl
  · rw [← h.2]
    rfl
  · rw [← h]
    rfl
  · rw [← h.2]
    rfl

theorem woken_spec
    {we : Option Errno} {a a' : Activity κ} (h : a.woken we = some a') :
  a'.asleep = false ∧ ∀ k, a'.on = some k → a.on = some k
  := by
  cases a with
  | outside => contradiction
  | recv k c =>
    obtain ⟨c', hc, rfl⟩ := map_eq_some_iff.mp h
    split
    · exact ⟨rfl, (by intros; contradiction)⟩
    · exact ⟨by simp [Activity.asleep, want_of_wake hc], fun _ => id⟩
  | dgram k peek dontwait a | accept k a | connect k a | send k left dontwait a =>
    cases a with
    | false => contradiction
    | true =>
      cases h
      split
      · exact ⟨rfl, fun _ => id⟩
      · exact ⟨rfl, (by intros; contradiction)⟩
  | select nfds sets poll a =>
    cases a with
    | false => contradiction
    | true =>
      simp only [Activity.woken] at h
      split at h <;> obtain rfl := some.inj h <;> exact ⟨rfl, (by intros; contradiction)⟩

theorem fresh_spec (b : β) (f : Fresh) :
  (f.sock b : SbSocket β κ).txWaiting = false ∧
    (f.sock b : SbSocket β κ).naccept = (f.sock b : SbSocket β κ).acceptq.length
  := by
  cases f with
  | socket type sndBuf | accepted pcb => exact ⟨rfl, rfl⟩

section

variable [DecidableEq κ]

theorem start_spec
    {b : β} {c : BlockingCall κ} {a : Activity κ} (h : w.start b c = some a) :
  a.asleep = false ∧ ∀ k, a.on = some k → some k ∈ w.fds b
  := by
  cases c with
  | recv k r oob =>
    simp only [WakeWorld.start, ite_none_right_eq_some, some.injEq] at h
    obtain ⟨⟨hk, -⟩, rfl⟩ := h
    split
    · exact ⟨rfl, (by intros; contradiction)⟩
    · refine ⟨by simp [Activity.asleep, want_begin], ?_⟩
      intro j hj
      cases hj
      exact hk
  | dgram k peek dontwait | accept k | send k len dontwait =>
    simp only [WakeWorld.start, ite_none_right_eq_some, some.injEq] at h
    obtain ⟨⟨hk, -⟩, rfl⟩ := h
    refine ⟨rfl, ?_⟩
    intro j hj
    cases hj
    exact hk
  | select nfds sets poll =>
    cases h
    exact ⟨rfl, (by intros; contradiction)⟩

theorem Inv.create
    (h : w.Inv) {k : κ} (hfree : ∀ b, some k ∉ w.fds b) (b : β) (f : Fresh) :
  (w.create k b f).Inv
  := by
  apply h.change (rfl : (w.create k b f).fds = w.fds) rfl
  · intro j hj
    by_cases hjk : j = k
    · subst hjk
      simp [WakeWorld.create, fresh_spec] at hj
    · refine mem_filter.mpr ⟨h.waiting j ?_, by simpa using hjk⟩
      simpa [WakeWorld.create, hjk] using hj
  · intro j
    by_cases hjk : j = k
    · subst hjk
      simpa [WakeWorld.create] using (fresh_spec b f).2
    · simpa [WakeWorld.create, hjk] using h.counted j
  · exact fun _ => id
  · intro c hc
    right
    intro p hp
    have hpk : p.1 ≠ k := by
      rintro rfl
      exact hfree c (h.held_of_wants hp)
    obtain ⟨hready, henrol⟩ := hc p hp
    simp only [WakeWorld.create, Function.update_of_ne hpk]
    refine ⟨hready, ?_⟩
    intro hwrite htype
    obtain ⟨hmem, hspace⟩ := henrol hwrite htype
    exact ⟨mem_filter.mpr ⟨hmem, by simpa using hpk⟩, hspace⟩

end

/-! ### The sections of blocking calls -/

theorem scan_no_hit
    {b : β} {nfds : ℕ} {sets : FdKind → Option FdSet} (hhits : (w.scan b nfds sets).hits = 0)
    {p : κ × Want} (hp : p ∈ selectWants (w.fds b) nfds sets) :
  (w.socks p.1).ready w.tx.txWritable p.2 = false ∧
    (p.2 = .write → (w.socks p.1).type ≠ .tcp → p.1 ∈ (w.scan b nfds sets).enrol)
  := by
  obtain ⟨fd, hfd, htab, x, hbit, hx⟩ := mem_selectWants.mp hp
  have hmem : fd ∈ range nfds := mem_range.mpr hfd
  unfold scan at hhits ⊢
  obtain ⟨hbad, -⟩ | ⟨heq, -⟩ :=
    sbSelectScan_eq (w.fds b) w.socks w.tx.txWritable sets (range nfds) .start
  · rw [hbad] at hhits
    contradiction
  · rw [heq] at hhits ⊢
    have hnone : found (w.fds b) w.socks w.tx.txWritable sets fd x = false := by
      rw [hits_foldl] at hhits
      simp only [Scan.start, zero_add] at hhits
      have hcount : ∀ y, (range nfds).countP
          (found (w.fds b) w.socks w.tx.txWritable sets · y) = 0 := by
        intro y
        cases y <;> omega
      have hnot := countP_eq_zero.mp (hcount x) fd hmem
      simpa using hnot
    rw [found_of_some htab, hbit, Bool.true_and, hx] at hnone
    refine ⟨hnone, ?_⟩
    intro hwrite htype
    obtain rfl : x = .write := by
      rw [hwrite] at hx
      cases x <;> first | rfl | contradiction
    apply mem_enrol_foldl hmem htab hbit _ htype
    rwa [hwrite] at hnone

variable [DecidableEq β]

theorem Inv.sendBlock
    (h : w.Inv) {b : β} {k : κ} (hk : some k ∈ w.fds b) (left : ℕ) (dontwait : Bool)
    (hready : (w.socks k).sendReady = false) :
  (w.sendBlock b k left dontwait).Inv
  := by
  unfold WakeWorld.sendBlock
  split
  · exact h.finish b
  · apply h.settle
    · intro j hj
      cases hj
      exact hk
    · intro p hp
      obtain rfl := mem_singleton.mp hp
      exact ⟨hready, nofun⟩

theorem Inv.settle_awake
    (h : w.Inv) {b : β} {a : Activity κ} (hawake : a.asleep = false)
    (hon : ∀ k, a.on = some k → some k ∈ w.fds b) :
  (w.settle b a).Inv
  := by
  apply h.settle hon
  intro p hp
  rw [asleep_of_mem_wants hp] at hawake
  contradiction

theorem Inv.takeSignal
    (h : w.Inv) {b : β} (hawake : w.asleep b = false) :
  Inv { w with sig := Function.update w.sig b false }
  := by
  refine ⟨h.held, h.waiting, h.counted, ?_⟩
  apply h.noLost.act b
  · exact fun _ _ => id
  · intro c hc hsig
    simpa [hc] using hsig
  · exact fun _ _ _ => Or.inr
  · intro hb
    rw [asleep] at hawake
    rw [asleep, hawake] at hb
    contradiction

variable [DecidableEq κ]

theorem Inv.recvStep
    (h : w.Inv) {b : β} {k : κ} {sec : Section β κ} (hk : some k ∈ w.fds b)
    (hs : SbSocket.SameKind (w.socks k) sec.sock ∧ SbSocket.Calm (w.socks k) sec.sock)
    (hwant : ∀ x, sec.call.want = some x → sec.sock.ready w.tx.txWritable x = false) :
  (w.recvStep b k sec).Inv
  := by
  apply ((h.setSock_calm hs).setLock _).settle
  · intro j hj
    split at hj
    · contradiction
    · cases hj
      exact hk
  · intro p hp
    by_cases hrest : sec.call.resting = true
    · rw [if_pos hrest] at hp
      contradiction
    · rw [if_neg hrest] at hp
      simp only [Activity.wants, List.mem_map, Option.mem_toList] at hp
      obtain ⟨x, hx, rfl⟩ := hp
      constructor
      · simpa [WakeWorld.setSock] using hwant x hx
      · intro hwrite
        cases hc : sec.call <;> simp_all [Call.want]

theorem Inv.runRecv
    (h : w.Inv) {b : β} {k : κ} {c : Call} (hk : some k ∈ w.fds b)
    (hrun : w.runRecv b k c = some w') :
  w'.Inv
  := by
  unfold WakeWorld.runRecv at hrun
  split at hrun
  next =>
    simp only [ite_none_right_eq_some, map_eq_some_iff] at hrun
    obtain ⟨-, sec, hsec, rfl⟩ := hrun
    have hstep := Call.step_of_locked hsec
    apply h.recvStep hk ⟨SbSocket.sameKind_of_step hstep, SbSocket.calm_of_step hstep⟩
    intro x hx
    obtain ⟨heq, hready⟩ := SbSocket.not_ready_of_locked hsec hx w.tx.txWritable
    rwa [heq]
  next =>
    split at hrun
    next sec hsec =>
      cases hrun
      exact (h.setSock_calm (SbSocket.calm_clear hsec)).finish b
    next =>
      simp only [ite_none_right_eq_some] at hrun
      obtain ⟨-, hrun⟩ := hrun
      split at hrun
      next c' hrelock =>
        cases hrun
        apply h.recvStep hk ⟨.refl _, .refl _⟩
        intro x hx
        cases c <;> first | contradiction | skip
        cases hrelock
        contradiction
      next =>
        obtain ⟨sec, hsec, rfl⟩ := map_eq_some_iff.mp hrun
        have hstep : Call.Step (w.socks k) 0 c sec := Call.step_of_enter hsec
        apply h.recvStep hk ⟨SbSocket.sameKind_of_step hstep, SbSocket.calm_of_step hstep⟩
        intro x hx
        rw [SbSocket.want_of_enter hsec] at hx
        contradiction

theorem Inv.runDgram
    (h : w.Inv) {b : β} {k : κ} (hk : some k ∈ w.fds b) (peek dontwait : Bool) :
  (w.runDgram b k peek dontwait).Inv
  := by
  have hcalm := SbSocket.calm_sbDgramWait (w.socks k) dontwait
  unfold WakeWorld.runDgram
  split
  next s hwait =>
    rw [hwait] at hcalm
    have hdrop := SbSocket.calm_sbDgramDrop s
    refine Inv.finish (h.setSock_calm ?_) b
    split
    · exact hcalm
    · exact ⟨hcalm.1.trans hdrop.1, hcalm.2.trans hdrop.2⟩
  next e s hwait =>
    rw [hwait] at hcalm
    exact (h.setSock_calm hcalm).finish b
  next s hwait =>
    apply h.settle
    · intro j hj
      cases hj
      exact hk
    · intro p hp
      obtain rfl := mem_singleton.mp hp
      refine ⟨?_, nofun⟩
      unfold SbSocket.sbDgramWait at hwait
      split at hwait
      next hn =>
        cases herr : (w.socks k).err with
        | some e => simp [herr] at hwait
        | none => simp [SbSocket.ready, hn, herr]
      next => cases hwait

theorem Inv.runAccept
    (h : w.Inv) {b : β} {k : κ} (hk : some k ∈ w.fds b) :
  (w.runAccept b k).Inv
  := by
  have hcalm := SbSocket.calm_acceptTest (w.socks k)
  unfold WakeWorld.runAccept
  split
  next new s htest =>
    rw [htest] at hcalm
    apply ((h.setSock_calm hcalm).finish b).setTable
    simp [WakeWorld.settle]
  next => exact h.finish b
  next s htest =>
    apply h.settle
    · intro j hj
      cases hj
      exact hk
    · intro p hp
      obtain rfl := mem_singleton.mp hp
      refine ⟨?_, (by intros; contradiction)⟩
      apply SbSocket.not_ready_of_acceptTest _ (h.counted k)
      rw [htest]

theorem Inv.runConnect
    (h : w.Inv) {b : β} {k : κ} (hk : some k ∈ w.fds b) :
  (w.runConnect b k).Inv
  := by
  unfold WakeWorld.runConnect
  split
  next hpending =>
    apply h.settle
    · intro j hj
      cases hj
      exact hk
    · intro p hp
      obtain rfl := mem_singleton.mp hp
      refine ⟨?_, nofun⟩
      simp only [SbSocket.connectPending, Bool.and_eq_true, isNone_iff_eq_none] at hpending
      simp [SbSocket.ready, hpending]
  next => exact (h.setSock_calm (SbSocket.calm_connectFinish _)).finish b

theorem Inv.runSend
    (h : w.Inv) {b : β} {k : κ} (hk : some k ∈ w.fds b) (left : ℕ) (dontwait : Bool) :
  (w.runSend b k left dontwait).Inv
  := by
  unfold WakeWorld.runSend
  split
  · exact h.finish b
  · split
    next => exact h.finish b
    next => exact h.finish b
    next htest =>
      exact h.sendBlock hk left dontwait (SbSocket.not_ready_of_sendTest (Or.inl htest))
    next chunk htest =>
      split
      next s hwrite =>
        have hcalm := SbSocket.calm_tcpWrite (w.socks k) chunk
        rw [hwrite] at hcalm
        apply (h.setSock_calm hcalm).settle
        · intro j hj
          cases hj
          exact hk
        · nofun
      next hwrite =>
        apply h.sendBlock hk left dontwait
        apply SbSocket.not_ready_of_sendTest
        right
        refine ⟨chunk, htest, ?_⟩
        rw [hwrite]
      next => exact h.finish b

theorem Inv.runSelect
    (h : w.Inv) (b : β) (nfds : ℕ) (sets : FdKind → Option FdSet) (poll : Bool) :
  (w.runSelect b nfds sets poll).Inv
  := by
  have he := enrols_foldl (w.scan b nfds sets).enrol w
  unfold WakeWorld.runSelect
  dsimp only
  split
  next => exact (h.enrol he).finish b
  next hgo =>
    push Not at hgo
    apply (h.enrol he).settle
    · nofun
    · intro p hp
      rw [he.fds] at hp
      obtain ⟨hready, henrol⟩ := scan_no_hit hgo.1 hp
      constructor
      · rw [he.txWritable]
        rw [Bool.eq_false_iff] at hready ⊢
        exact fun hr => hready (he.ready p.1 hr)
      · intro hwrite htype
        rw [he.type] at htype
        have hmem := henrol hwrite htype
        refine ⟨he.enrolled h.waiting _ hmem, he.wanted (ne_nil_of_mem hmem) ?_⟩
        rw [hwrite] at hready
        cases hif : w.tx.activeIf with
        | none =>
          simp [SbSocket.ready, SbSocket.sbSockWritable, htype, TxPath.txWritable, hif] at hready
        | some i => rfl

theorem Inv.run
    (h : w.Inv) {b : β} (hrun : w.run b = some w') :
  w'.Inv
  := by
  have hheld := h.held b
  unfold WakeWorld.run at hrun
  split at hrun
  next k c hact =>
    rw [hact] at hheld
    exact h.runRecv (hheld k rfl) hrun
  next k peek dontwait hact =>
    rw [hact] at hheld
    obtain ⟨-, ⟨⟩⟩ := ite_none_right_eq_some.mp hrun
    exact h.runDgram (hheld k rfl) peek dontwait
  next k hact =>
    rw [hact] at hheld
    obtain ⟨-, ⟨⟩⟩ := ite_none_right_eq_some.mp hrun
    exact h.runAccept (hheld k rfl)
  next k hact =>
    rw [hact] at hheld
    obtain ⟨-, ⟨⟩⟩ := ite_none_right_eq_some.mp hrun
    exact h.runConnect (hheld k rfl)
  next k left dontwait hact =>
    rw [hact] at hheld
    obtain ⟨-, ⟨⟩⟩ := ite_none_right_eq_some.mp hrun
    exact h.runSend (hheld k rfl) left dontwait
  next nfds sets poll hact =>
    obtain ⟨-, ⟨⟩⟩ := ite_none_right_eq_some.mp hrun
    exact h.runSelect b nfds sets poll
  next => contradiction

/-! ### No lost wakeup -/

variable [Fintype β] [Fintype κ] {L : Lwip}

theorem Inv.step
    (h : w.Inv) (hcover : w.ownersCover) {l : WakeLabel β κ} (hl : w.undisturbed l)
    (hstep : next L w l = some w') :
  w'.Inv
  := by
  cases l with
  | event k e =>
    simp only [next, ite_none_right_eq_some, map_eq_some_iff] at hstep
    obtain ⟨-, s, hs, rfl⟩ := hstep
    obtain ⟨hkind, ⟨hwake, howners⟩ | ⟨-, hcalm⟩⟩ := SbSocket.event_effect hs
    · refine h.setSock hkind (Or.inl ⟨hwake, ?_⟩)
      intro b hb
      rw [SbSocket.sbWake, howners]
      exact hcover b k hb
    · refine h.setSock hkind (Or.inr ?_)
      intro b p hp hpk
      exact hcalm p.2 (hl b p hp hpk)
  | dgram k d alloc =>
    obtain ⟨-, ⟨⟩⟩ := ite_none_right_eq_some.mp hstep
    unfold SbSocket.sbDgramQueue
    split
    · exact h.setSock (.refl _) (Or.inr fun _ p _ _ => (SbSocket.Calm.refl _).calmFor p.2)
    · refine h.setSock ⟨rfl, id, id⟩ (Or.inl ⟨rfl, ?_⟩)
      exact fun b hb => hcover b k hb
  | net e =>
    simp only [next, ite_none_right_eq_some] at hstep
    exact h.afterNet hcover hstep.2
  | enrol k =>
    obtain ⟨-, ⟨⟩⟩ := ite_none_right_eq_some.mp hstep
    exact h.enrol (enrols_one w k)
  | create k b f =>
    simp only [next, ite_none_right_eq_some, some.injEq, unused,
      decide_eq_true_eq] at hstep
    obtain ⟨⟨-, hfree, -⟩, rfl⟩ := hstep
    exact h.create hfree b f
  | table b tab =>
    obtain ⟨⟨-, hout⟩, ⟨⟩⟩ := ite_none_right_eq_some.mp hstep
    exact h.setTable (isOutside_iff.mp hout) tab
  | begin b c =>
    simp only [next, ite_none_right_eq_some, map_eq_some_iff] at hstep
    obtain ⟨-, a, ha, rfl⟩ := hstep
    obtain ⟨hawake, hon⟩ := start_spec ha
    exact h.settle_awake hawake hon
  | connect b k r =>
    simp only [next, ite_none_right_eq_some, some.injEq] at hstep
    obtain ⟨⟨-, -, hk, -, -⟩, rfl⟩ := hstep
    have hs : (w.setSock k ((w.socks k).connectStart r).1 SbSocket.quiet).Inv := by
      apply h.setSock (SbSocket.calmFor_connectStart _ r).1
      right
      exact fun _ p _ _ => (SbSocket.calmFor_connectStart _ r).2 p.2
    split
    · exact hs.runConnect hk
    · exact hs.finish b
  | run b => exact h.run hstep
  | wake b we =>
    simp only [next, ite_none_right_eq_some, map_eq_some_iff] at hstep
    obtain ⟨-, a, ha, rfl⟩ := hstep
    obtain ⟨hawake, hon⟩ := woken_spec ha
    have hsettle := h.settle_awake (b := b) hawake fun k hk => h.held b k (hon k hk)
    have htake := hsettle.takeSignal (b := b) (by simp [asleep, WakeWorld.settle, hawake])
    simpa [WakeWorld.settle, hawake] using htake.setLock _

theorem inv_of_reach
    (r : (system L).Reach (fun w l => w.ownersCover ∧ w.undisturbed l) w) :
  w.Inv
  := by
  apply r.invariant
  · rintro w ⟨hfresh, hact, -, -⟩
    constructor
    · intro b k hk
      rw [hact] at hk
      contradiction
    · intro k hk
      obtain ⟨b, f, hf⟩ := hfresh k
      rw [hf, (fresh_spec b f).1] at hk
      contradiction
    · intro k
      obtain ⟨b, f, hf⟩ := hfresh k
      rw [hf]
      exact (fresh_spec b f).2
    · intro b hb
      rw [asleep, hact] at hb
      contradiction
  · rintro w l w' h ⟨hcover, hl⟩ hstep
    exact h.step hcover hl hstep

/-- When no step disturbs a sleeper, an opener that is asleep has its signal pending, or nothing it
waits for has happened. -/
theorem no_lost_wakeup
    (r : (system L).Reach (fun w l => w.ownersCover ∧ w.undisturbed l) w) (b : β)
    (hb : w.asleep b = true) :
  w.sig b = true ∨ w.blocked b
  := ((inv_of_reach r).noLost b hb).imp_right Waits.blocked

/-! ### A shared connection -/

instance (w : WakeWorld β κ) : Decidable w.ownersCover :=
  inferInstanceAs (Decidable (∀ b k, some k ∈ w.fds b → b ∈ (w.socks k).sbWake))

instance (w : WakeWorld β κ) (b : β) : Decidable (w.blocked b) :=
  inferInstanceAs (Decidable (∀ p ∈ w.wants b, (w.socks p.1).ready w.tx.txWritable p.2 = false))

instance decidableUndisturbed (w : WakeWorld β κ) :
    (l : WakeLabel β κ) → Decidable (w.undisturbed l)
  | .event k e =>
      inferInstanceAs (Decidable (∀ b, ∀ p ∈ w.wants b, p.1 = k → e.stirs p.2 = false))
  | .dgram .. | .net _ | .enrol _ | .create .. | .table .. | .begin .. | .connect .. | .run _
  | .wake .. => inferInstanceAs (Decidable True)

def connection : WakeWorld Bool Unit where
  socks _ := Fresh.sock true (.accepted { tcpNew 1000 with state := .established })
  fds b := if b then [some ()] else []
  act _ := .outside
  sig _ := false
  lock := none
  tx := { activeIf := none, txWantSpace := false }
  txWaiters := []

theorem init_connection (L : Lwip) :
  (system L).init connection
  := ⟨fun _ => ⟨true, .accepted { tcpNew 1000 with state := .established }, rfl⟩, fun _ => rfl, rfl,
    rfl⟩

def bothOwners : OwnerTable Bool :=
  ((OwnerTable.single true).incref false).getD (.single true)

theorem ten_lt_int :
  10 < 2 ^ 31
  := by
  decide

def sleepRun : List (WakeLabel Bool Unit) :=
  [.event () (.descriptors bothOwners 2), .table false [some ()],
    .begin true (.recv () (.plain 10 ten_lt_int) false), .run true, .run true]

def deliveryRun : List (WakeLabel Bool Unit) :=
  sleepRun ++ [.event () (.deliver (PbufChain.single 0 [104, 105] (by decide)))]

theorem deliveryRun_enabled :
  ((system Lwip.reference).exec connection deliveryRun).isSome = true
  := by
  decide

def delivered : WakeWorld Bool Unit :=
  (system Lwip.reference).last connection deliveryRun deliveryRun_enabled

theorem no_lost_wakeup_delivered :
  (system Lwip.reference).Reach (fun w l => w.ownersCover ∧ w.undisturbed l) delivered ∧
    delivered.asleep true = true ∧ delivered.sig true = true
  := by
  have hreach : (system Lwip.reference).Reach (fun w l => w.ownersCover ∧ w.undisturbed l)
      delivered := by
    apply reach_last (init_connection _)
    decide
  have hasleep : delivered.asleep true = true := by decide
  refine ⟨hreach, hasleep, ?_⟩
  obtain hsig | hblocked := no_lost_wakeup hreach true hasleep
  · exact hsig
  · exact absurd hblocked (by decide)

def shutdownRun : List (WakeLabel Bool Unit) :=
  sleepRun ++ [.event () (.shutdown 0 .ok)]

theorem shutdownRun_enabled :
  ((system Lwip.reference).exec connection shutdownRun).isSome = true
  := by
  decide

def shutDown : WakeWorld Bool Unit :=
  (system Lwip.reference).last connection shutdownRun shutdownRun_enabled

/-- `shutdown` wakes nobody: the reader stays asleep, the direction it reads being shut down and no
signal pending. -/
theorem shutdown_loses_wakeup :
  (system Lwip.reference).Reach (fun w _ => w.ownersCover) shutDown ∧
    shutDown.asleep true = true ∧ shutDown.sig true = false ∧
    (shutDown.socks ()).shutRd = true ∧ ¬ shutDown.blocked true
  := by
  have hreach : (system Lwip.reference).Reach (fun w _ => w.ownersCover) shutDown := by
    apply reach_last (init_connection _)
    decide
  refine ⟨hreach, ?_⟩
  decide

end WakeWorld
