import LwipAmiga.Descriptor.Ownership

/-!
# Openers that have closed the library

`LibClose` frees the opener base, and a socket that still listed it would be signalled through freed
memory.
-/

open Function TransitionSystem

/-! ### Whom queued connections are charged to -/

section Guarded

variable {β κ : Type} [DecidableEq β]

def ChargedAt (socks : κ → Option (SbSocket β κ)) (l : κ) (c : β) : Prop :=
  ∃ q ∈ queueAt socks l, ∃ sq, socks q = some sq ∧ (sq.owners.entry c).isSome

def Guarded (socks : κ → Option (SbSocket β κ)) (h : β → κ → ℕ) : Prop :=
  ∀ l c, ChargedAt socks l c → 0 < h c l

variable {socks : κ → Option (SbSocket β κ)} {n : κ → ℕ} {h h' : β → κ → ℕ} {j k l q : κ}
  {s s' new : SbSocket β κ} {rest : List κ} {b c d : β} [DecidableEq κ]

theorem ChargedAt.of_set
    (hc : ChargedAt (update socks k (some s')) l c) (hqueue : s'.acceptq = queueAt socks k)
    (howners : Queued socks k → ∃ s, socks k = some s ∧ s'.owners = s.owners) :
  ChargedAt socks l c
  := by
  obtain ⟨q, hq, sq, hsq, hentry⟩ := hc
  rw [queueAt_update_of_eq hqueue] at hq
  by_cases hqk : q = k
  · subst hqk
    rw [update_self] at hsq
    cases hsq
    obtain ⟨s, hs, heq⟩ := howners ⟨l, hq⟩
    rw [heq] at hentry
    exact ⟨q, hq, s, hs, hentry⟩
  · rw [update_of_ne hqk] at hsq
    exact ⟨q, hq, sq, hsq, hentry⟩

theorem ChargedAt.of_update
    (hc : ChargedAt (update socks k (some s')) l c) (hk : socks k = some s)
    (hqueue : s'.acceptq = s.acceptq) (hnq : ¬ Queued socks k) :
  ChargedAt socks l c
  := by
  apply hc.of_set
  · rw [hqueue, queueAt_of_eq hk]
  · intro hq
    contradiction

theorem ChargedAt.of_enqueue
    (hc : ChargedAt (update (update socks k (some new)) l (some s')) j c)
    (hr : RefInv socks n) (hl : socks l = some s) (hnql : ¬ Queued socks l)
    (hk : socks k = none) (hnew : new.owners = .single d) (hnil : new.acceptq = [])
    (hq : s'.acceptq = s.acceptq ++ [k]) :
  ChargedAt socks j c ∨ j = l ∧ c = d
  := by
  obtain ⟨q, hqj, sq, hsq, hentry⟩ := hc
  have hlk : l ≠ k := by
    rintro rfl
    rw [hk] at hl
    contradiction
  rw [queueAt_enqueue hl hk hnil hq, Queues.mem_push] at hqj
  obtain hqj | ⟨rfl, rfl⟩ := hqj
  · left
    have hql : q ≠ l := by
      rintro rfl
      apply hnql ⟨j, hqj⟩
    have hqk : q ≠ k := by
      rintro rfl
      apply (hr.of_none hk).2 ⟨j, hqj⟩
    rw [update_of_ne hql, update_of_ne hqk] at hsq
    exact ⟨q, hqj, sq, hsq, hentry⟩
  · right
    rw [update_of_ne hlk.symm, update_self] at hsq
    cases hsq
    rw [hnew] at hentry
    exact ⟨rfl, (charged_single d).eq_of_single hentry⟩

theorem ChargedAt.of_dequeue
    (hc : ChargedAt (update socks l (some s')) j c) (hr : RefInv socks n)
    (hl : socks l = some s) (hq : s.acceptq = q :: rest) (hq' : s'.acceptq = rest) :
  ChargedAt socks j c
  := by
  obtain ⟨x, hx, sx, hsx, hentry⟩ := hc
  have hQl : queueAt socks l = q :: rest := (queueAt_of_eq hl).trans hq
  rw [queueAt_dequeue hq'] at hx
  have hxj := ((hr.apart.mem_pop hQl).mp hx).1
  have hxl : x ≠ l := by
    rintro rfl
    have hnil := hr.apart.leaf x ⟨j, hxj⟩
    rw [hQl] at hnil
    contradiction
  rw [update_of_ne hxl] at hsx
  exact ⟨x, hxj, sx, hsx, hentry⟩

theorem ChargedAt.of_free
    {base : Option β} (hc : ChargedAt (sbSockFree FREE_DEPTH socks base k) j c)
    (hr : RefInv socks n) (hk : 0 < n k) :
  ChargedAt socks j c ∧ (n k = 1 → j ≠ k)
  := by
  obtain ⟨hnq, s, hs, hrefs⟩ := hr.of_held hk
  by_cases hone : s.refs = 1
  · rw [hr.sbSockFree_of_one hs hone] at hc
    obtain ⟨q, hq, sq, hsq, hentry⟩ := hc
    rw [queueAt_released hr.apart hs, Queues.mem_update] at hq
    obtain ⟨-, hq⟩ | ⟨hjk, hq⟩ := hq
    · contradiction
    · exact ⟨⟨q, hq, sq, eq_some_of_released hsq, hentry⟩, fun _ => hjk⟩
  · rw [FREE_DEPTH, sbSockFree_of_ne_one hs hone] at hc
    constructor
    · refine hc.of_update hs ?_ hnq
      rfl
    · intro hn
      rw [hn] at hrefs
      apply absurd (UInt8.toNat_inj.mp hrefs) hone

end Guarded

namespace World

variable {β κ : Type} [DecidableEq β] {w w' : World β κ} {b : β} {k : κ} {tab : List (Option κ)}

def uncharged (w : World β κ) (b : β) (k : κ) : Prop :=
  ∀ s ∈ w.socks k, ∀ q ∈ s.acceptq, ∀ sq ∈ w.socks q, (sq.owners.entry b).isNone

instance (w : World β κ) (b : β) (k : κ) : Decidable (w.uncharged b k) := by
  unfold uncharged
  infer_instance

theorem not_chargedAt_of_uncharged (h : w.uncharged b k) :
  ¬ ChargedAt w.socks k b
  := by
  rintro ⟨q, hq, sq, hsq, hentry⟩
  cases hs : w.socks k with
  | none =>
    rw [queueAt_of_none hs] at hq
    contradiction
  | some s =>
    rw [queueAt_of_eq hs] at hq
    have hnone := h s hs q hq sq hsq
    rw [Option.isNone_iff_eq_none] at hnone
    rw [hnone] at hentry
    contradiction

variable [DecidableEq κ]

def GuardedOk (w : World β κ) : Prop :=
  Guarded w.socks w.held

theorem GuardedOk.mono
    (h : w.GuardedOk) (hcharged : ∀ l c, ChargedAt w'.socks l c → ChargedAt w.socks l c)
    (hheld : ∀ l c, w.held c l ≤ w'.held c l) :
  w'.GuardedOk
  := by
  intro l c hc
  apply (h l c (hcharged l c hc)).trans_le (hheld l c)

theorem held_le_add
    (htab : TableAdd k (w.fds b) tab) (l : κ) (c : β) :
  w.held c l ≤ (w.setFds b tab).held c l
  := by
  by_cases hl : l = k
  · subst hl
    by_cases hc : c = b
    · subst hc
      rw [held_add_self htab]
      apply Nat.le_succ
    · rw [held_setFds_of_ne hc]
  · rw [held_add_of_ne htab hl]

theorem GuardedOk.lose
    (h : w.GuardedOk) (htab : TableAdd k tab (w.fds b))
    (hcharged : ∀ l c, ChargedAt w'.socks l c → ChargedAt w.socks l c)
    (hheld : w'.held = (w.setFds b tab).held)
    (hlast : w.held b k = 1 → ¬ ChargedAt w'.socks k b) :
  w'.GuardedOk
  := by
  intro l c hc
  have hpos := h l c (hcharged l c hc)
  rw [hheld]
  by_cases hl : l = k
  · subst hl
    by_cases hcb : c = b
    · subst hcb
      have hdrop := held_drop_self htab
      have hne : w.held c l ≠ 1 := fun hone => hlast hone hc
      omega
    · rw [held_setFds_of_ne hcb]
      apply hpos
  · rw [held_drop_of_ne htab hl]
    apply hpos

variable [Fintype β]

def mayDrop (w : World β κ) (b : β) (k : κ) : Prop :=
  w.held b k = 1 → w.references k ≠ 1 → w.uncharged b k

instance (w : World β κ) (b : β) (k : κ) : Decidable (w.mayDrop b k) := by
  unfold mayDrop
  infer_instance

def keepsCharged (w : World β κ) : Label β κ → Prop
  | .close b fd => ∀ k ∈ sbFdGet (w.fds b) fd, w.mayDrop b k
  | .dup2 b oldSock newSock =>
      ∀ k ∈ sbFdGet (w.fds b) oldSock, ∀ j ∈ sbFdGet (w.fds b) newSock, j ≠ k → w.mayDrop b j
  | .release b fd _ false _ =>
      ∀ k ∈ sbFdGet (w.fds b) fd, w.held b k = 1 → w.uncharged b k
  | .cleanup b => ∀ i ∈ (w.opener b).position, ∀ k ∈ (w.fds b)[i]?.join, w.mayDrop b k
  | _ => True

instance (w : World β κ) (l : Label β κ) : Decidable (w.keepsCharged l) := by
  induction l using Label.casesOn with
  | release b fd id copy mem =>
    induction copy using Bool.casesOn <;> dsimp only [keepsCharged] <;> infer_instance
  | _ => dsimp only [keepsCharged]; infer_instance

theorem GuardedOk.drop
    (h : w.GuardedOk) (hr : w.RefsOk) (htab : TableAdd k tab (w.fds b)) (hmay : w.mayDrop b k) :
  (w.drop b tab k).GuardedOk
  := by
  have hpos : 0 < w.references k := by
    apply references_pos (b := b)
    have hdrop := held_drop_self htab
    omega
  apply h.lose htab
  · intro l c hc
    apply (ChargedAt.of_free hc hr hpos).1
  · rfl
  · intro hone hc
    obtain ⟨hcharged, hne⟩ := ChargedAt.of_free hc hr hpos
    apply not_chargedAt_of_uncharged (hmay hone _) hcharged
    intro hrefs
    apply hne hrefs rfl

theorem GuardedOk.share
    {s : SbSocket β κ} (h : w.GuardedOk) (hr : w.RefsOk) (hk : w.socks k = some s)
    (htab : TableAdd k (w.fds b) tab) (hheld : 0 < w.held b k) :
  (w.share b tab k s).GuardedOk
  := by
  obtain ⟨hnq, -⟩ := hr.of_held (references_pos hheld)
  apply h.mono
  · intro l c hc
    refine ChargedAt.of_update hc hk ?_ hnq
    rfl
  · intro l c
    apply held_le_add htab

theorem GuardedOk.step
    {l : Label β κ} (h : w.GuardedOk) (ho : w.OwnersOk) (hr : w.RefsOk)
    (htabs : TablesOk w.opener w.fds) (hkeeps : w.keepsCharged l) (hstep : w.Step l w') :
  w'.GuardedOk
  := by
  cases hstep with
  | idle | drawn | closing | skipped => apply h
  | @opened b hopener =>
    have hheld := held_opened htabs hopener
    apply h.mono
    · intro l c hc
      apply hc
    · intro l c
      apply (congrFun₂ hheld c l).ge
  | made _ hk _ _ hnil _ htab =>
    apply h.mono
    · intro l c hc
      apply hc.of_set
      · rw [hnil, queueAt_of_none hk]
      · intro hq
        apply absurd hq (hr.of_none hk).2
    · intro l c
      apply held_le_add htab
  | changed hk hsame _ =>
    apply h.mono
    · intro l c hc
      apply hc.of_set
      · rw [hsame.acceptq, queueAt_of_eq hk]
      · intro _
        exact ⟨_, hk, hsame.owners⟩
    · intro l c
      apply le_refl
  | @queued l lst new s' pcb k owner hl hlisten hfirst hk hnew hs' =>
    subst hnew hs'
    have hnq := hr.not_queued_of_listening hl hlisten
    intro j c hc
    obtain hc | ⟨rfl, rfl⟩ := hc.of_enqueue (d := owner) hr hl hnq hk rfl rfl rfl
    · apply h j c hc
    · apply (ho.holders j lst hl hnq c).isSome_iff.mp
      apply OwnerTable.entry_of_first hfirst
  | taken _ _ hl hq htab =>
    apply h.mono
    · intro j c hc
      apply hc.of_dequeue hr hl hq rfl
    · intro j c
      apply held_le_add htab
  | @refused b fd l q s rest _ _ hl hq =>
    apply h.mono
    · intro j c hc
      have hone : 0 < update w.references q 1 q := by
        rw [update_self]
        apply Nat.one_pos
      apply (hc.of_free (hr.unqueue hl hq) hone).1.of_dequeue hr hl hq rfl
    · intro j c
      apply le_refl
  | shared _ hfd hk htab => apply h.share hr hk htab (count_pos_of_sbFdGet hfd)
  | @replaced b oldSock newSock j k s tab tab' _ hfd hnew hjk htab hk htab' =>
    have hheld : (w.drop b tab j).held b k = w.held b k := held_drop_of_ne htab hjk.symm b
    apply GuardedOk.share (h.drop hr htab (hkeeps k hfd j hnew hjk)) (hr.drop htab) hk
    · simpa only [World.drop, setFds, update_self] using htab'
    · rw [hheld]
      apply count_pos_of_sbFdGet hfd
  | closed _ hfd htab => apply h.drop hr htab (hkeeps _ hfd)
  | copied _ hfd hk =>
    obtain ⟨hnq, -⟩ := hr.of_held (references_pos (count_pos_of_sbFdGet hfd))
    apply h.mono
    · intro l c hc
      refine ChargedAt.of_update hc hk ?_ hnq
      rfl
    · intro l c
      apply le_refl
  | @parked b fd id id' next mem k s tab _ hfd hk htab =>
    obtain ⟨hnq, -⟩ := hr.of_held (references_pos (count_pos_of_sbFdGet hfd))
    have hsub : ∀ l c, ChargedAt (update w.socks k
        (some { s with owners := s.owners.decref b })) l c → ChargedAt w.socks l c := by
      intro l c hc
      refine ChargedAt.of_update hc hk ?_ hnq
      rfl
    apply h.lose htab hsub
    · rfl
    · intro hone hc
      apply not_chargedAt_of_uncharged (hkeeps k hfd hone) (hsub k b hc)
  | obtained _ hfind hk htab _ =>
    obtain ⟨hnq, -⟩ := hr.of_held (references_pos_of_find hfind)
    apply h.mono
    · intro l c hc
      refine ChargedAt.of_update hc hk ?_ hnq
      rfl
    · intro l c
      apply held_le_add htab
  | @grown b _ want =>
    have hheld := held_growTable (w := w) b want
    apply h.mono
    · intro l c hc
      apply hc
    · intro l c
      apply (congrFun₂ hheld c l).ge
  | @cleared b i k hopener hi =>
    apply GuardedOk.drop
      (w := { w with opener := update w.opener b (.closing (i + 1)) }) h hr
    · apply TableAdd.of_clear hi
    · apply hkeeps i _ k
      · rw [hi]
        rfl
      · rw [hopener]
        rfl
  | @ended b i hopener hi =>
    have hheld := held_ended htabs hopener hi
    apply h.mono
    · intro l c hc
      apply hc
    · intro l c
      apply (congrFun₂ hheld c l).ge

def guardedSteps (w : World β κ) (l : Label β κ) : Prop :=
  w.chargedSteps l ∧ w.keepsCharged l

instance (w : World β κ) (l : Label β κ) : Decidable (w.guardedSteps l) :=
  inferInstanceAs (Decidable (_ ∧ _))

theorem guardedOk_of_reach (hw : (system β κ).Reach guardedSteps w) :
  w.GuardedOk
  := by
  apply hw.invariant_of
    (J := fun w => TablesOk w.opener w.fds ∧ w.RefsOk ∧ w.OwnersOk) (I := GuardedOk)
  · intro w hw
    and_intros
    · apply tablesOk_of_reach hw
    · apply refsOk_of_reach (hw.mono fun _ _ h => h.1.1)
    · apply ownersOk_of_reach (hw.mono fun _ _ h => h.1)
  · intro w hinit
    rw [show w = start from hinit]
    rintro l c ⟨q, hq, -⟩
    contradiction
  · intro w l w' hJ h hgood hstep
    apply h.step hJ.2.2 hJ.2.1 hJ.1 hgood.2 (step_of_next hstep)

/-- No socket that anything refers to lists an opener that has closed the library. -/
theorem no_dangling_opener (hw : (system β κ).Reach guardedSteps w) :
  ∀ b, w.opener b = .closed → ∀ k, 0 < w.references k ∨ Queued w.socks k →
    ∃ s, w.socks k = some s ∧ b ∉ s.owners.bases
  := by
  have hr := refsOk_of_reach (hw.mono fun _ _ h => h.1.1)
  have ho := ownersOk_of_reach (hw.mono fun _ _ h => h.1)
  have hg := guardedOk_of_reach hw
  intro b hclosed k hk
  have hheld : ∀ j, w.held b j = 0 := by
    intro j
    rw [held, (tablesOk_of_reach hw).absent b hclosed]
    rfl
  by_cases hq : Queued w.socks k
  · obtain ⟨s, hs, -⟩ := hr.of_queued hq
    refine ⟨s, hs, ?_⟩
    intro hmem
    obtain ⟨l, hl⟩ := hq
    have hpos := hg l b ⟨k, hl, s, hs, OwnerTable.mem_bases.mp hmem⟩
    rw [hheld l] at hpos
    contradiction
  · obtain ⟨-, s, hs, -⟩ := hr.of_held (hk.resolve_right hq)
    refine ⟨s, hs, ?_⟩
    intro hmem
    have hpos : 0 < w.held b k :=
      (ho.holders k s hs hq b).isSome_iff.mp (OwnerTable.mem_bases.mp hmem)
    rw [hheld k] at hpos
    contradiction

def handedRun : List (Label (Fin 2) (Fin 3)) :=
  [.libOpen 0, .libOpen 1, .socket 0 2 1 0 (some 0) true, .listen 0 0 5 true,
    .release 0 0 7 true true, .obtain 1 7 1, .incoming 0 (tcpNew TCP_SND_BUF) (some 1)]

def closeRun : List (Label (Fin 2) (Fin 3)) :=
  .libClose 0 :: List.replicate (SB_FD_COUNT + 1) (.cleanup 0)

def servedRun : List (Label (Fin 2) (Fin 3)) :=
  handedRun ++ .accept 0 0 :: closeRun ++ [.incoming 0 (tcpNew TCP_SND_BUF) (some 2)]

theorem servedRun_enabled :
  ((system (Fin 2) (Fin 3)).exec start servedRun).isSome = true
  := by decide

def servedEnd : World (Fin 2) (Fin 3) :=
  (system (Fin 2) (Fin 3)).last start servedRun servedRun_enabled

theorem no_dangling_opener_served :
  servedEnd.opener 0 = .closed ∧ servedEnd.references 0 = 1 ∧ 2 ∈ queueAt servedEnd.socks 0 ∧
    ∀ b, servedEnd.opener b = .closed → ∀ k, 0 < servedEnd.references k ∨ Queued servedEnd.socks k →
      ∃ s, servedEnd.socks k = some s ∧ b ∉ s.owners.bases
  := by
  have hreach : (system (Fin 2) (Fin 3)).Reach guardedSteps servedEnd := by
    apply reach_last rfl
    decide +kernel
  refine ⟨?_, ?_, ?_, no_dangling_opener hreach⟩
  · decide
  · decide
  · decide

def abandonedRun : List (Label (Fin 2) (Fin 3)) :=
  handedRun ++ closeRun

theorem abandonedRun_enabled :
  ((system (Fin 2) (Fin 3)).exec start abandonedRun).isSome = true
  := by decide

def abandonedEnd : World (Fin 2) (Fin 3) :=
  (system (Fin 2) (Fin 3)).last start abandonedRun abandonedRun_enabled

/-- The first opener has closed the library, and the connection that waits in the queue of the
listener the second opener holds still lists it. -/
theorem closed_opener_charged :
  (system (Fin 2) (Fin 3)).Reachable abandonedEnd ∧ abandonedEnd.opener 0 = .closed ∧
    abandonedEnd.held 1 0 = 1 ∧ 1 ∈ queueAt abandonedEnd.socks 0 ∧
    ∃ s, abandonedEnd.socks 1 = some s ∧ 0 ∈ s.owners.bases
  := by
  refine ⟨reachable_last rfl, ?_, ?_, ?_, ?_⟩
  · decide
  · decide
  · decide
  · refine ⟨(abandonedEnd.socks 1).get (by decide), (Option.some_get _).symm, ?_⟩
    decide

end World
