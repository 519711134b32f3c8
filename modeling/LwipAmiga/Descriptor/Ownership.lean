import LwipAmiga.Descriptor.References

/-!
# Owner tables and descriptors

The owner table of a socket says whom `sb_wake` signals.
-/

open Function Option

/-! ### Tables that count descriptors -/

section Charged

variable {β : Type}

def Agrees (e : Option UInt16) (n : ℕ) : Prop :=
  match e with
  | none => n = 0
  | some r => r.toNat = n ∧ 0 < n

theorem Agrees.isSome_iff
    {e : Option UInt16} {n : ℕ} (h : Agrees e n) :
  e.isSome ↔ 0 < n
  := by
  cases e with
  | none =>
    rw [show n = 0 from h]
    simp
  | some r => simp [h.2]

variable [DecidableEq β]

def Charged (t : OwnerTable β) (m : β → ℕ) : Prop :=
  ∀ b, Agrees (t.entry b) (m b)

variable {t t' : OwnerTable β} {m m' : β → ℕ} {b c : β}

theorem charged_single (c : β) :
  Charged (OwnerTable.single c) (Pi.single c 1)
  := by
  intro b
  rw [OwnerTable.entry_single]
  by_cases hb : b = c
  · subst hb
    rw [if_pos rfl, Pi.single_eq_same]
    exact ⟨rfl, Nat.one_pos⟩
  · rw [if_neg hb, Pi.single_eq_of_ne hb]
    rfl

theorem Charged.eq_of_single
    (h : Charged t (Pi.single c 1)) (hb : (t.entry b).isSome) :
  b = c
  := by
  by_contra hne
  have hpos := (h b).isSome_iff.mp hb
  rw [Pi.single_eq_of_ne hne] at hpos
  contradiction

theorem Charged.entry_of_single (h : Charged t (Pi.single c 1)) :
  t.entry b = if b = c then some 1 else none
  := by
  have hagrees := h b
  by_cases hb : b = c
  · subst hb
    rw [Pi.single_eq_same] at hagrees
    rw [if_pos rfl]
    cases hentry : t.entry b with
    | none =>
      rw [hentry] at hagrees
      contradiction
    | some r =>
      rw [hentry] at hagrees
      have hr : r = 1 := UInt16.toNat_inj.mp hagrees.1
      rw [hr]
  · rw [if_neg hb]
    rw [Pi.single_eq_of_ne hb] at hagrees
    cases hentry : t.entry b with
    | none => rfl
    | some r =>
      rw [hentry] at hagrees
      obtain ⟨-, hpos⟩ := hagrees
      contradiction

theorem Charged.incref
    (h : Charged t m) (ht : t.incref b = some t') (hlt : m b < 65535)
    (hb : m' b = m b + 1) (hother : ∀ c, c ≠ b → m' c = m c) :
  Charged t' m'
  := by
  intro c
  rw [OwnerTable.entry_incref ht]
  by_cases hc : c = b
  · subst hc
    rw [if_pos rfl, hb]
    have hcount := h c
    cases hentry : t.entry c with
    | none =>
      rw [hentry] at hcount
      rw [show m c = 0 from hcount]
      exact ⟨rfl, Nat.one_pos⟩
    | some r =>
      rw [hentry] at hcount
      refine ⟨?_, Nat.succ_pos _⟩
      rw [elim_some, UInt16.toNat_add, hcount.1]
      apply Nat.mod_eq_of_lt
      change m c + 1 < 65536
      omega
  · rw [if_neg hc, hother c hc]
    apply h

theorem Charged.decref
    (h : Charged t m) (hb : m' b + 1 = m b) (hother : ∀ c, c ≠ b → m' c = m c) :
  Charged (t.decref b) m'
  := by
  intro c
  rw [OwnerTable.entry_decref]
  by_cases hc : c = b
  · subst hc
    rw [if_pos rfl]
    have hcount := h c
    cases hentry : t.entry c with
    | none =>
      rw [hentry] at hcount
      rw [show m c = 0 from hcount] at hb
      contradiction
    | some r =>
      rw [hentry] at hcount
      obtain ⟨hr, -⟩ := hcount
      have hsub : (r - 1).toNat = m' c := by
        rw [UInt16.toNat_sub_of_le]
        · change r.toNat - 1 = m' c
          omega
        · rw [UInt16.le_iff_toNat_le]
          change 1 ≤ r.toNat
          omega
      rw [bind_some]
      by_cases hz : r - 1 = 0
      · rw [if_pos hz]
        rw [hz] at hsub
        exact hsub.symm
      · rw [if_neg hz]
        refine ⟨hsub, Nat.pos_of_ne_zero ?_⟩
        rw [← hsub]
        intro h0
        apply hz (UInt16.toNat_inj.mp h0)
  · rw [if_neg hc, hother c hc]
    apply h

end Charged

/-! ### The invariant -/

section OwnerInv

variable {β κ : Type} [DecidableEq β]

structure OwnerInv (socks : κ → Option (SbSocket β κ)) (h : β → κ → ℕ) : Prop where
  holders : ∀ k s, socks k = some s → ¬ Queued socks k → Charged s.owners fun b => h b k
  charged : ∀ q s, socks q = some s → Queued socks q → ∃ c, Charged s.owners (Pi.single c 1)

variable {socks : κ → Option (SbSocket β κ)} {n : κ → ℕ} {h h' : β → κ → ℕ} {k l q : κ}
  {s s' new : SbSocket β κ} {rest : List κ} {b c : β} [DecidableEq κ]

theorem OwnerInv.set
    (ho : OwnerInv socks h) (hqueue : s'.acceptq = queueAt socks k)
    (hother : ∀ b j, j ≠ k → h' b j = h b j)
    (hholders : ¬ Queued socks k → Charged s'.owners fun b => h' b k)
    (hcharged : Queued socks k → ∃ c, Charged s'.owners (Pi.single c 1)) :
  OwnerInv (update socks k (some s')) h'
  := by
  have hqueued := queued_update_of_eq hqueue
  constructor
  · intro j t hj hnq
    rw [hqueued] at hnq
    by_cases hjk : j = k
    · subst hjk
      rw [update_self] at hj
      cases hj
      apply hholders hnq
    · rw [update_of_ne hjk] at hj
      simp only [hother _ j hjk]
      apply ho.holders j t hj hnq
  · intro j t hj hq
    rw [hqueued] at hq
    by_cases hjk : j = k
    · subst hjk
      rw [update_self] at hj
      cases hj
      apply hcharged hq
    · rw [update_of_ne hjk] at hj
      apply ho.charged j t hj hq

theorem OwnerInv.hold
    (ho : OwnerInv socks h) (hk : socks k = some s) (hnq : ¬ Queued socks k)
    (hqueue : s'.acceptq = s.acceptq) (hother : ∀ b j, j ≠ k → h' b j = h b j)
    (hholders : Charged s'.owners fun b => h' b k) :
  OwnerInv (update socks k (some s')) h'
  := by
  apply ho.set _ hother
  · intro _
    apply hholders
  · intro hq
    contradiction
  · rw [hqueue, queueAt_of_eq hk]

theorem OwnerInv.enqueue
    (ho : OwnerInv socks h) (hl : socks l = some s) (hnql : ¬ Queued socks l)
    (hk : socks k = none) (hnew : new.owners = .single c) (hnil : new.acceptq = [])
    (howners : s'.owners = s.owners) (hq : s'.acceptq = s.acceptq ++ [k]) :
  OwnerInv (update (update socks k (some new)) l (some s')) h
  := by
  have hqueued := fun x => queued_enqueue (x := x) hl hk hnil hq
  have hlk : l ≠ k := by
    rintro rfl
    rw [hk] at hl
    contradiction
  constructor
  · intro j t hj hnq
    rw [hqueued, not_or] at hnq
    by_cases hjl : j = l
    · subst hjl
      rw [update_self] at hj
      cases hj
      rw [howners]
      apply ho.holders j s hl hnq.1
    · rw [update_of_ne hjl, update_of_ne hnq.2] at hj
      apply ho.holders j t hj hnq.1
  · intro j t hj hq'
    rw [hqueued] at hq'
    by_cases hjl : j = l
    · subst hjl
      apply absurd hq' (not_or.mpr ⟨hnql, hlk⟩)
    · rw [update_of_ne hjl] at hj
      by_cases hjk : j = k
      · subst hjk
        rw [update_self] at hj
        cases hj
        rw [hnew]
        exact ⟨c, charged_single c⟩
      · rw [update_of_ne hjk] at hj
        apply ho.charged j t hj (hq'.resolve_right hjk)

theorem OwnerInv.dequeue
    (ho : OwnerInv socks h) (hr : RefInv socks n) (hl : socks l = some s)
    (hq : s.acceptq = q :: rest) (howners : s'.owners = s.owners) (hq' : s'.acceptq = rest)
    (hother : ∀ b j, j ≠ q → h' b j = h b j)
    (htaken : ∀ sq, socks q = some sq → Charged sq.owners fun b => h' b q) :
  OwnerInv (update socks l (some s')) h'
  := by
  have hqueued := fun x => queued_dequeue (x := x) hr.apart hl hq hq'
  have hnql : ¬ Queued socks l := by
    intro hql
    have hnil := hr.apart.leaf l hql
    rw [queueAt_of_eq hl, hq] at hnil
    contradiction
  have hlq : l ≠ q := by
    rintro rfl
    apply hnql (queued_of_cons hl hq)
  constructor
  · intro j t hj hnq
    by_cases hjl : j = l
    · subst hjl
      rw [update_self] at hj
      cases hj
      rw [howners]
      simp only [hother _ j hlq]
      apply ho.holders j s hl hnql
    · rw [update_of_ne hjl] at hj
      by_cases hjq : j = q
      · subst hjq
        apply htaken t hj
      · simp only [hother _ j hjq]
        apply ho.holders j t hj
        intro hqj
        apply hnq ((hqueued j).mpr ⟨hqj, hjq⟩)
  · intro j t hj hqj
    have hqj' := ((hqueued j).mp hqj).1
    have hjl : j ≠ l := by
      rintro rfl
      contradiction
    rw [update_of_ne hjl] at hj
    apply ho.charged j t hj hqj'

theorem OwnerInv.release
    (ho : OwnerInv socks h) (hr : RefInv socks n) (hk : socks k = some s)
    (hother : ∀ b j, j ≠ k → h' b j = h b j) :
  OwnerInv (released socks k s) h'
  := by
  have hqueued := fun x => queued_released (x := x) hr.apart hk
  constructor
  · intro j t hj hnq
    have hjk : j ≠ k := by
      rintro rfl
      rw [released_self] at hj
      contradiction
    have hjs : j ∉ s.acceptq := by
      intro hmem
      rw [released_of_mem hmem] at hj
      contradiction
    simp only [hother _ j hjk]
    apply ho.holders j t (eq_some_of_released hj)
    intro hq
    apply hnq ((hqueued j).mpr ⟨hq, hjs⟩)
  · intro j t hj hq
    apply ho.charged j t (eq_some_of_released hj) ((hqueued j).mp hq).1

theorem OwnerInv.free
    (ho : OwnerInv socks h) (hr : RefInv socks n) (hk : 0 < n k) (hless : h' b k + 1 = h b k)
    (hsame : ∀ c, c ≠ b → h' c k = h c k) (hother : ∀ c j, j ≠ k → h' c j = h c j) :
  OwnerInv (sbSockFree FREE_DEPTH socks (some b) k) h'
  := by
  obtain ⟨hnq, s, hs, -⟩ := hr.of_held hk
  by_cases hone : s.refs = 1
  · rw [hr.sbSockFree_of_one hs hone]
    apply ho.release hr hs hother
  · rw [FREE_DEPTH, sbSockFree_of_ne_one hs hone]
    refine ho.hold hs hnq rfl hother ?_
    apply (ho.holders k s hs hnq).decref hless hsame

end OwnerInv

/-! ### Every step -/

namespace World

variable {β κ : Type} [DecidableEq κ] {w w' : World β κ} {b : β} {k : κ} {s : SbSocket β κ}
  {tab : List (Option κ)}

theorem held_lt
    (h : TablesOk w.opener w.fds) (b : β) (k : κ) :
  w.held b k < 65535
  := by
  have hcount : w.held b k ≤ (w.fds b).length := List.count_le_length
  have hlen := h.bounded b
  unfold SB_FD_MAX at hlen
  omega

variable [DecidableEq β]

def OwnersOk (w : World β κ) : Prop :=
  OwnerInv w.socks w.held

def acceptsOwn (w : World β κ) : Label β κ → Prop
  | .accept b fd =>
      ∀ l ∈ sbFdGet (w.fds b) fd, ∀ s ∈ w.socks l, ∀ q ∈ s.acceptq.head?, ∀ sq ∈ w.socks q,
        (sq.owners.entry b).isSome
  | _ => True

instance (w : World β κ) (l : Label β κ) : Decidable (w.acceptsOwn l) := by
  induction l using Label.casesOn <;> dsimp only [acceptsOwn] <;> infer_instance

theorem taken_eq_single
    {f : β → ℕ} (hb : f b = 1) (hother : ∀ c, c ≠ b → f c = 0) :
  f = Pi.single b 1
  := by
  funext c
  by_cases hc : c = b
  · subst hc
    rw [hb, Pi.single_eq_same]
  · rw [hother c hc, Pi.single_eq_of_ne hc]

theorem OwnersOk.charged_of_acceptsOwn
    {fd : ℤ} {l q : κ} {sq : SbSocket β κ} {rest : List κ} (h : w.OwnersOk)
    (hown : w.acceptsOwn (.accept b fd)) (hfd : sbFdGet (w.fds b) fd = some l)
    (hl : w.socks l = some s) (hq : s.acceptq = q :: rest) (hsq : w.socks q = some sq) :
  Charged sq.owners (Pi.single b 1)
  := by
  obtain ⟨c, hc⟩ := h.charged q sq hsq (queued_of_cons hl hq)
  have hhead : q ∈ s.acceptq.head? := by
    rw [hq]
    rfl
  rw [hc.eq_of_single (hown l hfd s hl q hhead sq hsq)]
  apply hc

theorem OwnersOk.of_eq
    (h : OwnerInv w'.socks w.held) (hheld : w'.held = w.held) :
  w'.OwnersOk
  := by
  rw [OwnersOk, hheld]
  apply h

variable [Fintype β]

theorem OwnersOk.drop
    (h : w.OwnersOk) (hr : w.RefsOk) (htab : TableAdd k tab (w.fds b)) :
  (w.drop b tab k).OwnersOk
  := by
  have hless : (w.drop b tab k).held b k + 1 = w.held b k := held_drop_self htab
  apply OwnerInv.free h hr _ hless
  · intro c hc
    apply held_setFds_of_ne hc
  · intro c j hj
    apply held_drop_of_ne htab hj
  · apply references_pos (b := b)
    omega

theorem OwnersOk.share
    (h : w.OwnersOk) (hr : w.RefsOk) (htabs : TablesOk w.opener w.fds) (hk : w.socks k = some s)
    (htab : TableAdd k (w.fds b) tab) (hheld : 0 < w.held b k) :
  (w.share b tab k s).OwnersOk
  := by
  obtain ⟨hnq, -⟩ := hr.of_held (references_pos hheld)
  have hcharged := h.holders k s hk hnq
  have hsome := OwnerTable.incref_isSome_of_entry ((hcharged b).isSome_iff.mpr hheld)
  obtain ⟨owners, howners⟩ := isSome_iff_exists.mp hsome
  refine OwnerInv.hold h hk hnq rfl ?_ ?_
  · intro c j hj
    apply held_add_of_ne htab hj
  · simp only [howners, getD_some]
    apply hcharged.incref howners (held_lt htabs b k) (held_add_self htab)
    intro c hc
    apply held_setFds_of_ne hc

theorem OwnersOk.step
    {l : Label β κ} (h : w.OwnersOk) (hr : w.RefsOk) (htabs : TablesOk w.opener w.fds)
    (hown : w.acceptsOwn l) (hstep : w.Step l w') :
  w'.OwnersOk
  := by
  cases hstep with
  | idle | drawn | closing | skipped => apply h
  | @opened b hopener =>
    apply OwnersOk.of_eq
    · apply h
    · apply held_opened htabs hopener
  | @made b l k s tab _ hk howners _ hnil _ htab =>
    obtain ⟨hzero, hnq⟩ := hr.of_none hk
    have hheld : (fun c => ((w.setSock k s).setFds b tab).held c k) = Pi.single b 1 := by
      apply taken_eq_single
      · apply (held_add_self htab).trans
        rw [held_eq_zero hzero]
      · intro c hc
        apply (held_setFds_of_ne hc).trans (held_eq_zero hzero c)
    refine OwnerInv.set h ?_ ?_ ?_ ?_
    · rw [hnil, queueAt_of_none hk]
    · intro c j hj
      apply held_add_of_ne htab hj
    · intro _
      rw [hheld, howners]
      apply charged_single
    · intro hq
      contradiction
  | @changed l k s s' hk hsame _ =>
    apply OwnerInv.set h
    · rw [hsame.acceptq, queueAt_of_eq hk]
    · intro _ _ _
      rfl
    · rw [hsame.owners]
      apply h.holders k s hk
    · rw [hsame.owners]
      apply h.charged k s hk
  | @queued l lst new s' pcb k owner hl hlisten _ hk hnew hs' =>
    subst hnew hs'
    have hnq := hr.not_queued_of_listening hl hlisten
    refine OwnerInv.enqueue (c := owner) h hl hnq hk ?_ ?_ ?_ ?_ <;> rfl
  | @taken b fd l q s rest tab _ hfd hl hq htab =>
    have hzero := hr.unheld q (queued_of_cons hl hq)
    have hheld : (fun c => ((w.setSock l (unqueued s rest)).setFds b tab).held c q) =
        Pi.single b 1 := by
      apply taken_eq_single
      · apply (held_add_self htab).trans
        rw [held_eq_zero hzero]
      · intro c hc
        apply (held_setFds_of_ne hc).trans (held_eq_zero hzero c)
    refine OwnerInv.dequeue h hr hl hq ?_ ?_ ?_ ?_
    · rfl
    · rfl
    · intro c j hj
      apply held_add_of_ne htab hj
    · intro sq hsq
      rw [hheld]
      apply h.charged_of_acceptsOwn hown hfd hl hq hsq
  | @refused b fd l q s rest _ hfd hl hq =>
    have hzero := hr.unheld q (queued_of_cons hl hq)
    have hmid : OwnerInv (update w.socks l (some (unqueued s rest)))
        (fun c => update (w.held c) q (Pi.single (M := fun _ => ℕ) b 1 c)) := by
      refine OwnerInv.dequeue h hr hl hq ?_ ?_ ?_ ?_
      · rfl
      · rfl
      · intro c j hj
        rw [update_of_ne hj]
      · intro sq hsq
        simp only [update_self]
        apply h.charged_of_acceptsOwn hown hfd hl hq hsq
    apply hmid.free (hr.unqueue hl hq)
    · rw [update_self]
      apply Nat.one_pos
    · rw [update_self, Pi.single_eq_same]
      apply congrArg (· + 1) (held_eq_zero hzero b)
    · intro c hc
      rw [update_self, Pi.single_eq_of_ne hc]
      apply held_eq_zero hzero c
    · intro c j hj
      rw [update_of_ne hj]
      rfl
  | shared _ hfd hk htab => apply h.share hr htabs hk htab (count_pos_of_sbFdGet hfd)
  | @replaced b oldSock newSock j k s tab tab' hopener hfd _ hjk htab hk htab' =>
    have hheld : (w.drop b tab j).held b k = w.held b k := held_drop_of_ne htab hjk.symm b
    apply OwnersOk.share (h.drop hr htab) (hr.drop htab) _ hk
    · simpa only [World.drop, setFds, update_self] using htab'
    · rw [hheld]
      apply count_pos_of_sbFdGet hfd
    · apply htabs.own hopener (htabs.length_drop htab)
  | closed _ _ htab => apply h.drop hr htab
  | @copied b fd id id' next mem k s _ hfd hk =>
    obtain ⟨hnq, -⟩ := hr.of_held (references_pos (count_pos_of_sbFdGet hfd))
    refine OwnerInv.hold h hk hnq rfl ?_ (h.holders k s hk hnq)
    intro _ _ _
    rfl
  | @parked b fd id id' next mem k s tab _ hfd hk htab =>
    obtain ⟨hnq, -⟩ := hr.of_held (references_pos (count_pos_of_sbFdGet hfd))
    refine OwnerInv.hold h hk hnq rfl ?_ ?_
    · intro c j hj
      apply held_drop_of_ne htab hj
    · apply (h.holders k s hk hnq).decref (held_drop_self htab)
      intro c hc
      apply held_setFds_of_ne hc
  | @obtained b id type r s owners tab _ hfind hk htab howners =>
    obtain ⟨hnq, -⟩ := hr.of_held (references_pos_of_find hfind)
    refine OwnerInv.hold h hk hnq rfl ?_ ?_
    · intro c j hj
      apply held_add_of_ne htab hj
    · apply (h.holders r.s s hk hnq).incref howners (held_lt htabs b r.s) (held_add_self htab)
      intro c hc
      apply held_setFds_of_ne hc
  | grown =>
    apply OwnersOk.of_eq
    · apply h
    · apply held_growTable
  | @cleared b i k _ hi =>
    apply OwnersOk.drop (w := { w with opener := update w.opener b (.closing (i + 1)) }) h hr
    apply TableAdd.of_clear hi
  | @ended b i hopener hi =>
    apply OwnersOk.of_eq
    · apply h
    · apply held_ended htabs hopener hi

def chargedSteps (w : World β κ) (l : Label β κ) : Prop :=
  w.fewReferences l ∧ w.acceptsOwn l

instance (w : World β κ) (l : Label β κ) : Decidable (w.chargedSteps l) :=
  inferInstanceAs (Decidable (_ ∧ _))

theorem ownersOk_of_reach (hw : (system β κ).Reach chargedSteps w) :
  w.OwnersOk
  := by
  apply hw.invariant_of (J := fun w => TablesOk w.opener w.fds ∧ w.RefsOk) (I := OwnersOk)
  · intro w hw
    refine ⟨tablesOk_of_reach hw, refsOk_of_reach (hw.mono ?_)⟩
    intro w l h
    apply h.1
  · intro w hinit
    rw [show w = start from hinit]
    constructor
    · intro k s hk
      contradiction
    · intro k s hk
      contradiction
  · intro w l w' hJ h hgood hstep
    apply h.step hJ.2 hJ.1 hgood.2 (step_of_next hstep)

/-- The owner entry of an opener is the number of its descriptors for the socket, and a queued
connection has one entry, for the opener it is charged to. -/
theorem owners_eq_holders (hw : (system β κ).Reach chargedSteps w) :
  (∀ k s, w.socks k = some s → ¬ Queued w.socks k → ∀ b,
    ((s.owners.entry b).isSome ↔ 0 < w.held b k) ∧
      ∀ n, s.owners.entry b = some n → n.toNat = w.held b k) ∧
    (∀ q s, w.socks q = some s → Queued w.socks q →
      ∃ c, ∀ b, s.owners.entry b = if b = c then some 1 else none) ∧
    ∀ k b, 0 < w.held b k → ∃ s, w.socks k = some s ∧ b ∈ s.sbWake
  := by
  have h := ownersOk_of_reach hw
  have hr := refsOk_of_reach (hw.mono fun _ _ hgood => hgood.1)
  and_intros
  · intro k s hk hnq b
    have hagrees := h.holders k s hk hnq b
    refine ⟨hagrees.isSome_iff, ?_⟩
    intro n hn
    rw [hn] at hagrees
    apply hagrees.1
  · intro q s hq hqueued
    obtain ⟨c, hc⟩ := h.charged q s hq hqueued
    refine ⟨c, ?_⟩
    intro b
    apply hc.entry_of_single
  · intro k b hheld
    obtain ⟨hnq, s, hs, -⟩ := hr.of_held (references_pos hheld)
    refine ⟨s, hs, OwnerTable.mem_bases.mpr ?_⟩
    apply (h.holders k s hs hnq b).isSome_iff.mpr hheld

theorem owners_eq_holders_shared :
  (system (Fin 2) (Fin 2)).Reach chargedSteps sharedEnd ∧
    sharedEnd.held 0 0 = 2 ∧ sharedEnd.held 1 0 = 1 ∧
    (∀ k s, sharedEnd.socks k = some s → ¬ Queued sharedEnd.socks k → ∀ b,
      ((s.owners.entry b).isSome ↔ 0 < sharedEnd.held b k) ∧
        ∀ n, s.owners.entry b = some n → n.toNat = sharedEnd.held b k) ∧
    (∀ q s, sharedEnd.socks q = some s → Queued sharedEnd.socks q →
      ∃ c, ∀ b, s.owners.entry b = if b = c then some 1 else none) ∧
    ∀ k b, 0 < sharedEnd.held b k → ∃ s, sharedEnd.socks k = some s ∧ b ∈ s.sbWake
  := by
  have hreach : (system (Fin 2) (Fin 2)).Reach chargedSteps sharedEnd := by
    apply TransitionSystem.reach_last rfl
    decide
  refine ⟨hreach, ?_, ?_, owners_eq_holders hreach⟩
  · decide
  · decide

/-- A connection that waits in an accept queue has an owner entry for an opener that holds no
descriptor for it. -/
theorem queued_without_descriptor :
  (system (Fin 2) (Fin 2)).Reachable sharedEnd ∧
    (∃ s, sharedEnd.socks 1 = some s ∧ s.owners.entry 0 = some 1) ∧ sharedEnd.held 0 1 = 0
  := by
  refine ⟨reach_sharedEnd.reachable, ?_, ?_⟩
  · refine ⟨(sharedEnd.socks 1).get (by decide), (some_get _).symm, ?_⟩
    decide
  · decide

end World
