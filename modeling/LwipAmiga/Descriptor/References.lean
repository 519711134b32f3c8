import LwipAmiga.Descriptor.Step
import LwipAmiga.Lib.Queues

/-!
# Reference counts

The references to a socket are the descriptors that hold it and the parked releases that name it.
-/

open Function List Option TransitionSystem Finset

open scoped BigOperators

/-! ### Accept queues -/

section Queues

variable {β κ : Type}

def queueAt (socks : κ → Option (SbSocket β κ)) (l : κ) : List κ :=
  (socks l).elim [] SbSocket.acceptq

def Queued (socks : κ → Option (SbSocket β κ)) (q : κ) : Prop :=
  Queues.Waiting (queueAt socks) q

variable {socks : κ → Option (SbSocket β κ)} {k l : κ} {s s' : SbSocket β κ}

theorem queueAt_of_eq (h : socks k = some s) :
  queueAt socks k = s.acceptq
  := by
  rw [queueAt, h]
  rfl

theorem queueAt_of_none (h : socks k = none) :
  queueAt socks k = []
  := by
  rw [queueAt, h]
  rfl

theorem queued_of_mem
    {q : κ} (hl : socks l = some s) (hq : q ∈ s.acceptq) :
  Queued socks q
  := by
  refine ⟨l, ?_⟩
  rw [queueAt_of_eq hl]
  apply hq

theorem queued_of_cons
    {q : κ} {rest : List κ} (hl : socks l = some s) (hq : s.acceptq = q :: rest) :
  Queued socks q
  := by
  apply queued_of_mem hl
  rw [hq]
  apply List.mem_cons_self

variable [DecidableEq κ]

theorem queueAt_update (o : Option (SbSocket β κ)) :
  queueAt (update socks k o) =
    update (queueAt socks) k (o.elim [] SbSocket.acceptq)
  := by
  funext j
  by_cases hj : j = k
  · subst hj
    simp [queueAt]
  · simp [queueAt, hj]

theorem queueAt_update_of_eq (h : s'.acceptq = queueAt socks k) :
  queueAt (update socks k (some s')) = queueAt socks
  := by
  rw [queueAt_update, elim_some, h, update_eq_self]

theorem queued_update_of_eq (h : s'.acceptq = queueAt socks k) :
  Queued (update socks k (some s')) = Queued socks
  := by
  funext q
  rw [Queued, queueAt_update_of_eq h, Queued]

variable {new : SbSocket β κ} {q x : κ} {rest : List κ}

theorem queueAt_enqueue
    (hl : socks l = some s) (hk : socks k = none) (hnil : new.acceptq = [])
    (hq : s'.acceptq = s.acceptq ++ [k]) :
  queueAt (update (update socks k (some new)) l (some s')) =
    update (queueAt socks) l (queueAt socks l ++ [k])
  := by
  have hnilk : queueAt socks k = [] := queueAt_of_none hk
  rw [queueAt_update, queueAt_update_of_eq (hnil.trans hnilk.symm), elim_some, hq,
    queueAt_of_eq hl]

theorem queued_enqueue
    (hl : socks l = some s) (hk : socks k = none) (hnil : new.acceptq = [])
    (hq : s'.acceptq = s.acceptq ++ [k]) :
  Queued (update (update socks k (some new)) l (some s')) x ↔
    Queued socks x ∨ x = k
  := by
  rw [Queued, queueAt_enqueue hl hk hnil hq, Queues.waiting_push, Queued]

theorem queueAt_dequeue (hq : s'.acceptq = rest) :
  queueAt (update socks l (some s')) = update (queueAt socks) l rest
  := by
  rw [queueAt_update, elim_some, hq]

theorem queued_dequeue
    (h : Queues.Apart (queueAt socks)) (hl : socks l = some s) (hq : s.acceptq = q :: rest)
    (hq' : s'.acceptq = rest) :
  Queued (update socks l (some s')) x ↔ Queued socks x ∧ x ≠ q
  := by
  rw [Queued, queueAt_dequeue hq', h.waiting_pop ((queueAt_of_eq hl).trans hq), Queued]

def released (socks : κ → Option (SbSocket β κ)) (k : κ) (s : SbSocket β κ) :
    κ → Option (SbSocket β κ) :=
  fun j => if j = k ∨ j ∈ s.acceptq then none else socks j

theorem released_self :
  released socks k s k = none
  := if_pos (Or.inl rfl)

theorem released_of_mem (h : x ∈ s.acceptq) :
  released socks k s x = none
  := if_pos (Or.inr h)

theorem released_of_ne (hk : x ≠ k) (hs : x ∉ s.acceptq) :
  released socks k s x = socks x
  := if_neg (not_or.mpr ⟨hk, hs⟩)

theorem eq_some_of_released (h : released socks k s x = some s') :
  socks x = some s'
  := by
  unfold released at h
  split at h
  · contradiction
  · apply h

theorem queueAt_released
    (h : Queues.Apart (queueAt socks)) (hk : socks k = some s) :
  queueAt (released socks k s) = update (queueAt socks) k []
  := by
  funext j
  by_cases hj : j = k
  · subst hj
    rw [update_self]
    apply queueAt_of_none released_self
  · rw [update_of_ne hj]
    by_cases hjq : j ∈ s.acceptq
    · rw [h.leaf j (queued_of_mem hk hjq)]
      apply queueAt_of_none (released_of_mem hjq)
    · rw [queueAt, released_of_ne hj hjq, queueAt]

theorem queued_released
    (h : Queues.Apart (queueAt socks)) (hk : socks k = some s) :
  Queued (released socks k s) x ↔ Queued socks x ∧ x ∉ s.acceptq
  := by
  rw [Queued, queueAt_released h hk, h.waiting_clear, Queued, queueAt_of_eq hk]

end Queues

/-! ### The invariant -/

section RefInv

variable {β κ : Type}

open scoped Classical in
noncomputable def refTotal (socks : κ → Option (SbSocket β κ)) (n : κ → ℕ) (k : κ) : ℕ :=
  n k + if Queued socks k then 1 else 0

def Counts (o : Option (SbSocket β κ)) (m : ℕ) : Prop :=
  match o with
  | none => m = 0
  | some s => s.refs.toNat = m ∧ 0 < m

structure RefInv (socks : κ → Option (SbSocket β κ)) (n : κ → ℕ) : Prop where
  counts : ∀ k, Counts (socks k) (refTotal socks n k)
  unheld : ∀ q, Queued socks q → n q = 0
  apart : Queues.Apart (queueAt socks)
  naccept : ∀ l s, socks l = some s → s.naccept = s.acceptq.length
  quiet : ∀ q s, Queued socks q → socks q = some s → s.listening = false

variable {socks socks' : κ → Option (SbSocket β κ)} {n n' : κ → ℕ} {k l q : κ}
  {s s' : SbSocket β κ} {rest : List κ}

theorem refTotal_of_queued (h : Queued socks k) :
  refTotal socks n k = n k + 1
  := by
  rw [refTotal, if_pos h]

theorem refTotal_of_not_queued (h : ¬ Queued socks k) :
  refTotal socks n k = n k
  := by
  rw [refTotal, if_neg h, Nat.add_zero]

theorem refTotal_congr
    (hn : n' k = n k) (hq : Queued socks' k ↔ Queued socks k) :
  refTotal socks' n' k = refTotal socks n k
  := by
  by_cases h : Queued socks k
  · rw [refTotal_of_queued h, refTotal_of_queued (hq.mpr h), hn]
  · rw [refTotal_of_not_queued h, refTotal_of_not_queued (mt hq.mp h), hn]

theorem RefInv.exists_of_pos
    (h : RefInv socks n) (hk : 0 < refTotal socks n k) :
  ∃ s, socks k = some s ∧ s.refs.toNat = refTotal socks n k
  := by
  have hcounts := h.counts k
  cases hs : socks k with
  | none =>
    rw [hs] at hcounts
    rw [show refTotal socks n k = 0 from hcounts] at hk
    contradiction
  | some s =>
    rw [hs] at hcounts
    exact ⟨s, rfl, hcounts.1⟩

theorem RefInv.of_held
    (h : RefInv socks n) (hk : 0 < n k) :
  ¬ Queued socks k ∧ ∃ s, socks k = some s ∧ s.refs.toNat = n k
  := by
  have hnq : ¬ Queued socks k := by
    intro hq
    rw [h.unheld k hq] at hk
    contradiction
  have hex := h.exists_of_pos (k := k)
  rw [refTotal_of_not_queued hnq] at hex
  exact ⟨hnq, hex hk⟩

theorem RefInv.refs_of_held
    (h : RefInv socks n) (hk : socks k = some s) (hheld : 0 < n k) :
  s.refs.toNat = n k
  := by
  obtain ⟨-, t, ht, hrefs⟩ := h.of_held hheld
  cases hk.symm.trans ht
  apply hrefs

theorem RefInv.of_queued
    (h : RefInv socks n) (hq : Queued socks q) :
  ∃ sq, socks q = some sq ∧ sq.refs = 1 ∧ sq.acceptq = []
  := by
  have hex := h.exists_of_pos (k := q)
  rw [refTotal_of_queued hq, h.unheld q hq] at hex
  obtain ⟨sq, hsq, hrefs⟩ := hex Nat.one_pos
  refine ⟨sq, hsq, UInt8.toNat_inj.mp hrefs, ?_⟩
  rw [← queueAt_of_eq hsq]
  apply h.apart.leaf q hq

theorem RefInv.of_none
    (h : RefInv socks n) (hk : socks k = none) :
  n k = 0 ∧ ¬ Queued socks k
  := by
  have hcounts := h.counts k
  rw [hk] at hcounts
  constructor
  · apply Nat.eq_zero_of_add_eq_zero_right hcounts
  · intro hq
    rw [refTotal_of_queued hq] at hcounts
    contradiction

theorem RefInv.not_queued_of_listening
    (h : RefInv socks n) (hk : socks k = some s) (hs : s.listening = true) :
  ¬ Queued socks k
  := by
  intro hq
  rw [h.quiet k s hq hk] at hs
  contradiction

variable [DecidableEq κ]

/-! ### References that come and go -/

theorem RefInv.set
    (h : RefInv socks n) (hqueue : s'.acceptq = queueAt socks k)
    (hother : ∀ j, j ≠ k → n' j = n j) (hcounts : Counts (some s') (refTotal socks n' k))
    (hunheld : Queued socks k → n' k = 0) (hnaccept : s'.naccept = s'.acceptq.length)
    (hquiet : Queued socks k → s'.listening = false) :
  RefInv (update socks k (some s')) n'
  := by
  have hQ := queueAt_update_of_eq hqueue
  have hqueued := queued_update_of_eq hqueue
  constructor
  · intro j
    rw [refTotal, hqueued]
    by_cases hj : j = k
    · subst hj
      rw [update_self]
      apply hcounts
    · rw [update_of_ne hj, hother j hj]
      apply h.counts
  · intro q hq
    rw [hqueued] at hq
    by_cases hqk : q = k
    · subst hqk
      apply hunheld hq
    · rw [hother q hqk]
      apply h.unheld q hq
  · rw [hQ]
    apply h.apart
  · intro l t hl
    by_cases hlk : l = k
    · subst hlk
      rw [update_self] at hl
      cases hl
      apply hnaccept
    · rw [update_of_ne hlk] at hl
      apply h.naccept l t hl
  · intro q t hq ht
    rw [hqueued] at hq
    by_cases hqk : q = k
    · subst hqk
      rw [update_self] at ht
      cases ht
      apply hquiet hq
    · rw [update_of_ne hqk] at ht
      apply h.quiet q t hq ht

theorem RefInv.change
    (h : RefInv socks n) (hk : socks k = some s) (hsame : s.SameRefs s')
    (hlisten : s'.listening = s.listening ∨ 0 < n k) :
  RefInv (update socks k (some s')) n
  := by
  have hcounts := h.counts k
  rw [hk] at hcounts
  apply h.set
  · rw [hsame.acceptq, queueAt_of_eq hk]
  · intro _ _
    rfl
  · rw [Counts, hsame.refs]
    apply hcounts
  · apply h.unheld
  · rw [hsame.naccept, hsame.acceptq]
    apply h.naccept k s hk
  · intro hq
    obtain hlisten | hpos := hlisten
    · rw [hlisten]
      apply h.quiet k s hq hk
    · apply absurd hq (h.of_held hpos).1

theorem RefInv.recount
    (h : RefInv socks n) (hk : socks k = some s) (hheld : 0 < n k)
    (hother : ∀ j, j ≠ k → n' j = n j) (hrefs : s'.refs.toNat = n' k) (hpos : 0 < n' k)
    (hqueue : s'.acceptq = s.acceptq) (hnaccept : s'.naccept = s.naccept) :
  RefInv (update socks k (some s')) n'
  := by
  obtain ⟨hnq, -⟩ := h.of_held hheld
  apply h.set _ hother
  · rw [refTotal_of_not_queued hnq]
    exact ⟨hrefs, hpos⟩
  · intro hq
    contradiction
  · rw [hnaccept, hqueue]
    apply h.naccept k s hk
  · intro hq
    contradiction
  · rw [hqueue, queueAt_of_eq hk]

theorem RefInv.alloc
    (h : RefInv socks n) (hk : socks k = none) (hother : ∀ j, j ≠ k → n' j = n j)
    (hone : n' k = 1) (hrefs : s'.refs = 1) (hnil : s'.acceptq = []) (hzero : s'.naccept = 0) :
  RefInv (update socks k (some s')) n'
  := by
  obtain ⟨-, hnq⟩ := h.of_none hk
  apply h.set _ hother
  · rw [refTotal_of_not_queued hnq, hone, Counts, hrefs]
    exact ⟨rfl, Nat.one_pos⟩
  · intro hq
    contradiction
  · rw [hzero, hnil]
    rfl
  · intro hq
    contradiction
  · rw [hnil, queueAt, hk]
    rfl

theorem RefInv.enqueue
    {new : SbSocket β κ} (h : RefInv socks n) (hl : socks l = some s) (hnql : ¬ Queued socks l)
    (hk : socks k = none) (hrefs : new.refs = 1) (hnil : new.acceptq = [])
    (hzero : new.naccept = 0) (hlisten : new.listening = false) (hrefs' : s'.refs = s.refs)
    (hq : s'.acceptq = s.acceptq ++ [k]) (hcount : s'.naccept = s.naccept + 1) :
  RefInv (update (update socks k (some new)) l (some s')) n
  := by
  obtain ⟨hnk, hnqk⟩ := h.of_none hk
  have hlk : l ≠ k := by
    rintro rfl
    rw [hk] at hl
    contradiction
  have hqueued := fun x => queued_enqueue (x := x) hl hk hnil hq
  have hget : ∀ j t, update (update socks k (some new)) l (some s') j = some t →
      j = l ∧ t = s' ∨ j = k ∧ t = new ∨ socks j = some t ∧ j ≠ k := by
    intro j t hj
    by_cases hjl : j = l
    · subst hjl
      rw [update_self] at hj
      exact Or.inl ⟨rfl, (some.inj hj).symm⟩
    · rw [update_of_ne hjl] at hj
      by_cases hjk : j = k
      · subst hjk
        rw [update_self] at hj
        exact Or.inr (Or.inl ⟨rfl, (some.inj hj).symm⟩)
      · rw [update_of_ne hjk] at hj
        exact Or.inr (Or.inr ⟨hj, hjk⟩)
  constructor
  · intro j
    by_cases hjk : j = k
    · subst hjk
      rw [refTotal_of_queued ((hqueued j).mpr (Or.inr rfl)), hnk, update_of_ne hlk.symm,
        update_self, Counts, hrefs]
      exact ⟨rfl, Nat.one_pos⟩
    · have hsame : refTotal (update (update socks k (some new)) l (some s')) n j =
          refTotal socks n j := by
        apply refTotal_congr rfl
        rw [hqueued, or_iff_left hjk]
      rw [hsame]
      by_cases hjl : j = l
      · subst hjl
        have hcounts := h.counts j
        rw [hl] at hcounts
        rw [update_self, Counts, hrefs']
        apply hcounts
      · rw [update_of_ne hjl, update_of_ne hjk]
        apply h.counts
  · intro q hq
    obtain hq | rfl := (hqueued q).mp hq
    · apply h.unheld q hq
    · apply hnk
  · rw [queueAt_enqueue hl hk hnil hq]
    apply h.apart.push hnqk (queueAt_of_none hk) hnql hlk
  · intro j t hj
    obtain ⟨rfl, rfl⟩ | ⟨rfl, rfl⟩ | ⟨hj, -⟩ := hget j t hj
    · rw [hcount, hq, h.naccept j s hl, length_append, length_singleton]
    · rw [hzero, hnil]
      rfl
    · apply h.naccept j t hj
  · intro q t hq ht
    obtain ⟨rfl, rfl⟩ | ⟨rfl, rfl⟩ | ⟨ht, hqk⟩ := hget q t ht
    · obtain hq | rfl := (hqueued q).mp hq
      · contradiction
      · contradiction
    · apply hlisten
    · apply h.quiet q t _ ht
      apply ((hqueued q).mp hq).resolve_right hqk

theorem RefInv.dequeue
    (h : RefInv socks n) (hl : socks l = some s) (hq : s.acceptq = q :: rest)
    (hq' : s'.acceptq = rest) (hcount : s'.naccept = s.naccept - 1) (hrefs : s'.refs = s.refs)
    (hother : ∀ j, j ≠ q → n' j = n j) (hone : n' q = 1) :
  RefInv (update socks l (some s')) n'
  := by
  have hQl : queueAt socks l = q :: rest := (queueAt_of_eq hl).trans hq
  have hqueued := fun x => queued_dequeue (x := x) h.apart hl hq hq'
  have hqq : Queued socks q := queued_of_cons hl hq
  have htotal : refTotal (update socks l (some s')) n' = refTotal socks n := by
    funext j
    by_cases hj : j = q
    · subst hj
      rw [refTotal_of_queued hqq, h.unheld j hqq, refTotal_of_not_queued, hone]
      rw [hqueued]
      simp
    · apply refTotal_congr (hother j hj)
      rw [hqueued, and_iff_left hj]
  constructor
  · intro j
    rw [htotal]
    by_cases hj : j = l
    · subst hj
      have hcounts := h.counts j
      rw [hl] at hcounts
      rw [update_self, Counts, hrefs]
      apply hcounts
    · rw [update_of_ne hj]
      apply h.counts
  · intro x hx
    obtain ⟨hx, hne⟩ := (hqueued x).mp hx
    rw [hother x hne]
    apply h.unheld x hx
  · rw [queueAt_dequeue hq']
    apply h.apart.pop hQl
  · intro j t hj
    by_cases hjl : j = l
    · subst hjl
      rw [update_self] at hj
      cases hj
      rw [hcount, hq', h.naccept j s hl, hq, length_cons, Nat.add_sub_cancel]
    · rw [update_of_ne hjl] at hj
      apply h.naccept j t hj
  · intro x t hx' ht
    have hx := ((hqueued x).mp hx').1
    have hxl : x ≠ l := by
      rintro rfl
      have hnil := h.apart.leaf x hx
      rw [hQl] at hnil
      contradiction
    rw [update_of_ne hxl] at ht
    apply h.quiet x t hx ht

theorem RefInv.release
    (h : RefInv socks n) (hk : socks k = some s) (hnq : ¬ Queued socks k)
    (hother : ∀ j, j ≠ k → n' j = n j) (hzero : n' k = 0) :
  RefInv (released socks k s) n'
  := by
  have hqueued := fun x => queued_released (x := x) h.apart hk
  constructor
  · intro j
    by_cases hjk : j = k
    · subst hjk
      rw [refTotal_of_not_queued, hzero, released_self, Counts]
      rw [hqueued]
      exact fun hq => hnq hq.1
    · by_cases hjq : j ∈ s.acceptq
      · rw [refTotal_of_not_queued, hother j hjk, h.unheld j (queued_of_mem hk hjq),
          released_of_mem hjq, Counts]
        rw [hqueued]
        exact fun hq => hq.2 hjq
      · have hsame := (hqueued j).trans (and_iff_left hjq)
        rw [refTotal_congr (hother j hjk) hsame, released_of_ne hjk hjq]
        apply h.counts
  · intro x hx
    obtain ⟨hx, -⟩ := (hqueued x).mp hx
    have hxk : x ≠ k := by
      rintro rfl
      contradiction
    rw [hother x hxk]
    apply h.unheld x hx
  · rw [queueAt_released h.apart hk]
    apply h.apart.clear
  · intro j t hj
    apply h.naccept j t (eq_some_of_released hj)
  · intro x t hx ht
    apply h.quiet x t ((hqueued x).mp hx).1 (eq_some_of_released ht)

/-! ### Giving up a descriptor -/

variable [DecidableEq β]

theorem sbSockFree_of_ne_one
    {base : Option β} {fuel : ℕ} (hk : socks k = some s) (hrefs : s.refs ≠ 1) :
  sbSockFree (fuel + 1) socks base k =
    update socks k
      (some { s with owners := s.owners.decrefBy base, refs := s.refs - 1 })
  := by
  have hne : s.refs - 1 ≠ 0 := by
    intro h
    apply hrefs
    rw [sub_eq_zero] at h
    apply h
  simp only [sbSockFree, hk, ne_eq, hne, not_false_eq_true, if_true]

theorem foldl_sbSockFree
    {qs : List κ} (hnodup : qs.Nodup)
    (hqs : ∀ q ∈ qs, ∃ sq, socks q = some sq ∧ sq.refs = 1 ∧ sq.acceptq = []) :
  qs.foldl (fun m q => sbSockFree 1 m none q) socks = fun j => if j ∈ qs then none else socks j
  := by
  induction qs generalizing socks with
  | nil => simp
  | cons q qs ih =>
    obtain ⟨sq, hsq, hrefs, hnil⟩ := hqs q mem_cons_self
    rw [nodup_cons] at hnodup
    have hone : sbSockFree 1 socks none q = update socks q none := by
      simp [sbSockFree, hsq, hrefs, hnil]
    have hrest : ∀ x ∈ qs, ∃ sx, update socks q none x = some sx ∧ sx.refs = 1 ∧
        sx.acceptq = [] := by
      intro x hx
      have hxq : x ≠ q := by
        rintro rfl
        apply hnodup.1 hx
      rw [update_of_ne hxq]
      apply hqs x (mem_cons_of_mem _ hx)
    rw [foldl_cons, hone, ih hnodup.2 hrest]
    funext j
    by_cases hjq : j = q
    · subst hjq
      simp
    · simp [hjq]

theorem RefInv.sbSockFree_of_one
    {base : Option β} (h : RefInv socks n) (hk : socks k = some s) (hrefs : s.refs = 1) :
  sbSockFree FREE_DEPTH socks base k = released socks k s
  := by
  have hnodup := h.apart.nodup k
  rw [queueAt_of_eq hk] at hnodup
  have hqs : ∀ q ∈ s.acceptq, ∃ sq, socks q = some sq ∧ sq.refs = 1 ∧ sq.acceptq = [] := by
    intro q hq
    apply h.of_queued (queued_of_mem hk hq)
  rw [FREE_DEPTH, sbSockFree]
  simp only [hk, hrefs, sub_self, ne_eq, not_true_eq_false, if_false, foldl_sbSockFree hnodup hqs]
  funext j
  by_cases hjk : j = k
  · subst hjk
    rw [released_self, update_self]
  · simp [released, hjk]

theorem RefInv.free
    {base : Option β} (h : RefInv socks n) (hk : 0 < n k) (hother : ∀ j, j ≠ k → n' j = n j)
    (hless : n' k + 1 = n k) :
  RefInv (sbSockFree FREE_DEPTH socks base k) n'
  := by
  obtain ⟨hnq, s, hs, hrefs⟩ := h.of_held hk
  by_cases hone : s.refs = 1
  · rw [h.sbSockFree_of_one hs hone]
    apply h.release hs hnq hother
    rw [hone, ← hless] at hrefs
    exact (Nat.succ.inj hrefs).symm
  · rw [FREE_DEPTH, sbSockFree_of_ne_one hs hone]
    have hne : s.refs.toNat ≠ 1 := fun h => hone (UInt8.toNat_inj.mp h)
    have hsub : (s.refs - 1).toNat = s.refs.toNat - 1 := by
      rw [UInt8.toNat_sub_of_le]
      · rfl
      · rw [UInt8.le_iff_toNat_le]
        change 1 ≤ s.refs.toNat
        omega
    refine h.recount hs hk hother ?_ ?_ rfl rfl
    · simp only [hsub]
      omega
    · omega

theorem RefInv.queued_of_free
    {base : Option β} (h : RefInv socks n) (hk : 0 < n k)
    (hq : Queued (sbSockFree FREE_DEPTH socks base k) q) :
  Queued socks q
  := by
  obtain ⟨-, s, hs, -⟩ := h.of_held hk
  by_cases hone : s.refs = 1
  · rw [h.sbSockFree_of_one hs hone] at hq
    apply ((queued_released h.apart hs).mp hq).1
  · rw [FREE_DEPTH, sbSockFree_of_ne_one hs hone, queued_update_of_eq] at hq
    · apply hq
    · rw [queueAt_of_eq hs]

end RefInv

/-! ### The references of the library -/

namespace World

variable {β κ : Type} [Fintype β] [DecidableEq κ]

def references (w : World β κ) (k : κ) : ℕ :=
  ∑ b, w.held b k + (w.parked.map SbReleased.s).count k

variable {w w' : World β κ} {b : β} {k : κ}

theorem references_congr
    (hheld : w'.held = w.held) (hparked : w'.parked = w.parked) :
  w'.references = w.references
  := by
  funext j
  rw [references, hheld, hparked, references]

theorem references_pos_of_find
    {id : ℤ} {r : SbReleased κ} (h : w.sbReleasedFind id = some r) :
  0 < w.references r.s
  := by
  have hmem : r.s ∈ w.parked.map SbReleased.s := mem_map_of_mem (mem_of_find?_eq_some h)
  have := count_pos_iff.mpr hmem
  unfold references
  omega

theorem references_append (r : SbReleased κ) (next : ℤ) (j : κ) :
  references { w with parked := w.parked ++ [r], nextSockId := next } j =
    w.references j + if r.s = j then 1 else 0
  := by
  simp only [references, held, List.map_append, List.map_singleton, List.count_append,
    List.count_singleton, beq_iff_eq]
  omega

theorem references_eraseP
    {id : ℤ} {r : SbReleased κ} (h : w.sbReleasedFind id = some r) (j : κ) :
  references { w with parked := w.parked.eraseP (·.id == id) } j + (if r.s = j then 1 else 0) =
    w.references j
  := by
  have hcount := count_map_eraseP h SbReleased.s j
  simp only [beq_iff_eq] at hcount
  simp only [references, held]
  omega

def RefsOk (w : World β κ) : Prop :=
  RefInv w.socks w.references

theorem RefsOk.of_eq
    (h : RefInv w'.socks w.references) (hrefs : w'.references = w.references) :
  w'.RefsOk
  := by
  rw [RefsOk, hrefs]
  apply h

theorem refsOk_start :
  (start : World β κ).RefsOk
  := by
  have hqueued : ∀ q, ¬ Queued (start : World β κ).socks q := by
    rintro q ⟨l, hq⟩
    rw [queueAt_of_none rfl] at hq
    apply not_mem_nil hq
  constructor
  · intro k
    rw [refTotal_of_not_queued (hqueued k)]
    simp [start, Counts, references, held]
  · intro q hq
    apply absurd hq (hqueued q)
  · constructor
    · intro l
      apply nodup_nil
    · intro l l' q hq _
      apply absurd ⟨l, hq⟩ (hqueued q)
    · intro q hq
      apply absurd hq (hqueued q)
  · intro l s hs
    apply absurd hs (some_ne_none s).symm
  · intro q s hq _
    apply absurd hq (hqueued q)

theorem RefsOk.unqueue
    {l q : κ} {s : SbSocket β κ} {rest : List κ} (h : w.RefsOk) (hl : w.socks l = some s)
    (hq : s.acceptq = q :: rest) :
  RefInv (update w.socks l (some (unqueued s rest))) (update w.references q 1)
  := by
  refine h.dequeue hl hq ?_ ?_ ?_ ?_ ?_
  · rfl
  · rfl
  · rfl
  · intro j hj
    rw [update_of_ne hj]
  · rw [update_self]

variable [DecidableEq β] {tab : List (Option κ)}

theorem references_pos (h : 0 < w.held b k) :
  0 < w.references k
  := by
  have hsum := add_sum_erase univ (fun c => w.held c k) (mem_univ b)
  unfold references
  omega

theorem held_eq_zero (h : w.references k = 0) (b : β) :
  w.held b k = 0
  := by
  by_contra hne
  have hpos := references_pos (Nat.pos_of_ne_zero hne)
  rw [h] at hpos
  contradiction

theorem references_setFds (b : β) (tab : List (Option κ)) (j : κ) :
  (w.setFds b tab).references j + w.held b j = w.references j + tab.count (some j)
  := by
  have := sum_comp_update (fun l : List (Option κ) => l.count (some j)) w.fds b tab
  simp only [references, held, setFds]
  omega

theorem references_add_self (h : TableAdd k (w.fds b) tab) :
  (w.setFds b tab).references k = w.references k + 1
  := by
  have hset := references_setFds (w := w) b tab k
  have hcount := h.count k
  rw [if_pos rfl] at hcount
  unfold held at hset
  omega

theorem references_add_of_ne
    (h : TableAdd k (w.fds b) tab) {j : κ} (hj : j ≠ k) :
  (w.setFds b tab).references j = w.references j
  := by
  have hset := references_setFds (w := w) b tab j
  have hcount := h.count j
  rw [if_neg hj.symm] at hcount
  unfold held at hset
  omega

theorem references_drop_self (h : TableAdd k tab (w.fds b)) :
  (w.setFds b tab).references k + 1 = w.references k
  := by
  have hset := references_setFds (w := w) b tab k
  have hcount := h.count k
  rw [if_pos rfl] at hcount
  unfold held at hset
  omega

theorem references_drop_of_ne
    (h : TableAdd k tab (w.fds b)) {j : κ} (hj : j ≠ k) :
  (w.setFds b tab).references j = w.references j
  := by
  have hset := references_setFds (w := w) b tab j
  have hcount := h.count j
  rw [if_neg hj.symm] at hcount
  unfold held at hset
  omega

/-! ### Every step -/

/-- `Dup2Socket` and `ReleaseCopyOfSocket` are made on a socket with fewer than 255 references. -/
def fewReferences (w : World β κ) : Label β κ → Prop
  | .dup2 b oldSock _ => ∀ k ∈ sbFdGet (w.fds b) oldSock, w.references k < 255
  | .release b fd _ true _ => ∀ k ∈ sbFdGet (w.fds b) fd, w.references k < 255
  | _ => True

instance (w : World β κ) (l : Label β κ) : Decidable (w.fewReferences l) := by
  unfold fewReferences
  split <;> infer_instance

theorem toNat_succ
    {r : UInt8} {m : ℕ} (hr : r.toNat = m) (hm : m < 255) :
  (r + 1).toNat = m + 1
  := by
  rw [UInt8.toNat_add, hr]
  apply Nat.mod_eq_of_lt
  change m + 1 < 256
  omega

theorem RefsOk.drop
    (h : w.RefsOk) (htab : TableAdd k tab (w.fds b)) :
  (w.drop b tab k).RefsOk
  := by
  have hless : (w.drop b tab k).references k + 1 = w.references k := references_drop_self htab
  apply RefInv.free h _ _ hless
  · omega
  · intro j hj
    apply references_drop_of_ne htab hj

theorem RefsOk.share
    {s : SbSocket β κ} (h : w.RefsOk) (hk : w.socks k = some s) (htab : TableAdd k (w.fds b) tab)
    (hpos : 0 < w.references k) (hfew : w.references k < 255) :
  (w.share b tab k s).RefsOk
  := by
  have hmore : (w.share b tab k s).references k = w.references k + 1 := references_add_self htab
  refine h.recount hk hpos ?_ ?_ ?_ rfl rfl
  · intro j hj
    apply references_add_of_ne htab hj
  · rw [hmore]
    apply toNat_succ (h.refs_of_held hk hpos) hfew
  · omega

theorem references_parked
    (h : TableAdd k tab (w.fds b)) (id next : ℤ) :
  references (setFds { w with parked := w.parked ++ [SbReleased.mk id k], nextSockId := next } b tab) =
    w.references
  := by
  funext j
  have hset := references_setFds
    (w := { w with parked := w.parked ++ [SbReleased.mk id k], nextSockId := next }) b tab j
  have hcount := h.count j
  rw [references_append] at hset
  simp only [held] at hset
  omega

theorem references_obtained
    {id : ℤ} {r : SbReleased κ} (hfind : w.sbReleasedFind id = some r)
    (h : TableAdd r.s (w.fds b) tab) :
  references (setFds { w with parked := w.parked.eraseP (·.id == id) } b tab) = w.references
  := by
  funext j
  have hset := references_setFds (w := { w with parked := w.parked.eraseP (·.id == id) }) b tab j
  have herase := references_eraseP hfind j
  have hcount := h.count j
  simp only [held] at hset
  omega

theorem RefsOk.step
    {l : Label β κ} (h : w.RefsOk) (htabs : TablesOk w.opener w.fds) (hfew : w.fewReferences l)
    (hstep : w.Step l w') :
  w'.RefsOk
  := by
  cases hstep with
  | idle | drawn | closing | skipped => apply h
  | @opened b hopener =>
    apply RefsOk.of_eq
    · apply h
    · apply references_congr (held_opened htabs hopener) rfl
  | @made b l k s tab _ hk _ hrefs hnil hzero htab =>
    have hmore : ((w.setSock k s).setFds b tab).references k = w.references k + 1 :=
      references_add_self htab
    refine h.alloc hk ?_ ?_ hrefs hnil hzero
    · intro j hj
      apply references_add_of_ne htab hj
    · rw [hmore, (h.of_none hk).1]
  | changed hk hsame hlisten =>
    refine h.change hk hsame (hlisten.imp_right ?_)
    rintro ⟨b, hb⟩
    apply references_pos hb
  | queued hl hlisten _ hk hnew hs' =>
    subst hnew hs'
    have hnq := h.not_queued_of_listening hl hlisten
    refine h.enqueue hl hnq hk ?_ ?_ ?_ ?_ ?_ ?_ ?_ <;> rfl
  | @taken b fd l q s rest tab _ _ hl hq htab =>
    have hmore : ((w.setSock l (unqueued s rest)).setFds b tab).references q =
        w.references q + 1 := references_add_self htab
    refine h.dequeue hl hq ?_ ?_ ?_ ?_ ?_
    · rfl
    · rfl
    · rfl
    · intro j hj
      apply references_add_of_ne htab hj
    · rw [hmore, h.unheld q (queued_of_cons hl hq)]
  | @refused b fd l q s rest _ _ hl hq =>
    have hzero := h.unheld q (queued_of_cons hl hq)
    apply (h.unqueue hl hq).free
    · rw [update_self]
      apply Nat.one_pos
    · intro j hj
      rw [update_of_ne hj]
      rfl
    · rw [update_self]
      apply congrArg (· + 1) hzero
  | shared _ hfd hk htab =>
    apply h.share hk htab (references_pos (count_pos_of_sbFdGet hfd)) (hfew _ hfd)
  | @replaced b oldSock newSock j k s tab tab' _ hfd _ hjk htab hk htab' =>
    have hsame : (w.drop b tab j).references k = w.references k :=
      references_drop_of_ne htab hjk.symm
    apply RefsOk.share (h.drop htab) hk
    · simpa only [World.drop, setFds, update_self] using htab'
    · rw [hsame]
      apply references_pos (count_pos_of_sbFdGet hfd)
    · rw [hsame]
      apply hfew k hfd
  | closed _ _ htab => apply h.drop htab
  | @copied b fd id id' next mem k s _ hfd hk =>
    have hpos : 0 < w.references k := references_pos (count_pos_of_sbFdGet hfd)
    have hmore := references_append (w := w) (SbReleased.mk id' k) next
    have hmorek := (hmore k).trans (congrArg (w.references k + ·) (if_pos rfl))
    refine h.recount hk hpos ?_ ?_ ?_ rfl rfl
    · intro j hj
      apply (hmore j).trans
      rw [if_neg (Ne.symm hj), Nat.add_zero]
    · apply (toNat_succ (h.refs_of_held hk hpos) (hfew k hfd)).trans hmorek.symm
    · apply (Nat.succ_pos _).trans_eq hmorek.symm
  | @parked b fd id id' next mem k s tab _ hfd hk htab =>
    apply RefsOk.of_eq
    · have hpos : 0 < w.references k := references_pos (count_pos_of_sbFdGet hfd)
      have hrefs := h.refs_of_held hk hpos
      refine h.recount hk hpos ?_ hrefs hpos rfl rfl
      intro _ _
      rfl
    · apply references_parked htab id' next
  | obtained _ hfind hk htab _ =>
    apply RefsOk.of_eq
    · have hpos := references_pos_of_find hfind
      have hrefs := h.refs_of_held hk hpos
      refine h.recount hk hpos ?_ hrefs hpos rfl rfl
      intro _ _
      rfl
    · apply references_obtained hfind htab
  | grown =>
    apply RefsOk.of_eq
    · apply h
    · apply references_congr (held_growTable ..) rfl
  | @cleared b i k _ hi =>
    apply RefsOk.drop (w := { w with opener := update w.opener b (.closing (i + 1)) }) h
    apply TableAdd.of_clear hi
  | @ended b i hopener hi =>
    apply RefsOk.of_eq
    · apply h
    · apply references_congr (held_ended htabs hopener hi) rfl

theorem refsOk_of_reach (hw : (system β κ).Reach fewReferences w) :
  w.RefsOk
  := by
  apply hw.invariant_of (J := fun w => TablesOk w.opener w.fds) (I := RefsOk)
  · intro w hw
    apply tablesOk_of_reach hw
  · intro w hinit
    rw [show w = start from hinit]
    apply refsOk_start
  · intro w l w' htabs h hfew hstep
    apply h.step htabs hfew (step_of_next hstep)

theorem RefsOk.queued_of_step
    {l : Label β κ} {q : κ} (h : w.RefsOk) (hstep : w.Step l w') (hq : Queued w'.socks q) :
  Queued w.socks q ∨ w.socks q = none
  := by
  cases hstep with
  | made _ hk _ _ hnil _ _ =>
    left
    rwa [setFds, setSock, queued_update_of_eq] at hq
    rw [hnil, queueAt_of_none hk]
  | changed hk hsame _ =>
    left
    rwa [setSock, queued_update_of_eq] at hq
    rw [hsame.acceptq, queueAt_of_eq hk]
  | queued hl _ _ hk hnew hs' =>
    subst hnew hs'
    obtain hq | rfl := (queued_enqueue hl hk rfl rfl).mp hq
    · left
      apply hq
    · right
      apply hk
  | taken _ _ hl hcons _ =>
    left
    apply ((queued_dequeue h.apart hl hcons rfl).mp hq).1
  | @refused b fd l x s rest _ _ hl hcons =>
    left
    have hone : 0 < update w.references x 1 x := by
      rw [update_self]
      apply Nat.one_pos
    have hq' := (h.unqueue hl hcons).queued_of_free hone hq
    apply ((queued_dequeue h.apart hl hcons rfl).mp hq').1
  | shared _ _ hk _ =>
    left
    rwa [World.share, addRef, setSock, queued_update_of_eq] at hq
    exact (queueAt_of_eq hk).symm
  | replaced hopener hfd hnew hjk htab hk htab' =>
    left
    rw [World.share, addRef, setSock, queued_update_of_eq] at hq
    · apply h.queued_of_free (references_pos (count_pos_of_sbFdGet hnew)) hq
    · exact (queueAt_of_eq hk).symm
  | closed _ hfd _ =>
    left
    apply h.queued_of_free (references_pos (count_pos_of_sbFdGet hfd)) hq
  | copied _ _ hk | parked _ _ hk _ | obtained _ _ hk _ _ =>
    left
    rwa [setSock, queued_update_of_eq] at hq
    exact (queueAt_of_eq hk).symm
  | cleared _ hi =>
    left
    apply h.queued_of_free _ hq
    apply references_pos (count_pos_iff.mpr (mem_of_getElem? hi))
  | _ =>
    left
    apply hq

/-- `refs` of every socket outside accept queues is the number of its references, and a step frees a
socket exactly when none is left. -/
theorem refs_eq_references (hw : (system β κ).Reach fewReferences w) :
  (∀ k s, w.socks k = some s → ¬ Queued w.socks k → s.refs.toNat = w.references k) ∧
    ∀ l, w.fewReferences l → ∀ w', (system β κ).next w l = some w' →
      ∀ k, 0 < w.references k → (w'.socks k = none ↔ w'.references k = 0)
  := by
  have h := refsOk_of_reach hw
  constructor
  · intro k s hk hnq
    have hcounts := h.counts k
    rw [hk, refTotal_of_not_queued hnq] at hcounts
    apply hcounts.1
  · intro l hfew w' hstep k hpos
    have h' := h.step (tablesOk_of_reach hw) hfew (step_of_next hstep)
    obtain ⟨hnq, s, hs, -⟩ := h.of_held hpos
    constructor
    · intro hnone
      apply (h'.of_none hnone).1
    · intro hzero
      have hnq' : ¬ Queued w'.socks k := by
        intro hq
        obtain hq | hnone := h.queued_of_step (step_of_next hstep) hq
        · contradiction
        · rw [hs] at hnone
          contradiction
      have hcounts := h'.counts k
      rw [refTotal_of_not_queued hnq', hzero] at hcounts
      cases hs' : w'.socks k with
      | none => rfl
      | some s' =>
        rw [hs'] at hcounts
        obtain ⟨-, hpos'⟩ := hcounts
        contradiction

def sharedRun : List (Label (Fin 2) (Fin 2)) :=
  [.libOpen 0, .libOpen 1, .socket 0 2 1 0 (some 0) true, .listen 0 0 5 true, .dup2 0 0 (-1),
    .release 0 0 7 true true, .release 0 0 (-1) true true, .obtain 1 7 1,
    .incoming 0 (tcpNew TCP_SND_BUF) (some 1)]

theorem sharedRun_enabled :
  ((system (Fin 2) (Fin 2)).exec start sharedRun).isSome = true
  := by decide

def sharedEnd : World (Fin 2) (Fin 2) :=
  (system (Fin 2) (Fin 2)).last start sharedRun sharedRun_enabled

theorem reach_sharedEnd :
  (system (Fin 2) (Fin 2)).Reach fewReferences sharedEnd
  := by
  apply reach_last rfl
  decide

theorem refs_eq_references_shared :
  sharedEnd.references 0 = 4 ∧
    (∀ k s, sharedEnd.socks k = some s → ¬ Queued sharedEnd.socks k →
      s.refs.toNat = sharedEnd.references k) ∧
    ∀ l, sharedEnd.fewReferences l → ∀ w', (system (Fin 2) (Fin 2)).next sharedEnd l = some w' →
      ∀ k, 0 < sharedEnd.references k → (w'.socks k = none ↔ w'.references k = 0)
  := by
  constructor
  · decide
  · apply refs_eq_references reach_sharedEnd

end World

/-! ### The count wraps -/

namespace World

variable {β κ : Type} [DecidableEq β] [DecidableEq κ] {w : World β κ} {b : β} {k : κ} {fd : ℤ}
  {s : SbSocket β κ} {m n : ℕ}

def copies (b : β) (fd : ℤ) (m n : ℕ) : List (Label β κ) :=
  (List.range' m n).map fun i : ℕ => .release b fd (i : ℤ) true true

theorem next_copy
    (hopener : w.opener b = .opened) (hfd : sbFdGet (w.fds b) fd = some k)
    (hk : w.socks k = some s) (hids : ∀ r ∈ w.parked, r.id < m) :
  (system β κ).next w (.release b fd m true true) =
    some (setSock { w with parked := w.parked ++ [SbReleased.mk (m : ℤ) k] } k
      { s with refs := s.refs + 1 })
  := by
  have hfind : w.sbReleasedFind (m : ℤ) = none := by
    rw [sbReleasedFind, find?_eq_none]
    intro r hr heq
    have hlt := hids r hr
    rw [beq_iff_eq] at heq
    omega
  have hne : (m : ℤ) ≠ -1 := by omega
  simp only [system, next, hopener, if_true, sbReleaseCommon, hfd, hk, bind_some, hne,
    if_false, hfind, isSome_none, Bool.false_eq_true, park, map_some]

theorem exec_copies
    [Fintype β] (hopener : w.opener b = .opened) (hfd : sbFdGet (w.fds b) fd = some k)
    (hk : w.socks k = some s) (hids : ∀ r ∈ w.parked, r.id < m) :
  ∃ w', (system β κ).exec w (copies b fd m n) = some w' ∧ w'.opener = w.opener ∧
    w'.fds = w.fds ∧ w'.socks k = some { s with refs := s.refs + UInt8.ofNat n } ∧
    w'.references k = w.references k + n
  := by
  induction n generalizing w m s with
  | zero =>
    refine ⟨w, rfl, rfl, rfl, ?_, rfl⟩
    rw [hk]
    simp
  | succ n ih =>
    have hnext := next_copy hopener hfd hk hids
    have hids' : ∀ r ∈ w.parked ++ [SbReleased.mk (m : ℤ) k], r.id < ((m + 1 : ℕ) : ℤ) := by
      intro r hr
      obtain hr | hr := List.mem_append.mp hr
      · have hlt := hids r hr
        omega
      · rw [List.mem_singleton.mp hr]
        change (m : ℤ) < ((m + 1 : ℕ) : ℤ)
        omega
    obtain ⟨w', hexec, hopener', hfds', hk', hrefs'⟩ :=
      ih (w := setSock { w with parked := w.parked ++ [SbReleased.mk (m : ℤ) k] } k
        { s with refs := s.refs + 1 }) (m := m + 1) hopener hfd (Function.update_self ..) hids'
    refine ⟨w', ?_, hopener', hfds', ?_, ?_⟩
    · rw [copies, List.range'_succ, List.map_cons, TransitionSystem.exec, hnext]
      apply hexec
    · rw [hk', UInt8.ofNat_add, add_comm (UInt8.ofNat n), ← add_assoc]
      rfl
    · have hmore := references_append (w := w) (SbReleased.mk (m : ℤ) k) w.nextSockId k
      rw [if_pos rfl] at hmore
      rw [hrefs', show references (setSock _ k _) k = _ from hmore]
      omega

def singleRun : List (Label (Fin 1) (Fin 1)) :=
  [.libOpen 0, .socket 0 2 1 0 (some 0) true]

theorem singleRun_enabled :
  ((system (Fin 1) (Fin 1)).exec start singleRun).isSome = true
  := by decide

def singleEnd : World (Fin 1) (Fin 1) :=
  (system (Fin 1) (Fin 1)).last start singleRun singleRun_enabled

theorem singleEnd_sock :
  ∃ s, singleEnd.socks 0 = some s ∧ s.refs = 1 ∧ s.acceptq = []
  := by
  refine ⟨(singleEnd.socks 0).get (by decide), (some_get _).symm, ?_, ?_⟩
  · decide
  · decide

/-- After 256 copies are released, a socket with 257 references counts one of them, and closing its
descriptor frees it. -/
theorem refs_wrap :
  ∃ w s w', (system (Fin 1) (Fin 1)).exec start (singleRun ++ copies 0 0 0 256) = some w ∧
    (system (Fin 1) (Fin 1)).Reachable w ∧ w.socks 0 = some s ∧ ¬ Queued w.socks 0 ∧
    s.refs = 1 ∧ w.references 0 = 257 ∧
    (system (Fin 1) (Fin 1)).next w (.close 0 0) = some w' ∧ w'.socks 0 = none ∧
    w'.references 0 = 256
  := by
  obtain ⟨s, hs, hrefs, hnil⟩ := singleEnd_sock
  have hopener : singleEnd.opener 0 = .opened := by decide
  have hfd : sbFdGet (singleEnd.fds 0) 0 = some 0 := by decide
  have hids : ∀ r ∈ singleEnd.parked, r.id < ((0 : ℕ) : ℤ) := by
    rw [show singleEnd.parked = [] from rfl]
    nofun
  have hone : singleEnd.references 0 = 1 := by decide
  obtain ⟨w, hexec, hopener', hfds', hs', hrefs'⟩ := exec_copies (n := 256) hopener hfd hs hids
  have hrun : (system (Fin 1) (Fin 1)).exec start (singleRun ++ copies 0 0 0 256) = some w := by
    rw [exec_append (some_get singleRun_enabled).symm]
    apply hexec
  have hfd' : sbFdGet (w.fds 0) 0 = some 0 := by
    rw [hfds']
    apply hfd
  have hcount : s.refs + UInt8.ofNat 256 = 1 := by
    rw [hrefs]
    decide
  rw [hcount] at hs'
  have hfree : sbSockFree FREE_DEPTH w.socks (some 0) 0 0 = none := by
    simp [FREE_DEPTH, sbSockFree, hs', hnil]
  have hdrop := references_drop_self (TableAdd.of_clear (getElem?_of_sbFdGet hfd'))
  refine ⟨w, _, w.drop 0 ((w.fds 0).set 0 none) 0, hrun, ?_, hs', ?_, rfl, ?_, ?_, hfree, ?_⟩
  · have hinit : (system (Fin 1) (Fin 1)).init start := rfl
    apply (TransitionSystem.Reach.init hinit).exec _ hrun
    apply along_true
  · rintro ⟨l, hl⟩
    rw [Subsingleton.elim l 0, queueAt_of_eq hs'] at hl
    rw [hnil] at hl
    apply not_mem_nil hl
  · rw [hrefs', hone]
  · change (if w.opener 0 = .opened then some (w.bsdCloseSocket 0 0).1 else none) = _
    rw [hopener', hopener, if_pos rfl, bsdCloseSocket, hfd']
    rfl
  · rw [hrefs', hone] at hdrop
    change (w.setFds 0 ((w.fds 0).set 0 none)).references 0 = 256
    simp only [Int.toNat_zero] at hdrop
    omega

end World
