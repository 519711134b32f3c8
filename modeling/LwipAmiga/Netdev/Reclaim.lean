import LwipAmiga.Lib.Spsc
import LwipAmiga.Netdev.Transmit

/-!
# The reclaim ring of a netdev interface

`ndif_tx_done` puts completed cookies on the ring without the core lock, and `netdevif_tx_reclaim`
frees them.
-/

open List Option

inductive LockTask where
  | unit
  | other
deriving DecidableEq

inductive TxDoneTask (χ : Type) where
  | idle
  | writing (rest : List χ)
  | backstop (rest : List χ)

def TxDoneTask.rest {χ : Type} : TxDoneTask χ → List χ
  | .idle => []
  | .writing rest | .backstop rest => rest

def TxDoneTask.quota {χ : Type} : TxDoneTask χ → ℕ
  | .writing rest => rest.length
  | _ => 0

inductive CoreLock where
  | free
  | draining (t : LockTask)
  | held (t : LockTask)
deriving DecidableEq

structure TxReclaim (χ : Type) where
  ring : Spsc χ
  task : TxDoneTask χ
  lock : CoreLock
  done : List χ
  freed : List χ

inductive ReclaimLabel (χ : Type) where
  | txDone (batch : List χ) (lag : ℕ)
  | write
  | publish
  | obtain (t : LockTask) (lag : ℕ)
  | again (lag : ℕ)
  | drain
  | commit
  | freeInline
  | release

namespace TxReclaim

variable {χ : Type}

def ndifTxDone (s : TxReclaim χ) (batch : List χ) (lag : ℕ) : TxReclaim χ :=
  if s.ring.fits (s.ring.oldCons lag) batch.length then
    { s with
      ring := s.ring.reserve lag
      task := .writing batch
      done := s.done ++ batch }
  else
    { s with
      task := .backstop batch
      done := s.done ++ batch }

def mayObtain (s : TxReclaim χ) : LockTask → Bool
  | .other => true
  | .unit =>
      match s.task with
      | .writing _ => false
      | _ => true

def releaseBy (s : TxReclaim χ) : LockTask → Option (TxReclaim χ)
  | .other => some { s with lock := .free }
  | .unit =>
      match s.task with
      | .backstop (_ :: _) => none
      | .backstop [] => some { s with lock := .free, task := .idle }
      | _ => some { s with lock := .free }

def next (s : TxReclaim χ) : ReclaimLabel χ → Option (TxReclaim χ)
  | .txDone batch lag =>
      match s.task with
      | .idle =>
          if s.lock ≠ .draining .unit ∧ s.lock ≠ .held .unit ∧ batch.length < 2 ^ 31 ∧
              lag ≤ s.ring.consumed - s.ring.seen then
            some (s.ndifTxDone batch lag)
          else none
      | _ => none
  | .write =>
      match s.task with
      | .writing (c :: rest) => some { s with ring := s.ring.write c, task := .writing rest }
      | _ => none
  | .publish =>
      match s.task with
      | .writing [] => some { s with ring := s.ring.publish, task := .idle }
      | _ => none
  | .obtain t lag =>
      if s.lock = .free ∧ s.mayObtain t = true ∧ lag ≤ s.ring.produced - s.ring.consumed then
        some { s with ring := s.ring.snapshot lag, lock := .draining t }
      else none
  | .again lag =>
      match s.lock with
      | .held t =>
          if lag ≤ s.ring.produced - s.ring.consumed then
            some { s with ring := s.ring.snapshot lag, lock := .draining t }
          else none
      | _ => none
  | .drain =>
      match s.lock with
      | .draining _ =>
          if s.ring.rd ≠ s.ring.lim then
            some { s with ring := s.ring.take, freed := s.freed ++ [s.ring.front] }
          else none
      | _ => none
  | .commit =>
      match s.lock with
      | .draining t =>
          if s.ring.rd = s.ring.lim then
            some { s with ring := s.ring.commit, lock := .held t }
          else none
      | _ => none
  | .freeInline =>
      match s.lock, s.task with
      | .held .unit, .backstop (c :: rest) =>
          some { s with task := .backstop rest, freed := s.freed ++ [c] }
      | _, _ => none
  | .release =>
      match s.lock with
      | .held t => s.releaseBy t
      | _ => none

def system (caps : NetDevCaps) : TransitionSystem (TxReclaim χ) (ReclaimLabel χ) where
  init s := ∃ slots, s = ⟨.empty caps.txFreeMask slots, .idle, .free, [], []⟩
  next := next

/-! ### The invariant -/

def Writing (s : TxReclaim χ) : Prop :=
  ∃ rest, s.task = .writing rest

def Draining (s : TxReclaim χ) : Prop :=
  ∃ t, s.lock = .draining t

structure Inv (s : TxReclaim χ) : Prop where
  ring : s.ring.Inv s.task.quota
  producer : ¬ s.Writing → s.ring.written = s.ring.produced
  consumer : ¬ s.Draining → s.ring.taken = s.ring.consumed
  conserved : s.done.Perm (s.freed ++ s.ring.items ++ s.task.rest)

variable {s s' : TxReclaim χ}

theorem not_draining_of_free
    (h : s.lock = .free) :
  ¬ s.Draining
  := by
  rintro ⟨t, ht⟩
  rw [h] at ht
  contradiction

theorem not_draining_of_held
    {t : LockTask} (h : s.lock = .held t) :
  ¬ s.Draining
  := by
  rintro ⟨t', ht⟩
  rw [h] at ht
  contradiction

theorem Inv.ndifTxDone
    (h : s.Inv) (htask : s.task = .idle) {batch : List χ} {lag : ℕ} (hbatch : batch.length < 2 ^ 31)
    (hlag : lag ≤ s.ring.consumed - s.ring.seen) :
  (s.ndifTxDone batch lag).Inv
  := by
  have hidle : ¬ s.Writing := by
    rintro ⟨rest, hrest⟩
    rw [htask] at hrest
    contradiction
  have hring : s.ring.Inv 0 := by
    have hinv := h.ring
    rwa [htask] at hinv
  have hdone : (s.done ++ batch).Perm (s.freed ++ s.ring.items ++ batch) := by
    have hconserved := h.conserved
    rw [htask, TxDoneTask.rest, append_nil] at hconserved
    apply hconserved.append_right
  unfold TxReclaim.ndifTxDone
  split
  next hfits =>
    refine ⟨hring.reserve (h.producer hidle) hlag hbatch hfits, ?_, h.consumer, hdone⟩
    intro hnot
    exact absurd ⟨batch, rfl⟩ hnot
  next =>
    exact ⟨hring, fun _ => h.producer hidle, h.consumer, hdone⟩

theorem Inv.pass
    (h : s.Inv) (hlock : ¬ s.Draining) {lag : ℕ} (hlag : lag ≤ s.ring.produced - s.ring.consumed)
    (t : LockTask) :
  Inv { s with ring := s.ring.snapshot lag, lock := .draining t }
  := by
  refine ⟨h.ring.snapshot (h.consumer hlock) hlag, h.producer, ?_, h.conserved⟩
  intro hnot
  exact absurd ⟨t, rfl⟩ hnot

theorem Inv.drain
    (h : s.Inv) (hlock : s.Draining) (hne : s.ring.rd ≠ s.ring.lim) :
  Inv { s with ring := s.ring.take, freed := s.freed ++ [s.ring.front] }
  := by
  refine ⟨h.ring.take hne, h.producer, fun hnot => absurd hlock hnot, ?_⟩
  apply h.conserved.trans
  apply List.Perm.of_eq
  change s.freed ++ s.ring.items ++ s.task.rest =
    s.freed ++ [s.ring.front] ++ s.ring.items.tail ++ s.task.rest
  nth_rewrite 1 [h.ring.items_eq hne]
  rw [append_cons]

theorem Inv.step
    {l : ReclaimLabel χ} (h : s.Inv) (hstep : s.next l = some s') :
  s'.Inv
  := by
  cases l with
  | txDone batch lag =>
    simp only [next] at hstep
    split at hstep
    next htask =>
      obtain ⟨⟨-, -, hbatch, hlag⟩, ⟨⟩⟩ := ite_none_right_eq_some.mp hstep
      apply h.ndifTxDone htask hbatch hlag
    next => contradiction
  | write =>
    simp only [next] at hstep
    split at hstep
    next c rest htask =>
      cases hstep
      have hring : s.ring.Inv (rest.length + 1) := by
        have hinv := h.ring
        rwa [htask] at hinv
      refine ⟨hring.write c, fun hnot => absurd ⟨rest, rfl⟩ hnot, h.consumer, ?_⟩
      apply h.conserved.trans
      apply List.Perm.of_eq
      change s.freed ++ s.ring.items ++ s.task.rest = s.freed ++ (s.ring.items ++ [c]) ++ rest
      rw [htask, TxDoneTask.rest, append_cons, ← append_assoc]
    next => contradiction
  | publish =>
    simp only [next] at hstep
    split at hstep
    next htask =>
      cases hstep
      have hring : s.ring.Inv 0 := by
        have hinv := h.ring
        rwa [htask] at hinv
      have hconserved := h.conserved
      rw [htask] at hconserved
      exact ⟨hring.publish, fun _ => rfl, h.consumer, hconserved⟩
    next => contradiction
  | «obtain» t lag =>
    obtain ⟨⟨hlock, -, hlag⟩, ⟨⟩⟩ := ite_none_right_eq_some.mp hstep
    apply h.pass (not_draining_of_free hlock) hlag
  | again lag =>
    simp only [next] at hstep
    split at hstep
    next t hlock =>
      obtain ⟨hlag, ⟨⟩⟩ := ite_none_right_eq_some.mp hstep
      apply h.pass (not_draining_of_held hlock) hlag
    next => contradiction
  | drain =>
    simp only [next] at hstep
    split at hstep
    next t hlock =>
      obtain ⟨hne, ⟨⟩⟩ := ite_none_right_eq_some.mp hstep
      apply h.drain ⟨t, hlock⟩ hne
    next => contradiction
  | commit =>
    simp only [next] at hstep
    split at hstep
    next t hlock =>
      obtain ⟨-, ⟨⟩⟩ := ite_none_right_eq_some.mp hstep
      exact ⟨h.ring.commit, h.producer, fun _ => rfl, h.conserved⟩
    next => contradiction
  | freeInline =>
    simp only [next] at hstep
    split at hstep
    next c rest hlock htask =>
      cases hstep
      have hring : s.ring.Inv 0 := by
        have hinv := h.ring
        rwa [htask] at hinv
      have hidle : ¬ s.Writing := by
        rintro ⟨rest', hrest⟩
        rw [htask] at hrest
        contradiction
      refine ⟨hring, fun _ => h.producer hidle, fun _ => h.consumer (not_draining_of_held hlock), ?_⟩
      apply h.conserved.trans
      rw [htask]
      change (s.freed ++ s.ring.items ++ c :: rest).Perm (s.freed ++ [c] ++ s.ring.items ++ rest)
      rw [append_cons, append_assoc s.freed [c]]
      apply List.Perm.append_right
      rw [append_assoc]
      apply perm_append_comm.append_left
    next => contradiction
  | release =>
    simp only [next] at hstep
    split at hstep
    next t hlock =>
      have hconsumer := h.consumer (not_draining_of_held hlock)
      cases t with
      | other =>
        cases hstep
        exact ⟨h.ring, h.producer, fun _ => hconsumer, h.conserved⟩
      | unit =>
        simp only [releaseBy] at hstep
        split at hstep
        next => contradiction
        next htask =>
          cases hstep
          have hring : s.ring.Inv 0 := by
            have hinv := h.ring
            rwa [htask] at hinv
          have hidle : ¬ s.Writing := by
            rintro ⟨rest, hrest⟩
            rw [htask] at hrest
            contradiction
          have hconserved := h.conserved
          rw [htask] at hconserved
          exact ⟨hring, fun _ => h.producer hidle, fun _ => hconsumer, hconserved⟩
        next =>
          cases hstep
          exact ⟨h.ring, h.producer, fun _ => hconsumer, h.conserved⟩
    next => contradiction

theorem inv_of_reachable
    {caps : NetDevCaps} (r : (system caps).Reachable s) :
  s.Inv
  := by
  apply r.invariant
  · rintro s ⟨slots, rfl⟩
    exact ⟨Spsc.inv_empty _ _, fun _ => rfl, fun _ => rfl, .refl _⟩
  · intro s l s' h _ hstep
    apply h.step hstep

/-! ### What is completed is freed -/

def Goes (s s' : TxReclaim χ) : Prop :=
  ∃ l, s.next l = some s' ∧ s'.done = s.done

theorem Inv.goes
    (h : s.Inv) (hrun : Relation.ReflTransGen Goes s s') :
  s'.Inv ∧ s'.done = s.done
  := by
  induction hrun with
  | refl => exact ⟨h, rfl⟩
  | tail _ hstep ih =>
    obtain ⟨l, hnext, hdone⟩ := hstep
    exact ⟨ih.1.step hnext, hdone.trans ih.2⟩

theorem goes_head
    {s₁ : TxReclaim χ} (l : ReclaimLabel χ) (hrun : Relation.ReflTransGen Goes s₁ s')
    (hnext : s.next l = some s₁) (hdone : s₁.done = s.done) :
  Relation.ReflTransGen Goes s s'
  := .head ⟨l, hnext, hdone⟩ hrun

theorem finish_writing
    {rest : List χ} (htask : s.task = .writing rest) :
  ∃ s', Relation.ReflTransGen Goes s s' ∧ s'.task = .idle
  := by
  induction rest generalizing s with
  | nil =>
    use { s with ring := s.ring.publish, task := .idle }
    refine ⟨.single ⟨.publish, ?_, rfl⟩, rfl⟩
    rw [next, htask]
  | cons c rest ih =>
    obtain ⟨s', hrun, hidle⟩ :=
      ih (s := { s with ring := s.ring.write c, task := .writing rest }) rfl
    refine ⟨s', goes_head .write hrun ?_ rfl, hidle⟩
    rw [next, htask]

theorem finish_pass
    {t : LockTask} (n : ℕ) (h : s.Inv) (hlock : s.lock = .draining t)
    (hn : s.ring.limit = s.ring.taken + n) :
  ∃ s', Relation.ReflTransGen Goes s s' ∧ s'.lock = .held t ∧ s'.task = s.task ∧
    s'.ring.taken = s.ring.limit ∧ s'.ring.written = s.ring.written
  := by
  induction n generalizing s with
  | zero =>
    have heq : s.ring.rd = s.ring.lim := h.ring.rd_eq_lim_iff.mpr hn.symm
    use { s with ring := s.ring.commit, lock := .held t }
    refine ⟨.single ⟨.commit, ?_, rfl⟩, rfl, rfl, hn.symm, rfl⟩
    rw [next, hlock]
    simp only [heq, if_pos]
  | succ n ih =>
    have hne : s.ring.rd ≠ s.ring.lim := by
      rw [Ne, h.ring.rd_eq_lim_iff]
      omega
    obtain ⟨s', hrun, hend⟩ :=
      ih (s := { s with ring := s.ring.take, freed := s.freed ++ [s.ring.front] })
        (h.drain ⟨t, hlock⟩ hne) hlock (by
          change s.ring.limit = s.ring.taken + 1 + n
          omega)
    refine ⟨s', goes_head .drain hrun ?_ rfl, hend⟩
    rw [next, hlock]
    simp only [if_pos hne]

theorem finish_lock
    (h : s.Inv) :
  ∃ s' t, Relation.ReflTransGen Goes s s' ∧ s'.lock = .held t ∧ s'.task = s.task
  := by
  have hpass : ∀ {s : TxReclaim χ} {t}, s.Inv → s.lock = .draining t →
      ∃ s' t, Relation.ReflTransGen Goes s s' ∧ s'.lock = .held t ∧ s'.task = s.task := by
    intro s t hs hlock
    obtain ⟨s', hrun, hheld, htask, -, -⟩ :=
      finish_pass (s.ring.limit - s.ring.taken) hs hlock (by
        have hle := hs.ring.taken_le
        omega)
    exact ⟨s', t, hrun, hheld, htask⟩
  cases hlock : s.lock with
  | free =>
    obtain ⟨s', t, hrun, hheld, htask⟩ :=
      hpass (h.pass (not_draining_of_free hlock) (Nat.zero_le _) .other) rfl
    refine ⟨s', t, goes_head (.obtain .other 0) hrun ?_ rfl, hheld, htask⟩
    simp only [next, hlock, mayObtain, Nat.zero_le, and_self, if_pos]
  | draining t => apply hpass h hlock
  | held t => exact ⟨s, t, .refl, hlock, rfl⟩

theorem finish_inline
    {rest : List χ} (hlock : s.lock = .held .unit) (htask : s.task = .backstop rest) :
  ∃ s', Relation.ReflTransGen Goes s s' ∧ s'.lock = .held .unit ∧ s'.task = .backstop []
  := by
  induction rest generalizing s with
  | nil => exact ⟨s, .refl, hlock, htask⟩
  | cons c rest ih =>
    obtain ⟨s', hrun, hend⟩ :=
      ih (s := { s with task := .backstop rest, freed := s.freed ++ [c] }) hlock rfl
    refine ⟨s', goes_head .freeInline hrun ?_ rfl, hend⟩
    rw [next, hlock, htask]

theorem settle_of_held
    {t : LockTask} (h : s.Inv) (hlock : s.lock = .held t) (hidle : ¬ s.Writing)
    (hrest : s.task.rest = []) :
  ∃ s', Relation.ReflTransGen Goes s s' ∧ s.done.Perm s'.freed
  := by
  have hpass := h.pass (not_draining_of_held hlock) (Nat.zero_le _) t
  obtain ⟨s', hrun, hheld, htask, htaken, hwritten⟩ :=
    finish_pass (s.ring.produced - s.ring.taken) hpass rfl (by
      have hle := hpass.ring.taken_le
      change s.ring.taken ≤ s.ring.produced at hle
      change s.ring.produced = s.ring.taken + (s.ring.produced - s.ring.taken)
      omega)
  have hgoes : Relation.ReflTransGen Goes s s' := by
    refine goes_head (.again 0) hrun ?_ rfl
    simp only [next, hlock, Nat.zero_le, if_pos]
  obtain ⟨hinv, hdone⟩ := h.goes hgoes
  have hempty : s'.ring.items = [] := by
    have hlength := hinv.ring.length
    have hproduced := h.producer hidle
    change s'.ring.taken = s.ring.produced at htaken
    change s'.ring.written = s.ring.written at hwritten
    apply eq_nil_of_length_eq_zero
    omega
  refine ⟨s', hgoes, ?_⟩
  have hconserved := hinv.conserved
  change s'.task = s.task at htask
  rw [hempty, htask, hrest, append_nil, append_nil, hdone] at hconserved
  apply hconserved

theorem settle_of_backstop
    {rest : List χ} (h : s.Inv) (hlock : s.lock = .held .unit) (htask : s.task = .backstop rest) :
  ∃ s', Relation.ReflTransGen Goes s s' ∧ s.done.Perm s'.freed
  := by
  obtain ⟨s₁, hrun₁, hlock₁, htask₁⟩ := finish_inline hlock htask
  obtain ⟨hinv, hdone⟩ := h.goes hrun₁
  obtain ⟨s₂, hrun₂, hperm⟩ := settle_of_held hinv hlock₁ (by
    rintro ⟨rest', hrest⟩
    rw [htask₁] at hrest
    contradiction) (by rw [htask₁, TxDoneTask.rest])
  rw [hdone] at hperm
  exact ⟨s₂, hrun₁.trans hrun₂, hperm⟩

theorem settle
    (h : s.Inv) :
  ∃ s', Relation.ReflTransGen Goes s s' ∧ s.done.Perm s'.freed
  := by
  -- a state the tasks can go to may stand for the one they are in
  have hfrom : ∀ {s s₁ : TxReclaim χ}, s.Inv → Relation.ReflTransGen Goes s s₁ →
      (s₁.Inv → ∃ s', Relation.ReflTransGen Goes s₁ s' ∧ s₁.done.Perm s'.freed) →
      ∃ s', Relation.ReflTransGen Goes s s' ∧ s.done.Perm s'.freed := by
    intro s s₁ hs hrun hsettle
    obtain ⟨hinv, hdone⟩ := hs.goes hrun
    obtain ⟨s', hrun', hperm⟩ := hsettle hinv
    rw [hdone] at hperm
    exact ⟨s', hrun.trans hrun', hperm⟩
  have hidle : ∀ {s : TxReclaim χ}, s.Inv → s.task = .idle →
      ∃ s', Relation.ReflTransGen Goes s s' ∧ s.done.Perm s'.freed := by
    intro s hs htask
    obtain ⟨s₁, t, hrun, hlock, htask₁⟩ := finish_lock hs
    rw [htask] at htask₁
    apply hfrom hs hrun
    intro hinv
    apply settle_of_held hinv hlock
    · rintro ⟨rest, hrest⟩
      rw [htask₁] at hrest
      contradiction
    · rw [htask₁, TxDoneTask.rest]
  cases htask : s.task with
  | idle => apply hidle h htask
  | writing rest =>
    obtain ⟨s₁, hrun, htask₁⟩ := finish_writing htask
    apply hfrom h hrun
    intro hinv
    apply hidle hinv htask₁
  | backstop rest =>
    obtain ⟨s₁, t, hrun, hlock, htask₁⟩ := finish_lock h
    rw [htask] at htask₁
    apply hfrom h hrun
    intro hinv
    cases t with
    | unit => apply settle_of_backstop hinv hlock htask₁
    | other =>
      -- another task has the lock: it releases it, and the unit task takes it
      have hfree : Goes s₁ { s₁ with lock := .free } := by
        refine ⟨.release, ?_, rfl⟩
        rw [next, hlock]
        rfl
      have hpass := (hinv.goes (.single hfree)).1.pass (not_draining_of_free rfl)
        (Nat.zero_le _) .unit
      have hobtain : Goes { s₁ with lock := .free }
          { s₁ with ring := s₁.ring.snapshot 0, lock := .draining .unit } := by
        refine ⟨.obtain .unit 0, ?_, rfl⟩
        simp only [next, mayObtain, htask₁, Nat.zero_le, and_self, if_pos]
      obtain ⟨s₂, hrun₂, hlock₂, htask₂, -, -⟩ :=
        finish_pass (s₁.ring.produced - s₁.ring.taken) hpass rfl (by
          have hle := hpass.ring.taken_le
          change s₁.ring.taken ≤ s₁.ring.produced at hle
          change s₁.ring.produced = s₁.ring.taken + (s₁.ring.produced - s₁.ring.taken)
          omega)
      apply hfrom hinv (.head hfree (.head hobtain hrun₂))
      intro hinv₂
      apply settle_of_backstop hinv₂ hlock₂ (htask₂.trans htask₁)

/-- The cookies completed are those freed, those on the ring and those the unit task has yet to deal
with; and the tasks can always go on until all are freed. -/
theorem cookies_freed_once
    {caps : NetDevCaps} (r : (system caps).Reachable s) :
  s.done.Perm (s.freed ++ s.ring.items ++ s.task.rest) ∧
    (∀ c rest, s.task = .writing (c :: rest) → s.ring.full (s.ring.m.slot s.ring.wr) = false) ∧
    (s.Draining → s.ring.rd ≠ s.ring.lim →
      s.ring.full (s.ring.m.slot s.ring.rd) = true ∧
        s.ring.items = s.ring.front :: s.ring.items.tail) ∧
    ∃ s', Relation.ReflTransGen Goes s s' ∧ s'.done = s.done ∧ s'.done.Perm s'.freed
  := by
  have h := inv_of_reachable r
  refine ⟨h.conserved, ?_, ?_, ?_⟩
  · intro c rest htask
    have hring := h.ring
    rw [htask] at hring
    apply hring.full_wr
  · intro _ hne
    exact ⟨h.ring.full_rd hne, h.ring.items_eq hne⟩
  · obtain ⟨s', hrun, hperm⟩ := settle h
    have hdone := (h.goes hrun).2
    rw [← hdone] at hperm
    exact ⟨s', hrun, hdone, hperm⟩

def staleRun : List (ReclaimLabel ℕ) :=
  [.txDone [1, 2] 0, .write, .obtain .other 0, .write, .commit, .release, .publish, .obtain .other 1,
    .drain, .commit, .release, .txDone (List.replicate 511 3) 1, .obtain .unit 0, .drain, .commit,
    .freeInline]

theorem staleRun_enabled :
  ((system NetdevTx.smallRing).exec
    ⟨.empty NetdevTx.smallRing.txFreeMask fun _ => 0, .idle, .free, [], []⟩ staleRun).isSome = true
  := by
  decide +kernel

def stale : TxReclaim ℕ :=
  (system NetdevTx.smallRing).last
    ⟨.empty NetdevTx.smallRing.txFreeMask fun _ => 0, .idle, .free, [], []⟩ staleRun staleRun_enabled

/-- The cookies of the ring and the first one of the batch are freed; the rest of the batch will be. -/
theorem cookies_freed_once_stale :
  (system NetdevTx.smallRing).Reachable stale ∧ stale.freed = [1, 2, 3] ∧ stale.ring.items = [] ∧
    stale.done.Perm (stale.freed ++ stale.ring.items ++ stale.task.rest) ∧
    ∃ s', Relation.ReflTransGen Goes stale s' ∧ s'.done = stale.done ∧ s'.done.Perm s'.freed
  := by
  have hreach : (system NetdevTx.smallRing).Reachable stale :=
    TransitionSystem.reachable_last ⟨_, rfl⟩
  obtain ⟨hconserved, -, -, hsettle⟩ := cookies_freed_once hreach
  exact ⟨hreach, by decide +kernel, by decide +kernel, hconserved, hsettle⟩

end TxReclaim
