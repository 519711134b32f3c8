import LwipAmiga.Multicast.Registry

/-!
# The registry and the groups of the interface

`Agrees` says that the rows of the registry are exactly the references that sockets hold on the live
groups.
-/

theorem List.filterMap_set_perm
    {α : Type} {l : List (Option α)} {i : ℕ} (h : l[i]? = some none) (a : α) :
  ((l.set i (some a)).filterMap id).Perm (a :: l.filterMap id)
  := by
  induction l generalizing i with
  | nil => contradiction
  | cons x l ih =>
    cases i with
    | zero =>
      obtain rfl : x = none := by simpa using h
      exact .refl _
    | succ i =>
      have h' := ih (i := i) (by simpa using h)
      cases x with
      | none => simpa using h'
      | some x =>
        simpa using (h'.cons x).trans (.swap a x _)

namespace McastWorld

variable {κ : Type} {w w' : McastWorld κ} {r : SbMcastMember κ} {i : ℕ}

def rows (w : McastWorld κ) : List (SbMcastMember κ) :=
  w.table.filterMap id

def RowsAreJoins (w : McastWorld κ) : Prop :=
  ∀ r, some r ∈ w.table ↔ r ∈ w.joins

structure Agrees (w : McastWorld κ) : Prop where
  length : w.table.length = SB_MCAST_MEMBERSHIPS
  nodup : w.rows.Nodup
  perm : w.rows.Perm w.joins
  live : w.nif = none → w.joins = []
  matchesAddr : ∀ n ∈ w.nif, ∀ r ∈ w.joins, n.matchesAddr r.ifAddr = true
  groups : ∀ n ∈ w.nif, ∀ g, n.groups g = n.own g + w.joins.countP (·.group = g)

/-! ### Rows -/

theorem mem_rows :
  r ∈ w.rows ↔ some r ∈ w.table
  := by
  simp [rows]

theorem Agrees.rowsAreJoins (h : w.Agrees) :
  w.RowsAreJoins
  := by
  intro r
  rw [← mem_rows, h.perm.mem_iff]

theorem Agrees.use_pos (h : w.Agrees) (hr : r ∈ w.joins) :
  0 < w.use r.group
  := by
  cases hn : w.nif with
  | none =>
    rw [h.live hn] at hr
    contradiction
  | some n =>
    have hcount : 0 < w.joins.countP (·.group = r.group) := by
      apply List.countP_pos_iff.mpr ⟨r, hr, decide_eq_true rfl⟩
    have hgroups := h.groups n hn r.group
    simp only [use, hn]
    omega

theorem rows_set_some
    (h : w.table[i]? = some none) (r : SbMcastMember κ) :
  (rows { w with table := w.table.set i (some r) }).Perm (r :: w.rows)
  := List.filterMap_set_perm h r

theorem rows_set_none (h : w.table[i]? = some (some r)) :
  w.rows.Perm (r :: rows { w with table := w.table.set i none })
  := by
  obtain ⟨hi, hr⟩ := List.getElem?_eq_some_iff.mp h
  have hfree : (w.table.set i none)[i]? = some none := by
    rw [List.getElem?_set_self hi]
  have hperm := List.filterMap_set_perm hfree r
  rwa [List.set_set, ← hr, List.set_getElem_self] at hperm

/-! ### Steps -/

theorem Agrees.join
    {accepts : Bool} (h : w.Agrees) (hfree : w.table[i]? = some none) (hnew : some r ∉ w.table)
    (hw : w.igmpJoingroup r accepts = some w') :
  Agrees { w' with table := w'.table.set i (some r) } ∧ 0 < w'.use r.group
  := by
  obtain ⟨n, hn, hw⟩ := Option.bind_eq_some_iff.mp hw
  rw [Option.ite_none_right_eq_some, Bool.and_eq_true, Option.some.injEq] at hw
  obtain ⟨⟨hmatch, -⟩, rfl⟩ := hw
  have hrows := rows_set_some hfree r
  constructor
  · constructor
    · simpa using h.length
    · apply hrows.nodup_iff.mpr
      apply List.nodup_cons.mpr ⟨by rwa [mem_rows], h.nodup⟩
    · apply hrows.trans
      apply (h.perm.cons r).trans
      simpa using (List.perm_append_singleton r w.joins).symm
    · nofun
    · intro n' hn' r' hr'
      obtain rfl := Option.some.inj hn'
      rw [List.mem_append, List.mem_singleton] at hr'
      obtain hr' | rfl := hr'
      · apply h.matchesAddr n hn r' hr'
      · apply hmatch
    · intro n' hn' g
      obtain rfl := Option.some.inj hn'
      have hg := h.groups n hn g
      simp only [IgmpIf.joingroup, List.countP_append, List.countP_singleton]
      by_cases hgr : g = r.group
      · subst hgr
        simp [hg]
        omega
      · simp [Function.update_of_ne hgr, hg, Ne.symm hgr]
  · simp [use, IgmpIf.joingroup]

theorem Agrees.reset
    {n : Option IgmpIf} (h : w.Agrees) (hrows : w.rows = []) (hn : ∀ m ∈ n, m.groups = m.own) :
  Agrees { w with nif := n, joins := [] }
  := by
  constructor
  · apply h.length
  · apply h.nodup
  · apply List.Perm.of_eq hrows
  · intro _
    rfl
  · nofun
  · intro m hm g
    rw [hn m hm]
    rfl

theorem agrees_remove_iff (h : w.Agrees) :
  Agrees { w with nif := none, joins := [] } ↔ w.rows = []
  := by
  constructor
  · intro hremoved
    apply List.Perm.eq_nil hremoved.perm
  · intro hrows
    apply h.reset hrows
    nofun

theorem agrees_start :
  (start : McastWorld κ).Agrees
  := by
  have hrows : (start : McastWorld κ).rows = [] := by
    rw [rows, start, List.filterMap_replicate_of_none rfl]
  constructor
  · apply List.length_replicate
  · rw [hrows]
    apply List.nodup_nil
  · apply List.Perm.of_eq hrows
  · intro _
    rfl
  · nofun
  · nofun

variable [DecidableEq κ]

theorem Agrees.leaveSlot (h : w.Agrees) (hr : w.table[i]? = some (some r)) :
  (w.leaveSlot i r).Agrees ∧ (w.leaveSlot i r).joins = w.joins.erase r
  := by
  have hjoin : r ∈ w.joins := by
    rw [← h.perm.mem_iff, mem_rows]
    apply List.mem_of_getElem? hr
  obtain ⟨n, hn⟩ : ∃ n, w.nif = some n := by
    rw [← Option.ne_none_iff_exists']
    intro hnone
    rw [h.live hnone] at hjoin
    contradiction
  have hmatch := h.matchesAddr n hn r hjoin
  have hrows := rows_set_none hr
  simp only [McastWorld.leaveSlot, igmpLeavegroup, hn, hmatch, if_true, and_true]
  constructor
  · simpa using h.length
  · apply (List.nodup_cons.mp (hrows.nodup_iff.mp h.nodup)).2
  · apply List.Perm.cons_inv (a := r)
    apply hrows.symm.trans
    apply h.perm.trans (List.perm_cons_erase hjoin)
  · nofun
  · intro n' hn' r' hr'
    obtain rfl := Option.some.inj hn'
    apply h.matchesAddr n hn r' (List.mem_of_mem_erase hr')
  · intro n' hn' g
    obtain rfl := Option.some.inj hn'
    have hg := h.groups n hn g
    have hcount := (List.perm_cons_erase hjoin).countP_eq (·.group = g)
    rw [List.countP_cons] at hcount
    simp only [IgmpIf.leavegroup]
    by_cases hgr : g = r.group
    · subst hgr
      simp only [decide_true, if_true] at hcount
      rw [Function.update_self]
      omega
    · have hne : ¬ r.group = g := fun heq => hgr heq.symm
      simp only [hne, decide_false, Bool.false_eq_true, if_false] at hcount
      rw [Function.update_of_ne hgr]
      omega

theorem Agrees.dropSlot (h : w.Agrees) (s : κ) (i : ℕ) :
  (w.dropSlot s i).Agrees ∧
    ∀ r ∈ w.joins, r.s ≠ s → r ∈ (w.dropSlot s i).joins
  := by
  unfold McastWorld.dropSlot
  split
  · exact ⟨h, fun _ hr _ => hr⟩
  · rename_i r hr
    split
    · exact ⟨h, fun _ hr _ => hr⟩
    · rename_i hs
      obtain ⟨hagrees, hjoins⟩ := h.leaveSlot (Option.join_eq_some_iff.mp hr)
      constructor
      · apply hagrees
      · intro r' hr' hs'
        rw [hjoins]
        apply (List.mem_erase_of_ne _).mpr hr'
        rintro rfl
        contradiction

theorem Agrees.sbMcastDropAll (h : w.Agrees) (s : κ) :
  (w.sbMcastDropAll s).Agrees ∧ ∀ r ∈ w.joins, r.s ≠ s → r ∈ (w.sbMcastDropAll s).joins
  := by
  unfold McastWorld.sbMcastDropAll
  generalize List.range SB_MCAST_MEMBERSHIPS = l
  induction l generalizing w with
  | nil => exact ⟨h, fun _ hr _ => hr⟩
  | cons i l ih =>
    obtain ⟨hagrees, hkept⟩ := h.dropSlot s i
    obtain ⟨hend, hrest⟩ := ih hagrees
    exact ⟨hend, fun r hr hs => hrest r (hkept r hr hs) hs⟩

theorem Agrees.sbMcastJoin (h : w.Agrees) (r : SbMcastMember κ) (accepts : Bool) :
  (w.sbMcastJoin r accepts).1.Agrees ∧
    ((w.sbMcastJoin r accepts).2 = .ok () → 0 < (w.sbMcastJoin r accepts).1.use r.group)
  := by
  unfold McastWorld.sbMcastJoin
  split
  · rename_i hrow
    constructor
    · apply h
    · intro _
      apply h.use_pos
      apply (h.rowsAreJoins r).mp hrow
  · rename_i hnew
    split
    · exact ⟨h, nofun⟩
    · rename_i slot hslot
      split
      · exact ⟨h, nofun⟩
      · rename_i w' hw'
        obtain ⟨hlt, hfree, -⟩ := List.findIdx?_eq_some_iff_getElem.mp hslot
        have hget : w.table[slot]? = some none := by
          rw [List.getElem?_eq_getElem hlt, Option.isNone_iff_eq_none.mp hfree]
        obtain ⟨hagrees, huse⟩ := h.join hget hnew hw'
        exact ⟨hagrees, fun _ => huse⟩

theorem Agrees.sbMcastLeave (h : w.Agrees) (r : SbMcastMember κ) :
  (w.sbMcastLeave r).1.Agrees
  := by
  unfold McastWorld.sbMcastLeave
  split
  · apply h
  · rename_i i hi
    obtain ⟨hlt, hrow, -⟩ := List.findIdx?_eq_some_iff_getElem.mp hi
    have hget : w.table[i]? = some (some r) := by
      rw [List.getElem?_eq_getElem hlt, eq_of_beq hrow]
    apply (h.leaveSlot hget).1

/-! ### Runs -/

def cleanRemovals (w : McastWorld κ) : Label κ → Prop
  | .remove => w.rows = []
  | _ => True

instance : ∀ (w : McastWorld κ) (l : Label κ), Decidable (w.cleanRemovals l)
  | w, .remove => inferInstanceAs (Decidable (w.rows = []))
  | _, .join .. | _, .leave _ | _, .close _ | _, .add .. => inferInstanceAs (Decidable True)

theorem Agrees.next
    {l : Label κ} (h : w.Agrees) (hgood : w.cleanRemovals l) (hnext : w.next l = some w') :
  w'.Agrees
  := by
  cases l with
  | join r accepts =>
    obtain rfl := Option.some.inj hnext
    apply (h.sbMcastJoin r accepts).1
  | leave r =>
    cases hnext
    apply h.sbMcastLeave
  | close s =>
    obtain rfl := Option.some.inj hnext
    apply (h.sbMcastDropAll s).1
  | remove =>
    obtain ⟨n, -, rfl⟩ := Option.map_eq_some_iff.mp hnext
    apply (agrees_remove_iff h).mpr hgood
  | add addr own =>
    obtain ⟨hnone, ⟨⟩⟩ := Option.ite_none_right_eq_some.mp hnext
    have hjoins := h.live (Option.isNone_iff_eq_none.mp hnone)
    apply h.reset
    · apply List.Perm.eq_nil
      rw [← hjoins]
      apply h.perm
    · intro m hm
      obtain rfl := Option.some.inj hm
      rfl

theorem agrees_of_reach (h : (system κ).Reach cleanRemovals w) :
  w.Agrees
  := by
  apply h.invariant
  · rintro _ rfl
    apply agrees_start
  · intro w l w' hw hgood hnext
    apply hw.next hgood hnext

/-- The rows are exactly the references of the sockets on the live interface, and a closed socket
leaves what the others have joined. -/
theorem registry_agrees (h : (system κ).Reach cleanRemovals w) :
  w.RowsAreJoins ∧
    (∀ n ∈ w.nif, ∀ g, n.groups g = n.own g + w.joins.countP (·.group = g)) ∧
    (∀ r accepts, (w.sbMcastJoin r accepts).2 = .ok () →
      0 < (w.sbMcastJoin r accepts).1.use r.group) ∧
    ∀ s, ∀ r ∈ w.joins, r.s ≠ s →
      r ∈ (w.sbMcastDropAll s).joins ∧ 0 < (w.sbMcastDropAll s).use r.group
  := by
  have hw := agrees_of_reach h
  refine ⟨hw.rowsAreJoins, hw.groups, ?_, ?_⟩
  · intro r accepts
    apply (hw.sbMcastJoin r accepts).2
  · intro s r hr hs
    obtain ⟨hend, hkept⟩ := hw.sbMcastDropAll s
    exact ⟨hkept r hr hs, hend.use_pos (hkept r hr hs)⟩

/-! ### Two sockets and an interface -/

def joinRun : List (Label (Fin 2)) :=
  [.add 0x0A000001 (fun _ => 0), .join ⟨0, 0xE0000123, 0⟩ true]

def orderlyRun : List (Label (Fin 2)) :=
  joinRun ++ [.join ⟨1, 0xE0000123, 0⟩ true, .leave ⟨0, 0xE0000123, 0⟩, .close 0, .close 1,
    .remove, .add 0x0A000002 (fun _ => 0), .join ⟨0, 0xE0000123, 0⟩ true, .join ⟨1, 0xE0000123, 0⟩ true]

theorem orderlyRun_enabled :
  ((system (Fin 2)).exec start orderlyRun).isSome = true
  := by decide +kernel

def orderlyEnd : McastWorld (Fin 2) :=
  (system (Fin 2)).last start orderlyRun orderlyRun_enabled

theorem registry_agrees_orderly :
  orderlyEnd.joins = [⟨0, 0xE0000123, 0⟩, ⟨1, 0xE0000123, 0⟩] ∧ orderlyEnd.RowsAreJoins ∧
    (∀ n ∈ orderlyEnd.nif, ∀ g,
      n.groups g = n.own g + orderlyEnd.joins.countP (·.group = g)) ∧
    (∀ r accepts, (orderlyEnd.sbMcastJoin r accepts).2 = .ok () →
      0 < (orderlyEnd.sbMcastJoin r accepts).1.use r.group) ∧
    ∀ s, ∀ r ∈ orderlyEnd.joins, r.s ≠ s →
      r ∈ (orderlyEnd.sbMcastDropAll s).joins ∧ 0 < (orderlyEnd.sbMcastDropAll s).use r.group
  := by
  have hreach : (system (Fin 2)).Reach cleanRemovals orderlyEnd := by
    apply TransitionSystem.reach_last rfl
    decide +kernel
  constructor
  · decide +kernel
  · apply registry_agrees hreach

def exchangedRun : List (Label (Fin 2)) :=
  joinRun ++ [.remove, .add 0x0A000001 fun _ => 0]

theorem exchangedRun_enabled :
  ((system (Fin 2)).exec start exchangedRun).isSome = true
  := by decide

def exchangedEnd : McastWorld (Fin 2) :=
  (system (Fin 2)).last start exchangedRun exchangedRun_enabled

/-- Socket 0 has a row without a reference: its next join reports success and joins nothing, and
closing it takes the reference of socket 1. -/
theorem exchanged_rows_stale :
  (system (Fin 2)).Reachable exchangedEnd ∧ ¬ exchangedEnd.RowsAreJoins ∧
    (exchangedEnd.sbMcastJoin ⟨0, 0xE0000123, 0⟩ true).2 = .ok () ∧
    (exchangedEnd.sbMcastJoin ⟨0, 0xE0000123, 0⟩ true).1.use 0xE0000123 = 0 ∧
    ⟨1, 0xE0000123, 0⟩ ∈ (exchangedEnd.sbMcastJoin ⟨1, 0xE0000123, 0⟩ true).1.joins ∧
    (exchangedEnd.sbMcastJoin ⟨1, 0xE0000123, 0⟩ true).1.use 0xE0000123 = 1 ∧
    ((exchangedEnd.sbMcastJoin ⟨1, 0xE0000123, 0⟩ true).1.sbMcastDropAll 0).use 0xE0000123 = 0
  := by
  refine ⟨TransitionSystem.reachable_last rfl, ?_, ?_, ?_, ?_, ?_, ?_⟩
  · intro h
    have hrow : some ⟨0, 0xE0000123, 0⟩ ∈ exchangedEnd.table := by decide
    have hjoins : exchangedEnd.joins = [] := by decide
    have hjoin := (h _).mp hrow
    rw [hjoins] at hjoin
    contradiction
  · decide
  · decide
  · decide
  · decide
  · decide

end McastWorld
