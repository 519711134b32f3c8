import LwipAmiga.Lib.Transition
import Mathlib.Tactic

/-!
# The list of name servers

The slots of lwIP for name servers are not packed: `RemoveDomainNameServer` clears a slot in place.
-/

open List TransitionSystem

namespace DnsServers

/-- `bsd_AddDomainNameServer` from a slot on; an empty slot is 0. -/
def add (ip : UInt32) : List UInt32 → Option (List UInt32)
  | [] => none
  | cur :: rest =>
      if cur = ip then some (cur :: rest)
      else if cur = 0 then some (ip :: rest)
      else (add ip rest).map (cur :: ·)

/-- `bsd_RemoveDomainNameServer` from a slot on. -/
def remove (ip : UInt32) : List UInt32 → Option (List UInt32)
  | [] => none
  | cur :: rest =>
      if cur = ip then some (0 :: rest)
      else (remove ip rest).map (cur :: ·)

def IsSet (slots : List UInt32) : Prop :=
  (slots.filter (· ≠ 0)).Nodup

instance (slots : List UInt32) : Decidable (IsSet slots) :=
  inferInstanceAs (Decidable (List.Nodup _))

inductive Call where
  | add (ip : UInt32) (hip : ip ≠ 0)
  | remove (ip : UInt32) (hip : ip ≠ 0)

def after (slots : List UInt32) : Call → List UInt32
  | .add ip _ => (add ip slots).getD slots
  | .remove ip _ => (remove ip slots).getD slots

def system : TransitionSystem (List UInt32) Call where
  init := IsSet
  next slots c := some (after slots c)

def tidyAdd (slots : List UInt32) : Call → Prop
  | .add ip _ => ip ∈ slots → 0 ∉ slots.takeWhile (· ≠ ip)
  | .remove _ _ => True

instance (slots : List UInt32) (c : Call) : Decidable (tidyAdd slots c) := by
  unfold tidyAdd
  split <;> infer_instance

/-! ### One call -/

variable {ip : UInt32} {slots slots' : List UInt32}

theorem add_eq_none_iff :
  add ip slots = none ↔ ∀ cur ∈ slots, cur ≠ ip ∧ cur ≠ 0
  := by
  induction slots with
  | nil => simp [add]
  | cons cur rest ih =>
    rw [add, forall_mem_cons]
    by_cases hip : cur = ip
    · simp [hip]
    · by_cases hzero : cur = 0
      · rw [if_neg hip, if_pos hzero]
        simp [hzero]
      · rw [if_neg hip, if_neg hzero, Option.map_eq_none_iff, ih]
        simp [hip, hzero]

theorem add_of_mem (hmem : ip ∈ slots) (hbefore : 0 ∉ slots.takeWhile (· ≠ ip)) :
  add ip slots = some slots
  := by
  induction slots with
  | nil => contradiction
  | cons cur rest ih =>
    rw [add]
    by_cases hip : cur = ip
    · rw [if_pos hip]
    · rw [takeWhile_cons, decide_eq_true hip, if_pos rfl, mem_cons, not_or] at hbefore
      obtain ⟨hzero, hbefore⟩ := hbefore
      have hrest : ip ∈ rest := (mem_cons.mp hmem).resolve_left fun heq => hip heq.symm
      rw [if_neg hip, if_neg fun heq => hzero heq.symm, ih hrest hbefore]
      rfl

theorem add_of_notMem (hmem : ip ∉ slots) (h : add ip slots = some slots') :
  ∃ before behind, slots = before ++ 0 :: behind ∧ slots' = before ++ ip :: behind
  := by
  induction slots generalizing slots' with
  | nil => contradiction
  | cons cur rest ih =>
    rw [mem_cons, not_or] at hmem
    obtain ⟨hne, hrest⟩ := hmem
    rw [add, if_neg fun heq => hne heq.symm] at h
    split at h
    · rename_i hzero
      cases h
      exact ⟨[], rest, by rw [hzero]; rfl, rfl⟩
    · obtain ⟨rest', hadd, rfl⟩ := Option.map_eq_some_iff.mp h
      obtain ⟨before, behind, rfl, rfl⟩ := ih hrest hadd
      exact ⟨cur :: before, behind, rfl, rfl⟩

theorem remove_eq_some (h : remove ip slots = some slots') :
  ∃ before behind, ip ∉ before ∧ slots = before ++ ip :: behind ∧ slots' = before ++ 0 :: behind
  := by
  induction slots generalizing slots' with
  | nil => contradiction
  | cons cur rest ih =>
    rw [remove] at h
    split at h
    · rename_i hip
      cases h
      exact ⟨[], rest, not_mem_nil, by rw [hip]; rfl, rfl⟩
    · rename_i hip
      obtain ⟨rest', hremove, rfl⟩ := Option.map_eq_some_iff.mp h
      obtain ⟨before, behind, hbefore, rfl, rfl⟩ := ih hremove
      refine ⟨cur :: before, behind, ?_, rfl, rfl⟩
      rw [mem_cons, not_or]
      exact ⟨fun heq => hip heq.symm, hbefore⟩

/-! ### Sets -/

theorem isSet_append_zero (before behind : List UInt32) :
  IsSet (before ++ 0 :: behind) ↔ IsSet (before ++ behind)
  := by
  simp [IsSet, filter_append]

theorem isSet_append_cons (before behind : List UInt32) (hip : ip ≠ 0) :
  IsSet (before ++ ip :: behind) ↔ ip ∉ before ++ behind ∧ IsSet (before ++ behind)
  := by
  have hperm : ((before ++ ip :: behind).filter (· ≠ 0)).Perm
      (ip :: (before ++ behind).filter (· ≠ 0)) := by
    have hmiddle : (before ++ ip :: behind).Perm (ip :: (before ++ behind)) := perm_middle
    have hfilter := hmiddle.filter (· ≠ 0)
    rwa [filter_cons_of_pos (by simpa using hip)] at hfilter
  unfold IsSet
  rw [hperm.nodup_iff, nodup_cons, mem_filter]
  simp [hip]

theorem isSet_add (hip : ip ≠ 0) (hset : IsSet slots) (htidy : tidyAdd slots (.add ip hip)) :
  IsSet ((add ip slots).getD slots)
  := by
  by_cases hmem : ip ∈ slots
  · rw [add_of_mem hmem (htidy hmem)]
    apply hset
  · cases hadd : add ip slots with
    | none => apply hset
    | some slots' =>
      obtain ⟨before, behind, rfl, rfl⟩ := add_of_notMem hmem hadd
      rw [isSet_append_zero] at hset
      apply (isSet_append_cons before behind hip).mpr
      refine ⟨?_, hset⟩
      intro hin
      apply hmem
      rw [mem_append, mem_cons]
      rcases mem_append.mp hin with hin | hin
      · exact .inl hin
      · exact .inr (.inr hin)

theorem isSet_remove (hip : ip ≠ 0) (hset : IsSet slots) (h : remove ip slots = some slots') :
  IsSet slots' ∧ ip ∉ slots'
  := by
  obtain ⟨before, behind, -, rfl, rfl⟩ := remove_eq_some h
  obtain ⟨hnot, hrest⟩ := (isSet_append_cons before behind hip).mp hset
  constructor
  · apply (isSet_append_zero before behind).mpr hrest
  · rw [mem_append, not_or] at hnot
    rw [mem_append, mem_cons, not_or, not_or]
    exact ⟨hnot.1, hip, hnot.2⟩

theorem isSet_of_reach (h : system.Reach tidyAdd slots) :
  IsSet slots
  := by
  apply h.invariant
  · intro slots hinit
    apply hinit
  · intro slots c slots' hset htidy hnext
    cases hnext
    cases c with
    | add ip hip => apply isSet_add hip hset htidy
    | remove ip hip =>
      cases hremove : remove ip slots with
      | none =>
        rw [after, hremove]
        apply hset
      | some slots' =>
        rw [after, hremove]
        apply (isSet_remove hip hset hremove).1

/-- No address is ever in two slots, a remove leaves the address absent, and an add fails only when all
slots have other addresses. -/
theorem servers_stay_set (h : system.Reach tidyAdd slots) :
  IsSet slots ∧
    (∀ ip, ip ≠ 0 → ∀ slots', remove ip slots = some slots' → ip ∉ slots') ∧
    (∀ ip hip, tidyAdd slots (.add ip hip) → ip ∈ slots → add ip slots = some slots) ∧
    ∀ ip, ip ≠ 0 → add ip slots = none → ∀ cur ∈ slots, cur ≠ ip ∧ cur ≠ 0
  := by
  have hset := isSet_of_reach h
  refine ⟨hset, ?_, ?_, ?_⟩
  · intro ip hip slots' hremove
    apply (isSet_remove hip hset hremove).2
  · intro ip hip htidy hmem
    apply add_of_mem hmem (htidy hmem)
  · intro ip _ hadd
    apply add_eq_none_iff.mp hadd

/-! ### Runs of two slots -/

def tidyRun : List Call :=
  [.add 1 (by decide), .add 2 (by decide), .add 1 (by decide)]

theorem tidyRun_enabled :
  (system.exec [0, 0] tidyRun).isSome = true
  := by
  decide

theorem servers_stay_set_two :
  system.last [0, 0] tidyRun tidyRun_enabled = [1, 2] ∧
    IsSet (system.last [0, 0] tidyRun tidyRun_enabled)
  := by
  have hinit : system.init [0, 0] := by
    change IsSet [0, 0]
    decide
  have hreach : system.Reach tidyAdd (system.last [0, 0] tidyRun tidyRun_enabled) :=
    reach_last hinit (by decide)
  exact ⟨by decide, (servers_stay_set hreach).1⟩

def holeRun : List Call :=
  [.remove 1 (by decide), .add 2 (by decide)]

theorem holeRun_enabled :
  (system.exec [1, 2] holeRun).isSome = true
  := by
  decide

/-- The second server is in both slots, and a remove that succeeds leaves it in one. -/
theorem added_twice :
  system.Reachable (system.last [1, 2] holeRun holeRun_enabled) ∧
    system.last [1, 2] holeRun holeRun_enabled = [2, 2] ∧
    ¬ IsSet (system.last [1, 2] holeRun holeRun_enabled) ∧
    remove 2 (system.last [1, 2] holeRun holeRun_enabled) = some [0, 2]
  := by
  have hinit : system.init [1, 2] := by
    change IsSet [1, 2]
    decide
  exact ⟨reachable_last hinit, by decide, by decide, by decide⟩

end DnsServers
