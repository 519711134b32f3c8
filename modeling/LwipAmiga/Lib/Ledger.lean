import Mathlib.Data.Multiset.AddSub

/-!
# Ledgers of messages

The ledger of a server lists the messages it is handed, writes to and gives back, the latest first.
-/

open List

universe u

namespace Ledger

inductive Event (ι : Type u) where
  | put (m : ι)
  | touch (m : ι)
  | reply (m : ι)
  deriving DecidableEq

def Event.msg {ι : Type u} : Event ι → ι
  | put m => m
  | touch m => m
  | reply m => m

inductive Clean {ι : Type u} : List (Event ι) → Prop where
  | nil : Clean []
  | put {log : List (Event ι)} {m : ι} (h : Clean log) (hnew : ∀ e ∈ log, e.msg ≠ m) :
      Clean (.put m :: log)
  | touch {log : List (Event ι)} {m : ι} (h : Clean log) (hput : .put m ∈ log)
      (hopen : .reply m ∉ log) : Clean (.touch m :: log)
  | reply {log : List (Event ι)} {m : ι} (h : Clean log) (hput : .put m ∈ log)
      (hopen : .reply m ∉ log) : Clean (.reply m :: log)

variable {ι : Type u} {log late early : List (Event ι)} {held : Multiset ι} {e : Event ι} {m : ι}

/-! ### Clean ledgers -/

theorem Clean.nothing_behind_reply
    (h : Clean (late ++ .reply m :: early)) (he : e ∈ late) :
  e.msg ≠ m
  := by
  induction late with
  | nil => contradiction
  | cons e' late ih =>
    have hreply : .reply m ∈ late ++ .reply m :: early :=
      mem_append_right _ mem_cons_self
    rw [cons_append] at h
    cases h with
    | put hclean hnew =>
      rcases mem_cons.mp he with rfl | hmem
      · rintro rfl
        apply hnew _ hreply rfl
      · apply ih hclean hmem
    | touch hclean _ hopen | reply hclean _ hopen =>
      rcases mem_cons.mp he with rfl | hmem
      · rintro rfl
        apply hopen hreply
      · apply ih hclean hmem

theorem Clean.count_reply_le [DecidableEq ι] (h : Clean log) (m : ι) :
  log.count (.reply m) ≤ 1
  := by
  induction h with
  | nil => apply Nat.zero_le
  | put _ _ ih | touch _ _ _ ih =>
    rw [List.count_cons_of_ne (by simp)]
    apply ih
  | @reply log n _ _ hopen ih =>
    by_cases heq : n = m
    · subst heq
      rw [List.count_cons_self, List.count_eq_zero_of_not_mem hopen]
    · rw [List.count_cons_of_ne (by simp [heq])]
      apply ih

/-! ### What a server owes -/

structure Owes (log : List (Event ι)) (held : Multiset ι) : Prop where
  clean : Clean log
  nodup : held.Nodup
  mem : ∀ m, m ∈ held ↔ .put m ∈ log ∧ .reply m ∉ log

theorem Owes.nil :
  Owes ([] : List (Event ι)) 0
  := by
  constructor
  · apply Clean.nil
  · apply Multiset.nodup_zero
  · simp

theorem Owes.put (h : Owes log held) (hnew : ∀ e ∈ log, e.msg ≠ m) :
  Owes (.put m :: log) (m ::ₘ held)
  := by
  have hput : .put m ∉ log := fun hmem => hnew _ hmem rfl
  have hreply : .reply m ∉ log := fun hmem => hnew _ hmem rfl
  constructor
  · apply Clean.put h.clean hnew
  · apply Multiset.nodup_cons.mpr ⟨fun hmem => hput ((h.mem m).mp hmem).1, h.nodup⟩
  · intro n
    rw [Multiset.mem_cons, h.mem, List.mem_cons, List.mem_cons]
    constructor
    · rintro (rfl | ⟨hn, hopen⟩)
      · simp [hreply]
      · simp [hn, hopen]
    · rintro ⟨hn | hn, hopen⟩
      · left
        apply Event.put.inj hn
      · right
        refine ⟨hn, fun hmem => hopen (.inr hmem)⟩

theorem Owes.touch (h : Owes log held) (hm : m ∈ held) :
  Owes (.touch m :: log) held
  := by
  obtain ⟨hput, hopen⟩ := (h.mem m).mp hm
  constructor
  · apply Clean.touch h.clean hput hopen
  · apply h.nodup
  · intro n
    rw [h.mem]
    simp

theorem Owes.reply (h : Owes log (m ::ₘ held)) :
  Owes (.reply m :: log) held
  := by
  obtain ⟨hput, hopen⟩ := (h.mem m).mp (Multiset.mem_cons_self m held)
  obtain ⟨hnot, hnodup⟩ := Multiset.nodup_cons.mp h.nodup
  constructor
  · apply Clean.reply h.clean hput hopen
  · apply hnodup
  · intro n
    have hn := h.mem n
    rw [Multiset.mem_cons] at hn
    rw [List.mem_cons, List.mem_cons, not_or]
    constructor
    · intro hmem
      obtain ⟨hnput, hnopen⟩ := hn.mp (.inr hmem)
      refine ⟨.inr hnput, ?_, hnopen⟩
      intro heq
      cases heq
      contradiction
    · rintro ⟨hnput, hne, hnopen⟩
      have hnput' : .put n ∈ log := hnput.resolve_left nofun
      rcases hn.mpr ⟨hnput', hnopen⟩ with rfl | hmem
      · contradiction
      · apply hmem

theorem Owes.count_reply [DecidableEq ι]
    (h : Owes log held) (hput : .put m ∈ log) (hm : m ∉ held) :
  log.count (.reply m) = 1
  := by
  have hreply : .reply m ∈ log := by
    by_contra hopen
    apply hm ((h.mem m).mpr ⟨hput, hopen⟩)
  have hle := h.clean.count_reply_le m
  have hpos := count_pos_iff.mpr hreply
  omega

end Ledger
