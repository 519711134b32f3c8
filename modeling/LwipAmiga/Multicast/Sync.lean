import LwipAmiga.Multicast.Filter
import Mathlib.Data.Finset.Card

/-!
# The multicast filter of a SANA-II driver

On its tick the stack task pushes the differences between the joined MACs and `sanaShadow`, the list
pushed last.
-/

open List Option TransitionSystem

def allSystems : UInt32 := 0xe0000001

inductive S2McastCmd where
  | add (mac : List UInt8)
  | del (mac : List UInt8)
  deriving DecidableEq

inductive S2McastReply where
  | ok
  | nocmd
  | error
  deriving DecidableEq

namespace S2McastCmd

def effect (macs : Finset (List UInt8)) : S2McastCmd → Finset (List UInt8)
  | add mac => insert mac macs
  | del mac => macs.erase mac

def deltas (shadow macs : List (List UInt8)) : List S2McastCmd :=
  (shadow.filter (· ∉ macs)).map del ++ (macs.filter (· ∉ shadow)).map add

theorem foldl_del (l : List (List UInt8)) (macs : Finset (List UInt8)) :
  (l.map del).foldl effect macs = macs \ l.toFinset
  := by
  induction l generalizing macs with
  | nil => simp
  | cons mac l ih =>
    rw [List.map_cons, List.foldl_cons, ih, effect, List.toFinset_cons,
      Finset.sdiff_insert, Finset.erase_sdiff_comm]

theorem foldl_add (l : List (List UInt8)) (macs : Finset (List UInt8)) :
  (l.map add).foldl effect macs = macs ∪ l.toFinset
  := by
  induction l generalizing macs with
  | nil => simp
  | cons mac l ih =>
    rw [List.map_cons, List.foldl_cons, ih, effect, List.toFinset_cons, Finset.insert_union,
      Finset.union_insert]

theorem foldl_deltas (shadow macs : List (List UInt8)) :
  (deltas shadow macs).foldl effect shadow.toFinset = macs.toFinset
  := by
  rw [deltas, foldl_append, foldl_del, foldl_add]
  ext mac
  simp only [Finset.mem_union, Finset.mem_sdiff, List.mem_toFinset, List.mem_filter,
    decide_eq_true_eq]
  tauto

end S2McastCmd

structure SanaSync where
  macs : List (List UInt8)
  todo : List S2McastCmd
  deriving DecidableEq

structure SanaMcast where
  nib : NibMcast
  joined : List UInt32
  started : Bool
  shadow : List (List UInt8)
  mcastUnsupported : Bool
  sync : Option SanaSync
  driver : Finset (List UInt8)

namespace SanaMcast

def join (s : SanaMcast) (group : UInt32) : SanaMcast :=
  { s with
    nib := s.nib.netifbaseIgmpMacFilter group .add
    joined := group :: s.joined }

def leave (s : SanaMcast) (group : UInt32) : SanaMcast :=
  { s with
    nib := s.nib.netifbaseIgmpMacFilter group .del
    joined := s.joined.erase group }

/-- `sb_sana_up`: the device is opened and the interface created, with which lwIP joins the group of
all systems. -/
def sbSanaUp (s : SanaMcast) : SanaMcast :=
  ({ s with nib := .netifbaseInit, joined := [], started := true, driver := ∅ }).join allSystems

/-- `sb_if_down`: lwIP leaves the groups of the interface, and the device is closed. -/
def sbIfDown (s : SanaMcast) : SanaMcast :=
  { s.joined.foldl leave s with started := false, driver := ∅ }

/-- `sb_sana_mcast_sync` up to its first command. -/
def sbSanaMcastSync (s : SanaMcast) : SanaMcast :=
  if s.started = false || s.mcastUnsupported || s.nib.rxFilterDirty = false then s
  else
    let (nib, macs, _) := s.nib.netifbaseMcastSnapshot
    { s with nib := nib, sync := some ⟨macs, S2McastCmd.deltas s.shadow macs⟩ }

def answer (s : SanaMcast) (macs : List (List UInt8)) (cmd : S2McastCmd) (todo : List S2McastCmd) :
    S2McastReply → SanaMcast
  | .ok => { s with sync := some ⟨macs, todo⟩, driver := cmd.effect s.driver }
  | .nocmd => { s with sync := none, mcastUnsupported := true }
  | .error => { s with sync := some ⟨macs, todo⟩ }

inductive Label where
  | join (group : UInt32)
  | leave (group : UInt32)
  | add
  | remove
  | restart
  | sync
  | reply (r : S2McastReply)
  | synced
  deriving DecidableEq

def next (s : SanaMcast) : Label → Option SanaMcast
  | .join group => if s.started then some (s.join group) else none
  | .leave group => if s.started ∧ group ∈ s.joined then some (s.leave group) else none
  | .add => if s.started then none else some s.sbSanaUp
  | .remove => if s.started ∧ s.sync = none then some s.sbIfDown else none
  | .restart =>
      if s.started then none else some { s with shadow := [], mcastUnsupported := false }
  | .sync => if s.sync = none then some s.sbSanaMcastSync else none
  | .reply r =>
      match s.sync with
      | some ⟨macs, cmd :: todo⟩ => some (s.answer macs cmd todo r)
      | _ => none
  | .synced =>
      match s.sync with
      | some ⟨macs, []⟩ => some { s with shadow := macs, sync := none }
      | _ => none

def start : SanaMcast where
  nib := .netifbaseInit
  joined := []
  started := false
  shadow := []
  mcastUnsupported := false
  sync := none
  driver := ∅

def system : TransitionSystem SanaMcast Label where
  init s := s = start
  next := next

def joinedMacs (s : SanaMcast) : Finset (List UInt8) :=
  (s.joined.map nibMcastMac).toFinset

def Follows (s : SanaMcast) : Prop :=
  s.sync = none → s.started = true → s.mcastUnsupported = false → s.nib.rxFilterDirty = false →
    s.joinedMacs.card ≤ NIB_MCAST_MAX → s.driver = s.joinedMacs

instance (s : SanaMcast) : Decidable s.Follows := by
  unfold Follows
  infer_instance

def orderly (s : SanaMcast) : Label → Prop
  | .join group =>
      (nibMcastMac group ∈ s.nib.macs ∨ s.nib.entries.length < NIB_MCAST_MAX) ∧
        s.joined.length + 1 < 65536
  | .add => s.shadow = []
  | .reply r => r ≠ .error
  | _ => True

instance (s : SanaMcast) (l : Label) : Decidable (s.orderly l) := by
  cases l <;> unfold orderly <;> infer_instance

/-! ### The driver follows the list -/

variable {s s' : SanaMcast} {l : Label} {group : UInt32}

def target (s : SanaMcast) : List (List UInt8) :=
  match s.sync with
  | none => s.shadow
  | some sync => sync.macs

def todo (s : SanaMcast) : List S2McastCmd :=
  match s.sync with
  | none => []
  | some sync => sync.todo

structure Listed (nib : NibMcast) (joined : List UInt32) : Prop where
  tracks : nib.TracksGroups joined
  few : joined.length < 65536
  room : nib.overflow = 0

structure Programmed (s : SanaMcast) : Prop where
  driver : s.todo.foldl S2McastCmd.effect s.driver = s.target.toFinset
  clean : s.nib.rxFilterDirty = false → s.nib.macs = s.target

structure Inv (s : SanaMcast) : Prop where
  idle : s.started = false → s.sync = none
  listed : s.started = true → Listed s.nib s.joined
  programmed : s.started = true → s.mcastUnsupported = false → s.Programmed

theorem Listed.macs_toFinset (h : Listed s.nib s.joined) :
  s.nib.macs.toFinset = s.joinedMacs
  := by
  ext mac
  rw [List.mem_toFinset, joinedMacs, List.mem_toFinset]
  constructor
  · apply h.tracks.mem_out
  · intro hmem
    apply (h.tracks.mem_or_overflow hmem).resolve_right
    rw [h.room]
    apply Nat.lt_irrefl

theorem Listed.join (h : Listed s.nib s.joined) (hgood : s.orderly (.join group)) :
  Listed (s.nib.netifbaseIgmpMacFilter group .add) (group :: s.joined)
  := by
  obtain ⟨hroom, hfew⟩ := hgood
  constructor
  · apply h.tracks.join hfew
  · apply hfew
  · rw [NibMcast.overflow_join hroom, h.room]

theorem Listed.leave (h : Listed s.nib s.joined) (hmem : group ∈ s.joined) :
  Listed (s.nib.netifbaseIgmpMacFilter group .del) (s.joined.erase group)
  := by
  constructor
  · apply h.tracks.leave h.few hmem
  · apply (length_erase_le).trans_lt h.few
  · apply NibMcast.overflow_leave h.room

theorem Programmed.hook (h : s.Programmed) (group : UInt32) (action : NetifMacFilterAction)
    (joined : List UInt32) :
  ({ s with nib := s.nib.netifbaseIgmpMacFilter group action, joined := joined }).Programmed
  := by
  constructor
  · apply h.driver
  · intro hclean
    obtain ⟨hwas, hsame⟩ := NibMcast.content_of_clean hclean
    apply (congrArg Prod.fst hsame).trans (h.clean hwas)

/-! ### Orderly runs -/

theorem Inv.hook
    (h : s.Inv) (hstarted : s.started = true) {action : NetifMacFilterAction}
    {joined : List UInt32}
    (hlisted : Listed (s.nib.netifbaseIgmpMacFilter group action) joined) :
  ({ s with nib := s.nib.netifbaseIgmpMacFilter group action, joined := joined }).Inv
  := by
  constructor
  · intro hstopped
    apply h.idle hstopped
  · intro _
    apply hlisted
  · intro _ hsupported
    apply (h.programmed hstarted hsupported).hook

theorem Inv.sbSanaUp (h : s.Inv) (hstopped : s.started = false) (hshadow : s.shadow = []) :
  s.sbSanaUp.Inv
  := by
  have hsync : s.sync = none := h.idle hstopped
  have hlisted : Listed .netifbaseInit [] := ⟨McastTracks.init, Nat.zero_lt_succ _, rfl⟩
  have hinv : Inv { s with nib := .netifbaseInit, joined := [], started := true, driver := ∅ } := by
    constructor
    · nofun
    · intro _
      apply hlisted
    · intro _ _
      constructor
      · simp only [todo, target, hsync, hshadow, foldl_nil, toFinset_nil]
      · intro _
        simp only [target, hsync, hshadow]
        rfl
  have hroom : NibMcast.netifbaseInit.entries.length < NIB_MCAST_MAX := by decide
  have hfew : ([] : List UInt32).length + 1 < 65536 := by decide
  apply hinv.hook rfl ((hinv.listed rfl).join ⟨.inr hroom, hfew⟩)

theorem sync_foldl_leave (s : SanaMcast) (groups : List UInt32) :
  (groups.foldl SanaMcast.leave s).sync = s.sync
  := by
  induction groups generalizing s with
  | nil => rfl
  | cons group groups ih =>
    rw [foldl_cons, ih]
    rfl

theorem Inv.sbIfDown (hsync : s.sync = none) :
  s.sbIfDown.Inv
  := by
  constructor
  · intro _
    apply (sync_foldl_leave s s.joined).trans hsync
  · nofun
  · nofun

theorem Inv.sbSanaMcastSync (h : s.Inv) (hsync : s.sync = none) :
  s.sbSanaMcastSync.Inv
  := by
  unfold SanaMcast.sbSanaMcastSync
  split
  · apply h
  · rename_i hpush
    simp only [Bool.or_eq_true, not_or, decide_eq_true_eq, Bool.not_eq_true,
      Bool.not_eq_false] at hpush
    obtain ⟨⟨hstarted, hsupported⟩, -⟩ := hpush
    constructor
    · intro hstopped
      rw [hstarted] at hstopped
      contradiction
    · intro _
      have hlisted := h.listed hstarted
      exact ⟨hlisted.tracks, hlisted.few, hlisted.room⟩
    · intro _ _
      have hdriver := (h.programmed hstarted hsupported).driver
      simp only [todo, target, hsync, foldl_nil] at hdriver
      constructor
      · simp only [todo, target, hdriver, NibMcast.netifbaseMcastSnapshot]
        apply S2McastCmd.foldl_deltas
      · intro _
        rfl

theorem Inv.answer
    (h : s.Inv) {macs : List (List UInt8)} {cmd : S2McastCmd} {todo : List S2McastCmd}
    (hsync : s.sync = some ⟨macs, cmd :: todo⟩) {r : S2McastReply} (hr : r ≠ .error) :
  (s.answer macs cmd todo r).Inv
  := by
  have hstarted : s.started = true := by
    by_contra hstopped
    rw [h.idle (Bool.eq_false_of_not_eq_true hstopped)] at hsync
    contradiction
  have hlisted := h.listed hstarted
  cases r with
  | ok =>
    constructor
    · intro hstopped
      rw [SanaMcast.answer, hstarted] at hstopped
      contradiction
    · intro _
      apply hlisted
    · intro _ hsupported
      obtain ⟨hdriver, hclean⟩ := h.programmed hstarted hsupported
      simp only [SanaMcast.todo, target, hsync] at hdriver hclean
      apply Programmed.mk hdriver hclean
  | nocmd =>
    constructor
    · intro _
      rfl
    · intro _
      apply hlisted
    · nofun
  | error => contradiction

theorem Inv.synced (h : s.Inv) {macs : List (List UInt8)} (hsync : s.sync = some ⟨macs, []⟩) :
  ({ s with shadow := macs, sync := none }).Inv
  := by
  constructor
  · intro _
    rfl
  · apply h.listed
  · intro hstarted hsupported
    obtain ⟨hdriver, hclean⟩ := h.programmed hstarted hsupported
    simp only [todo, target, hsync] at hdriver hclean
    apply Programmed.mk hdriver hclean

theorem Inv.step (h : s.Inv) (hgood : s.orderly l) (hnext : s.next l = some s') :
  s'.Inv
  := by
  cases l with
  | join group =>
    obtain ⟨hstarted, ⟨⟩⟩ := ite_none_right_eq_some.mp hnext
    apply h.hook hstarted ((h.listed hstarted).join hgood)
  | leave group =>
    obtain ⟨⟨hstarted, hmem⟩, ⟨⟩⟩ := ite_none_right_eq_some.mp hnext
    apply h.hook hstarted ((h.listed hstarted).leave hmem)
  | add =>
    obtain ⟨hstopped, ⟨⟩⟩ := ite_none_left_eq_some.mp hnext
    apply h.sbSanaUp (Bool.eq_false_of_not_eq_true hstopped) hgood
  | remove =>
    obtain ⟨⟨-, hsync⟩, ⟨⟩⟩ := ite_none_right_eq_some.mp hnext
    apply Inv.sbIfDown hsync
  | restart =>
    obtain ⟨hstopped, ⟨⟩⟩ := ite_none_left_eq_some.mp hnext
    constructor
    · apply h.idle
    · intro hstarted
      contradiction
    · intro hstarted
      contradiction
  | sync =>
    obtain ⟨hsync, ⟨⟩⟩ := ite_none_right_eq_some.mp hnext
    apply h.sbSanaMcastSync hsync
  | reply r =>
    simp only [next] at hnext
    split at hnext
    · rename_i macs cmd todo hsync
      cases hnext
      apply h.answer hsync hgood
    · contradiction
  | synced =>
    simp only [next] at hnext
    split at hnext
    · rename_i macs hsync
      cases hnext
      apply h.synced hsync
    · contradiction

theorem inv_of_reach (h : system.Reach orderly s) :
  s.Inv
  := by
  apply h.invariant
  · rintro s rfl
    constructor
    · intro _
      rfl
    · intro hstarted
      cases hstarted
    · intro hstarted
      cases hstarted
  · intro s l s' hs hgood hnext
    apply hs.step hgood hnext

/-- Along every orderly run the driver follows the joined groups. -/
theorem driver_follows (h : system.Reach orderly s) :
  s.Follows
  := by
  intro hsync hstarted hsupported hclean _
  have hs := inv_of_reach h
  obtain ⟨hdriver, hmacs⟩ := hs.programmed hstarted hsupported
  simp only [todo, target, hsync, foldl_nil] at hdriver hmacs
  rw [hdriver, ← hmacs hclean]
  apply (hs.listed hstarted).macs_toFinset

/-! ### Runs on fixed inputs -/

def pushRun (n : ℕ) : List Label :=
  .sync :: List.replicate n (.reply .ok) ++ [.synced]

def orderlyRun : List Label :=
  [.add, .sync, .join 0xe00000fb, .reply .ok, .synced] ++ pushRun 1 ++
    [.leave 0xe00000fb] ++ pushRun 1 ++ [.remove, .restart, .add] ++ pushRun 1

theorem orderlyRun_enabled :
  (system.exec start orderlyRun).isSome = true
  := by
  decide

def orderlyEnd : SanaMcast :=
  system.last start orderlyRun orderlyRun_enabled

theorem driver_follows_orderly :
  orderlyEnd.sync = none ∧ orderlyEnd.started = true ∧ orderlyEnd.mcastUnsupported = false ∧
    orderlyEnd.nib.rxFilterDirty = false ∧ orderlyEnd.driver = orderlyEnd.joinedMacs
  := by
  have hreach : system.Reach orderly orderlyEnd :=
    reach_last rfl (by decide)
  refine ⟨by decide, by decide, by decide, by decide, ?_⟩
  apply driver_follows hreach
  all_goals decide

def readdedRun : List Label :=
  [.add] ++ pushRun 1 ++ [.remove, .add] ++ pushRun 0

def failedRun : List Label :=
  [.add, .sync, .reply .error, .synced]

def overflowedRun : List Label :=
  [.add] ++ ((List.range 32).map fun i => .join (0xe0000100 + i.toUInt32)) ++
    [.leave 0xe0000100] ++ pushRun 31

def EndsApart (ls : List Label) : Prop :=
  ∃ s, system.exec start ls = some s ∧ system.Reachable s ∧ ¬ s.Follows

theorem endsApart_of {ls : List Label} (h : (system.exec start ls).isSome = true)
    (hapart : ¬ (system.last start ls h).Follows) :
  EndsApart ls
  := by
  use system.last start ls h
  refine ⟨?_, reachable_last rfl, hapart⟩
  apply (some_get h).symm

/-- The shadow of the closed device hides the MAC from the new one, and a failed command is not
repeated. -/
theorem driver_misses_macs :
  EndsApart readdedRun ∧ EndsApart failedRun ∧ EndsApart overflowedRun
  := by
  refine ⟨endsApart_of (by decide) ?_, endsApart_of (by decide) ?_,
    endsApart_of (by decide +kernel) ?_⟩
  all_goals decide +kernel

end SanaMcast
