import LwipAmiga.Descriptor.Step
import LwipAmiga.Lib.Cycle

/-!
# Handing sockets over

`ReleaseSocket` and `ReleaseCopyOfSocket` park a socket under an id, and `ObtainSocket` takes it.
-/

open List Option Function

def MAX_SOCK_ID : ℕ := 2 ^ 31 - 1

theorem nextId_eq_succ :
  nextId = Cycle.succ MAX_SOCK_ID
  := by
  funext id
  have hmax : (MAX_SOCK_ID : ℤ) = 2 ^ 31 - 1 := by decide
  simp only [nextId, Cycle.succ, hmax]
  congr 1
  apply propext
  omega

theorem set_none_of_sbFdAlloc
    {κ : Type} {k : κ} {tab tab' : List (Option κ)} {i : ℕ} (h : sbFdAlloc k tab = some (i, tab')) :
  tab'.set i none = tab
  := by
  induction tab generalizing i tab' with
  | nil => contradiction
  | cons x tab ih =>
    cases x with
    | none =>
      simp only [sbFdAlloc, some.injEq, Prod.mk.injEq] at h
      obtain ⟨rfl, rfl⟩ := h
      rfl
    | some x =>
      simp only [sbFdAlloc, map_eq_some_iff, Prod.exists, Prod.mk.injEq] at h
      obtain ⟨i', tab'', h, rfl, rfl⟩ := h
      rw [set_cons_succ, ih h]

namespace World

variable {β κ : Type}

def parkedIds (w : World β κ) : List ℤ :=
  w.parked.map SbReleased.id

section Draw

variable {w : World β κ} {id : ℤ}

theorem sbReleasedFind_eq_none :
  w.sbReleasedFind id = none ↔ id ∉ w.parkedIds
  := by
  simp [sbReleasedFind, parkedIds, find?_eq_none]

theorem mem_of_sbReleasedFind {r : SbReleased κ} (h : w.sbReleasedFind id = some r) :
  r ∈ w.parked ∧ r.id = id
  := by
  constructor
  · apply mem_of_find?_eq_some h
  · simpa using find?_some h

/-! ### Unique ids -/

theorem uniqueId_spec
    {fuel : ℕ} {id' next : ℤ} (hid : 1 ≤ id ∧ id ≤ MAX_SOCK_ID)
    (h : w.uniqueId fuel id = some (id', next)) :
  (1 ≤ id' ∧ id' ≤ MAX_SOCK_ID) ∧ id' ∉ w.parkedIds ∧ next = nextId id'
  := by
  induction fuel generalizing id with
  | zero => contradiction
  | succ fuel ih =>
    rw [uniqueId] at h
    split at h
    · apply ih _ h
      rw [nextId_eq_succ]
      apply Cycle.succ_mem (by decide) hid
    · rename_i hfind
      rw [not_isSome_iff_eq_none, sbReleasedFind_eq_none] at hfind
      obtain ⟨rfl, rfl⟩ : id = id' ∧ nextId id = next := by simpa using h
      exact ⟨hid, hfind, rfl⟩

theorem uniqueId_isSome
    {fuel i : ℕ} (hi : i < fuel) (h : nextId^[i] id ∉ w.parkedIds) :
  (w.uniqueId fuel id).isSome = true
  := by
  induction fuel generalizing id i with
  | zero => contradiction
  | succ fuel ih =>
    rw [uniqueId]
    split
    · rename_i hfind
      cases i with
      | zero =>
        rw [iterate_zero_apply, ← sbReleasedFind_eq_none] at h
        simp [h] at hfind
      | succ i =>
        apply ih (i := i) (by omega)
        rwa [iterate_succ_apply] at h
    · rfl

theorem exists_uniqueId
    (hid : 1 ≤ id ∧ id ≤ MAX_SOCK_ID) (hlen : w.parked.length < MAX_SOCK_ID) :
  ∃ id' next, w.uniqueId (w.parked.length + 1) id = some (id', next)
  := by
  obtain ⟨i, hi, hfree⟩ := Cycle.exists_notMem hid w.parkedIds (m := w.parked.length + 1)
    (by simp [parkedIds]) (by omega)
  rw [← nextId_eq_succ] at hfree
  obtain ⟨⟨id', next⟩, h⟩ := isSome_iff_exists.mp (uniqueId_isSome hi hfree)
  exact ⟨id', next, h⟩

end Draw

/-! ### What the calls do -/

structure Undisturbed (w w' : World β κ) : Prop where
  parked : w'.parked = w.parked
  fds : w'.fds = w.fds
  socks : w'.socks = w.socks
  opener : w'.opener = w.opener

structure LotOk (w : World β κ) : Prop where
  nodup : w.parkedIds.Nodup
  next_mem : 1 ≤ w.nextSockId ∧ w.nextSockId ≤ MAX_SOCK_ID

theorem LotOk.of_eq
    {w w' : World β κ} (h : w.LotOk) (hparked : w'.parked = w.parked) (hnext : w'.nextSockId = w.nextSockId) :
  w'.LotOk
  := by
  constructor
  · rw [parkedIds, hparked]
    apply h.nodup
  · rw [hnext]
    apply h.next_mem

variable [DecidableEq β] [DecidableEq κ]

inductive Released (w : World β κ) (id : ℤ) (mem : Bool) : World β κ → Except Errno ℤ → Prop where
  | failed {w' : World β κ} {e : Errno} (hsame : w.Undisturbed w')
      (hnext : 1 ≤ w'.nextSockId ∧ w'.nextSockId ≤ MAX_SOCK_ID) (hmem : id = -1 → mem = false) :
      Released w id mem w' (.error e)
  | parked {w' : World β κ} {id' : ℤ} {k : κ}
      (hlot : w'.parked = w.parked ++ [SbReleased.mk id' k])
      (hnext : 1 ≤ w'.nextSockId ∧ w'.nextSockId ≤ MAX_SOCK_ID)
      (hfree : id' ∉ w.parkedIds) (hid : id = -1 → 1 ≤ id') :
      Released w id mem w' (.ok id')

variable {w w' : World β κ} {b : β} {fd id : ℤ} {copy mem : Bool} {k : κ} {s : SbSocket β κ}

theorem parked_park :
  (w.park b fd k s id copy).parked = w.parked ++ [SbReleased.mk id k]
  := by
  unfold park
  split <;> rfl

theorem nextSockId_park :
  (w.park b fd k s id copy).nextSockId = w.nextSockId
  := by
  unfold park
  split <;> rfl

theorem released_of_sbReleaseCommon
    {r : Except Errno ℤ} (hlot : w.LotOk) (hfd : sbFdGet (w.fds b) fd = some k)
    (h : w.sbReleaseCommon b fd id copy mem = some (w', r)) :
  w.Released id mem w' r
  := by
  have hsame : w.Undisturbed w := ⟨rfl, rfl, rfl, rfl⟩
  simp only [sbReleaseCommon, hfd] at h
  obtain ⟨s, -, h⟩ := bind_eq_some_iff.mp h
  split at h
  · rename_i hid
    obtain ⟨⟨id', next⟩, hdraw, h⟩ := map_eq_some_iff.mp h
    obtain ⟨hid', hfree, rfl⟩ := uniqueId_spec hlot.next_mem hdraw
    have hnext : 1 ≤ nextId id' ∧ nextId id' ≤ MAX_SOCK_ID := by
      rw [nextId_eq_succ]
      apply Cycle.succ_mem (by decide) hid'
    cases mem with
    | true =>
      cases h
      refine .parked parked_park ?_ hfree fun _ => hid'.1
      rwa [nextSockId_park]
    | false =>
      cases h
      exact .failed ⟨rfl, rfl, rfl, rfl⟩ hnext fun _ => rfl
  · rename_i hid
    split at h
    · cases h
      apply Released.failed hsame hlot.next_mem fun h => absurd h hid
    · rename_i hfind
      rw [not_isSome_iff_eq_none, sbReleasedFind_eq_none] at hfind
      split at h
      · cases h
        refine .parked parked_park ?_ hfind fun h => absurd h hid
        rw [nextSockId_park]
        apply hlot.next_mem
      · cases h
        apply Released.failed hsame hlot.next_mem fun h => absurd h hid

theorem undisturbed_of_sbReleaseCommon
    {e : Errno} (hlot : w.LotOk)
    (h : w.sbReleaseCommon b fd id copy mem = some (w', .error e)) :
  w.Undisturbed w'
  := by
  cases hfd : sbFdGet (w.fds b) fd with
  | none =>
    simp only [sbReleaseCommon, hfd, some.injEq, Prod.mk.injEq] at h
    obtain ⟨rfl, -⟩ := h
    exact ⟨rfl, rfl, rfl, rfl⟩
  | some k =>
    cases released_of_sbReleaseCommon hlot hfd h with
    | failed hsame => apply hsame

theorem exists_sbReleaseCommon
    (hlot : w.LotOk) (hlen : w.parked.length < MAX_SOCK_ID) (hfd : sbFdGet (w.fds b) fd = some k)
    (hk : w.socks k = some s) :
  ∃ w' r, w.sbReleaseCommon b fd (-1) copy mem = some (w', r) ∧
    (mem = true → ∃ id, r = .ok id ∧ 0 < id ∧ id ∉ w.parkedIds)
  := by
  obtain ⟨id', next, hdraw⟩ := exists_uniqueId hlot.next_mem hlen
  obtain ⟨⟨w', r⟩, h⟩ : ∃ x, w.sbReleaseCommon b fd (-1) copy mem = some x := by
    simp [sbReleaseCommon, hfd, hk, hdraw]
  use w', r, h
  intro hmem
  cases released_of_sbReleaseCommon hlot hfd h with
  | failed _ _ hfalse =>
    rw [hfalse rfl] at hmem
    contradiction
  | parked _ _ hfree hid => exact ⟨_, rfl, hid rfl, hfree⟩

/-! ### Obtaining a socket -/

/-- `bsd_ObtainSocket` write by write: the descriptor is given before the owner table is asked for
room, and taken back when there is none. -/
def obtainInPlace (w : World β κ) (b : β) (id type : ℤ) :
    Option (World β κ × Except Errno ℤ) :=
  match w.sbReleasedFind id with
  | none => some (w, .error .einval)
  | some r =>
      (w.socks r.s).map fun s =>
        if type ≠ 0 ∧ s.type.sockValue ≠ type then (w, .error .einval)
        else
          match sbFdAlloc r.s (w.fds b) with
          | none => (w, .error .emfile)
          | some (fd, tab) =>
              let w := w.setFds b tab
              match s.owners.incref b with
              | none => (w.setFds b (tab.set fd none), .error .enobufs)
              | some owners =>
                  let w := w.setSock r.s { s with owners := owners }
                  ({ w with parked := w.parked.eraseP (·.id == id) }, .ok fd)

theorem obtainInPlace_eq (w : World β κ) (b : β) (id type : ℤ) :
  w.obtainInPlace b id type = w.bsdObtainSocket b id type
  := by
  unfold obtainInPlace bsdObtainSocket
  cases w.sbReleasedFind id with
  | none => rfl
  | some r =>
    simp only
    congr 1
    funext s
    split
    · rfl
    · cases halloc : sbFdAlloc r.s (w.fds b) with
      | none => rfl
      | some x =>
        obtain ⟨fd, tab⟩ := x
        cases s.owners.incref b with
        | none =>
          simp only [setFds, update_idem, set_none_of_sbFdAlloc halloc,
            update_eq_self]
        | some owners => rfl

theorem bsdObtainSocket_cases
    {type : ℤ} {r : Except Errno ℤ} (h : w.bsdObtainSocket b id type = some (w', r)) :
  (∃ e, r = .error e ∧ w' = w) ∨
    (∃ fd, r = .ok fd) ∧ (∃ e ∈ w.parked, e.id = id) ∧
      w'.parked = w.parked.eraseP (·.id == id) ∧ w'.nextSockId = w.nextSockId
  := by
  unfold bsdObtainSocket at h
  split at h
  · cases h
    exact .inl ⟨_, rfl, rfl⟩
  · rename_i e hfind
    obtain ⟨s, -, h⟩ := map_eq_some_iff.mp h
    split at h
    · cases h
      exact .inl ⟨_, rfl, rfl⟩
    · split at h
      · cases h
        exact .inl ⟨_, rfl, rfl⟩
      · split at h
        · cases h
          exact .inl ⟨_, rfl, rfl⟩
        · cases h
          exact .inr ⟨⟨_, rfl⟩, ⟨e, mem_of_sbReleasedFind hfind⟩, rfl, rfl⟩

/-! ### The parking lot over runs -/

theorem lot_of_next
    {l : Label β κ} (h : w.next l = some w') (hrelease : ∀ b fd id copy mem,
      l ≠ .release b fd id copy mem) (hobtain : ∀ b id type, l ≠ .obtain b id type) :
  w'.parked = w.parked ∧ w'.nextSockId = w.nextSockId
  := by
  cases step_of_next h with
  | drawn | copied | parked => exact (hrelease _ _ _ _ _ rfl).elim
  | obtained => exact (hobtain _ _ _ rfl).elim
  | _ => exact ⟨rfl, rfl⟩

theorem LotOk.release
    {r : Except Errno ℤ} (hlot : w.LotOk)
    (h : w.sbReleaseCommon b fd id copy mem = some (w', r)) :
  w'.LotOk
  := by
  cases hfd : sbFdGet (w.fds b) fd with
  | none =>
    simp only [sbReleaseCommon, hfd, some.injEq, Prod.mk.injEq] at h
    obtain ⟨rfl, -⟩ := h
    apply hlot
  | some k =>
    cases released_of_sbReleaseCommon hlot hfd h with
    | failed hsame hnext =>
      constructor
      · rw [parkedIds, hsame.parked]
        apply hlot.nodup
      · apply hnext
    | parked hpark hnext hfree =>
      constructor
      · rw [parkedIds, hpark, map_append, nodup_append_comm]
        apply nodup_cons.mpr ⟨hfree, hlot.nodup⟩
      · apply hnext

theorem LotOk.obtain
    {type : ℤ} {r : Except Errno ℤ} (hlot : w.LotOk)
    (h : w.bsdObtainSocket b id type = some (w', r)) :
  w'.LotOk
  := by
  obtain ⟨-, -, rfl⟩ | ⟨-, -, hparked, hnext⟩ := bsdObtainSocket_cases h
  · apply hlot
  · constructor
    · rw [parkedIds, hparked]
      apply hlot.nodup.sublist (eraseP_sublist.map _)
    · rw [hnext]
      apply hlot.next_mem

end World

/-! ### Stamped entries -/

structure Handoff (β κ : Type) where
  world : World β κ
  stamps : List ℕ
  fresh : ℕ
  claimed : List ℕ

namespace Handoff

variable {β κ : Type} {h h' : Handoff β κ}

structure Inv (h : Handoff β κ) : Prop where
  lot : h.world.LotOk
  length : h.stamps.length = h.world.parked.length
  nodup : (h.claimed ++ h.stamps).Nodup
  lt_fresh : ∀ n ∈ h.claimed ++ h.stamps, n < h.fresh

theorem Inv.setWorld
    {w : World β κ} (hinv : h.Inv) (hlot : w.LotOk)
    (hlen : w.parked.length = h.world.parked.length) :
  Inv { h with world := w }
  := by
  constructor
  · apply hlot
  · rw [hlen]
    apply hinv.length
  · apply hinv.nodup
  · apply hinv.lt_fresh

variable [DecidableEq β] [DecidableEq κ]

def release (h : Handoff β κ) : World β κ × Except Errno ℤ → Handoff β κ
  | (w, .ok _) => { h with world := w, stamps := h.stamps ++ [h.fresh], fresh := h.fresh + 1 }
  | (w, .error _) => { h with world := w }

def obtain (h : Handoff β κ) (id : ℤ) : World β κ × Except Errno ℤ → Handoff β κ
  | (w, .ok _) =>
      let i := h.world.parked.findIdx (·.id == id)
      { h with
        world := w
        stamps := h.stamps.eraseIdx i
        claimed := h.claimed ++ h.stamps[i]?.toList }
  | (w, .error _) => { h with world := w }

def next (h : Handoff β κ) : World.Label β κ → Option (Handoff β κ)
  | .release b fd id copy mem =>
      if h.world.opener b = .opened then
        (h.world.sbReleaseCommon b fd id copy mem).map h.release
      else none
  | .obtain b id type =>
      if h.world.opener b = .opened then (h.world.obtainInPlace b id type).map (h.obtain id)
      else none
  | l => (h.world.next l).map fun w => { h with world := w }

def system (β κ : Type) [DecidableEq β] [DecidableEq κ] :
    TransitionSystem (Handoff β κ) (World.Label β κ) where
  init h := h = ⟨World.start, [], 0, []⟩
  next := next

theorem Inv.release
    {b : β} {fd id : ℤ} {copy mem : Bool} {x : World β κ × Except Errno ℤ} (hinv : h.Inv)
    (hx : h.world.sbReleaseCommon b fd id copy mem = some x) :
  (h.release x).Inv
  := by
  obtain ⟨w, r⟩ := x
  have hlot := hinv.lot.release hx
  cases r with
  | error e =>
    apply hinv.setWorld hlot
    rw [(World.undisturbed_of_sbReleaseCommon hinv.lot hx).parked]
  | ok id' =>
    have hpark : ∃ e, w.parked = h.world.parked ++ [e] := by
      cases hfd : sbFdGet (h.world.fds b) fd with
      | none => simp [World.sbReleaseCommon, hfd] at hx
      | some k =>
        cases World.released_of_sbReleaseCommon hinv.lot hfd hx with
        | parked hpark => exact ⟨_, hpark⟩
    obtain ⟨e, hpark⟩ := hpark
    have hfresh : h.fresh ∉ h.claimed ++ h.stamps := fun hmem =>
      (hinv.lt_fresh _ hmem).false
    constructor
    · apply hlot
    · simp only [Handoff.release, length_append, length_singleton, hinv.length, hpark]
    · simp only [Handoff.release]
      rw [← append_assoc, nodup_append_comm]
      apply nodup_cons.mpr ⟨hfresh, hinv.nodup⟩
    · simp only [Handoff.release]
      intro n hn
      rw [← append_assoc, mem_append, mem_singleton] at hn
      obtain hn | rfl := hn
      · have := hinv.lt_fresh n hn
        omega
      · omega

theorem Inv.obtain
    {b : β} {id type : ℤ} {x : World β κ × Except Errno ℤ} (hinv : h.Inv)
    (hx : h.world.bsdObtainSocket b id type = some x) :
  (h.obtain id x).Inv
  := by
  obtain ⟨w, r⟩ := x
  have hlot := hinv.lot.obtain hx
  obtain ⟨e, rfl, rfl⟩ | ⟨⟨fd, rfl⟩, hmem, hparked, -⟩ := World.bsdObtainSocket_cases hx
  · apply hinv
  · have hi : h.world.parked.findIdx (·.id == id) < h.stamps.length := by
      rw [hinv.length]
      apply findIdx_lt_length_of_exists
      simpa using hmem
    have hperm : (h.stamps[h.world.parked.findIdx (·.id == id)]?.toList ++
        h.stamps.eraseIdx (h.world.parked.findIdx (·.id == id))).Perm h.stamps := by
      rw [getElem?_eq_getElem hi]
      apply getElem_cons_eraseIdx_perm hi
    constructor
    · apply hlot
    · simp only [Handoff.obtain, hparked, eraseP_eq_eraseIdx]
      rw [findIdx?_eq_some_of_exists (by simpa using hmem)]
      simp only [length_eraseIdx, hinv.length]
    · simp only [Handoff.obtain]
      rw [append_assoc, (hperm.append_left h.claimed).nodup_iff]
      apply hinv.nodup
    · simp only [Handoff.obtain]
      intro n hn
      rw [append_assoc, (hperm.append_left h.claimed).mem_iff] at hn
      apply hinv.lt_fresh n hn

theorem Inv.step
    {l : World.Label β κ} (hinv : h.Inv) (hs : h.next l = some h') :
  h'.Inv
  := by
  have hother
      (hrelease : ∀ b fd id copy mem, l ≠ .release b fd id copy mem)
      (hobtain : ∀ b id type, l ≠ .obtain b id type)
      (hs : (h.world.next l).map (fun w => { h with world := w }) = some h') : h'.Inv := by
    obtain ⟨w, hw, rfl⟩ := map_eq_some_iff.mp hs
    obtain ⟨hparked, hnext⟩ := World.lot_of_next hw hrelease hobtain
    apply hinv.setWorld (hinv.lot.of_eq hparked hnext)
    rw [hparked]
  cases l with
  | release b fd id copy mem =>
    simp only [next, ite_none_right_eq_some, map_eq_some_iff] at hs
    obtain ⟨-, x, hx, rfl⟩ := hs
    apply hinv.release hx
  | obtain b id type =>
    simp only [next, ite_none_right_eq_some, map_eq_some_iff,
      World.obtainInPlace_eq] at hs
    obtain ⟨-, x, hx, rfl⟩ := hs
    apply hinv.obtain hx
  | _ => apply hother (by simp) (by simp) hs

theorem inv_of_reachable (r : (system β κ).Reachable h) :
  h.Inv
  := by
  apply r.invariant
  · rintro h rfl
    constructor
    · constructor
      · apply nodup_nil
      · change (1 : ℤ) ≤ 1 ∧ (1 : ℤ) ≤ MAX_SOCK_ID
        decide
    · rfl
    · apply nodup_nil
    · intro n hn
      contradiction
  · intro h l h' hinv _ hs
    apply hinv.step hs

def passedRun : List (World.Label Bool Unit) :=
  [.libOpen true, .libOpen false, .socket true 2 1 0 (some ()) true, .release true 0 1 true true,
    .release true 0 (-1) true true, .obtain false 1 0]

theorem passedRun_enabled :
  ((system Bool Unit).exec ⟨World.start, [], 0, []⟩ passedRun).isSome = true
  := by decide

def passedEnd : Handoff Bool Unit :=
  (system Bool Unit).last ⟨World.start, [], 0, []⟩ passedRun passedRun_enabled

end Handoff
