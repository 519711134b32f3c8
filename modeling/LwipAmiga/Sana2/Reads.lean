import Mathlib.Data.List.Perm.Basic
import Mathlib.Data.List.Sort

/-!
# The read requests of a SANA-II interface

A read is in the driver, on the port, taken off it and not processed, parked, or home for good.
-/

open List Function

inductive RxError where
  | none
  | outOfService
  | other
deriving DecidableEq

structure RxReply where
  serial : ℕ
  error : RxError
  dataLength : ℕ
deriving DecidableEq

inductive RxState where
  | flight
  | home
  | parked
deriving DecidableEq

structure Sana2Reads (β : Type) where
  num : ℕ
  cap : ℕ
  buf : ℕ → Option β
  state : ℕ → RxState
  flight : ℕ
  driver : List ℕ
  port : List (ℕ × RxReply)
  rxDone : List (ℕ × RxReply)
  repost : List ℕ
  unparked : List ℕ
  parked : List ℕ
  home : List ℕ
  deliver : List (ℕ × β)
  lent : List β
  delivered : List ℕ
  serial : ℕ

namespace Sana2Reads

variable {β : Type}

/-! ### What the driver and the pump do -/

def reply (R : Sana2Reads β) (r : ℕ) (error : RxError) (dataLength : ℕ) : Sana2Reads β :=
  { R with
    driver := R.driver.erase r
    port := R.port ++ [(r, ⟨R.serial, error, dataLength⟩)]
    serial := R.serial + 1 }

def harvest (R : Sana2Reads β) : Option (Sana2Reads β) :=
  match R.port with
  | [] => none
  | m :: rest => some { R with port := rest, rxDone := R.rxDone ++ [m] }

def unparkAll (R : Sana2Reads β) : Sana2Reads β :=
  { R with unparked := R.parked, parked := [] }

def unparkOne (R : Sana2Reads β) (r : ℕ) (rest : List ℕ) : Sana2Reads β :=
  { R with
    unparked := rest
    state := Function.update R.state r .flight
    driver := R.driver ++ [r]
    flight := R.flight + 1 }

def detach (R : Sana2Reads β) (r serial : ℕ) (alloc : Option β) : Sana2Reads β :=
  match alloc, R.buf r with
  | some b, some frame =>
      { R with
        deliver := R.deliver ++ [(serial, frame)]
        buf := Function.update R.buf r (some b) }
  | _, _ => R

def requeue (R : Sana2Reads β) (r : ℕ) : Sana2Reads β :=
  { R with
    state := Function.update R.state r .flight
    repost := R.repost ++ [r]
    flight := R.flight + 1 }

def process (R : Sana2Reads β) (draining : Bool) (r : ℕ) (reply : RxReply)
    (rest : List (ℕ × RxReply)) (alloc : Option β) : Sana2Reads β :=
  let R := { R with rxDone := rest, flight := R.flight - 1 }
  if draining then
    { R with state := Function.update R.state r .home, home := r :: R.home }
  else if reply.error = .outOfService then
    { R with state := Function.update R.state r .parked, parked := r :: R.parked }
  else if reply.error = .none ∧ reply.dataLength ≤ R.cap then
    (R.detach r reply.serial alloc).requeue r
  else R.requeue r

def repostOne (R : Sana2Reads β) (r : ℕ) (rest : List ℕ) : Sana2Reads β :=
  { R with repost := rest, driver := R.driver ++ [r] }

def pass (R : Sana2Reads β) (serial : ℕ) (b : β) (rest : List (ℕ × β)) : Sana2Reads β :=
  { R with deliver := rest, lent := b :: R.lent, delivered := R.delivered ++ [serial] }

def drop (R : Sana2Reads β) (rest : List (ℕ × β)) : Sana2Reads β :=
  { R with deliver := rest }

def freeRx [DecidableEq β] (R : Sana2Reads β) (b : β) : Sana2Reads β :=
  { R with lent := R.lent.erase b }

theorem lists_detach (R : Sana2Reads β) (r serial : ℕ) (alloc : Option β) :
  (R.detach r serial alloc).unparked = R.unparked ∧ (R.detach r serial alloc).parked = R.parked ∧
    (R.detach r serial alloc).home = R.home
  := by
  unfold detach
  split <;> exact ⟨rfl, rfl, rfl⟩

theorem unparked_process (R : Sana2Reads β) (draining : Bool) (r : ℕ) (reply : RxReply)
    (rest : List (ℕ × RxReply)) (alloc : Option β) :
  (R.process draining r reply rest alloc).unparked = R.unparked
  := by
  simp only [process]
  split_ifs
  · rfl
  · rfl
  · apply (lists_detach _ _ _ _).1
  · rfl

/-! ### Places -/

structure Places (n : ℕ) (flying idle home : List ℕ) (flight : ℕ) (state : ℕ → RxState) : Prop where
  pool : (flying ++ (idle ++ home)).Perm (List.range n)
  flight : flight = flying.length
  state_flying : ∀ r ∈ flying, state r = .flight
  state_idle : ∀ r ∈ idle, state r = .parked
  state_home : ∀ r ∈ home, state r = .home

section Places

variable {n r flight : ℕ} {flying flying' idle idle' home : List ℕ} {state : ℕ → RxState}

theorem Places.nodup
    (h : Places n flying idle home flight state) :
  (flying ++ (idle ++ home)).Nodup
  := h.pool.nodup_iff.mpr nodup_range

theorem Places.notMem
    (h : Places n (r :: flying) idle home flight state) :
  r ∉ flying ∧ r ∉ idle ∧ r ∉ home
  := by
  have hnodup : (r :: (flying ++ (idle ++ home))).Nodup := h.nodup
  have hr := (nodup_cons.mp hnodup).1
  simpa only [mem_append, not_or] using hr

theorem Places.perm
    (h : Places n flying idle home flight state) (hf : flying.Perm flying') (hi : idle.Perm idle') :
  Places n flying' idle' home flight state
  := by
  refine ⟨?_, ?_, ?_, ?_, h.state_home⟩
  · apply ((hf.append (hi.append_right home)).symm).trans h.pool
  · rw [h.flight, hf.length_eq]
  · intro r hr
    apply h.state_flying r (hf.mem_iff.mpr hr)
  · intro r hr
    apply h.state_idle r (hi.mem_iff.mpr hr)

theorem state_update
    {l : List ℕ} {v w : RxState} (h : ∀ x ∈ l, state x = v) (hr : r ∉ l) :
  ∀ x ∈ l, update state r w x = v
  := by
  intro x hx
  have hne : x ≠ r := by
    rintro rfl
    exact hr hx
  rw [update_of_ne hne, h x hx]

theorem state_update_cons
    {l : List ℕ} {v : RxState} (h : ∀ x ∈ l, state x = v) :
  ∀ x ∈ r :: l, update state r v x = v
  := by
  intro x hx
  by_cases hxr : x = r
  · rw [hxr, update_self]
  · rw [update_of_ne hxr, h x ((mem_cons.mp hx).resolve_left hxr)]

theorem Places.park
    (h : Places n (r :: flying) idle home flight state) :
  Places n flying (r :: idle) home (flight - 1) (update state r .parked)
  := by
  obtain ⟨hflying, hidle, hhome⟩ := h.notMem
  refine ⟨perm_middle.trans h.pool, ?_, ?_, ?_, ?_⟩
  · rw [h.flight, length_cons, Nat.add_sub_cancel]
  · apply state_update (fun x hx => h.state_flying x (mem_cons_of_mem r hx)) hflying
  · apply state_update_cons h.state_idle
  · apply state_update h.state_home hhome

theorem Places.goHome
    (h : Places n (r :: flying) idle home flight state) :
  Places n flying idle (r :: home) (flight - 1) (update state r .home)
  := by
  obtain ⟨hflying, hidle, hhome⟩ := h.notMem
  refine ⟨?_, ?_, ?_, ?_, ?_⟩
  · apply (perm_middle.append_left flying).trans
    apply perm_middle.trans h.pool
  · rw [h.flight, length_cons, Nat.add_sub_cancel]
  · apply state_update (fun x hx => h.state_flying x (mem_cons_of_mem r hx)) hflying
  · apply state_update h.state_idle hidle
  · apply state_update_cons h.state_home

theorem Places.stay
    (h : Places n (r :: flying) idle home flight state) :
  Places n (r :: flying) idle home (flight - 1 + 1) (update state r .flight)
  := by
  have hsame : update state r .flight = state := by
    rw [← h.state_flying r mem_cons_self, update_eq_self]
  have hpos : flight - 1 + 1 = flight := by
    rw [h.flight, length_cons, Nat.add_sub_cancel]
  rw [hsame, hpos]
  apply h

theorem Places.launch
    (h : Places n flying (r :: idle) home flight state) :
  Places n (r :: flying) idle home (flight + 1) (update state r .flight)
  := by
  have hnodup : (r :: (flying ++ (idle ++ home))).Nodup := perm_middle.nodup_iff.mp h.nodup
  have hr := (nodup_cons.mp hnodup).1
  simp only [mem_append, not_or] at hr
  refine ⟨perm_middle.symm.trans h.pool, ?_, ?_, ?_, ?_⟩
  · rw [h.flight, length_cons]
  · apply state_update_cons h.state_flying
  · apply state_update (fun x hx => h.state_idle x (mem_cons_of_mem r hx)) hr.2.1
  · apply state_update h.state_home hr.2.2

end Places

/-! ### Buffers -/

structure Buffers (n : ℕ) (buf : ℕ → Option β) (out : List β) : Prop where
  isSome : ∀ r < n, (buf r).isSome = true
  inj : ∀ r < n, ∀ r' < n, buf r = buf r' → r = r'
  notMem : ∀ r < n, ∀ b ∈ buf r, b ∉ out
  nodup : out.Nodup

section Buffers

variable {n r : ℕ} {buf : ℕ → Option β} {out out' : List β} {b b' : β}

theorem Buffers.perm
    (h : Buffers n buf out) (hp : out.Perm out') :
  Buffers n buf out'
  := by
  refine ⟨h.isSome, h.inj, ?_, hp.nodup_iff.mp h.nodup⟩
  intro r hr b hb hmem
  exact h.notMem r hr b hb (hp.mem_iff.mpr hmem)

theorem Buffers.sublist
    (h : Buffers n buf out) (hs : out'.Sublist out) :
  Buffers n buf out'
  := by
  refine ⟨h.isSome, h.inj, ?_, h.nodup.sublist hs⟩
  intro r hr b hb hmem
  exact h.notMem r hr b hb (hs.subset hmem)

theorem Buffers.swap
    (h : Buffers n buf out) (hr : r < n) (hb : buf r = some b) (hfresh : ∀ x < n, buf x ≠ some b')
    (hout : b' ∉ out) :
  Buffers n (update buf r (some b')) (b :: out)
  := by
  have hne : b' ≠ b := by
    rintro rfl
    exact hfresh r hr hb
  refine ⟨?_, ?_, ?_, ?_⟩
  · intro x hx
    by_cases hxr : x = r
    · rw [hxr, update_self]
      rfl
    · rw [update_of_ne hxr]
      apply h.isSome x hx
  · intro x hx y hy hxy
    by_cases hxr : x = r
    · by_cases hyr : y = r
      · rw [hxr, hyr]
      · rw [hxr, update_self, update_of_ne hyr] at hxy
        exact absurd hxy.symm (hfresh y hy)
    · by_cases hyr : y = r
      · rw [hyr, update_self, update_of_ne hxr] at hxy
        exact absurd hxy (hfresh x hx)
      · rw [update_of_ne hxr, update_of_ne hyr] at hxy
        apply h.inj x hx y hy hxy
  · intro x hx c hc
    by_cases hxr : x = r
    · rw [hxr, update_self] at hc
      cases hc
      simp only [mem_cons, not_or]
      exact ⟨hne, hout⟩
    · rw [update_of_ne hxr] at hc
      simp only [mem_cons, not_or]
      refine ⟨?_, h.notMem x hx c hc⟩
      rintro rfl
      exact hxr (h.inj x hx r hr (hc.trans hb.symm))
  · apply nodup_cons.mpr ⟨h.notMem r hr b hb, h.nodup⟩

end Buffers

/-! ### The invariant -/

def flying (R : Sana2Reads β) : List ℕ :=
  R.driver ++ R.port.map Prod.fst ++ R.rxDone.map Prod.fst ++ R.repost

def out (R : Sana2Reads β) : List β :=
  R.deliver.map Prod.snd ++ R.lent

def log (R : Sana2Reads β) : List ℕ :=
  R.delivered ++ R.deliver.map Prod.fst ++ (R.rxDone ++ R.port).map fun m => m.2.serial

structure Inv (R : Sana2Reads β) : Prop where
  places : Places R.num R.flying (R.unparked ++ R.parked) R.home R.flight R.state
  buffers : Buffers R.num R.buf R.out
  order : R.log.Pairwise (· < ·)
  log_lt : ∀ x ∈ R.log, x < R.serial

variable {R : Sana2Reads β} {r : ℕ}

theorem Inv.reply
    (h : R.Inv) (hr : r ∈ R.driver) (error : RxError) (dataLength : ℕ) :
  (R.reply r error dataLength).Inv
  := by
  have hlog : (R.reply r error dataLength).log = R.log ++ [R.serial] := by
    simp only [log, Sana2Reads.reply, map_append, map_cons, map_nil, append_assoc]
  refine ⟨?_, h.buffers, ?_, ?_⟩
  · apply h.places.perm _ (.refl _)
    change R.flying.Perm (R.driver.erase r ++ (R.port ++ [(r, _)]).map Prod.fst ++
      R.rxDone.map Prod.fst ++ R.repost)
    apply List.Perm.append_right
    apply List.Perm.append_right
    rw [map_append, map_singleton, ← append_assoc]
    apply ((perm_cons_erase hr).append_right _).trans
    apply (perm_append_singleton r _).symm
  · rw [hlog, pairwise_append]
    refine ⟨h.order, pairwise_singleton _ _, ?_⟩
    intro x hx y hy
    rw [mem_singleton.mp hy]
    apply h.log_lt x hx
  · intro x hx
    change x < R.serial + 1
    rw [hlog, mem_append, mem_singleton] at hx
    obtain hx | rfl := hx
    · apply (h.log_lt x hx).trans (Nat.lt_succ_self _)
    · apply Nat.lt_succ_self

theorem Inv.harvest
    {R' : Sana2Reads β} (h : R.Inv) (hR : R.harvest = some R') :
  R'.Inv
  := by
  unfold Sana2Reads.harvest at hR
  split at hR
  next => contradiction
  next m rest hport =>
    cases hR
    have hlog : (R.rxDone ++ [m] ++ rest) = R.rxDone ++ R.port := by
      rw [hport, append_assoc, singleton_append]
    refine ⟨?_, h.buffers, ?_, ?_⟩
    · apply h.places.perm _ (.refl _)
      change R.flying.Perm (R.driver ++ rest.map Prod.fst ++ (R.rxDone ++ [m]).map Prod.fst ++ R.repost)
      rw [flying, hport, map_append, map_cons, map_singleton]
      apply List.Perm.append_right
      rw [append_assoc, append_assoc]
      apply List.Perm.append_left
      rw [cons_append, ← append_assoc]
      apply (perm_append_singleton _ _).symm
    · change (R.delivered ++ R.deliver.map Prod.fst ++
        (R.rxDone ++ [m] ++ rest).map fun m => m.2.serial).Pairwise (· < ·)
      rw [hlog]
      apply h.order
    · change ∀ x ∈ R.delivered ++ R.deliver.map Prod.fst ++
        (R.rxDone ++ [m] ++ rest).map fun m => m.2.serial, x < R.serial
      rw [hlog]
      apply h.log_lt

theorem Inv.unparkAll
    (h : R.Inv) (hempty : R.unparked = []) :
  R.unparkAll.Inv
  := by
  refine ⟨?_, h.buffers, h.order, h.log_lt⟩
  apply h.places.perm (.refl _)
  rw [hempty, nil_append]
  change R.parked.Perm (R.parked ++ [])
  rw [append_nil]

theorem Inv.unparkOne
    {rest : List ℕ} (h : R.Inv) (hcons : R.unparked = r :: rest) :
  (R.unparkOne r rest).Inv
  := by
  refine ⟨?_, h.buffers, h.order, h.log_lt⟩
  have hplaces := h.places
  rw [hcons, cons_append] at hplaces
  apply hplaces.launch.perm _ (.refl _)
  change (r :: R.flying).Perm (R.driver ++ [r] ++ R.port.map Prod.fst ++ R.rxDone.map Prod.fst ++ R.repost)
  rw [flying, append_assoc R.driver [r], singleton_append, ← cons_append,
    ← cons_append, ← cons_append]
  apply List.Perm.append_right
  apply List.Perm.append_right
  rw [cons_append]
  apply perm_middle.symm

theorem Inv.repostOne
    {rest : List ℕ} (h : R.Inv) (hcons : R.repost = r :: rest) :
  (R.repostOne r rest).Inv
  := by
  refine ⟨?_, h.buffers, h.order, h.log_lt⟩
  apply h.places.perm _ (.refl _)
  change R.flying.Perm (R.driver ++ [r] ++ R.port.map Prod.fst ++ R.rxDone.map Prod.fst ++ rest)
  rw [flying, hcons]
  apply perm_middle.trans
  rw [append_assoc R.driver [r], singleton_append, ← cons_append, ← cons_append]
  apply List.Perm.append_right
  apply List.Perm.append_right
  apply perm_middle.symm

theorem Inv.pass
    {serial : ℕ} {b : β} {rest : List (ℕ × β)} (h : R.Inv) (hcons : R.deliver = (serial, b) :: rest) :
  (R.pass serial b rest).Inv
  := by
  have hlog : (R.pass serial b rest).log = R.log := by
    simp only [log, Sana2Reads.pass, hcons, map_cons, append_assoc, nil_append,
      cons_append]
  refine ⟨h.places, ?_, ?_, ?_⟩
  · apply h.buffers.perm
    change R.out.Perm (rest.map Prod.snd ++ b :: R.lent)
    rw [out, hcons, map_cons, cons_append]
    apply perm_middle.symm
  · rw [hlog]
    apply h.order
  · rw [hlog]
    apply h.log_lt

theorem Inv.drop
    {serial : ℕ} {b : β} {rest : List (ℕ × β)} (h : R.Inv) (hcons : R.deliver = (serial, b) :: rest) :
  (R.drop rest).Inv
  := by
  have hlog : (R.drop rest).log.Sublist R.log := by
    rw [log, log, hcons]
    apply List.Sublist.append_right
    apply List.Sublist.append_left
    apply sublist_cons_self
  refine ⟨h.places, ?_, h.order.sublist hlog, ?_⟩
  · apply h.buffers.sublist
    rw [out, out, hcons]
    apply List.Sublist.append_right
    apply sublist_cons_self
  · intro x hx
    apply h.log_lt x (hlog.subset hx)

theorem Inv.freeRx
    [DecidableEq β] (h : R.Inv) (b : β) :
  (R.freeRx b).Inv
  := by
  refine ⟨h.places, ?_, h.order, h.log_lt⟩
  apply h.buffers.sublist
  apply List.Sublist.append_left
  apply erase_sublist

theorem flying_of_rxDone
    {reply : RxReply} {rest : List (ℕ × RxReply)} (hcons : R.rxDone = (r, reply) :: rest) :
  R.flying.Perm (r :: flying { R with rxDone := rest })
  := by
  change (R.driver ++ R.port.map Prod.fst ++ R.rxDone.map Prod.fst ++ R.repost).Perm
    (r :: (R.driver ++ R.port.map Prod.fst ++ rest.map Prod.fst ++ R.repost))
  rw [hcons, map_cons, ← cons_append]
  apply List.Perm.append_right
  apply perm_middle

theorem log_of_rxDone
    {reply : RxReply} {rest : List (ℕ × RxReply)} (hcons : R.rxDone = (r, reply) :: rest) :
  (log { R with rxDone := rest }).Sublist R.log
  := by
  change (R.delivered ++ R.deliver.map Prod.fst ++ (rest ++ R.port).map _).Sublist
    (R.delivered ++ R.deliver.map Prod.fst ++ (R.rxDone ++ R.port).map _)
  rw [hcons]
  apply List.Sublist.append_left
  apply List.Sublist.map
  apply sublist_cons_self

theorem Inv.skip
    {reply : RxReply} {rest : List (ℕ × RxReply)} (h : R.Inv) (hcons : R.rxDone = (r, reply) :: rest)
    {state : ℕ → RxState} {flight : ℕ} {repost parked home : List ℕ}
    (hplaces : Places R.num (R.driver ++ R.port.map Prod.fst ++ rest.map Prod.fst ++ repost)
      (R.unparked ++ parked) home flight state) :
  Inv { R with
    rxDone := rest
    state := state
    flight := flight
    repost := repost
    parked := parked
    home := home }
  := by
  have hlog := log_of_rxDone hcons
  refine ⟨hplaces, h.buffers, h.order.sublist hlog, ?_⟩
  intro x hx
  apply h.log_lt x (hlog.subset hx)

theorem Inv.detach
    {reply : RxReply} {rest : List (ℕ × RxReply)} {b frame : β} (h : R.Inv)
    (hcons : R.rxDone = (r, reply) :: rest) (hbuf : R.buf r = some frame)
    (hfresh : ∀ x < R.num, R.buf x ≠ some b) (hout : b ∉ R.out)
    {state : ℕ → RxState} {flight : ℕ} {repost : List ℕ}
    (hplaces : Places R.num (R.driver ++ R.port.map Prod.fst ++ rest.map Prod.fst ++ repost)
      (R.unparked ++ R.parked) R.home flight state) :
  Inv { R with
    rxDone := rest
    state := state
    flight := flight
    repost := repost
    deliver := R.deliver ++ [(reply.serial, frame)]
    buf := update R.buf r (some b) }
  := by
  have hlog : R.delivered ++ (R.deliver ++ [(reply.serial, frame)]).map Prod.fst ++
      ((rest ++ R.port).map fun m => m.2.serial) = R.log := by
    simp only [log, hcons, map_append, map_cons, map_nil, append_assoc,
      cons_append, nil_append]
  have hr : r < R.num := by
    have hmem : r ∈ R.flying := (flying_of_rxDone hcons).mem_iff.mpr mem_cons_self
    exact mem_range.mp (h.places.pool.mem_iff.mp (mem_append_left _ hmem))
  refine ⟨hplaces, ?_, ?_, ?_⟩
  · apply (h.buffers.swap hr hbuf hfresh hout).perm
    change (frame :: (R.deliver.map Prod.snd ++ R.lent)).Perm
      ((R.deliver ++ [(reply.serial, frame)]).map Prod.snd ++ R.lent)
    rw [map_append, map_singleton, append_assoc, singleton_append]
    apply perm_middle.symm
  · change (R.delivered ++ (R.deliver ++ [(reply.serial, frame)]).map Prod.fst ++
      ((rest ++ R.port).map fun m => m.2.serial)).Pairwise (· < ·)
    rw [hlog]
    apply h.order
  · change ∀ x ∈ R.delivered ++ (R.deliver ++ [(reply.serial, frame)]).map Prod.fst ++
      ((rest ++ R.port).map fun m => m.2.serial), x < R.serial
    rw [hlog]
    apply h.log_lt

theorem Inv.process
    {reply : RxReply} {rest : List (ℕ × RxReply)} {alloc : Option β} (h : R.Inv)
    (hcons : R.rxDone = (r, reply) :: rest) (draining : Bool)
    (hfresh : ∀ b ∈ alloc, (∀ x < R.num, R.buf x ≠ some b) ∧ b ∉ R.out) :
  (R.process draining r reply rest alloc).Inv
  := by
  have hplaces := h.places.perm (flying_of_rxDone hcons) (.refl _)
  have hstay : Places R.num
      (R.driver ++ R.port.map Prod.fst ++ rest.map Prod.fst ++ (R.repost ++ [r]))
      (R.unparked ++ R.parked) R.home (R.flight - 1 + 1) (update R.state r .flight) := by
    apply hplaces.stay.perm _ (.refl _)
    rw [← append_assoc]
    apply (perm_append_singleton r _).symm
  simp only [Sana2Reads.process]
  split
  · apply h.skip hcons
    apply hplaces.goHome
  · split
    · apply h.skip hcons
      apply hplaces.park.perm (.refl _)
      apply perm_middle.symm
    · split
      · unfold Sana2Reads.detach
        split
        next b frame hbuf =>
          obtain ⟨hnew, hout⟩ := hfresh b rfl
          apply h.detach hcons hbuf hnew hout hstay
        next => apply h.skip hcons hstay
      · apply h.skip hcons hstay

end Sana2Reads
