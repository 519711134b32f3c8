import LwipAmiga.Sana2.Transmit

/-!
# Conservation of the write requests

Every write request of a SANA-II interface is on the free list, staged, or in flight.
-/

open List Function Option

namespace Sana2Tx

/-! ### Requests and references -/

section Balance

variable {ι : Type}

def frameIds (data : ℕ → Option (TxChain ι)) (l : List ℕ) : List ι :=
  l.filterMap fun r => (data r).map TxChain.id

theorem frameIds_update
    {data : ℕ → Option (TxChain ι)} {l : List ℕ} {r : ℕ} (h : r ∉ l) (f : Option (TxChain ι)) :
  frameIds (update data r f) l = frameIds data l
  := by
  apply filterMap_congr
  intro x hx
  rw [update_of_ne]
  rintro rfl
  exact h hx

theorem frameIds_cons
    {data : ℕ → Option (TxChain ι)} {r : ℕ} {f : TxChain ι} (h : data r = some f) (l : List ℕ) :
  frameIds data (r :: l) = f.id :: frameIds data l
  := by
  rw [frameIds, filterMap_cons, h]
  rfl

variable [DecidableEq ι]

structure Balance (n : ℕ) (free busy : List ℕ) (data : ℕ → Option (TxChain ι)) (refs owned : ι → ℕ) :
    Prop where
  pool : (free ++ busy).Perm (List.range n)
  free_none : ∀ r ∈ free, data r = none
  busy_some : ∀ r ∈ busy, (data r).isSome = true
  refs : RefCount.Accounts refs owned (frameIds data busy)

variable {n r : ℕ} {free busy busy' : List ℕ} {data : ℕ → Option (TxChain ι)} {refs owned : ι → ℕ}

theorem Balance.nodup
    (h : Balance n free busy data refs owned) :
  (free ++ busy).Nodup
  := h.pool.nodup_iff.mpr nodup_range

theorem Balance.perm
    (h : Balance n free busy data refs owned) (hp : busy.Perm busy') :
  Balance n free busy' data refs owned
  := by
  refine ⟨(hp.symm.append_left free).trans h.pool, h.free_none, ?_, ?_⟩
  · intro r hr
    apply h.busy_some r (hp.mem_iff.mpr hr)
  · apply h.refs.perm (hp.filterMap _)

theorem Balance.retire
    (h : Balance n free (r :: busy) data refs owned) :
  Balance n (r :: free) busy (update data r none) ((data r).elim refs (pbufFree refs)) owned
  := by
  obtain ⟨f, hf⟩ := isSome_iff_exists.mp (h.busy_some r mem_cons_self)
  obtain ⟨-, hbusy, hdisjoint⟩ := nodup_append.mp h.nodup
  have hr : r ∉ busy := (nodup_cons.mp hbusy).1
  refine ⟨perm_middle.symm.trans h.pool, ?_, ?_, ?_⟩
  · intro x hx
    by_cases hxr : x = r
    · rw [hxr, update_self]
    · rw [update_of_ne hxr]
      apply h.free_none x ((mem_cons.mp hx).resolve_left hxr)
  · intro x hx
    have hne : x ≠ r := by
      rintro rfl
      exact hr hx
    rw [update_of_ne hne]
    apply h.busy_some x (mem_cons_of_mem r hx)
  · have hrefs := h.refs
    rw [frameIds_cons hf] at hrefs
    rw [frameIds_update hr, hf]
    apply hrefs.decr

theorem Balance.give
    (h : Balance n (r :: free) busy data refs owned) (f : TxChain ι) :
  Balance n free (r :: busy) (update data r (some f)) (pbufRef refs f) owned
  := by
  obtain ⟨hfree, -, hdisjoint⟩ := nodup_append.mp h.nodup
  have hr : r ∉ busy := fun hmem => hdisjoint r mem_cons_self r hmem rfl
  refine ⟨perm_middle.trans h.pool, ?_, ?_, ?_⟩
  · intro x hx
    have hne : x ≠ r := by
      rintro rfl
      exact (nodup_cons.mp hfree).1 hx
    rw [update_of_ne hne]
    apply h.free_none x (mem_cons_of_mem r hx)
  · intro x hx
    by_cases hxr : x = r
    · rw [hxr, update_self]
      rfl
    · rw [update_of_ne hxr]
      apply h.busy_some x ((mem_cons.mp hx).resolve_left hxr)
  · rw [frameIds_cons (update_self ..), frameIds_update hr]
    apply h.refs.incr

end Balance

/-! ### The invariant -/

variable {ι : Type}

def away (s : Sana2Tx ι) : List ℕ :=
  s.driver ++ s.port ++ s.txDone

theorem map_update
    {l : List ℕ} {r : ℕ} (h : r ∉ l) (data : ℕ → Option (TxChain ι)) (f : Option (TxChain ι)) :
  l.map (update data r f) = l.map data
  := by
  apply map_congr_left
  intro x hx
  apply update_of_ne
  rintro rfl
  exact h hx

structure Kept (s s' : Sana2Tx ι) : Prop where
  staged : s'.staged = s.staged
  flushPending : s'.flushPending = s.flushPending
  nest : s'.nest = s.nest
  pumpHolds : s'.pumpHolds = s.pumpHolds
  txDown : s'.txDown = s.txDown
  up : s'.up = s.up
  owned : s'.owned = s.owned
  sent : s'.sent = s.sent
  port : s'.port = s.port
  txDone : s'.txDone = s.txDone

theorem Kept.trans
    {s s' s'' : Sana2Tx ι} (h : Kept s s') (h' : Kept s' s'') :
  Kept s s''
  := by
  constructor
  · rw [h'.staged, h.staged]
  · rw [h'.flushPending, h.flushPending]
  · rw [h'.nest, h.nest]
  · rw [h'.pumpHolds, h.pumpHolds]
  · rw [h'.txDown, h.txDown]
  · rw [h'.up, h.up]
  · rw [h'.owned, h.owned]
  · rw [h'.sent, h.sent]
  · rw [h'.port, h.port]
  · rw [h'.txDone, h.txDone]

variable [DecidableEq ι]

structure Core (n : ℕ) (todo : List ℕ) (s : Sana2Tx ι) : Prop where
  balance : Balance n s.free (todo ++ s.away) s.data s.refs s.owned
  free : s.nib.txFree = s.free.length
  flight : s.txInFlight = s.away.length
  flag : ∀ r, s.inFlight r = true ↔ r ∈ s.away
  order : s.handed ++ todo.map s.data = s.sent.map some

structure Inv (n : ℕ) (s : Sana2Tx ι) : Prop where
  core : Core n s.staged s
  pending : s.staged ≠ [] → s.flushPending = true
  rest : s.nest = 0 → s.staged = []

variable {n r : ℕ} {todo : List ℕ} {s s' : Sana2Tx ι}

theorem Core.quick
    (h : Core n (r :: todo) s) :
  Core n todo ({ s with handed := s.handed ++ [s.data r] }.s2ifTxRetire r)
  := by
  obtain ⟨-, hbusy, -⟩ := nodup_append.mp h.balance.nodup
  have hr : r ∉ todo ++ s.away := (nodup_cons.mp hbusy).1
  obtain ⟨htodo, haway⟩ := not_or.mp (mt mem_append.mpr hr)
  refine ⟨h.balance.retire, ?_, h.flight, ?_, ?_⟩
  · change s.nib.txFree + 1 = s.free.length + 1
    rw [h.free]
  · intro x
    change update s.inFlight r false x = true ↔ x ∈ s.away
    by_cases hx : x = r
    · rw [hx, update_self]
      apply iff_of_false nofun haway
    · rw [update_of_ne hx]
      apply h.flag
  · have horder := h.order
    change s.handed ++ [s.data r] ++ todo.map (update s.data r none) = s.sent.map some
    rw [map_update htodo, ← horder, map_cons]
    apply (append_cons _ _ _).symm

theorem Core.queued
    (h : Core n (r :: todo) s) :
  Core n todo ({ s with handed := s.handed ++ [s.data r] }.queued r)
  := by
  have haway : (s.driver ++ [r] ++ s.port ++ s.txDone).Perm (r :: s.away) := by
    rw [away, append_assoc, append_assoc, append_assoc, singleton_append]
    apply perm_middle
  have hplace : (r :: (todo ++ s.away)).Perm (todo ++ (s.driver ++ [r] ++ s.port ++ s.txDone)) :=
    perm_middle.symm.trans (haway.symm.append_left todo)
  refine ⟨h.balance.perm hplace, h.free, ?_, ?_, ?_⟩
  · change s.txInFlight + 1 = (s.driver ++ [r] ++ s.port ++ s.txDone).length
    rw [haway.length_eq, h.flight, length_cons]
  · intro x
    change update s.inFlight r true x = true ↔ x ∈ s.driver ++ [r] ++ s.port ++ s.txDone
    rw [haway.mem_iff, mem_cons]
    by_cases hx : x = r
    · rw [hx, update_self]
      apply iff_of_true rfl (Or.inl rfl)
    · rw [update_of_ne hx, h.flag]
      simp only [hx, false_or]
  · have horder := h.order
    change s.handed ++ [s.data r] ++ todo.map s.data = s.sent.map some
    rw [← horder, map_cons]
    apply (append_cons _ _ _).symm

theorem Core.beginIo
    (h : Core n (r :: todo) s) (quick : ℕ → Bool) :
  Core n todo (beginIo quick s r)
  := by
  rw [Sana2Tx.beginIo]
  split
  · apply h.quick
  · apply h.queued

theorem kept_beginIo (quick : ℕ → Bool) (s : Sana2Tx ι) (r : ℕ) :
  Kept s (beginIo quick s r)
  := by
  rw [Sana2Tx.beginIo]
  split
  · exact ⟨rfl, rfl, rfl, rfl, rfl, rfl, rfl, rfl, rfl, rfl⟩
  · exact ⟨rfl, rfl, rfl, rfl, rfl, rfl, rfl, rfl, rfl, rfl⟩

theorem Core.foldl_beginIo
    (h : Core n todo s) (quick : ℕ → Bool) :
  Core n [] (todo.foldl (Sana2Tx.beginIo quick) s) ∧ Kept s (todo.foldl (Sana2Tx.beginIo quick) s)
  := by
  induction todo generalizing s with
  | nil => exact ⟨h, rfl, rfl, rfl, rfl, rfl, rfl, rfl, rfl, rfl, rfl⟩
  | cons r todo ih =>
    obtain ⟨hcore, hkept⟩ := ih (h.beginIo quick)
    exact ⟨hcore, (kept_beginIo quick s r).trans hkept⟩

theorem Inv.sana2ifTxFlush
    (h : Inv n s) (quick : ℕ → Bool) :
  Core n [] (s.sana2ifTxFlush quick) ∧
    Kept { s with staged := [], flushPending := false } (s.sana2ifTxFlush quick)
  := by
  unfold Sana2Tx.sana2ifTxFlush
  split
  next =>
    apply Core.foldl_beginIo
    exact ⟨h.core.balance, h.core.free, h.core.flight, h.core.flag, h.core.order⟩
  next hnot =>
    have hempty : s.staged = [] := by
      by_contra hne
      exact hnot (h.pending hne)
    have hcore := h.core
    rw [hempty] at hcore
    refine ⟨hcore, hempty, ?_, rfl, rfl, rfl, rfl, rfl, rfl, rfl, rfl⟩
    apply Bool.eq_false_iff.mpr hnot

theorem Inv.flush
    (h : Inv n s) (quick : ℕ → Bool) :
  Inv n (s.sana2ifTxFlush quick)
  := by
  obtain ⟨hcore, hkept⟩ := h.sana2ifTxFlush quick
  have hstaged : (s.sana2ifTxFlush quick).staged = [] := hkept.staged
  refine ⟨?_, fun hne => absurd hstaged hne, fun _ => hstaged⟩
  rw [hstaged]
  apply hcore

theorem Inv.flushIfDry
    (h : Inv n s) (quick : ℕ → Bool) :
  Inv n (s.flushIfDry quick)
  := by
  rw [Sana2Tx.flushIfDry]
  split
  · apply h.flush
  · apply h

theorem Inv.kept_flushIfDry
    (h : Inv n s) (quick : ℕ → Bool) :
  (s.flushIfDry quick).nest = s.nest ∧ (s.flushIfDry quick).sent = s.sent
  := by
  rw [Sana2Tx.flushIfDry]
  split
  · obtain ⟨-, hkept⟩ := h.sana2ifTxFlush quick
    exact ⟨hkept.nest, hkept.sent⟩
  · exact ⟨rfl, rfl⟩

theorem Inv.stage
    (h : Inv n s) {rest : List ℕ} (hfree : s.free = r :: rest) (hnest : 0 < s.nest)
    (frame : TxChain ι) :
  Inv n ({ s with refs := pbufRef s.refs frame }.stage r rest frame)
  := by
  have hbalance := h.core.balance
  rw [hfree] at hbalance
  have hr : r ∉ s.staged := by
    obtain ⟨-, -, hdisjoint⟩ := nodup_append.mp hbalance.nodup
    intro hmem
    exact hdisjoint r mem_cons_self r (mem_append_left _ hmem) rfl
  have hplace : (r :: (s.staged ++ s.away)).Perm (s.staged ++ [r] ++ s.away) := by
    rw [append_assoc]
    apply perm_middle.symm
  constructor
  · refine ⟨(hbalance.give frame).perm hplace, ?_, h.core.flight, h.core.flag, ?_⟩
    · change s.nib.txFree - 1 = rest.length
      rw [h.core.free, hfree, length_cons, Nat.add_sub_cancel]
    · change s.handed ++ (s.staged ++ [r]).map (update s.data r (some frame)) =
        (s.sent ++ [frame]).map some
      rw [map_append, map_append, map_update hr, map_singleton, map_singleton,
        update_self, ← append_assoc, h.core.order]
  · exact fun _ => rfl
  · intro hzero
    change s.nest = 0 at hzero
    omega

theorem takeRequest_cases
    {p : TxChain ι} {cloned : Option ι} (hfresh : ∀ i ∈ cloned, s.refs i = 0) :
  (s.takeRequest p cloned).1 ≠ .ok ∧ (s.takeRequest p cloned).2 = s ∨
    (s.takeRequest p cloned).1 = .ok ∧ ∃ r rest frame, s.free = r :: rest ∧
      (s.takeRequest p cloned).2 = { s with refs := pbufRef s.refs frame }.stage r rest frame
  := by
  unfold takeRequest
  split
  next =>
    left
    exact ⟨by simp, rfl⟩
  next r rest hfree =>
    split
    next =>
      left
      exact ⟨by simp, rfl⟩
    next frame refs hguard =>
      right
      obtain ⟨rfl, -⟩ := aliasGuard_some hguard hfresh
      exact ⟨rfl, r, rest, frame, hfree, rfl⟩

theorem Inv.takeRequest
    (h : Inv n s) (hnest : 0 < s.nest) {p : TxChain ι} {cloned : Option ι}
    (hfresh : ∀ i ∈ cloned, s.refs i = 0) :
  Inv n (s.takeRequest p cloned).2
  := by
  obtain ⟨-, hsame⟩ | ⟨-, r, rest, frame, hfree, hstage⟩ := takeRequest_cases (p := p) hfresh
  · rw [hsame]
    apply h
  · rw [hstage]
    apply h.stage hfree hnest

theorem Inv.s2ifLinkoutput
    (h : Inv n s) (hnest : 0 < s.nest) {p : TxChain ι} {env : Sana2Env ι}
    (hfresh : ∀ i ∈ env.cloned, (s.flushIfDry env.quick).refs i = 0) :
  Inv n (s.s2ifLinkoutput p env).2
  := by
  rw [Sana2Tx.s2ifLinkoutput]
  split
  · apply h
  · split
    · apply h
    · apply (h.flushIfDry env.quick).takeRequest _ hfresh
      rwa [(h.kept_flushIfDry env.quick).1]

theorem Inv.move
    (h : Inv n s) {driver port txDone : List ℕ} (hp : (driver ++ port ++ txDone).Perm s.away) :
  Inv n { s with driver := driver, port := port, txDone := txDone }
  := by
  refine ⟨⟨?_, h.core.free, ?_, ?_, h.core.order⟩, h.pending, h.rest⟩
  · apply h.core.balance.perm (hp.symm.append_left _)
  · rw [h.core.flight]
    apply hp.length_eq.symm
  · intro r
    rw [h.core.flag, ← hp.mem_iff]
    rfl

theorem Inv.s2ifTxComplete
    (h : Inv n s) {rest : List ℕ} (hdone : s.txDone = r :: rest) :
  Inv n ({ s with txDone := rest }.s2ifTxComplete r)
  := by
  have haway : s.away.Perm (r :: (s.driver ++ s.port ++ rest)) := by
    rw [away, hdone]
    apply perm_middle
  have hbalance := h.core.balance.perm ((haway.append_left s.staged).trans perm_middle)
  have hnodup := (nodup_append.mp hbalance.nodup).2.1
  have hr := (nodup_cons.mp hnodup).1
  obtain ⟨hstaged, hleft⟩ := not_or.mp (mt mem_append.mpr hr)
  refine ⟨⟨hbalance.retire, ?_, ?_, ?_, ?_⟩, h.pending, h.rest⟩
  · change s.nib.txFree + 1 = s.free.length + 1
    rw [h.core.free]
  · change s.txInFlight - 1 = (s.driver ++ s.port ++ rest).length
    rw [h.core.flight, haway.length_eq, length_cons, Nat.add_sub_cancel]
  · intro x
    change update s.inFlight r false x = true ↔ x ∈ s.driver ++ s.port ++ rest
    by_cases hx : x = r
    · rw [hx, update_self]
      apply iff_of_false nofun hleft
    · rw [update_of_ne hx, h.core.flag, haway.mem_iff, mem_cons]
      simp only [hx, false_or]
  · change s.handed ++ s.staged.map (update s.data r none) = s.sent.map some
    rw [map_update hstaged, h.core.order]

theorem Inv.hold
    (h : Inv n s) {nest : ℕ} {pumpHolds txDown up : Bool} (hnest : nest = 0 → s.staged = []) :
  Inv n { s with nest := nest, pumpHolds := pumpHolds, txDown := txDown, up := up }
  := ⟨⟨h.core.balance, h.core.free, h.core.flight, h.core.flag, h.core.order⟩, h.pending, hnest⟩

theorem Inv.step
    {l : TxLabel ι} (h : Inv n s) (hstep : s.next l = some s') :
  Inv n s'
  := by
  cases l with
  | lock pump =>
    obtain ⟨-, ⟨⟩⟩ := ite_none_right_eq_some.mp hstep
    apply h.hold
    omega
  | unlock quick =>
    obtain ⟨hnest, ⟨⟩⟩ := ite_none_right_eq_some.mp hstep
    rw [netstackUnlock]
    split
    next =>
      apply (h.flush quick).hold
      intro _
      apply (h.sana2ifTxFlush quick).2.staged
    next hne =>
      apply h.hold
      omega
  | output p env =>
    obtain ⟨⟨hnest, -, hfresh⟩, ⟨⟩⟩ := ite_none_right_eq_some.mp hstep
    apply h.s2ifLinkoutput hnest hfresh
  | reply r =>
    obtain ⟨hmem, ⟨⟩⟩ := ite_none_right_eq_some.mp hstep
    apply h.move
    apply List.Perm.append_right
    rw [← append_assoc]
    apply (perm_append_singleton r _).trans
    apply (perm_cons_erase hmem).symm.append_right
  | harvest r =>
    obtain ⟨⟨hmem, -⟩, ⟨⟩⟩ := ite_none_right_eq_some.mp hstep
    apply h.move
    apply perm_middle.trans
    rw [away, ← cons_append]
    apply List.Perm.append_right
    apply perm_middle.symm.trans
    apply (perm_cons_erase hmem).symm.append_left
  | complete =>
    simp only [next] at hstep
    split at hstep
    next => contradiction
    next r rest hdone =>
      obtain ⟨-, ⟨⟩⟩ := ite_none_right_eq_some.mp hstep
      apply h.s2ifTxComplete hdone
  | netifUp | netifDown =>
    obtain ⟨-, ⟨⟩⟩ := ite_none_right_eq_some.mp hstep
    apply h.hold h.rest
  | owner op =>
    obtain ⟨⟨refs, owned⟩, hop, rfl⟩ := map_eq_some_iff.mp hstep
    have hbalance := h.core.balance
    exact ⟨⟨⟨hbalance.pool, hbalance.free_none, hbalance.busy_some, PbufOp.accounts hop hbalance.refs⟩,
      h.core.free, h.core.flight, h.core.flag, h.core.order⟩, h.pending, h.rest⟩

theorem inv_create (mtu : UInt32) :
  Inv (txReqs mtu) (create mtu : Sana2Tx ι)
  := by
  refine ⟨⟨⟨?_, fun _ _ => rfl, nofun, fun _ => rfl⟩, ?_, rfl, ?_, rfl⟩, nofun, fun _ => rfl⟩
  · change ((range (txReqs mtu)).reverse ++ []).Perm (range (txReqs mtu))
    rw [append_nil]
    apply reverse_perm
  · change txReqs mtu = (range (txReqs mtu)).reverse.length
    rw [length_reverse, length_range]
  · intro r
    apply iff_of_false nofun nofun

theorem inv_of_reachable
    {mtu : UInt32} (r : (system mtu).Reachable s) :
  Inv (txReqs mtu) s
  := by
  apply r.invariant
  · rintro s rfl
    apply inv_create
  · intro s l s' h _ hstep
    apply h.step hstep

theorem Inv.kept_s2ifLinkoutput
    (h : Inv n s) (p : TxChain ι) (env : Sana2Env ι) :
  ((s.s2ifLinkoutput p env).2.up = s.up ∧ (s.s2ifLinkoutput p env).2.txDown = s.txDown) ∧
    (s.s2ifLinkoutput p env).2.txDone = s.txDone
  := by
  have hdry : ((s.flushIfDry env.quick).up = s.up ∧ (s.flushIfDry env.quick).txDown = s.txDown) ∧
      (s.flushIfDry env.quick).txDone = s.txDone := by
    rw [Sana2Tx.flushIfDry]
    split
    · obtain ⟨-, hkept⟩ := h.sana2ifTxFlush env.quick
      exact ⟨⟨hkept.up, hkept.txDown⟩, hkept.txDone⟩
    · exact ⟨⟨rfl, rfl⟩, rfl⟩
  unfold Sana2Tx.s2ifLinkoutput Sana2Tx.takeRequest
  split_ifs
  · exact ⟨⟨rfl, rfl⟩, rfl⟩
  · exact ⟨⟨rfl, rfl⟩, rfl⟩
  · split
    · apply hdry
    · split
      · apply hdry
      · apply hdry

theorem Inv.kept_next
    {l : TxLabel ι} (h : Inv n s) (hstep : s.next l = some s') :
  (l ≠ .netifUp → l ≠ .netifDown → s'.up = s.up ∧ s'.txDown = s.txDown) ∧
    ((∀ r, l ≠ .harvest r) → l ≠ .complete → s'.txDone = s.txDone)
  := by
  cases l with
  | lock pump | reply r =>
    obtain ⟨-, ⟨⟩⟩ := ite_none_right_eq_some.mp hstep
    exact ⟨fun _ _ => ⟨rfl, rfl⟩, fun _ _ => rfl⟩
  | unlock quick =>
    obtain ⟨-, ⟨⟩⟩ := ite_none_right_eq_some.mp hstep
    rw [netstackUnlock]
    split
    · obtain ⟨-, hkept⟩ := h.sana2ifTxFlush quick
      exact ⟨fun _ _ => ⟨hkept.up, hkept.txDown⟩, fun _ _ => hkept.txDone⟩
    · exact ⟨fun _ _ => ⟨rfl, rfl⟩, fun _ _ => rfl⟩
  | output p env =>
    obtain ⟨-, ⟨⟩⟩ := ite_none_right_eq_some.mp hstep
    obtain ⟨hnetif, hdone⟩ := h.kept_s2ifLinkoutput p env
    exact ⟨fun _ _ => hnetif, fun _ _ => hdone⟩
  | harvest r =>
    obtain ⟨-, ⟨⟩⟩ := ite_none_right_eq_some.mp hstep
    exact ⟨fun _ _ => ⟨rfl, rfl⟩, fun hne => absurd rfl (hne r)⟩
  | complete =>
    simp only [next] at hstep
    split at hstep
    · contradiction
    · obtain ⟨-, ⟨⟩⟩ := ite_none_right_eq_some.mp hstep
      exact ⟨fun _ _ => ⟨rfl, rfl⟩, fun _ hne => absurd rfl hne⟩
  | netifUp =>
    obtain ⟨-, ⟨⟩⟩ := ite_none_right_eq_some.mp hstep
    exact ⟨fun hne => absurd rfl hne, fun _ _ => rfl⟩
  | netifDown =>
    obtain ⟨-, ⟨⟩⟩ := ite_none_right_eq_some.mp hstep
    exact ⟨fun _ hne => absurd rfl hne, fun _ _ => rfl⟩
  | owner op =>
    obtain ⟨⟨refs, owned⟩, -, rfl⟩ := map_eq_some_iff.mp hstep
    exact ⟨fun _ _ => ⟨rfl, rfl⟩, fun _ _ => rfl⟩

structure Stopped (s : Sana2Tx ι) : Prop where
  txDown : s.txDown = true
  staged : s.staged = []

theorem Stopped.sana2ifTxFlush
    (h : Stopped s) (quick : ℕ → Bool) :
  Stopped (s.sana2ifTxFlush quick) ∧ (s.sana2ifTxFlush quick).txInFlight = s.txInFlight
  := by
  rw [Sana2Tx.sana2ifTxFlush, h.staged]
  split
  · exact ⟨⟨h.txDown, rfl⟩, rfl⟩
  · exact ⟨h, rfl⟩

theorem Stopped.step
    {l : TxLabel ι} (h : Stopped s) (hstep : s.next l = some s') :
  Stopped s' ∧ s'.txInFlight ≤ s.txInFlight
  := by
  cases l with
  | lock pump | reply r | harvest r | netifUp =>
    obtain ⟨-, ⟨⟩⟩ := ite_none_right_eq_some.mp hstep
    exact ⟨⟨h.txDown, h.staged⟩, le_rfl⟩
  | unlock quick =>
    obtain ⟨-, ⟨⟩⟩ := ite_none_right_eq_some.mp hstep
    rw [netstackUnlock]
    split
    · obtain ⟨hstopped, hflight⟩ := h.sana2ifTxFlush quick
      exact ⟨⟨hstopped.txDown, hstopped.staged⟩, hflight.le⟩
    · exact ⟨⟨h.txDown, h.staged⟩, le_rfl⟩
  | output p env =>
    obtain ⟨-, ⟨⟩⟩ := ite_none_right_eq_some.mp hstep
    rw [Sana2Tx.s2ifLinkoutput, if_pos h.txDown]
    exact ⟨h, le_rfl⟩
  | complete =>
    simp only [next] at hstep
    split at hstep
    · contradiction
    · obtain ⟨-, ⟨⟩⟩ := ite_none_right_eq_some.mp hstep
      exact ⟨⟨h.txDown, h.staged⟩, Nat.sub_le _ _⟩
  | netifDown =>
    obtain ⟨-, ⟨⟩⟩ := ite_none_right_eq_some.mp hstep
    exact ⟨⟨rfl, h.staged⟩, le_rfl⟩
  | owner op =>
    obtain ⟨⟨refs, owned⟩, -, rfl⟩ := map_eq_some_iff.mp hstep
    exact ⟨⟨h.txDown, h.staged⟩, le_rfl⟩

theorem Inv.sent_s2ifLinkoutput
    (h : Inv n s) (p : TxChain ι) (env : Sana2Env ι) :
  (s.s2ifLinkoutput p env).1 = .ok ∧
      (∃ frame, (s.s2ifLinkoutput p env).2.sent = s.sent ++ [frame]) ∨
    (s.s2ifLinkoutput p env).1 ≠ .ok ∧ (s.s2ifLinkoutput p env).2.sent = s.sent
  := by
  have hsent := (h.kept_flushIfDry env.quick).2
  unfold Sana2Tx.s2ifLinkoutput Sana2Tx.takeRequest
  split_ifs
  · right
    exact ⟨nofun, rfl⟩
  · right
    exact ⟨nofun, rfl⟩
  · split
    next =>
      right
      exact ⟨nofun, hsent⟩
    next =>
      split
      next =>
        right
        exact ⟨nofun, hsent⟩
      next frame refs _ =>
        left
        refine ⟨rfl, frame, ?_⟩
        rw [← hsent]
        rfl

/-- Each request is free, staged or in flight, the counters are exact, frames go to the driver in the
order in which they were taken, and a request that is not free holds one reference to its frame. -/
theorem writeRequests_conserved
    {mtu : UInt32} (h : (system mtu).Reachable s) :
  (s.free ++ (s.staged ++ (s.driver ++ s.port ++ s.txDone))).Perm (List.range (txReqs mtu)) ∧
    s.nib.txFree = s.free.length ∧
    (s.txInFlight = (s.driver ++ s.port ++ s.txDone).length ∧
      ∀ r, s.inFlight r = true ↔ r ∈ s.driver ++ s.port ++ s.txDone) ∧
    (s.handed ++ s.staged.map s.data = s.sent.map some ∧ (s.nest = 0 → s.staged = []) ∧
      ∀ p env, (s.s2ifLinkoutput p env).1 = .ok ∧
          (∃ frame, (s.s2ifLinkoutput p env).2.sent = s.sent ++ [frame]) ∨
        (s.s2ifLinkoutput p env).1 ≠ .ok ∧ (s.s2ifLinkoutput p env).2.sent = s.sent) ∧
    (∀ r ∈ s.free, s.data r = none) ∧
    (∀ r ∈ s.staged ++ (s.driver ++ s.port ++ s.txDone), (s.data r).isSome = true) ∧
    RefCount.Accounts s.refs s.owned
      (frameIds s.data (s.staged ++ (s.driver ++ s.port ++ s.txDone)))
  := by
  have hinv := inv_of_reachable h
  have hbalance := hinv.core.balance
  exact ⟨hbalance.pool, hinv.core.free, ⟨hinv.core.flight, hinv.core.flag⟩,
    ⟨hinv.core.order, hinv.rest, hinv.sent_s2ifLinkoutput⟩, hbalance.free_none, hbalance.busy_some,
    hbalance.refs⟩

def harvestedRun : List (TxLabel Bool) :=
  [.lock false, .owner (.alloc true), .owner (.alloc false),
    .output ⟨true, 0⟩ ⟨54, none, fun _ => false⟩, .unlock fun _ => false, .reply 63, .lock false,
    .harvest 63, .output ⟨false, 0⟩ ⟨54, none, fun _ => false⟩]

theorem harvestedRun_enabled :
  ((system 1500).exec (create 1500) harvestedRun).isSome = true
  := by
  decide

def harvested : Sana2Tx Bool :=
  (system 1500).last (create 1500) harvestedRun harvestedRun_enabled

/-- One request is with the pump, one is staged, and each has a reference to its frame. -/
theorem writeRequests_conserved_harvested :
  (system 1500).Reachable harvested ∧ harvested.txDone = [63] ∧ harvested.staged = [62] ∧
    harvested.txInFlight = 1 ∧ harvested.nib.txFree = harvested.free.length ∧
    harvested.refs true = 2 ∧
    RefCount.Accounts harvested.refs harvested.owned (frameIds harvested.data
      (harvested.staged ++ (harvested.driver ++ harvested.port ++ harvested.txDone)))
  := by
  have hreach : (system 1500).Reachable harvested := TransitionSystem.reachable_last rfl
  obtain ⟨-, hfree, -, -, -, -, hrefs⟩ := writeRequests_conserved hreach
  exact ⟨hreach, by decide, by decide, by decide, hfree, by decide,
    hrefs⟩

end Sana2Tx
