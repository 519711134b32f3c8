import LwipAmiga.Netdev.Input

/-!
# Receive buffers are conserved

Every wrap is free, held by the merge engine or lent to lwIP, and every cookie was released or belongs
to such a wrap.
-/

open Multiset List Option

open Hold

/-! ### Steps of the engine -/

namespace RxGro

def wraps (g : RxGro) : Multiset ℕ :=
  ∑ i, ((g i).chain.map fun p => p.addr : Multiset ℕ)

def given : RxOp → Multiset ℕ
  | .frame addr _ => {addr}
  | .flush => 0

theorem wraps_init :
  wraps rxgroInit = 0
  := by
  apply Finset.sum_eq_zero
  intro i _
  rfl

theorem wraps_eq_map_held (g : RxGro) :
  wraps g = (∑ i, (held g i : Multiset (ℕ × RxFrame))).map Prod.fst
  := by
  rw [wraps, ← coe_mapAddMonoidHom, map_sum]
  apply Finset.sum_congr rfl
  intro i _
  simp [held, RxPbuf.id, Function.comp_def]

theorem items_item (op : RxOp) :
  (items [item op] : Multiset (ℕ × RxFrame)).map Prod.fst = given op
  := by
  cases op <;> rfl

theorem conserved_step (gro : Bool) (ops : List RxOp) (op : RxOp) :
  wraps (run gro ops).1 + given op =
    ((freed (step gro (run gro ops).1 op).2).map fun p => p.addr : Multiset ℕ) +
      ((delivered (step gro (run gro ops).1 op).2).flatten.map fun p => p.addr : Multiset ℕ) +
      wraps (step gro (run gro ops).1 op).1
  := by
  have hbefore := (run_hold gro ops).conserved
  have hafter := (run_hold gro (ops ++ [op])).conserved
  rw [run_append_singleton, List.map_append, items_append, delivered_append, List.map_append,
    List.flatten_append, freed_append, List.map_append, ← Multiset.coe_add, ← Multiset.coe_add,
    ← Multiset.coe_add, hbefore] at hafter
  generalize (run gro ops).1 = g at *
  -- What came out before cancels.
  have hids : (∑ i, (held g i : Multiset (ℕ × RxFrame))) + items [item op] =
      ((freed (step gro g op).2).map RxPbuf.id : Multiset (ℕ × RxFrame)) +
        ((delivered (step gro g op).2).map (List.map RxPbuf.id)).flatten +
        ∑ i, (held (step gro g op).1 i : Multiset (ℕ × RxFrame)) := by
    apply add_left_cancel (a := (((delivered (run gro ops).2).map (List.map RxPbuf.id)).flatten :
      Multiset (ℕ × RxFrame)) + ((freed (run gro ops).2).map RxPbuf.id : Multiset (ℕ × RxFrame)))
    rw [← add_assoc]
    apply hafter.trans
    abel
  have hwraps := congrArg (Multiset.map Prod.fst) hids
  rw [Multiset.map_add, Multiset.map_add, Multiset.map_add, ← wraps_eq_map_held,
    ← wraps_eq_map_held, items_item, ← List.map_flatten, Multiset.map_coe, Multiset.map_coe,
    List.map_map, List.map_map] at hwraps
  exact hwraps

end RxGro

namespace NetdevIf

variable {χ : Type} {offload : Bool} {n : ℕ} {w w' : NetdevIf χ}

/-! ### Wraps -/

structure Sound (offload : Bool) (n : ℕ) (w : NetdevIf χ) : Prop where
  run : w.gro = (RxGro.run offload w.ops).1
  balanced : w.wraps.Balanced n
  live : w.wraps.live = w.gro.wraps + w.lent

structure Unmoved (w w' : NetdevIf χ) : Prop where
  came : w'.wraps.came = w.wraps.came
  task : w'.task = w.task
  returned : w'.returned = w.returned

theorem foldl_ndifRxPbufFreed (w : NetdevIf χ) (l : List ℕ) :
  l.foldl ndifRxPbufFreed w = { w with wraps := l.foldl Pool.refund w.wraps }
  := by
  induction l generalizing w with
  | nil => rfl
  | cons a l ih => rw [List.foldl_cons, ih, List.foldl_cons, ndifRxPbufFreed]

theorem gro_foldl_act (acts : List RxAct) (w : NetdevIf χ) :
  (acts.foldl act w).gro = w.gro ∧ (acts.foldl act w).ops = w.ops
  := by
  induction acts generalizing w with
  | nil => exact ⟨rfl, rfl⟩
  | cons a acts ih =>
    obtain ⟨hgro, hops⟩ := ih (w.act a)
    rw [List.foldl_cons, hgro, hops]
    cases a with
    | deliver chain => exact ⟨rfl, rfl⟩
    | free chain =>
      rw [act, foldl_ndifRxPbufFreed]
      exact ⟨rfl, rfl⟩

theorem foldl_act
    {acts : List RxAct} {r : Multiset ℕ} (hw : w.wraps.Balanced n)
    (hlive : w.wraps.live =
      ((freed acts).map fun p => p.addr : Multiset ℕ) +
        ((delivered acts).flatten.map fun p => p.addr : Multiset ℕ) + r + w.lent) :
  (acts.foldl act w).wraps.Balanced n ∧
    (acts.foldl act w).wraps.live = r + (acts.foldl act w).lent ∧ Unmoved w (acts.foldl act w)
  := by
  induction acts generalizing w with
  | nil =>
    refine ⟨hw, ?_, ⟨rfl, rfl, rfl⟩⟩
    change w.wraps.live = r + w.lent
    rw [hlive]
    simp
  | cons a acts ih =>
    cases a with
    | deliver chain =>
      have hmoved : (w.act (.deliver chain)).wraps.live =
          ((freed acts).map fun p => p.addr : Multiset ℕ) +
            ((delivered acts).flatten.map fun p => p.addr : Multiset ℕ) + r +
            (w.act (.deliver chain)).lent := by
        change w.wraps.live = _ + _ + r + ((chain.map fun p => p.addr : Multiset ℕ) + w.lent)
        rw [hlive]
        change ((freed acts).map fun p => p.addr : Multiset ℕ) +
          ((chain ++ (delivered acts).flatten).map fun p => p.addr : Multiset ℕ) + r + w.lent = _
        rw [List.map_append, ← Multiset.coe_add]
        abel
      obtain ⟨hbalanced, hlent, hsame⟩ := ih (w := w.act (.deliver chain)) hw hmoved
      exact ⟨hbalanced, hlent, hsame.came, hsame.task, hsame.returned⟩
    | free chain =>
      have hout : w.wraps.live = (chain.map fun p => p.addr : Multiset ℕ) +
          (((freed acts).map fun p => p.addr : Multiset ℕ) +
            ((delivered acts).flatten.map fun p => p.addr : Multiset ℕ) + r + w.lent) := by
        rw [hlive]
        change ((chain ++ freed acts).map fun p => p.addr : Multiset ℕ) +
          ((delivered acts).flatten.map fun p => p.addr : Multiset ℕ) + r + w.lent = _
        rw [List.map_append, ← Multiset.coe_add]
        abel
      obtain ⟨hback, hrest, hcame⟩ := hw.foldl_refund hout
      have hact : w.act (.free chain) =
          { w with wraps := (chain.map fun p => p.addr).foldl Pool.refund w.wraps } :=
        foldl_ndifRxPbufFreed w _
      rw [List.foldl_cons, hact]
      obtain ⟨hbalanced, hlent, hsame⟩ := ih (w := { w with wraps := _ }) hback hrest
      exact ⟨hbalanced, hlent, hsame.came.trans hcame, hsame.task, hsame.returned⟩

theorem sound_engine
    {op : RxOp} (hrun : w.gro = (RxGro.run offload w.ops).1) (hw : w.wraps.Balanced n)
    (hlive : w.wraps.live = w.gro.wraps + RxGro.given op + w.lent) :
  Sound offload n (w.engine offload op) ∧ Unmoved w (w.engine offload op)
  := by
  have hstep := RxGro.conserved_step offload w.ops op
  rw [← hrun] at hstep
  rw [hstep] at hlive
  obtain ⟨hbalanced, hlent, hsame⟩ := foldl_act
    (w := { w with gro := (RxGro.step offload w.gro op).1, ops := w.ops ++ [op] }) hw hlive
  obtain ⟨hgro, hops⟩ := gro_foldl_act (RxGro.step offload w.gro op).2
    { w with gro := (RxGro.step offload w.gro op).1, ops := w.ops ++ [op] }
  constructor
  · constructor
    · rw [engine, hgro, hops, RxGro.run_append_singleton, ← hrun]
    · apply hbalanced
    · rw [engine, hgro]
      apply hlent
  · exact ⟨hsame.came, hsame.task, hsame.returned⟩

theorem Sound.flush (h : Sound offload n w) :
  Sound offload n (w.engine offload .flush) ∧ Unmoved w (w.engine offload .flush) ∧
    ∀ i, ((w.engine offload .flush).gro i).chain = []
  := by
  have hlive : w.wraps.live = w.gro.wraps + RxGro.given .flush + w.lent := by
    rw [RxGro.given, add_zero, h.live]
  obtain ⟨hsound, hsame⟩ := sound_engine h.run h.balanced hlive
  refine ⟨hsound, hsame, ?_⟩
  intro i
  have hgro : (w.engine offload .flush).gro = (RxGro.step offload w.gro .flush).1 :=
    (gro_foldl_act _ _).1
  rw [hgro]
  apply RxGro.chain_rxgroFlushAll

/-! ### Cookies -/

def cookies (descs : List (NetDevRxDesc χ)) (k : ℕ) : List χ :=
  (descs.take k).map fun d => d.cookie

def taken : UnitTask χ → List χ
  | .idle => []
  | .outer c => cookies c.descs c.consumed
  | .chunk c _ => cookies c.descs c.consumed
  | .yield c _ => cookies c.descs c.consumed

def consumed (w : NetdevIf χ) : List χ :=
  (w.returned.flatMap fun r => cookies r.1 r.2) ++ taken w.task

def InBatch : UnitTask χ → Prop
  | .idle => True
  | .outer c => c.consumed ≤ c.descs.length
  | .chunk c left => c.consumed + left ≤ c.descs.length
  | .yield c left => c.consumed + left ≤ c.descs.length

structure Accounted (w : NetdevIf χ) : Prop where
  came : w.wraps.came = w.consumed
  returned : ∀ r ∈ w.returned, r.2 ≤ r.1.length
  task : InBatch w.task
  empty : ¬ w.task.Locked → ∀ i, (w.gro i).chain = []

theorem cookies_succ
    {descs : List (NetDevRxDesc χ)} {k : ℕ} {d : NetDevRxDesc χ} (h : descs[k]? = some d) :
  cookies descs (k + 1) = cookies descs k ++ [d.cookie]
  := by
  rw [cookies, take_add_one, h, map_append]
  rfl

theorem Accounted.move
    {l : List χ} (h : Accounted w) (hcame : w'.wraps.came = w.wraps.came + l)
    (hreturned : w'.returned = w.returned) (htaken : taken w'.task = taken w.task ++ l)
    (htask : InBatch w'.task) (hempty : ¬ w'.task.Locked → ∀ i, (w'.gro i).chain = []) :
  Accounted w'
  := by
  constructor
  · rw [hcame, h.came, coe_add, consumed, consumed, hreturned, htaken, append_assoc]
  · rw [hreturned]
    apply h.returned
  · apply htask
  · apply hempty

theorem Accounted.finish
    {c : RxInput χ} (h : Accounted w) (hsame : Unmoved w w')
    (htaken : taken w.task = cookies c.descs c.consumed) (hc : c.consumed ≤ c.descs.length)
    (hempty : ∀ i, (w'.gro i).chain = []) :
  Accounted (w'.finish c)
  := by
  have hconsumed : (w'.finish c).consumed = w.consumed := by
    rw [consumed, consumed, htaken]
    simp [NetdevIf.finish, taken, hsame.returned]
  constructor
  · rw [hconsumed, ← h.came, ← hsame.came]
    rfl
  · intro r hr
    obtain hold | hnew := List.mem_append.mp hr
    · rw [hsame.returned] at hold
      apply h.returned r hold
    · rw [List.mem_singleton.mp hnew]
      apply hc
  · trivial
  · intro _
    apply hempty

/-! ### Steps -/

structure Inv (offload : Bool) (n : ℕ) (w : NetdevIf χ) : Prop where
  sound : Sound offload n w
  accounted : Accounted w

theorem inv_create (n : ℕ) (tag : ℕ → χ) :
  Inv offload n (create n tag)
  := by
  constructor
  · constructor
    · rfl
    · apply Pool.balanced_fresh
    · change (0 : Multiset ℕ) = RxGro.wraps rxgroInit + 0
      rw [RxGro.wraps_init, add_zero]
  · constructor
    · rfl
    · nofun
    · trivial
    · intro _ i
      rfl

theorem Inv.inBatch
    {c : RxInput χ} {left : ℕ} (h : Inv offload n w) (htask : w.task = .chunk c left) :
  c.consumed + left ≤ c.descs.length
  := by
  have hbatch := h.accounted.task
  rw [htask] at hbatch
  apply hbatch

theorem Inv.consume
    {c : RxInput χ} {left s : ℕ} {d : NetDevRxDesc χ} (h : Inv offload n w)
    (htask : w.task = .chunk c (left + 1)) (hd : c.descs[c.consumed]? = some d)
    (hsound : Sound offload n w') (hcame : w'.wraps.came = d.cookie ::ₘ w.wraps.came)
    (hreturned : w'.returned = w.returned)
    (htask' : w'.task = .chunk ⟨c.descs, c.consumed + 1, s⟩ left ∨
      w'.task = .yield ⟨c.descs, c.consumed + 1, s⟩ left ∧ ∀ i, (w'.gro i).chain = []) :
  Inv offload n w'
  := by
  have hbatch := h.inBatch htask
  have hin : c.consumed + 1 + left ≤ c.descs.length := by
    omega
  have htaken : cookies c.descs (c.consumed + 1) = taken w.task ++ [d.cookie] := by
    rw [cookies_succ hd, htask]
    rfl
  have hcame' : w'.wraps.came = w.wraps.came + [d.cookie] := by
    rw [hcame, coe_singleton, ← singleton_add, add_comm]
  use hsound
  obtain hchunk | ⟨hyield, hempty⟩ := htask'
  · apply h.accounted.move hcame' hreturned
    · rw [hchunk]
      apply htaken
    · rw [hchunk]
      apply hin
    · intro hunlocked
      rw [hchunk] at hunlocked
      exact absurd trivial hunlocked
  · apply h.accounted.move hcame' hreturned
    · rw [hyield]
      apply htaken
    · rw [hyield]
      apply hin
    · intro _
      apply hempty

theorem Inv.ndifRxFrame
    {contended : Bool} {c : RxInput χ} {left : ℕ} {d : NetDevRxDesc χ} (h : Inv offload n w)
    (htask : w.task = .chunk c (left + 1)) (hd : c.descs[c.consumed]? = some d) :
  Inv offload n (w.ndifRxFrame offload contended c left d)
  := by
  unfold NetdevIf.ndifRxFrame
  split
  · -- The frame is dropped.
    obtain ⟨hsound, hsame, -⟩ := h.sound.flush
    apply h.consume (s := c.sinceYield) htask hd
    · exact ⟨hsound.run, hsound.balanced.pass d.cookie, hsound.live⟩
    · rw [← hsame.came]
      rfl
    · apply hsame.returned
    · left
      rfl
  · split
    · -- No wrap is free.
      obtain ⟨hsound, hsame, hempty⟩ := h.sound.flush
      have hbatch := h.inBatch htask
      constructor
      · exact ⟨hsound.run, hsound.balanced, hsound.live⟩
      · apply h.accounted.finish hsame
        · rw [htask]
          rfl
        · omega
        · apply hempty
    · rename_i a wraps hborrow
      obtain ⟨hlive, hcame⟩ := Pool.borrow_some hborrow
      have hgiven : wraps.live = w.gro.wraps + RxGro.given (.frame a d.frame) + w.lent := by
        rw [hlive, h.sound.live, RxGro.given, add_right_comm, ← singleton_add, add_comm]
      obtain ⟨hsound, hsame⟩ := sound_engine (w := { w with wraps := wraps }) h.sound.run
        (h.sound.balanced.borrow hborrow) hgiven
      dsimp only
      split
      · -- The lock is given up for a moment.
        obtain ⟨hsound', hsame', hempty⟩ := hsound.flush
        apply h.consume (s := 0) htask hd
        · exact ⟨hsound'.run, hsound'.balanced, hsound'.live⟩
        · exact hsame'.came.trans (hsame.came.trans hcame)
        · exact hsame'.returned.trans hsame.returned
        · right
          exact ⟨rfl, hempty⟩
      · apply h.consume (s := c.sinceYield + 1) htask hd
        · exact ⟨hsound.run, hsound.balanced, hsound.live⟩
        · exact hsame.came.trans hcame
        · apply hsame.returned
        · left
          rfl

theorem Sound.free {a : ℕ} (h : Sound offload n w) (ha : a ∈ w.lent) :
  Sound offload n ({ w with lent := w.lent.erase a }.ndifRxPbufFreed a)
  := by
  have hmem : a ∈ w.wraps.live := by
    rw [h.live]
    exact mem_add.mpr (.inr ha)
  constructor
  · apply h.run
  · apply h.balanced.refund hmem
  · change w.wraps.live.erase a = w.gro.wraps + w.lent.erase a
    rw [h.live, erase_add_right_pos _ ha]

theorem Inv.next {l : NetdevLabel χ} (h : Inv offload n w) (hnext : w.next offload l = some w') :
  Inv offload n w'
  := by
  obtain ⟨hsound, haccounted⟩ := h
  cases l with
  | call descs =>
    simp only [NetdevIf.next] at hnext
    split at hnext
    · rename_i htask
      cases hnext
      use ⟨hsound.run, hsound.balanced, hsound.live⟩
      apply haccounted.move (l := [])
      · exact (add_zero _).symm
      · rfl
      · rw [htask]
        rfl
      · apply Nat.zero_le
      · intro _
        apply haccounted.empty
        rw [htask]
        apply id
    · contradiction
  | outer =>
    simp only [NetdevIf.next] at hnext
    split at hnext
    · rename_i c htask
      have hin := haccounted.task
      have hempty : ∀ i, (w.gro i).chain = [] := by
        apply haccounted.empty
        rw [htask]
        apply id
      rw [htask] at hin
      split at hnext
      · cases hnext
        use ⟨hsound.run, hsound.balanced, hsound.live⟩
        apply haccounted.move (l := [])
        · exact (add_zero _).symm
        · rfl
        · rw [htask, append_nil]
          rfl
        · change c.consumed + min (c.descs.length - c.consumed) NDIF_RX_CHUNK ≤ c.descs.length
          omega
        · intro _
          apply hempty
      · cases hnext
        use ⟨hsound.run, hsound.balanced, hsound.live⟩
        apply haccounted.finish ⟨rfl, rfl, rfl⟩
        · rw [htask]
          rfl
        · apply hin
        · apply hempty
    · contradiction
  | frame contended =>
    simp only [NetdevIf.next] at hnext
    split at hnext
    · rename_i c left htask
      obtain ⟨d, hd, rfl⟩ := map_eq_some_iff.mp hnext
      apply Inv.ndifRxFrame ⟨hsound, haccounted⟩ htask hd
    · contradiction
  | unlock =>
    simp only [NetdevIf.next] at hnext
    split at hnext
    · rename_i c htask
      cases hnext
      obtain ⟨hsound', hsame, hempty⟩ := hsound.flush
      use ⟨hsound'.run, hsound'.balanced, hsound'.live⟩
      apply haccounted.move (l := [])
      · exact hsame.came.trans (add_zero _).symm
      · apply hsame.returned
      · rw [htask, append_nil]
        rfl
      · exact Inv.inBatch ⟨hsound, haccounted⟩ htask
      · intro _
        apply hempty
    · contradiction
  | relock =>
    simp only [NetdevIf.next] at hnext
    split at hnext
    · rename_i c left htask
      have hin := haccounted.task
      rw [htask] at hin
      cases hnext
      use ⟨hsound.run, hsound.balanced, hsound.live⟩
      apply haccounted.move (l := [])
      · exact (add_zero _).symm
      · rfl
      · rw [htask, append_nil]
        rfl
      · apply hin
      · intro hunlocked
        exact absurd trivial hunlocked
    · contradiction
  | free a =>
    simp only [NetdevIf.next, ite_none_right_eq_some] at hnext
    obtain ⟨ha, hw'⟩ := hnext
    obtain rfl := some.inj hw'
    use hsound.free ha
    exact ⟨haccounted.came, haccounted.returned, haccounted.task, haccounted.empty⟩

theorem inv_of_reachable (h : (system offload n).Reachable w) :
  Inv offload n w
  := by
  apply h.invariant
  · rintro w ⟨tag, rfl⟩
    apply inv_create
  · intro w l w' hw _ hnext
    apply hw.next hnext

/-! ### Calls return -/

def work : UnitTask χ → ℕ
  | .idle => 0
  | .outer c => 4 * (c.descs.length - c.consumed) + 3
  | .chunk c 0 => 4 * (c.descs.length - c.consumed) + 4
  | .chunk c (_ + 1) => 4 * (c.descs.length - c.consumed) + 2
  | .yield c _ => 4 * (c.descs.length - c.consumed) + 5

theorem work_chunk_le (c : RxInput χ) (left : ℕ) :
  work (.chunk c left) ≤ 4 * (c.descs.length - c.consumed) + 4
  := by
  cases left with
  | zero => rfl
  | succ left =>
    rw [work]
    omega

theorem task_ndifRxFrame
    (offload contended : Bool) (w : NetdevIf χ) (c : RxInput χ) (left : ℕ) (d : NetDevRxDesc χ) :
  ∃ s, (w.ndifRxFrame offload contended c left d).task = .idle ∨
    (w.ndifRxFrame offload contended c left d).task = .chunk ⟨c.descs, c.consumed + 1, s⟩ left ∨
    (w.ndifRxFrame offload contended c left d).task = .yield ⟨c.descs, c.consumed + 1, s⟩ left
  := by
  unfold NetdevIf.ndifRxFrame
  split
  · use c.sinceYield
    right; left
    rfl
  · split
    · use 0
      left
      rfl
    · dsimp only
      split
      · use 0
        right; right
        rfl
      · use c.sinceYield + 1
        right; left
        rfl

theorem Inv.progress (h : Inv offload n w) (hbusy : w.task ≠ .idle) (contended : Bool) :
  ∃ l ∈ [NetdevLabel.outer, .frame contended, .unlock, .relock], ∃ w',
    w.next offload l = some w' ∧ work w'.task < work w.task
  := by
  have hbatch := h.accounted.task
  cases htask : w.task with
  | idle => contradiction
  | outer c =>
    use .outer, by simp
    simp only [NetdevIf.next, htask]
    split
    · rename_i hlt
      refine ⟨_, rfl, ?_⟩
      obtain ⟨left, hleft⟩ : ∃ left,
          min (c.descs.length - c.consumed) NDIF_RX_CHUNK = left + 1 := by
        apply Nat.exists_eq_add_one.mpr
        rw [NDIF_RX_CHUNK]
        omega
      rw [hleft, work, work]
      omega
    · refine ⟨_, rfl, ?_⟩
      change 0 < work (.outer c)
      rw [work]
      omega
  | chunk c left =>
    rw [htask] at hbatch
    change c.consumed + left ≤ c.descs.length at hbatch
    cases left with
    | zero =>
      use .unlock, by simp
      simp only [NetdevIf.next, htask]
      refine ⟨_, rfl, ?_⟩
      rw [work, work]
      omega
    | succ left =>
      have hd : c.descs[c.consumed]? = some (c.descs.get ⟨c.consumed, by omega⟩) := by
        rw [getElem?_eq_getElem (by omega)]
        rfl
      use .frame contended, by simp
      simp only [NetdevIf.next, htask, hd, map_some]
      refine ⟨_, rfl, ?_⟩
      obtain ⟨s, hidle | hchunk | hyield⟩ := task_ndifRxFrame offload contended w c
        left (c.descs.get ⟨c.consumed, by omega⟩)
      · rw [hidle, work, work]
        omega
      · rw [hchunk]
        apply (work_chunk_le _ _).trans_lt
        rw [work]
        dsimp only
        omega
      · rw [hyield, work, work]
        dsimp only
        omega
  | yield c left =>
    use .relock, by simp
    simp only [NetdevIf.next, htask]
    refine ⟨_, rfl, ?_⟩
    apply (work_chunk_le c left).trans_lt
    rw [work]
    omega

/-! ### Conservation -/

/-- The cookies the calls have consumed were released or belong each to one wrap that is out, held by
the engine or lent to lwIP, and the other wraps are free. -/
theorem rxBuffers_conserved (h : (system offload n).Reachable w) :
  (∀ r ∈ w.returned, r.2 ≤ r.1.length) ∧
    (w.consumed : Multiset χ) = w.wraps.released + w.wraps.live.map w.wraps.tag ∧
    (∀ c, c ∉ w.consumed → c ∉ w.wraps.released ∧ ∀ a ∈ w.wraps.live, w.wraps.tag a ≠ c) ∧
    w.wraps.live = w.gro.wraps + w.lent ∧
    (w.wraps.free : Multiset ℕ) + w.gro.wraps + w.lent = Multiset.range n ∧
    (∀ a ∈ w.lent, ∃ w', w.next offload (.free a) = some w' ∧
      w'.wraps.released = w.wraps.tag a ::ₘ w.wraps.released ∧ a ∉ w'.wraps.live) ∧
    w.wraps.free.length + w.wraps.out = n ∧
    (¬ w.task.Locked → ∀ i, (w.gro i).chain = []) ∧
    (w.task ≠ .idle → ∀ contended,
      ∃ l ∈ [NetdevLabel.outer, .frame contended, .unlock, .relock], ∃ w',
        w.next offload l = some w' ∧ work w'.task < work w.task)
  := by
  have hinv := inv_of_reachable h
  have hsound := hinv.sound
  have haccounted := hinv.accounted
  have hitems : (w.consumed : Multiset χ) = w.wraps.released + w.wraps.live.map w.wraps.tag := by
    rw [← haccounted.came, hsound.balanced.items]
  refine ⟨haccounted.returned, hitems, ?_, hsound.live, ?_, ?_, hsound.balanced.count,
    haccounted.empty, hinv.progress⟩
  · intro c hc
    rw [← Multiset.mem_coe, hitems, Multiset.mem_add, not_or, Multiset.mem_map] at hc
    use hc.1
    intro a ha heq
    apply hc.2
    use a
  · rw [add_assoc, ← hsound.live, hsound.balanced.tokens]
  · intro a ha
    refine ⟨_, if_pos ha, rfl, ?_⟩
    apply Multiset.Nodup.notMem_erase
    apply Multiset.nodup_of_le (Multiset.le_add_left _ _) hsound.balanced.nodup

def twoFrames : List (NetDevRxDesc ℕ) :=
  [⟨⟨fun _ => 0, 0⟩, 0, 0, 7⟩, ⟨⟨fun _ => 0, 0⟩, 0, 0, 8⟩]

def backpressure : List (NetdevLabel ℕ) :=
  [.call twoFrames, .outer, .frame false, .frame false, .free 0]

/-- The first frame is consumed and its buffer is released when lwIP frees it; the second frame is
left to the driver. -/
theorem rxBuffers_conserved_backpressure :
  ∃ w : NetdevIf ℕ, (system false 1).Reachable w ∧ w.returned = [(twoFrames, 1)] ∧
    (w.consumed : Multiset ℕ) = w.wraps.released + w.wraps.live.map w.wraps.tag ∧
    w.wraps.released = {7}
  := by
  have hrun : ((system false 1).exec (create 1 fun _ => 0) backpressure).isSome = true := by
    decide
  have hreach : (system false 1).Reachable ((system false 1).last _ _ hrun) :=
    TransitionSystem.reachable_last ⟨fun _ => 0, rfl⟩
  refine ⟨_, hreach, rfl, (rxBuffers_conserved hreach).2.1, rfl⟩

end NetdevIf
