import LwipAmiga.Lib.Hold
import LwipAmiga.Rx.Gro

/-!
# The engine as a table of held frames

What a context can do with a frame is one of six things (`Takes`).
-/

open List Function

open Hold

def RxPbuf.id (p : RxPbuf) : ℕ × RxFrame :=
  (p.addr, p.frame)

@[simp]
theorem RxFrame.id_pbuf (f : RxFrame) (addr : ℕ) :
  (f.pbuf addr).id = (addr, f)
  := rfl

@[simp]
theorem RxFrame.frame_pbuf (f : RxFrame) (addr : ℕ) :
  (f.pbuf addr).frame = f
  := rfl

/-! ### Actions -/

@[simp]
theorem delivered_append (acts acts' : List RxAct) :
  delivered (acts ++ acts') = delivered acts ++ delivered acts'
  := filterMap_append

@[simp]
theorem freed_append (acts acts' : List RxAct) :
  freed (acts ++ acts') = freed acts ++ freed acts'
  := flatMap_append

@[simp]
theorem delivered_nil :
  delivered [] = []
  := rfl

@[simp]
theorem freed_nil :
  freed [] = []
  := rfl

@[simp]
theorem delivered_deliver (chain : List RxPbuf) :
  delivered [.deliver chain] = [chain]
  := rfl

@[simp]
theorem freed_deliver (chain : List RxPbuf) :
  freed [.deliver chain] = []
  := rfl

@[simp]
theorem delivered_free (chain : List RxPbuf) :
  delivered [.free chain] = []
  := rfl

@[simp]
theorem freed_free (chain : List RxPbuf) :
  freed [.free chain] = chain
  := append_nil chain

/-! ### Contexts -/

namespace RxGroCtx

variable {c c' : RxGroCtx} {p : RxPbuf} {m : RxGroMeta} {acts : List RxAct}

inductive Takes (c : RxGroCtx) (p : RxPbuf) (m : RxGroMeta) : RxGroCtx → List RxAct → Prop where
  | release (hcls : m.cls = .nomerge) (hchain : c.chain ≠ []) (hkey : c.key = m.key) :
      Takes c p m c.rxgroFlush.1 (c.rxgroFlush.2 ++ [.deliver [p]])
  | pass (hcls : m.cls = .nomerge) (hother : c.chain = [] ∨ c.key ≠ m.key) :
      Takes c p m c [.deliver [p]]
  | renew {ackNo : UInt32} (hcls : m.cls = .ack ackNo) (hchain : c.chain ≠ [])
      (hkey : c.key = m.key) (hack : c.isAck = true) (hnewer : rxgroSeqGt ackNo c.nextSeq = true) :
      Takes c p m { c with chain := [p], nextSeq := ackNo } [.free c.chain]
  | hold {ackNo : UInt32} (hcls : m.cls = .ack ackNo) :
      Takes c p m (c.rxgroFlush.1.holdAck p m.key ackNo) c.rxgroFlush.2
  | absorb {seq : UInt32} {payOff payLen flags : ℕ} (hcls : m.cls = .merge seq payOff payLen flags)
      (hchain : c.chain ≠ []) (hkey : c.key = m.key) (hack : c.isAck = false)
      (hseq : seq = c.nextSeq) (hframes : c.frames < RXGRO_MAX_FRAMES) :
      Takes c p m (c.absorb p payOff payLen flags) []
  | start {seq : UInt32} {payOff payLen flags : ℕ} (hcls : m.cls = .merge seq payOff payLen flags) :
      Takes c p m (c.rxgroFlush.1.startRun p m.key seq payOff payLen) c.rxgroFlush.2

theorem sameflow_iff {key : FlowKey} :
  c.sameflow key = true ↔ c.chain ≠ [] ∧ c.key = key
  := by
  simp [sameflow]

theorem takes_take (c : RxGroCtx) (p : RxPbuf) (m : RxGroMeta) :
  Takes c p m (c.take p m).1 (c.take p m).2
  := by
  unfold take
  cases hcls : m.cls with
  | nomerge =>
    by_cases hflow : c.sameflow m.key = true
    · obtain ⟨hchain, hkey⟩ := sameflow_iff.mp hflow
      simp only [hflow, if_true]
      exact .release hcls hchain hkey
    · simp only [hflow, Bool.false_eq_true, if_false]
      apply Takes.pass hcls
      rw [sameflow_iff] at hflow
      tauto
  | ack ackNo =>
    by_cases hrenew : (c.sameflow m.key && c.isAck && rxgroSeqGt ackNo c.nextSeq) = true
    · simp only [hrenew, if_true]
      simp only [Bool.and_eq_true, sameflow_iff] at hrenew
      exact .renew hcls hrenew.1.1.1 hrenew.1.1.2 hrenew.1.2 hrenew.2
    · simp only [hrenew, Bool.false_eq_true, if_false]
      exact .hold hcls
  | merge seq payOff payLen flags =>
    by_cases habsorb : (c.sameflow m.key && !c.isAck && seq == c.nextSeq &&
        decide (c.frames < RXGRO_MAX_FRAMES)) = true
    · simp only [habsorb, if_true]
      simp only [Bool.and_eq_true, sameflow_iff, Bool.not_eq_true', beq_iff_eq,
        decide_eq_true_eq] at habsorb
      obtain ⟨⟨⟨⟨hchain, hkey⟩, hack⟩, hseq⟩, hframes⟩ := habsorb
      exact .absorb hcls hchain hkey hack hseq hframes
    · simp only [habsorb, Bool.false_eq_true, if_false]
      exact .start hcls

theorem take_absorb
    {seq : UInt32} {payOff payLen flags : ℕ} (hcls : m.cls = .merge seq payOff payLen flags)
    (hchain : c.chain ≠ []) (hkey : c.key = m.key) (hack : c.isAck = false)
    (hseq : seq = c.nextSeq) (hframes : c.frames < RXGRO_MAX_FRAMES) :
  c.take p m = (c.absorb p payOff payLen flags, [])
  := by
  have hflow := sameflow_iff.mpr ⟨hchain, hkey⟩
  simp [take, hcls, hflow, hack, hseq, hframes]

theorem take_start
    {seq : UInt32} {payOff payLen flags : ℕ} (hcls : m.cls = .merge seq payOff payLen flags)
    (hchain : c.chain = []) :
  c.take p m = (c.startRun p m.key seq payOff payLen, [])
  := by
  have hflow : c.sameflow m.key = false := by
    simp [sameflow, hchain]
  simp [take, hcls, hflow, rxgroFlush, hchain]

theorem take_pass (hcls : m.cls = .nomerge) (hother : c.chain = [] ∨ c.key ≠ m.key) :
  c.take p m = (c, [.deliver [p]])
  := by
  have hflow : c.sameflow m.key = false := by
    rw [← Bool.not_eq_true, sameflow_iff]
    tauto
  simp [take, hcls, hflow]

theorem take_hold {ackNo : UInt32} (hcls : m.cls = .ack ackNo) (hchain : c.chain = []) :
  c.take p m = (c.holdAck p m.key ackNo, [])
  := by
  have hflow : c.sameflow m.key = false := by
    simp [sameflow, hchain]
  simp [take, hcls, hflow, rxgroFlush, hchain]

section Expects

variable {k : FlowKey} {seq : UInt32} {payOff payLen flags count : ℕ}

structure Expects (c : RxGroCtx) (k : FlowKey) (seq : UInt32) (count : ℕ) : Prop where
  chain : c.chain ≠ []
  key : c.key = k
  data : c.isAck = false
  nextSeq : c.nextSeq = seq
  frames : c.frames = count

theorem expects_start (hm : m = ⟨k, .merge seq payOff payLen flags⟩)
    (hchain : c.chain = []) :
  (c.take p m).1.Expects k (seq + UInt32.ofNat payLen) 1
  := by
  subst hm
  rw [take_start rfl hchain]
  constructor
  · apply cons_ne_nil
  · rfl
  · rfl
  · rfl
  · rfl

theorem Expects.take
    (h : c.Expects k seq count) (hm : m = ⟨k, .merge seq payOff payLen flags⟩)
    (hcount : count < RXGRO_MAX_FRAMES) :
  (c.take p m).1.Expects k (seq + UInt32.ofNat payLen) (count + 1)
  := by
  subst hm
  obtain ⟨hchain, hkey, hdata, hnext, hframes⟩ := h
  rw [take_absorb rfl hchain hkey hdata hnext.symm (by omega)]
  obtain ⟨head, rest, hcons⟩ := exists_cons_of_ne_nil hchain
  constructor
  · simp [absorb, hcons]
  · apply hkey
  · apply hdata
  · rw [← hnext]
    rfl
  · rw [← hframes]
    rfl

end Expects

theorem rxgroFlush_fst (c : RxGroCtx) :
  c.rxgroFlush.1 = { c with chain := [] }
  := by
  unfold rxgroFlush
  split
  · rename_i h
    rw [← h]
  · rfl

theorem rxgroFlush_snd (c : RxGroCtx) :
  c.rxgroFlush.2 = if c.chain = [] then [] else [.deliver c.flushed]
  := by
  unfold rxgroFlush
  split
  · rename_i h
    rw [if_pos h]
  · rename_i h
    rw [h, if_neg (cons_ne_nil _ _)]

theorem map_id_setTotLens (remaining : ℕ) (qs : List RxPbuf) :
  (setTotLens remaining qs).map RxPbuf.id = qs.map RxPbuf.id
  := by
  induction qs generalizing remaining with
  | nil => rfl
  | cons q qs ih =>
    rw [setTotLens, map_cons, map_cons, ih]
    rfl

theorem map_id_flushed (c : RxGroCtx) :
  c.flushed.map RxPbuf.id = c.chain.map RxPbuf.id
  := by
  unfold flushed
  split
  · rename_i h
    rw [h]
  · rename_i head rest h
    rw [h]
    split
    · rw [map_id_setTotLens]
      rfl
    · rfl

theorem delivered_rxgroFlush (c : RxGroCtx) :
  (delivered c.rxgroFlush.2).map (map RxPbuf.id) = emit (c.chain.map RxPbuf.id)
  := by
  rw [rxgroFlush_snd]
  cases h : c.chain with
  | nil => rfl
  | cons head rest =>
    have hids := c.map_id_flushed
    rw [h] at hids
    rw [if_neg (cons_ne_nil _ _), delivered_deliver, map_cons, hids]
    rfl

theorem freed_rxgroFlush (c : RxGroCtx) :
  freed c.rxgroFlush.2 = []
  := by
  rw [rxgroFlush_snd]
  split <;> rfl

theorem map_id_absorb (c : RxGroCtx) (p : RxPbuf) (payOff payLen flags : ℕ) (h : c.chain ≠ []) :
  (c.absorb p payOff payLen flags).chain.map RxPbuf.id = c.chain.map RxPbuf.id ++ [p.id]
  := by
  obtain ⟨head, rest, hchain⟩ := exists_cons_of_ne_nil h
  have hstrip : (p.strip payOff).id = p.id := by
    unfold RxPbuf.strip
    split <;> rfl
  have hhead : ({ head with toPbuf := head.refresh p.toPbuf c.ip payOff flags } : RxPbuf).id =
      head.id := by
    unfold Pbuf.refresh
    simp only
    split <;> rfl
  simp only [absorb, hchain, cons_append, map_cons, map_append, hstrip, hhead,
    map_nil]

end RxGroCtx

/-! ### Flows -/

def flowOf (x : ℕ × RxFrame) : Option FlowKey :=
  x.2.flow

def slotOf (k : Option FlowKey) : Fin RXGRO_FLOWS :=
  match k with
  | none => ⟨0, by decide⟩
  | some k => k.slot

def NewerAck (x a : ℕ × RxFrame) : Prop :=
  ∃ k n n', x.2.groMeta = some ⟨k, .ack n⟩ ∧ a.2.groMeta = some ⟨k, .ack n'⟩ ∧
    rxgroSeqGt n n' = true

namespace RxGroCtx

variable {c c' : RxGroCtx} {p : RxPbuf} {m : RxGroMeta} {acts : List RxAct}

structure Holds (c : RxGroCtx) : Prop where
  flow : ∀ p ∈ c.chain, p.frame.flow = some c.key
  ack : c.isAck = true → c.chain ≠ [] →
    ∃ p, c.chain = [p] ∧ p.frame.groMeta = some ⟨c.key, .ack c.nextSeq⟩

theorem holds_of_chain_eq_nil (h : c.chain = []) :
  c.Holds
  := by
  constructor
  · rw [h]
    nofun
  · intro _ hne
    contradiction

theorem flow_of_groMeta (h : p.frame.groMeta = some m) :
  p.frame.flow = some m.key
  := by
  rw [RxFrame.flow, h]
  rfl

theorem holds_single
    (hchain : c.chain = [p]) (hkey : p.frame.flow = some c.key)
    (hack : c.isAck = true → p.frame.groMeta = some ⟨c.key, .ack c.nextSeq⟩) :
  c.Holds
  := by
  constructor
  · rw [hchain]
    simpa using hkey
  · intro h _
    use p, hchain
    apply hack h

theorem Takes.holds (h : Takes c p m c' acts) (hc : c.Holds) (hm : p.frame.groMeta = some m) :
  c'.Holds
  := by
  have hflow := flow_of_groMeta hm
  cases h with
  | release hcls hchain hkey =>
    rw [rxgroFlush_fst]
    apply holds_of_chain_eq_nil rfl
  | pass hcls hother => apply hc
  | renew hcls hchain hkey hack hnewer =>
    apply holds_single rfl
    · rw [hflow, hkey]
    · intro _
      rw [hm, hkey, ← hcls]
  | @hold ackNo hcls =>
    apply holds_single rfl
    · apply hflow
    · intro _
      change p.frame.groMeta = some ⟨m.key, .ack ackNo⟩
      rw [hm, ← hcls]
  | @absorb seq payOff payLen flags hcls hchain hkey hack hseq hframes =>
    constructor
    · intro q hq
      have hids := c.map_id_absorb p payOff payLen flags hchain
      have hq' := mem_map_of_mem (f := RxPbuf.id) hq
      rw [hids, mem_append, mem_singleton] at hq'
      obtain hold | hnew := hq'
      · obtain ⟨q', hq', heq⟩ := mem_map.mp hold
        have hframe : q'.frame = q.frame := congrArg Prod.snd heq
        rw [← hframe, hc.flow q' hq']
        rfl
      · have hframe : q.frame = p.frame := congrArg Prod.snd hnew
        rw [hframe, hflow, ← hkey]
        rfl
    · intro hack' _
      change c.isAck = true at hack'
      rw [hack] at hack'
      contradiction
  | start hcls =>
    apply holds_single rfl
    · apply hflow
    · nofun

theorem Takes.took (h : Takes c p m c' acts) (hc : c.Holds) (hm : p.frame.groMeta = some m) :
  Took flowOf NewerAck (c.chain.map RxPbuf.id) p.id ((delivered acts).map (map RxPbuf.id))
    ((freed acts).map RxPbuf.id) (c'.chain.map RxPbuf.id)
  := by
  have hflow : flowOf p.id = some m.key := flow_of_groMeta hm
  have hkey : ∀ y ∈ c.chain.map RxPbuf.id, flowOf y = some c.key := by
    intro y hy
    obtain ⟨q, hq, rfl⟩ := mem_map.mp hy
    apply hc.flow q hq
  cases h with
  | release hcls hchain hkey =>
    rw [rxgroFlush_fst, delivered_append, map_append, delivered_rxgroFlush, freed_append,
      freed_rxgroFlush]
    exact .release
  | pass hcls hother =>
    apply Took.pass
    intro y hy heq
    rw [hkey y hy, hflow, Option.some.injEq] at heq
    obtain hnil | hne := hother
    · rw [hnil] at hy
      contradiction
    · contradiction
  | renew hcls hchain hkey' hack hnewer =>
    obtain ⟨a, ha, hameta⟩ := hc.ack hack hchain
    rw [freed_free, ha]
    apply Took.renew rfl
    · rw [hflow, hkey a.id (by rw [ha]; simp), hkey']
    · refine ⟨c.key, _, _, ?_, hameta, hnewer⟩
      change p.frame.groMeta = _
      rw [hm, hkey', ← hcls]
  | hold hcls | start hcls =>
    rw [delivered_rxgroFlush, freed_rxgroFlush]
    exact .start
  | absorb hcls hchain hkey' hack hseq hframes =>
    rw [map_id_absorb c p _ _ _ hchain]
    apply Took.push
    intro y hy
    rw [hkey y hy, hflow, hkey']

end RxGroCtx

/-! ### Runs -/

namespace RxGro

variable {gro : Bool} {g : RxGro} {ops : List RxOp} {op : RxOp}

def held (g : RxGro) (i : Fin RXGRO_FLOWS) : List (ℕ × RxFrame) :=
  (g i).chain.map RxPbuf.id

theorem held_update (g : RxGro) (i : Fin RXGRO_FLOWS) (c : RxGroCtx) :
  held (update g i c) = update (held g) i (c.chain.map RxPbuf.id)
  := by
  funext j
  obtain rfl | hj := eq_or_ne j i
  · rw [held, update_self, update_self]
  · rw [held, update_of_ne hj, update_of_ne hj]
    rfl

def item : RxOp → Op (ℕ × RxFrame)
  | .frame addr f => .item (addr, f)
  | .flush => .flush

structure Holds (gro : Bool) (g : RxGro) : Prop where
  ctx : ∀ i, (g i).Holds
  idle : gro = false → ∀ i, (g i).chain = []

theorem holds_init (gro : Bool) :
  Holds gro rxgroInit
  := by
  constructor
  · intro i
    apply RxGroCtx.holds_of_chain_eq_nil rfl
  · intro _ i
    rfl

theorem run_append_singleton (gro : Bool) (ops : List RxOp) (op : RxOp) :
  run gro (ops ++ [op]) =
    ((step gro (run gro ops).1 op).1, (run gro ops).2 ++ (step gro (run gro ops).1 op).2)
  := by
  rw [run, foldl_append]
  rfl

theorem delivered_rxgroFlushAll (g : RxGro) :
  (delivered (rxgroFlushAll g).2).map (map RxPbuf.id) = emitAll (held g)
  := by
  unfold rxgroFlushAll emitAll
  generalize finRange RXGRO_FLOWS = l
  induction l with
  | nil => rfl
  | cons i l ih =>
    rw [flatMap_cons, delivered_append, map_append, ih,
      RxGroCtx.delivered_rxgroFlush, flatMap_cons]
    rfl

theorem mem_delivered_rxgroFlushAll {chain : List RxPbuf} :
  chain ∈ delivered (rxgroFlushAll g).2 ↔ ∃ i, chain ∈ delivered (g i).rxgroFlush.2
  := by
  simp [delivered, rxgroFlushAll, filterMap_flatMap]

theorem rxgroFlushAll_snd_of_idle (h : ∀ i, (g i).chain = []) :
  (rxgroFlushAll g).2 = []
  := by
  apply flatMap_eq_nil_iff.mpr
  intro i _
  rw [RxGroCtx.rxgroFlush_snd, if_pos (h i)]

theorem freed_rxgroFlushAll (g : RxGro) :
  freed (rxgroFlushAll g).2 = []
  := by
  unfold rxgroFlushAll
  generalize finRange RXGRO_FLOWS = l
  induction l with
  | nil => rfl
  | cons i l ih =>
    rw [flatMap_cons, freed_append, ih, RxGroCtx.freed_rxgroFlush]
    rfl

theorem chain_rxgroFlushAll (g : RxGro) (i : Fin RXGRO_FLOWS) :
  ((rxgroFlushAll g).1 i).chain = []
  := by
  change ((g i).rxgroFlush.1).chain = []
  rw [RxGroCtx.rxgroFlush_fst]

theorem idle_of_flush (ops : List RxOp) (i : Fin RXGRO_FLOWS) :
  ((run gro (ops ++ [.flush])).1 i).chain = []
  := by
  rw [run_append_singleton]
  apply chain_rxgroFlushAll

theorem step_frame_some
    {addr : ℕ} {f : RxFrame} {m : RxGroMeta} (hm : f.groMeta = some m) (g : RxGro) :
  step true g (.frame addr f) =
    (update g m.key.slot ((g m.key.slot).take (f.pbuf addr) m).1,
      ((g m.key.slot).take (f.pbuf addr) m).2)
  := by
  rw [step, hm]
  rfl

theorem step_frame_self
    {addr : ℕ} {f : RxFrame} {m : RxGroMeta} (hm : f.groMeta = some m) (g : RxGro) :
  (step true g (.frame addr f)).1 m.key.slot = ((g m.key.slot).take (f.pbuf addr) m).1
  := by
  rw [step_frame_some hm]
  apply update_self

theorem step_frame_bypass
    {addr : ℕ} {f : RxFrame} (h : gro = false ∨ f.groMeta = none) (g : RxGro) :
  step gro g (.frame addr f) = (g, [.deliver [f.pbuf addr]])
  := by
  obtain rfl | hno := h
  · simp only [step, rxgroInput]
    split <;> rfl
  · simp only [step, rxgroInput, hno]

theorem Holds.step (h : Holds gro g) (op : RxOp) :
  Holds gro (step gro g op).1
  := by
  cases op with
  | flush =>
    constructor
    · intro i
      apply RxGroCtx.holds_of_chain_eq_nil (chain_rxgroFlushAll g i)
    · intro _ i
      apply chain_rxgroFlushAll g i
  | frame addr f =>
    by_cases hby : gro = false ∨ f.groMeta = none
    · rw [step_frame_bypass hby]
      apply h
    · push Not at hby
      obtain ⟨m, hm⟩ := Option.ne_none_iff_exists'.mp hby.2
      obtain rfl := Bool.eq_true_of_not_eq_false hby.1
      rw [step_frame_some hm]
      constructor
      · intro i
        change (update g m.key.slot _ i).Holds
        obtain rfl | hi := eq_or_ne i m.key.slot
        · rw [update_self]
          apply (RxGroCtx.takes_take _ _ m).holds (h.ctx _) hm
        · rw [update_of_ne hi]
          apply h.ctx
      · nofun

theorem holds_run (gro : Bool) (ops : List RxOp) :
  Holds gro (run gro ops).1
  := by
  induction ops using reverseRecOn with
  | nil => apply holds_init
  | append_singleton ops op ih =>
    rw [run_append_singleton]
    apply ih.step

theorem Holds.pass
    {addr : ℕ} {f : RxFrame} (h : Holds gro g) (hby : gro = false ∨ f.groMeta = none) :
  ∀ y ∈ held g (slotOf (flowOf (addr, f))), flowOf y ≠ flowOf (addr, f)
  := by
  intro y hy heq
  obtain ⟨q, hq, rfl⟩ := mem_map.mp hy
  obtain hoff | hno := hby
  · rw [h.idle hoff] at hq
    contradiction
  · have hnone : flowOf (addr, f) = none := by
      simp [flowOf, RxFrame.flow, hno]
    have hsome : flowOf q.id = some _ := (h.ctx _).flow q hq
    rw [hsome, hnone] at heq
    contradiction

theorem run_hold (gro : Bool) (ops : List RxOp) :
  Run flowOf NewerAck slotOf (ops.map item) (held (run gro ops).1)
    ((delivered (run gro ops).2).map (map RxPbuf.id)) ((freed (run gro ops).2).map RxPbuf.id)
  := by
  induction ops using reverseRecOn with
  | nil => exact .nil
  | append_singleton ops op ih =>
    have hg := holds_run gro ops
    rw [run_append_singleton, map_append, delivered_append, map_append, freed_append,
      map_append]
    generalize (run gro ops).1 = g at *
    cases op with
    | flush =>
      have hidle : held (step gro g .flush).1 = fun _ => [] := by
        funext i
        rw [held, step, chain_rxgroFlushAll]
        rfl
      rw [hidle, step, delivered_rxgroFlushAll, freed_rxgroFlushAll, map_nil,
        append_nil]
      apply ih.flush
    | frame addr f =>
      by_cases hby : gro = false ∨ f.groMeta = none
      · rw [step_frame_bypass hby]
        have hrun := ih.item (x := (addr, f)) (.pass (hg.pass hby))
        rw [update_eq_self] at hrun
        exact hrun
      · push Not at hby
        obtain ⟨m, hm⟩ := Option.ne_none_iff_exists'.mp hby.2
        obtain rfl := Bool.eq_true_of_not_eq_false hby.1
        have hslot : slotOf (flowOf (addr, f)) = m.key.slot := by
          simp [flowOf, RxFrame.flow, hm, slotOf]
        have htook := (RxGroCtx.takes_take (g m.key.slot) (f.pbuf addr) m).took
          (hg.ctx _) hm
        have hheld : held (step true g (.frame addr f)).1 =
            update (held g) m.key.slot
              (((g m.key.slot).take (f.pbuf addr) m).1.chain.map RxPbuf.id) := by
          rw [step_frame_some hm]
          apply held_update
        rw [hheld, step_frame_some hm, ← hslot]
        apply ih.item
        rw [hslot]
        apply htook

end RxGro
