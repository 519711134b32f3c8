import LwipAmiga.Rx.Length

/-!
# Frames behind the header of another

lwIP drops a packet by its header, and of a merged run it sees the header of the first frame only.
-/

open List Function

open Hold

structure HeaderVerdict where
  ok : List UInt8 → Prop
  decidable : DecidablePred ok
  payload : ∀ {key : FlowKey} {ip add : ℕ} {head : RxPbuf} {rest : List RxPbuf} {nextSeq : UInt32},
    RunOf key ip head rest nextSeq add → (ok head.payload ↔ ok head.frame.bytes)
  fixed : ∀ {key : FlowKey} {ip add : ℕ} {head : RxPbuf} {rest : List RxPbuf} {nextSeq : UInt32},
    RunOf key ip head rest nextSeq add →
      (ok (head.fixed ip add).payload ↔ ok head.frame.bytes)

instance (v : HeaderVerdict) : DecidablePred v.ok := v.decidable

variable {v : HeaderVerdict}

theorem Handed.ok_head {p : RxPbuf} {rest : List RxPbuf} (h : Handed (p :: rest)) :
  v.ok p.payload ↔ v.ok p.frame.bytes
  := by
  generalize hchain : p :: rest = chain at h
  cases h with
  | single hp =>
    obtain ⟨rfl, -⟩ := cons.inj hchain
    rw [hp]
    rfl
  | merged hrun hrest hframes =>
    obtain ⟨rfl, -⟩ := cons.inj hchain
    apply v.fixed hrun

def Laundered (v : HeaderVerdict) (chain : List RxPbuf) : Prop :=
  ∃ p rest, chain = p :: rest ∧ v.ok p.payload ∧ ∃ q ∈ rest, ¬ v.ok q.frame.bytes

theorem not_laundered_nil :
  ¬ Laundered v []
  := by
  simp [Laundered]

theorem laundered_cons {p : RxPbuf} {rest : List RxPbuf} :
  Laundered v (p :: rest) ↔ v.ok p.payload ∧ ∃ q ∈ rest, ¬ v.ok q.frame.bytes
  := by
  constructor
  · rintro ⟨p, rest, ⟨⟩, h⟩
    apply h
  · intro h
    exact ⟨p, rest, rfl, h⟩

theorem not_laundered_single (p : RxPbuf) :
  ¬ Laundered v [p]
  := by
  simp [laundered_cons]

theorem laundered_setTotLens {remaining : ℕ} {p : RxPbuf} {rest : List RxPbuf} :
  Laundered v (setTotLens remaining (p :: rest)) ↔
    v.ok p.payload ∧ ∃ q ∈ rest, ¬ v.ok q.frame.bytes
  := by
  rw [setTotLens, laundered_cons, exists_mem_setTotLens (P := fun f => ¬ v.ok f.bytes)]

namespace RxGroCtx

variable {c c' : RxGroCtx} {p : RxPbuf} {m : RxGroMeta} {acts : List RxAct}

theorem Running.laundered_flushed (hc : c.Running) :
  Laundered v c.flushed ↔ Laundered v c.chain
  := by
  obtain hsame | ⟨head, rest, hchain, hrun, hflushed⟩ := hc.flushed_cases
  · rw [hsame]
  · rw [hflushed, hchain, laundered_setTotLens, laundered_cons, v.payload hrun, v.fixed hrun]

theorem Running.laundered_rxgroFlush (hc : c.Running) :
  (∃ chain ∈ delivered c.rxgroFlush.2, Laundered v chain) ↔ Laundered v c.chain
  := by
  rw [rxgroFlush_snd]
  split
  · rename_i hnil
    simp [hnil, not_laundered_nil]
  · rw [delivered_deliver, ← hc.laundered_flushed]
    simp

def Absorbs (c : RxGroCtx) (m : RxGroMeta) : Prop :=
  ∃ seq payOff payLen flags, m.cls = .merge seq payOff payLen flags ∧ c.chain ≠ [] ∧
    c.key = m.key ∧ c.isAck = false ∧ seq = c.nextSeq ∧ c.frames < RXGRO_MAX_FRAMES

def Launders (v : HeaderVerdict) (c : RxGroCtx) (f : RxFrame) (m : RxGroMeta) : Prop :=
  c.Absorbs m ∧ ¬ v.ok f.bytes ∧ ∃ head ∈ c.chain.head?, v.ok head.payload

def Tainted (v : HeaderVerdict) (c : RxGroCtx) (acts : List RxAct) : Prop :=
  (∃ chain ∈ delivered acts, Laundered v chain) ∨ Laundered v c.chain

theorem laundered_absorb
    {payOff payLen flags : ℕ} (hc : c.Running) (hc' : (c.absorb p payOff payLen flags).Running)
    (hack : c.isAck = false) (hchain : c.chain ≠ []) :
  Laundered v (c.absorb p payOff payLen flags).chain ↔
    Laundered v c.chain ∨ ¬ v.ok p.frame.bytes ∧ ∃ head ∈ c.chain.head?, v.ok head.payload
  := by
  obtain ⟨head, rest, hcons⟩ := exists_cons_of_ne_nil hchain
  have habsorbed : (c.absorb p payOff payLen flags).chain =
      head.refreshed p c.ip payOff flags :: (rest ++ [p.strip payOff]) := by
    simp only [absorb, hcons]
    rfl
  have hrun := (hc.data hack head rest hcons).1
  have hrun' := (hc'.data hack _ _ habsorbed).1
  rw [habsorbed, hcons, laundered_cons, laundered_cons, v.payload hrun',
    v.payload hrun]
  simp only [RxPbuf.frame_refreshed, mem_append, mem_singleton, or_and_right, exists_or,
    exists_eq_left, RxPbuf.frame_strip, head?_cons, Option.mem_def, Option.some.injEq,
    exists_eq_left', v.payload hrun]
  rw [and_or_left, and_comm (a := ¬ v.ok p.frame.bytes)]

theorem Takes.tainted_of_laundered
    (h : Takes c p m c' acts) (hc : c.Running) (hc' : c'.Running) (hl : Laundered v c.chain) :
  Tainted v c' acts
  := by
  have hflush := hc.laundered_rxgroFlush.mpr hl
  cases h with
  | release hcls hchain hkey =>
    left
    obtain ⟨chain, hmem, hchain⟩ := hflush
    rw [delivered_append]
    exact ⟨chain, mem_append_left _ hmem, hchain⟩
  | pass hcls hother => exact .inr hl
  | renew hcls hchain hkey hack hnewer =>
    obtain ⟨-, q, hq, -⟩ := hc.ack hack hchain
    rw [hq] at hl
    cases not_laundered_single q hl
  | hold hcls | start hcls => exact .inl hflush
  | absorb hcls hchain hkey hack hseq hframes =>
    exact .inr ((laundered_absorb hc hc' hack hchain).mpr (.inl hl))

theorem Takes.laundered_of_tainted
    (h : Takes c p m c' acts) (hc : c.Running) (hc' : c'.Running) (ht : Tainted v c' acts) :
  Laundered v c.chain ∨ c.Launders v p.frame m
  := by
  obtain ⟨chain, hmem, hchain⟩ | hheld := ht
  · left
    have hsingle : chain ∉ delivered [.deliver [p]] := by
      rw [delivered_deliver, mem_singleton]
      rintro rfl
      apply not_laundered_single p hchain
    cases h with
    | release hcls hchain' hkey =>
      rw [delivered_append] at hmem
      obtain hflush | hlast := mem_append.mp hmem
      · exact hc.laundered_rxgroFlush.mp ⟨chain, hflush, hchain⟩
      · contradiction
    | pass hcls hother | renew hcls hchain' hkey hack hnewer
    | absorb hcls hchain' hkey hack hseq hframes => contradiction
    | hold hcls | start hcls => exact hc.laundered_rxgroFlush.mp ⟨chain, hmem, hchain⟩
  · cases h with
    | release hcls hchain hkey =>
      rw [rxgroFlush_fst] at hheld
      cases not_laundered_nil hheld
    | pass hcls hother => exact .inl hheld
    | renew hcls hchain hkey hack hnewer | hold hcls | start hcls => cases not_laundered_single p hheld
    | @absorb seq payOff payLen flags hcls hchain hkey hack hseq hframes =>
      obtain hold | hnew := (laundered_absorb hc hc' hack hchain).mp hheld
      · exact .inl hold
      · right
        exact ⟨⟨seq, payOff, payLen, flags, hcls, hchain, hkey, hack, hseq, hframes⟩, hnew⟩

theorem Launders.tainted
    (h : c.Launders v p.frame m) (hc : c.Running) (hc' : (c.take p m).1.Running) :
  Tainted v (c.take p m).1 (c.take p m).2
  := by
  obtain ⟨⟨seq, payOff, payLen, flags, hcls, hchain, hkey, hack, hseq, hframes⟩, hnew⟩ := h
  rw [take_absorb hcls hchain hkey hack hseq hframes] at hc' ⊢
  right
  exact (laundered_absorb hc hc' hack hchain).mpr (.inr hnew)

theorem tainted_take_iff
    (hc : c.Running) (hp : p.Fresh) (hm : p.frame.groMeta = some m) :
  Tainted v (c.take p m).1 (c.take p m).2 ↔ Laundered v c.chain ∨ c.Launders v p.frame m
  := by
  have htakes := takes_take c p m
  have hc' := htakes.running hc hp hm
  constructor
  · intro h
    apply htakes.laundered_of_tainted hc hc' h
  · rintro (hold | hnew)
    · apply htakes.tainted_of_laundered hc hc' hold
    · apply hnew.tainted hc hc'

end RxGroCtx

namespace RxGro

def Launders (v : HeaderVerdict) (gro : Bool) (g : RxGro) : RxOp → Prop
  | .frame _ f => gro = true ∧ ∃ m, f.groMeta = some m ∧ (g m.key.slot).Launders v f m
  | .flush => False

def Tainted (v : HeaderVerdict) (gro : Bool) (ops : List RxOp) : Prop :=
  (∃ chain ∈ delivered (run gro ops).2, Laundered v chain) ∨
    ∃ i, Laundered v ((run gro ops).1 i).chain

theorem tainted_append_flush (v : HeaderVerdict) (gro : Bool) (ops : List RxOp) :
  Tainted v gro (ops ++ [.flush]) ↔ Tainted v gro ops
  := by
  have hrunning := running_run gro ops
  have hflush : (∃ chain ∈ delivered (rxgroFlushAll (run gro ops).1).2, Laundered v chain) ↔
      ∃ i, Laundered v ((run gro ops).1 i).chain := by
    simp only [mem_delivered_rxgroFlushAll, ← (hrunning _).laundered_rxgroFlush]
    tauto
  have hidle : ¬ ∃ i, Laundered v ((rxgroFlushAll (run gro ops).1).1 i).chain := by
    rintro ⟨i, hi⟩
    rw [chain_rxgroFlushAll] at hi
    apply not_laundered_nil hi
  rw [Tainted, run_append_singleton, delivered_append]
  simp only [mem_append, or_and_right, exists_or, step, hflush, hidle, or_false]
  rfl

theorem tainted_append_frame (v : HeaderVerdict) (gro : Bool) (ops : List RxOp) (addr : ℕ) (f : RxFrame) :
  Tainted v gro (ops ++ [.frame addr f]) ↔
    Tainted v gro ops ∨ Launders v gro (run gro ops).1 (.frame addr f)
  := by
  have hrunning := running_run gro ops
  rw [Tainted, Tainted, run_append_singleton, delivered_append]
  simp only [mem_append, or_and_right, exists_or]
  generalize (run gro ops).1 = g at *
  by_cases hby : gro = false ∨ f.groMeta = none
  · have hno : ¬ Launders v gro g (.frame addr f) := by
      rintro ⟨hon, m, hm, -⟩
      simp [hon, hm] at hby
    rw [step_frame_bypass hby]
    simp [hno, not_laundered_single]
  · push Not at hby
    obtain ⟨m, hm⟩ := Option.ne_none_iff_exists'.mp hby.2
    obtain rfl := Bool.eq_true_of_not_eq_false hby.1
    have htake := RxGroCtx.tainted_take_iff (v := v) (hrunning m.key.slot) (f.fresh_pbuf addr) hm
    have hlaunders : Launders v true g (.frame addr f) ↔ (g m.key.slot).Launders v f m := by
      simp [Launders, hm]
    -- The other contexts stay as they are.
    have hold := exists_update_iff g (a := m.key.slot) (b := g m.key.slot)
      fun _ c => Laundered v c.chain
    have hnew := exists_update_iff g (a := m.key.slot)
      (b := ((g m.key.slot).take (f.pbuf addr) m).1) fun _ c => Laundered v c.chain
    rw [update_eq_self] at hold
    rw [RxGroCtx.Tainted] at htake
    rw [hlaunders, step_frame_some hm, hold]
    simp only [hnew]
    rw [or_assoc, ← or_assoc (b := Laundered v _), htake, or_right_comm, ← or_assoc]
    rfl

theorem tainted_iff (v : HeaderVerdict) (gro : Bool) (ops : List RxOp) :
  Tainted v gro ops ↔ ∃ ops' op, ops' ++ [op] <+: ops ∧ Launders v gro (run gro ops').1 op
  := by
  induction ops using reverseRecOn with
  | nil => simp [Tainted, run, rxgroInit, not_laundered_nil]
  | append_singleton ops op ih =>
    have hstep : Tainted v gro (ops ++ [op]) ↔ Tainted v gro ops ∨ Launders v gro (run gro ops).1 op := by
      cases op with
      | frame addr f => apply tainted_append_frame
      | flush =>
        rw [tainted_append_flush]
        exact (or_false _).symm.to_iff
    rw [hstep, ih]
    constructor
    · rintro (⟨ops', op', hpre, hlaunders⟩ | hlaunders)
      · exact ⟨ops', op', hpre.trans (prefix_append ..), hlaunders⟩
      · exact ⟨ops, op, prefix_rfl, hlaunders⟩
    · rintro ⟨ops', op', hpre, hlaunders⟩
      obtain heq | hpre := prefix_concat_iff.mp hpre
      · obtain ⟨rfl, rfl⟩ := append_singleton_inj.mp heq
        exact .inr hlaunders
      · exact .inl ⟨ops', op', hpre, hlaunders⟩

theorem clean_iff (v : HeaderVerdict) (gro : Bool) (ops : List RxOp) :
  (∀ p rest, p :: rest ∈ delivered (run gro (ops ++ [.flush])).2 → rest ≠ [] →
    v.ok p.payload → ∀ q ∈ p :: rest, v.ok q.frame.bytes) ↔
      ∀ ops' op, ops' ++ [op] <+: ops → ¬ Launders v gro (run gro ops').1 op
  := by
  have htainted := tainted_append_flush v gro ops
  rw [tainted_iff v gro ops] at htainted
  have hsteps : (∀ ops' op, ops' ++ [op] <+: ops → ¬ Launders v gro (run gro ops').1 op) ↔
      ¬ Tainted v gro (ops ++ [.flush]) := by
    rw [htainted]
    push Not
    rfl
  rw [hsteps]
  constructor
  · rintro hall (⟨chain, hmem, p, rest, rfl, haccepts, q, hq, hdropped⟩ | ⟨i, hi⟩)
    · apply hdropped
      apply hall p rest hmem (ne_nil_of_mem hq) haccepts q (mem_cons_of_mem _ hq)
    · rw [idle_of_flush] at hi
      apply not_laundered_nil hi
  · intro hclean p rest hmem _ haccepts q hq
    obtain rfl | hrest := mem_cons.mp hq
    · apply (handed_run gro _ _ hmem).ok_head.mp haccepts
    · by_contra hdropped
      apply hclean
      left
      exact ⟨p :: rest, hmem, laundered_cons.mpr ⟨haccepts, q, hrest, hdropped⟩⟩

theorem laundered_of_consecutive
    (v : HeaderVerdict) {f f' : RxFrame} {k : FlowKey} {seq : UInt32} {payOff payOff' payLen payLen' flags flags' : ℕ}
    (hm : f.groMeta = some ⟨k, .merge seq payOff payLen flags⟩)
    (hm' : f'.groMeta = some ⟨k, .merge (seq + UInt32.ofNat payLen) payOff' payLen' flags'⟩)
    (hcsum : s2ifRxCsumOk f.mem f.len = true) (hcsum' : s2ifRxCsumOk f'.mem f'.len = true)
    (haccepts : v.ok f.bytes) (hdropped : ¬ v.ok f'.bytes) :
  ∃ p rest, p :: rest ∈ delivered (run true
      (s2ifPumpRxDeliver (fun _ => false) 0 0 [(0, f), (1, f')])).2 ∧
    v.ok p.payload ∧ ∃ q ∈ rest, ¬ v.ok q.frame.bytes
  := by
  have hops : s2ifPumpRxDeliver (fun _ => false) 0 0 [(0, f), (1, f')] =
      [.frame 0 f, .frame 1 f'] ++ [.flush] := by
    simp [s2ifPumpRxDeliver, hcsum, hcsum']
  have hctx : (run true [.frame 0 f]).1 k.slot =
      (rxgroInit k.slot).startRun (f.pbuf 0) k seq payOff payLen := by
    change (step true rxgroInit (.frame 0 f)).1 k.slot = _
    rw [step_frame_self hm, RxGroCtx.take_start rfl rfl]
  have hlaunders : Launders v true (run true [.frame 0 f]).1 (.frame 1 f') := by
    refine ⟨rfl, _, hm', ?_⟩
    rw [hctx]
    exact ⟨⟨_, _, _, _, rfl, cons_ne_nil _ _, rfl, rfl, rfl,
      (by decide : 1 < RXGRO_MAX_FRAMES)⟩, hdropped, _, rfl, haccepts⟩
  have htainted : Tainted v true ([.frame 0 f, .frame 1 f'] ++ [.flush]) := by
    rw [tainted_append_flush]
    exact (tainted_append_frame v true [.frame 0 f] 1 f').mpr (.inr hlaunders)
  obtain ⟨chain, hmem, p, rest, rfl, hlaundered⟩ | ⟨i, hi⟩ := htainted
  · rw [hops]
    exact ⟨p, rest, hmem, hlaundered⟩
  · rw [idle_of_flush] at hi
    cases not_laundered_nil hi

end RxGro
