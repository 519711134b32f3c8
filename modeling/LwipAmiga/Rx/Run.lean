import LwipAmiga.Rx.Held

/-!
# Runs of data segments

A context that holds data holds a first segment, and segments absorbed where the ones before them end
(`RunOf`).
-/

open List Function Option

structure DataSegment (f : RxFrame) (seq : UInt32) (payOff payLen : ℕ) : Prop where
  ip_cases : payOff = 54 ∨ payOff = 58
  ip_eq : inetfrmIpOffset f.mem f.len + 40 = payOff
  headers : MergeableHeaders f.mem (inetfrmIpOffset f.mem f.len)
  pos : 0 < payLen
  len_eq : f.len = payOff + payLen
  iplen : iphLen f.mem (inetfrmIpOffset f.mem f.len) = payLen + 40
  seq_eq : tcphSeqno f.mem (inetfrmIpOffset f.mem f.len + 20) = seq

theorem dataSegment_of_groMeta
    {f : RxFrame} {k : FlowKey} {seq : UInt32} {payOff payLen flags : ℕ}
    (h : f.groMeta = some ⟨k, .merge seq payOff payLen flags⟩) :
  DataSegment f seq payOff payLen
  := by
  simp only [RxFrame.groMeta, rxgroClassify, ite_none_left_eq_some, some.injEq,
    RxGroMeta.mk.injEq] at h
  obtain ⟨hip, -, -, hcls⟩ := h
  obtain ⟨hoff, hlen⟩ := inetfrmIpOffset_cases hip
  obtain hno | ⟨-, -, -, hno⟩ | ⟨hhead, hlong, hfull, hmerge⟩ := rxClass_cases f.mem f.len
    (inetfrmIpOffset f.mem f.len)
  · rw [hno] at hcls
    contradiction
  · rw [hno] at hcls
    contradiction
  · rw [hmerge, RxClass.merge.injEq] at hcls
    obtain ⟨rfl, rfl, rfl, -⟩ := hcls
    constructor
    · omega
    · rfl
    · apply hhead
    · omega
    · omega
    · omega
    · rfl

def RxPbuf.Fresh (p : RxPbuf) : Prop :=
  p = p.frame.pbuf p.addr

theorem RxFrame.fresh_pbuf (f : RxFrame) (addr : ℕ) :
  (f.pbuf addr).Fresh
  := rfl

def RxPbuf.refreshed (head p : RxPbuf) (ip payOff flags : ℕ) : RxPbuf :=
  { head with toPbuf := head.refresh p.toPbuf ip payOff flags }

@[simp]
theorem RxPbuf.frame_refreshed (head p : RxPbuf) (ip payOff flags : ℕ) :
  (head.refreshed p ip payOff flags).frame = head.frame
  := rfl

@[simp]
theorem RxPbuf.frame_strip (p : RxPbuf) (payOff : ℕ) :
  (p.strip payOff).frame = p.frame
  := by
  unfold strip
  split <;> rfl

def RxPbuf.fixed (head : RxPbuf) (ip add : ℕ) : RxPbuf :=
  { head with toPbuf := head.fixLen ip add }

@[simp]
theorem RxPbuf.frame_fixed (head : RxPbuf) (ip add : ℕ) :
  (head.fixed ip add).frame = head.frame
  := rfl

inductive RunOf (key : FlowKey) (ip : ℕ) : RxPbuf → List RxPbuf → UInt32 → ℕ → Prop where
  | start {p : RxPbuf} {seq : UInt32} {payLen flags : ℕ} (hp : p.Fresh)
      (hm : p.frame.groMeta = some ⟨key, .merge seq (ip + 40) payLen flags⟩) :
      RunOf key ip p [] (seq + UInt32.ofNat payLen) 0
  | absorb {head p : RxPbuf} {rest : List RxPbuf} {nextSeq : UInt32} {add payOff payLen flags : ℕ}
      (h : RunOf key ip head rest nextSeq add) (hp : p.Fresh)
      (hm : p.frame.groMeta = some ⟨key, .merge nextSeq payOff payLen flags⟩) :
      RunOf key ip (head.refreshed p ip payOff flags) (rest ++ [p.strip payOff])
        (nextSeq + UInt32.ofNat payLen) (add + payLen)

theorem RunOf.fresh
    {key : FlowKey} {ip add : ℕ} {head : RxPbuf} {nextSeq : UInt32}
    (h : RunOf key ip head [] nextSeq add) :
  head.Fresh
  := by
  generalize hrest : [] = rest at h
  cases h with
  | start hp hm => apply hp
  | absorb h hp hm => simp at hrest

inductive Handed : List RxPbuf → Prop where
  | single {p : RxPbuf} (hp : p.Fresh) : Handed [p]
  | merged {key : FlowKey} {ip add : ℕ} {head : RxPbuf} {rest : List RxPbuf} {nextSeq : UInt32}
      (h : RunOf key ip head rest nextSeq add) (hrest : rest ≠ [])
      (hframes : rest.length < RXGRO_MAX_FRAMES) :
      Handed (setTotLens (head.len + add) (head.fixed ip add :: rest))

variable {p : RxPbuf} {m : RxGroMeta} {acts : List RxAct}

namespace RxGroCtx

variable {c c' : RxGroCtx}

structure Running (c : RxGroCtx) : Prop where
  ack : c.isAck = true → c.chain ≠ [] → c.frames = 1 ∧ ∃ p, c.chain = [p] ∧ p.Fresh
  data : c.isAck = false → ∀ head rest, c.chain = head :: rest →
    RunOf c.key c.ip head rest c.nextSeq c.payloadAdd ∧ c.frames = rest.length + 1 ∧
      c.frames ≤ RXGRO_MAX_FRAMES

theorem running_of_chain_eq_nil (h : c.chain = []) :
  c.Running
  := by
  constructor
  · intro _ hne
    contradiction
  · intro _ head rest hchain
    rw [h] at hchain
    contradiction

theorem Takes.running
    (h : Takes c p m c' acts) (hc : c.Running) (hp : p.Fresh) (hm : p.frame.groMeta = some m) :
  c'.Running
  := by
  cases h with
  | release hcls hchain hkey =>
    rw [rxgroFlush_fst]
    apply running_of_chain_eq_nil rfl
  | pass hcls hother => apply hc
  | renew hcls hchain hkey hack hnewer =>
    constructor
    · intro _ _
      exact ⟨(hc.ack hack hchain).1, p, rfl, hp⟩
    · intro hdata
      change c.isAck = false at hdata
      rw [hack] at hdata
      contradiction
  | hold hcls =>
    constructor
    · intro _ _
      exact ⟨rfl, p, rfl, hp⟩
    · intros
      contradiction
  | @absorb seq payOff payLen flags hcls hchain hkey hack hseq hframes =>
    constructor
    · intro hdata
      change c.isAck = true at hdata
      rw [hack] at hdata
      contradiction
    · intro _ head' rest' hchain'
      obtain ⟨head, rest, hold⟩ := exists_cons_of_ne_nil hchain
      simp only [RxGroCtx.absorb, hold, cons_append, cons.injEq] at hchain'
      obtain ⟨rfl, rfl⟩ := hchain'
      obtain ⟨hrun, hlen, -⟩ := hc.data hack head rest hold
      have hm' : p.frame.groMeta = some ⟨c.key, .merge c.nextSeq payOff payLen flags⟩ := by
        rw [hm, hkey, ← hseq, ← hcls]
      refine ⟨hrun.absorb hp hm', ?_, ?_⟩
      · change c.frames + 1 = _
        rw [hlen, length_append]
        rfl
      · apply hframes
  | @start seq payOff payLen flags hcls =>
    constructor
    · intros
      contradiction
    · intro _ head rest hchain
      obtain ⟨rfl, rfl⟩ : p = head ∧ [] = rest := by
        simpa [startRun] using hchain
      have hm' : p.frame.groMeta = some ⟨m.key, .merge seq payOff payLen flags⟩ := by
        rw [hm, ← hcls]
      have hoff : payOff - TCP_HLEN - IP_HLEN + 40 = payOff := by
        have hseg := dataSegment_of_groMeta hm'
        rw [← hseg.ip_eq, TCP_HLEN, IP_HLEN]
        omega
      refine ⟨?_, rfl, (by decide : 1 ≤ RXGRO_MAX_FRAMES)⟩
      apply RunOf.start hp
      change p.frame.groMeta = some ⟨m.key, .merge seq (payOff - TCP_HLEN - IP_HLEN + 40) _ _⟩
      rw [hoff]
      apply hm'

theorem Running.flushed_cases (hc : c.Running) :
  c.flushed = c.chain ∨ ∃ head rest, c.chain = head :: rest ∧
    RunOf c.key c.ip head rest c.nextSeq c.payloadAdd ∧
      c.flushed = setTotLens (head.len + c.payloadAdd) (head.fixed c.ip c.payloadAdd :: rest)
  := by
  cases hchain : c.chain with
  | nil =>
    left
    simp only [flushed, hchain]
  | cons head rest =>
    by_cases hframes : 1 < c.frames
    · right
      have hdata : c.isAck = false := by
        rw [← Bool.not_eq_true]
        intro hack
        have hone := (hc.ack hack (by simp [hchain])).1
        omega
      refine ⟨head, rest, rfl, (hc.data hdata head rest hchain).1, ?_⟩
      simp only [flushed, hchain, hframes, if_true]
      rfl
    · left
      simp only [flushed, hchain, hframes, if_false]

theorem Running.handed (hc : c.Running) (hchain : c.chain ≠ []) :
  Handed c.flushed
  := by
  obtain ⟨head, rest, hcons⟩ := exists_cons_of_ne_nil hchain
  cases hack : c.isAck with
  | true =>
    obtain ⟨hframes, p, hp, hfresh⟩ := hc.ack hack hchain
    simp only [flushed, hp, hframes, lt_irrefl, if_false]
    exact .single hfresh
  | false =>
    obtain ⟨hrun, hlen, hmax⟩ := hc.data hack head rest hcons
    cases rest with
    | nil =>
      simp only [flushed, hcons, hlen, length_nil, zero_add, lt_irrefl, if_false]
      exact .single hrun.fresh
    | cons q rest =>
      have hmany : 1 < c.frames := by
        rw [hlen, length_cons]
        omega
      simp only [flushed, hcons, hmany, if_true]
      apply Handed.merged hrun (cons_ne_nil _ _)
      omega

theorem Running.handed_rxgroFlush (hc : c.Running) :
  ∀ chain ∈ delivered c.rxgroFlush.2, Handed chain
  := by
  rw [rxgroFlush_snd]
  split
  · nofun
  · rename_i hchain
    rw [delivered_deliver]
    simpa using hc.handed hchain

theorem Takes.handed (h : Takes c p m c' acts) (hc : c.Running) (hp : p.Fresh) :
  ∀ chain ∈ delivered acts, Handed chain
  := by
  have hsingle : ∀ chain ∈ delivered [.deliver [p]], Handed chain := by
    simpa using Handed.single hp
  cases h with
  | release hcls hchain hkey =>
    intro chain hmem
    rw [delivered_append, mem_append] at hmem
    obtain hflush | hlast := hmem
    · apply hc.handed_rxgroFlush chain hflush
    · apply hsingle chain hlast
  | pass hcls hother => apply hsingle
  | renew hcls hchain hkey hack hnewer | absorb hcls hchain hkey hack hseq hframes => nofun
  | hold hcls | start hcls => apply hc.handed_rxgroFlush

end RxGroCtx

/-! ### Runs of the engine -/

namespace RxGro

variable {gro : Bool} {g : RxGro}

theorem running_step (h : ∀ i, (g i).Running) (op : RxOp) (i : Fin RXGRO_FLOWS) :
  ((step gro g op).1 i).Running
  := by
  cases op with
  | flush => apply RxGroCtx.running_of_chain_eq_nil (chain_rxgroFlushAll g i)
  | frame addr f =>
    by_cases hby : gro = false ∨ f.groMeta = none
    · rw [step_frame_bypass hby]
      apply h
    · push Not at hby
      obtain ⟨m, hm⟩ := ne_none_iff_exists'.mp hby.2
      obtain rfl := Bool.eq_true_of_not_eq_false hby.1
      rw [step_frame_some hm]
      change (update g m.key.slot _ i).Running
      obtain rfl | hi := eq_or_ne i m.key.slot
      · rw [update_self]
        apply (RxGroCtx.takes_take _ _ m).running (h _) (f.fresh_pbuf addr) hm
      · rw [update_of_ne hi]
        apply h

theorem running_run (gro : Bool) (ops : List RxOp) (i : Fin RXGRO_FLOWS) :
  ((run gro ops).1 i).Running
  := by
  induction ops using reverseRecOn generalizing i with
  | nil => apply RxGroCtx.running_of_chain_eq_nil rfl
  | append_singleton ops op ih =>
    rw [run_append_singleton]
    apply running_step ih

theorem handed_step (h : ∀ i, (g i).Running) (op : RxOp) :
  ∀ chain ∈ delivered (step gro g op).2, Handed chain
  := by
  cases op with
  | flush =>
    intro chain hmem
    obtain ⟨i, hi⟩ := mem_delivered_rxgroFlushAll.mp hmem
    apply (h i).handed_rxgroFlush chain hi
  | frame addr f =>
    by_cases hby : gro = false ∨ f.groMeta = none
    · rw [step_frame_bypass hby]
      simpa using Handed.single (f.fresh_pbuf addr)
    · push Not at hby
      obtain ⟨m, hm⟩ := ne_none_iff_exists'.mp hby.2
      obtain rfl := Bool.eq_true_of_not_eq_false hby.1
      rw [step_frame_some hm]
      apply (RxGroCtx.takes_take _ _ m).handed (h _) (f.fresh_pbuf addr)

theorem handed_run (gro : Bool) (ops : List RxOp) :
  ∀ chain ∈ delivered (run gro ops).2, Handed chain
  := by
  induction ops using reverseRecOn with
  | nil => nofun
  | append_singleton ops op ih =>
    rw [run_append_singleton, delivered_append]
    intro chain hmem
    obtain hold | hnew := mem_append.mp hmem
    · apply ih chain hold
    · apply handed_step (running_run gro ops) op chain hnew

end RxGro
