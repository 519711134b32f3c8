import LwipAmiga.Rx.Taint

/-!
# Frames that lwIP rejects

Let `v` be a verdict of lwIP on the header of a packet.
-/

open List Function Option

def Shown (v : HeaderVerdict) (chain : List RxPbuf) : Prop :=
  ∃ p ∈ chain.head?, v.ok p.payload

instance (v : HeaderVerdict) : DecidablePred (Shown v) :=
  fun chain => inferInstanceAs (Decidable (∃ p ∈ chain.head?, v.ok p.payload))

def accepted (v : HeaderVerdict) (chains : List (List RxPbuf)) : List (List RxPbuf) :=
  chains.filter fun chain => Shown v chain

inductive RxIn where
  | frame (addr : ℕ) (f : RxFrame)
  | bad (f : RxFrame)
  | flush

namespace RxIn

def op : RxIn → RxOp
  | frame addr f => .frame addr f
  | bad _ => .flush
  | flush => .flush

def visible (v : HeaderVerdict) : RxIn → Bool
  | frame _ f => v.ok f.bytes
  | bad f => v.ok f.bytes
  | flush => true

end RxIn

variable {v : HeaderVerdict}

@[simp]
theorem accepted_append (chains chains' : List (List RxPbuf)) :
  accepted v (chains ++ chains') = accepted v chains ++ accepted v chains'
  := filter_append ..

@[simp]
theorem accepted_nil :
  accepted v [] = []
  := rfl

theorem accepted_singleton (chain : List RxPbuf) :
  accepted v [chain] = if Shown v chain then [chain] else []
  := by
  simp [accepted, filter_singleton]

theorem not_shown_nil :
  ¬ Shown v []
  := by
  simp [Shown]

theorem shown_single {p : RxPbuf} (hp : p.Fresh) :
  Shown v [p] ↔ v.ok p.frame.bytes
  := by
  rw [hp]
  simp only [Shown, head?_cons, mem_def, some.injEq, exists_eq_left']
  rfl

namespace RxGroCtx

variable {c c' d d' : RxGroCtx} {p : RxPbuf} {m : RxGroMeta} {acts : List RxAct}

theorem shown_absorb
    {payOff payLen flags : ℕ} (hc : c.Running) (hc' : (c.absorb p payOff payLen flags).Running)
    (hack : c.isAck = false) (hchain : c.chain ≠ []) :
  Shown v (c.absorb p payOff payLen flags).chain ↔ Shown v c.chain
  := by
  obtain ⟨head, rest, hcons⟩ := exists_cons_of_ne_nil hchain
  have habsorbed : (c.absorb p payOff payLen flags).chain =
      head.refreshed p c.ip payOff flags :: (rest ++ [p.strip payOff]) := by
    simp only [absorb, hcons]
    rfl
  have hrun := (hc.data hack head rest hcons).1
  have hrun' := (hc'.data hack _ _ habsorbed).1
  simp [Shown, habsorbed, hcons, v.payload hrun, v.payload hrun']

theorem Running.accepted_rxgroFlush (hc : c.Running) :
  accepted v (delivered c.rxgroFlush.2) =
    if Shown v c.chain then delivered c.rxgroFlush.2 else []
  := by
  have hhead : Shown v c.flushed ↔ Shown v c.chain := by
    obtain hsame | ⟨head, rest, hchain, hrun, hflushed⟩ := hc.flushed_cases
    · rw [hsame]
    · simp [Shown, hflushed, hchain, setTotLens, v.payload hrun, v.fixed hrun]
  rw [rxgroFlush_snd]
  split
  · simp
  · rw [delivered_deliver, accepted_singleton]
    simp only [hhead]

structure Same (c c' : RxGroCtx) : Prop where
  chain : c.chain = c'.chain
  key : c.key = c'.key
  nextSeq : c.nextSeq = c'.nextSeq
  frames : c.frames = c'.frames
  isAck : c.isAck = c'.isAck
  run : c.isAck = false → c.ip = c'.ip ∧ c.payloadAdd = c'.payloadAdd

theorem same_refl (c : RxGroCtx) :
  Same c c
  := ⟨rfl, rfl, rfl, rfl, rfl, fun _ => ⟨rfl, rfl⟩⟩

theorem Same.eq_of_data (h : Same c c') (hdata : c.isAck = false) :
  c = c'
  := by
  obtain ⟨hip, hadd⟩ := h.run hdata
  cases c
  cases c'
  simp only [RxGroCtx.mk.injEq]
  exact ⟨h.chain, hip, h.key, h.nextSeq, hadd, h.frames, h.isAck⟩

theorem same_of_ack
    (hack : c.isAck = true) (hack' : c'.isAck = true) (hchain : c.chain = c'.chain)
    (hkey : c.key = c'.key) (hnext : c.nextSeq = c'.nextSeq) (hframes : c.frames = c'.frames) :
  Same c c'
  := by
  refine ⟨hchain, hkey, hnext, hframes, hack.trans hack'.symm, ?_⟩
  intro hdata
  rw [hack] at hdata
  contradiction

theorem Same.rxgroFlush_snd_eq (h : Same c c') (hc : c.Running) (hchain : c.chain ≠ []) :
  c.rxgroFlush.2 = c'.rxgroFlush.2
  := by
  cases hack : c.isAck with
  | false => rw [h.eq_of_data hack]
  | true =>
    obtain ⟨hframes, q, hq, -⟩ := hc.ack hack hchain
    have hq' := h.chain.symm.trans hq
    have hframes' := h.frames.symm.trans hframes
    simp [rxgroFlush, flushed, hq, hq', hframes, hframes']

theorem Same.take
    (h : Same c c') (hc : c.Running) (hchain : c.chain ≠ []) (p : RxPbuf) (m : RxGroMeta) :
  Same (c.take p m).1 (c'.take p m).1 ∧ (c.take p m).2 = (c'.take p m).2
  := by
  cases hack : c.isAck with
  | false =>
    rw [h.eq_of_data hack]
    exact ⟨same_refl _, rfl⟩
  | true =>
    have hack' : c'.isAck = true := h.isAck.symm.trans hack
    have hflush := h.rxgroFlush_snd_eq hc hchain
    have hflow : c.sameflow m.key = c'.sameflow m.key := by
      rw [sameflow, sameflow, h.chain, h.key]
    unfold RxGroCtx.take
    cases m.cls with
    | nomerge =>
      simp only [hflow, hflush]
      split
      · constructor
        · rw [rxgroFlush_fst, rxgroFlush_fst]
          exact same_of_ack hack hack' rfl h.key h.nextSeq h.frames
        · rfl
      · exact ⟨h, rfl⟩
    | ack ackNo =>
      simp only [hflow, hflush, hack, hack', h.nextSeq, h.chain]
      split
      · exact ⟨same_of_ack rfl rfl rfl h.key rfl h.frames, rfl⟩
      · exact ⟨same_of_ack rfl rfl rfl rfl rfl rfl, rfl⟩
    | merge seq payOff payLen flags =>
      simp only [hack, hack', hflush, Bool.not_true, Bool.and_false, Bool.false_and,
        Bool.false_eq_true, if_false]
      exact ⟨⟨rfl, rfl, rfl, rfl, rfl, fun _ => ⟨rfl, rfl⟩⟩, trivial⟩

structure Shadows (v : HeaderVerdict) (c d : RxGroCtx) : Prop where
  hidden : ¬ Shown v c.chain → d.chain = []
  shown : Shown v c.chain → Same c d

structure Apart (v : HeaderVerdict) (c : RxGroCtx) (f : RxFrame) (m : RxGroMeta) : Prop where
  rejected : ¬ v.ok f.bytes → Shown v c.chain → m.cls = .nomerge ∧ c.key ≠ m.key
  accepted : v.ok f.bytes → ¬ Shown v c.chain → ¬ c.Absorbs m

section Takes

variable (h : Takes c p m c' acts) (hc : c.Running) (hp : p.Fresh)

include h hc hp

theorem Takes.hidden
    (hc' : c'.Running) (hno : ¬ v.ok p.frame.bytes) (hshown : ¬ Shown v c.chain) :
  ¬ Shown v c'.chain ∧ accepted v (delivered acts) = []
  := by
  have hsingle : ¬ Shown v [p] := by
    rw [shown_single hp]
    apply hno
  have hflush : accepted v (delivered c.rxgroFlush.2) = [] := by
    rw [hc.accepted_rxgroFlush, if_neg hshown]
  have hlast : accepted v (delivered [.deliver [p]]) = [] := by
    rw [delivered_deliver, accepted_singleton, if_neg hsingle]
  cases h with
  | release hcls hchain hkey =>
    rw [rxgroFlush_fst, delivered_append, accepted_append, hflush, hlast]
    exact ⟨not_shown_nil, rfl⟩
  | pass hcls hother => exact ⟨hshown, hlast⟩
  | renew hcls hchain hkey hack hnewer => exact ⟨hsingle, rfl⟩
  | hold hcls | start hcls => exact ⟨hsingle, hflush⟩
  | absorb hcls hchain hkey hack hseq hframes =>
    rw [shown_absorb hc hc' hack hchain]
    exact ⟨hshown, rfl⟩

theorem Takes.shown
    (hc' : c'.Running) (hok : v.ok p.frame.bytes) (hshown : Shown v c.chain) :
  (c'.chain = [] ∨ Shown v c'.chain) ∧ accepted v (delivered acts) = delivered acts
  := by
  have hsingle : Shown v [p] := by
    rw [shown_single hp]
    apply hok
  have hflush : accepted v (delivered c.rxgroFlush.2) = delivered c.rxgroFlush.2 := by
    rw [hc.accepted_rxgroFlush, if_pos hshown]
  have hlast : accepted v (delivered [.deliver [p]]) = delivered [.deliver [p]] := by
    rw [delivered_deliver, accepted_singleton, if_pos hsingle]
  cases h with
  | release hcls hchain hkey =>
    rw [rxgroFlush_fst, delivered_append, accepted_append, hflush, hlast]
    exact ⟨.inl rfl, rfl⟩
  | pass hcls hother => exact ⟨.inr hshown, hlast⟩
  | renew hcls hchain hkey hack hnewer => exact ⟨.inr hsingle, rfl⟩
  | hold hcls | start hcls => exact ⟨.inr hsingle, hflush⟩
  | absorb hcls hchain hkey hack hseq hframes =>
    rw [shown_absorb hc hc' hack hchain]
    exact ⟨.inr hshown, rfl⟩

theorem Takes.as_idle
    (hok : v.ok p.frame.bytes) (hshown : ¬ Shown v c.chain) (hapart : ¬ c.Absorbs m)
    (hidle : d.chain = []) :
  Shadows v c' (d.take p m).1 ∧ accepted v (delivered acts) = delivered (d.take p m).2
  := by
  have hsingle : Shown v [p] := by
    rw [shown_single hp]
    apply hok
  have hflush : accepted v (delivered c.rxgroFlush.2) = [] := by
    rw [hc.accepted_rxgroFlush, if_neg hshown]
  have hlast : accepted v (delivered [.deliver [p]]) = delivered [.deliver [p]] := by
    rw [delivered_deliver, accepted_singleton, if_pos hsingle]
  cases h with
  | release hcls hchain hkey =>
    rw [take_pass hcls (.inl hidle), rxgroFlush_fst, delivered_append, accepted_append, hflush,
      hlast]
    refine ⟨⟨fun _ => hidle, ?_⟩, rfl⟩
    intro hnil
    cases not_shown_nil hnil
  | pass hcls hother =>
    rw [take_pass hcls (.inl hidle), hlast]
    refine ⟨⟨fun _ => hidle, ?_⟩, rfl⟩
    intro hheld
    contradiction
  | renew hcls hchain hkey hack hnewer =>
    rw [take_hold hcls hidle]
    refine ⟨⟨?_, fun _ => ?_⟩, rfl⟩
    · intro hno
      contradiction
    · exact same_of_ack hack rfl rfl hkey rfl (hc.ack hack hchain).1
  | hold hcls =>
    rw [take_hold hcls hidle, hflush]
    refine ⟨⟨?_, fun _ => ?_⟩, rfl⟩
    · intro hno
      contradiction
    · exact same_of_ack rfl rfl rfl rfl rfl rfl
  | absorb hcls hchain hkey hack hseq hframes =>
    cases hapart ⟨_, _, _, _, hcls, hchain, hkey, hack, hseq, hframes⟩
  | start hcls =>
    rw [take_start hcls hidle, hflush]
    refine ⟨⟨?_, fun _ => ?_⟩, rfl⟩
    · intro hno
      contradiction
    · exact ⟨rfl, rfl, rfl, rfl, rfl, fun _ => ⟨rfl, rfl⟩⟩

end Takes

section Step

variable (h : Shadows v c d) (hc : c.Running) (hp : p.Fresh) (hm : p.frame.groMeta = some m)
  (hapart : c.Apart v p.frame m)

include h hc hp hm hapart

theorem Shadows.rejected (hno : ¬ v.ok p.frame.bytes) :
  Shadows v (c.take p m).1 d ∧ accepted v (delivered (c.take p m).2) = []
  := by
  by_cases hshown : Shown v c.chain
  · obtain ⟨hcls, hkey⟩ := hapart.rejected hno hshown
    rw [take_pass hcls (.inr hkey), delivered_deliver, accepted_singleton,
      if_neg (mt (shown_single hp).mp hno)]
    exact ⟨h, rfl⟩
  · have htakes := takes_take c p m
    obtain ⟨hhidden, hacts⟩ := htakes.hidden hc hp (htakes.running hc hp hm) hno hshown
    refine ⟨⟨fun _ => h.hidden hshown, ?_⟩, hacts⟩
    intro hheld
    contradiction

theorem Shadows.accepted (hok : v.ok p.frame.bytes) :
  Shadows v (c.take p m).1 (d.take p m).1 ∧
    accepted v (delivered (c.take p m).2) = delivered (d.take p m).2
  := by
  have htakes := takes_take c p m
  by_cases hshown : Shown v c.chain
  · have hsame := h.shown hshown
    have hchain : c.chain ≠ [] := by
      intro hnil
      rw [hnil] at hshown
      apply not_shown_nil hshown
    obtain ⟨htake, hacts⟩ := hsame.take hc hchain p m
    obtain ⟨hheld, hall⟩ := htakes.shown hc hp (htakes.running hc hp hm) hok hshown
    refine ⟨⟨?_, fun _ => htake⟩, ?_⟩
    · intro hno
      rw [← htake.chain]
      exact hheld.resolve_right hno
    · rw [hall, hacts]
  · exact htakes.as_idle hc hp hok hshown (hapart.accepted hok hshown) (h.hidden hshown)

end Step

end RxGroCtx

/-! ### Runs -/

namespace RxGro

variable {gro : Bool} {g d : RxGro} {x : RxIn}

def Apart (v : HeaderVerdict) (gro : Bool) (g : RxGro) : RxIn → Prop
  | .frame _ f => gro = true → ∀ m, f.groMeta = some m → (g m.key.slot).Apart v f m
  | .bad f => ¬ v.ok f.bytes → ∀ i, ¬ Shown v (g i).chain
  | .flush => True

def Shadows (v : HeaderVerdict) (g d : RxGro) : Prop :=
  ∀ i, (g i).Shadows v (d i)

theorem shadows_of_idle (hg : ∀ i, (g i).chain = []) (hd : ∀ i, (d i).chain = []) :
  Shadows v g d
  := by
  intro i
  refine ⟨fun _ => hd i, ?_⟩
  intro hshown
  rw [hg i] at hshown
  cases not_shown_nil hshown

theorem Shadows.flush (h : Shadows v g d) (hg : ∀ i, (g i).Running) :
  accepted v (delivered (rxgroFlushAll g).2) = delivered (rxgroFlushAll d).2
  := by
  have hctx : ∀ i, accepted v (delivered (g i).rxgroFlush.2) = delivered (d i).rxgroFlush.2 := by
    intro i
    rw [(hg i).accepted_rxgroFlush]
    split
    · rename_i hshown
      have hchain : (g i).chain ≠ [] := by
        intro hnil
        rw [hnil] at hshown
        apply not_shown_nil hshown
      rw [((h i).shown hshown).rxgroFlush_snd_eq (hg i) hchain]
    · rename_i hshown
      rw [RxGroCtx.rxgroFlush_snd, if_pos ((h i).hidden hshown), delivered_nil]
  unfold rxgroFlushAll
  generalize finRange RXGRO_FLOWS = l
  induction l with
  | nil => rfl
  | cons i l ih =>
    rw [flatMap_cons, flatMap_cons, delivered_append, delivered_append,
      accepted_append, hctx, ih]

theorem Shadows.update
    {c c' : RxGroCtx} {i : Fin RXGRO_FLOWS} (h : Shadows v g d) (hc : c.Shadows v c') :
  Shadows v (update g i c) (update d i c')
  := by
  intro j
  obtain rfl | hj := eq_or_ne j i
  · rw [update_self, update_self]
    apply hc
  · rw [update_of_ne hj, update_of_ne hj]
    apply h

section Step

variable (h : Shadows v g d) (hg : ∀ i, (g i).Running) (hapart : Apart v gro g x)

include h hg hapart

theorem Shadows.step_hidden (hx : x.visible v = false) :
  Shadows v (step gro g x.op).1 d ∧ accepted v (delivered (step gro g x.op).2) = []
  := by
  cases x with
  | flush => contradiction
  | bad f =>
    have hno : ¬ v.ok f.bytes := of_decide_eq_false hx
    have hidle : ∀ i, (d i).chain = [] := fun i => (h i).hidden (hapart hno i)
    constructor
    · apply shadows_of_idle (chain_rxgroFlushAll g) hidle
    · change accepted v (delivered (rxgroFlushAll g).2) = []
      rw [h.flush hg, rxgroFlushAll_snd_of_idle hidle, delivered_nil]
  | frame addr f =>
    have hno : ¬ v.ok f.bytes := of_decide_eq_false hx
    change Shadows v (step gro g (.frame addr f)).1 d ∧
      accepted v (delivered (step gro g (.frame addr f)).2) = []
    by_cases hby : gro = false ∨ f.groMeta = none
    · rw [step_frame_bypass hby, delivered_deliver, accepted_singleton,
        if_neg (mt (shown_single (f.fresh_pbuf addr)).mp hno)]
      exact ⟨h, rfl⟩
    · push Not at hby
      obtain ⟨m, hm⟩ := ne_none_iff_exists'.mp hby.2
      obtain rfl := Bool.eq_true_of_not_eq_false hby.1
      obtain ⟨hctx, hacts⟩ := (h m.key.slot).rejected (hg _) (f.fresh_pbuf addr) hm
        (hapart rfl m hm) hno
      rw [step_frame_some hm]
      refine ⟨?_, hacts⟩
      have hupdate := h.update (i := m.key.slot) hctx
      rw [update_eq_self] at hupdate
      apply hupdate

theorem Shadows.step_visible (hx : x.visible v = true) :
  Shadows v (step gro g x.op).1 (step gro d x.op).1 ∧
    accepted v (delivered (step gro g x.op).2) = delivered (step gro d x.op).2
  := by
  have hflush : Shadows v (rxgroFlushAll g).1 (rxgroFlushAll d).1 ∧
      accepted v (delivered (rxgroFlushAll g).2) = delivered (rxgroFlushAll d).2 := by
    constructor
    · apply shadows_of_idle (chain_rxgroFlushAll g) (chain_rxgroFlushAll d)
    · apply h.flush hg
  cases x with
  | flush | bad f => apply hflush
  | frame addr f =>
    have hok : v.ok f.bytes := of_decide_eq_true hx
    change Shadows v (step gro g (.frame addr f)).1 (step gro d (.frame addr f)).1 ∧
      accepted v (delivered (step gro g (.frame addr f)).2) =
        delivered (step gro d (.frame addr f)).2
    by_cases hby : gro = false ∨ f.groMeta = none
    · rw [step_frame_bypass hby, step_frame_bypass hby, delivered_deliver, accepted_singleton,
        if_pos ((shown_single (f.fresh_pbuf addr)).mpr hok)]
      exact ⟨h, rfl⟩
    · push Not at hby
      obtain ⟨m, hm⟩ := ne_none_iff_exists'.mp hby.2
      obtain rfl := Bool.eq_true_of_not_eq_false hby.1
      obtain ⟨hctx, hacts⟩ := (h m.key.slot).accepted (hg _) (f.fresh_pbuf addr) hm
        (hapart rfl m hm) hok
      rw [step_frame_some hm, step_frame_some hm]
      exact ⟨h.update hctx, hacts⟩

end Step

def NeverMeet (v : HeaderVerdict) (gro : Bool) (ins : List RxIn) : Prop :=
  ∀ ins' x, ins' ++ [x] <+: ins → Apart v gro (run gro (ins'.map RxIn.op)).1 x

theorem apart_of_idle (hg : ∀ i, (g i).chain = []) (x : RxIn) :
  Apart v gro g x
  := by
  have hidle : ∀ i, ¬ Shown v (g i).chain := by
    intro i
    rw [hg i]
    apply not_shown_nil
  cases x with
  | frame addr f =>
    intro _ m _
    constructor
    · intro _ hshown
      cases hidle _ hshown
    · rintro _ _ ⟨_, _, _, _, _, hchain, _⟩
      apply hchain (hg _)
  | bad f =>
    intro _ i
    apply hidle
  | flush => trivial

theorem neverMeet_append_singleton {ins : List RxIn} :
  NeverMeet v gro (ins ++ [x]) ↔
    NeverMeet v gro ins ∧ Apart v gro (run gro (ins.map RxIn.op)).1 x
  := by
  constructor
  · intro h
    constructor
    · intro ins' x' hpre
      apply h ins' x' (hpre.trans (prefix_append ..))
    · apply h ins x prefix_rfl
  · rintro ⟨hold, hlast⟩ ins' x' hpre
    obtain heq | hpre := prefix_concat_iff.mp hpre
    · obtain ⟨rfl, rfl⟩ := append_singleton_inj.mp heq
      apply hlast
    · apply hold ins' x' hpre

theorem neverMeet_flushed (xs : List RxIn) :
  NeverMeet v gro (xs.flatMap fun x => [x, .flush])
  := by
  induction xs using reverseRecOn with
  | nil =>
    intro ins' x hpre
    simp at hpre
  | append_singleton xs x ih =>
    have hlast : ((xs ++ [x]).flatMap fun x => [x, .flush]) =
        (xs.flatMap fun x => [x, .flush]) ++ [x] ++ [.flush] := by
      simp
    rw [hlast, neverMeet_append_singleton, neverMeet_append_singleton]
    refine ⟨⟨ih, apart_of_idle ?_ x⟩, trivial⟩
    intro i
    induction xs using reverseRecOn with
    | nil => rfl
    | append_singleton xs y _ =>
      have hmap : ((xs ++ [y]).flatMap fun x => [x, .flush]).map RxIn.op =
          ((xs.flatMap fun x => [x, .flush]) ++ [y]).map RxIn.op ++ [.flush] := by
        simp [RxIn.op]
      rw [hmap]
      apply idle_of_flush

theorem accepted_run {ins : List RxIn} (h : NeverMeet v gro ins) :
  Shadows v (run gro (ins.map RxIn.op)).1 (run gro ((ins.filter (RxIn.visible v)).map RxIn.op)).1 ∧
    accepted v (delivered (run gro (ins.map RxIn.op)).2) =
      delivered (run gro ((ins.filter (RxIn.visible v)).map RxIn.op)).2
  := by
  induction ins using reverseRecOn with
  | nil => exact ⟨shadows_of_idle (fun _ => rfl) (fun _ => rfl), rfl⟩
  | append_singleton ins x ih =>
    obtain ⟨hold, hapart⟩ := neverMeet_append_singleton.mp h
    obtain ⟨hshadows, hacts⟩ := ih hold
    have hg := running_run gro (ins.map RxIn.op)
    rw [map_append, map_singleton, run_append_singleton, delivered_append,
      accepted_append, hacts, filter_append]
    cases hx : x.visible v with
    | false =>
      obtain ⟨hstep, hnone⟩ := hshadows.step_hidden hg hapart hx
      simp only [filter_singleton, hx, cond_false, append_nil, hnone]
      exact ⟨hstep, trivial⟩
    | true =>
      obtain ⟨hstep, hsame⟩ := hshadows.step_visible hg hapart hx
      simp only [filter_singleton, hx, map_append, map_singleton, cond_true,
        run_append_singleton, delivered_append, hsame]
      exact ⟨hstep, trivial⟩

end RxGro
