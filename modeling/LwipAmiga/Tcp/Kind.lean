import LwipAmiga.Tcp.Connection
import LwipAmiga.Tcp.Operations

/-!
# Kinds of control blocks

Only a closed control block can be made to listen, and that of a connection stays one until it goes.
-/

def Lwip.DeliversSynchronized (L : Lwip) : Prop :=
  ∀ pcb n, L.deliver pcb n = true → pcb.state.synchronized = true

namespace SbSocket

variable {β κ : Type} {L : Lwip} {s s' : SbSocket β κ}

def Synced (s : SbSocket β κ) : Prop :=
  ∀ pcb ∈ s.pcb, pcb.state.synchronized = true

def ListenPcb (s : SbSocket β κ) : Prop :=
  ∃ pcb ∈ s.pcb, pcb.state = .listen

instance (s : SbSocket β κ) : Decidable s.ListenPcb :=
  decidable_of_iff (s.pcb.any (fun pcb => pcb.state = .listen) = true) (by
    cases h : s.pcb <;> simp [ListenPcb, h])

structure KindOk (s : SbSocket β κ) : Prop where
  listening : ∀ pcb ∈ s.pcb, (pcb.state = .listen ↔ s.listening = true)
  unsynced : ∀ pcb ∈ s.pcb, pcb.state.synchronized = false → s.connected = false ∧ s.rxq = []

inductive KindStep (s s' : SbSocket β κ) : Prop where
  | same (hpcb : ∀ pcb' ∈ s'.pcb, ∃ pcb ∈ s.pcb, pcb'.state = pcb.state)
      (hlistening : s'.listening = s.listening) (hconnected : s'.connected = true → s.connected = true)
      (hrxq : s.rxq = [] → s'.rxq = [])
  | synced (pcb : TcpPcb) (hpcb : s.pcb = some pcb) (hstate : pcb.state ≠ .listen)
      (hlistening : s'.listening = s.listening) (hsynced : s'.Synced)
  | connects (pcb pcb' : TcpPcb) (hpcb : s.pcb = some pcb) (hclosed : pcb.state = .closed)
      (hpcb' : s'.pcb = some pcb') (hstate : pcb'.state = .synSent)
      (hlistening : s'.listening = s.listening) (hconnected : s'.connected = s.connected)
      (hrxq : s'.rxq = s.rxq)
  | listens (pcb pcb' : TcpPcb) (hpcb : s.pcb = some pcb) (hclosed : pcb.state = .closed)
      (hpcb' : s'.pcb = some pcb') (hstate : pcb'.state = .listen) (hlistening : s'.listening = true)
      (hconnected : s'.connected = s.connected) (hrxq : s'.rxq = s.rxq)

theorem KindStep.of_pcb
    (hpcb : s'.pcb = s.pcb) (hlistening : s'.listening = s.listening)
    (hconnected : s'.connected = s.connected) (hrxq : s'.rxq = s.rxq) :
  KindStep s s'
  := by
  apply KindStep.same
  · intro pcb hmem
    rw [hpcb] at hmem
    use pcb, hmem
  · apply hlistening
  · rw [hconnected]
    apply id
  · rw [hrxq]
    apply id

theorem KindStep.of_some
    {pcb pcb' : TcpPcb} (hpcb : s.pcb = some pcb) (hpcb' : s'.pcb = some pcb')
    (hstate : pcb'.state = pcb.state) (hlistening : s'.listening = s.listening)
    (hconnected : s'.connected = s.connected) (hrxq : s'.rxq = s.rxq) :
  KindStep s s'
  := by
  apply KindStep.same
  · rw [hpcb']
    rintro _ ⟨⟩
    use pcb, hpcb
  · apply hlistening
  · rw [hconnected]
    apply id
  · rw [hrxq]
    apply id

theorem KindStep.of_none
    (hpcb' : s'.pcb = none) (hlistening : s'.listening = s.listening)
    (hconnected : s'.connected = true → s.connected = true) (hrxq : s'.rxq = s.rxq) :
  KindStep s s'
  := by
  apply KindStep.same
  · rw [hpcb']
    nofun
  · apply hlistening
  · apply hconnected
  · rw [hrxq]
    apply id

theorem KindStep.of_sameConn (h : SameConn s s') (hrxq : s.rxq = [] → s'.rxq = []) :
  KindStep s s'
  := by
  apply KindStep.same
  · intro pcb' hmem
    have hmap := h.state_eq
    rw [Option.mem_def.mp hmem] at hmap
    obtain ⟨pcb, hpcb, hstate⟩ := Option.map_eq_some_iff.mp hmap.symm
    use pcb, hpcb, hstate.symm
  · apply h.listening_eq
  · rw [h.connected_eq]
    apply id
  · apply hrxq

theorem KindOk.step (hs : s.KindOk) (h : KindStep s s') :
  s'.KindOk
  := by
  cases h with
  | same hpcb hlistening hconnected hrxq =>
    constructor
    · intro pcb' hmem
      obtain ⟨pcb, hold, hstate⟩ := hpcb pcb' hmem
      rw [hstate, hlistening]
      apply hs.listening pcb hold
    · intro pcb' hmem hunsynced
      obtain ⟨pcb, hold, hstate⟩ := hpcb pcb' hmem
      rw [hstate] at hunsynced
      obtain ⟨hno, hempty⟩ := hs.unsynced pcb hold hunsynced
      refine ⟨?_, hrxq hempty⟩
      rw [← Bool.not_eq_true]
      intro h
      rw [hconnected h] at hno
      contradiction
  | synced pcb hpcb hstate hlistening hsynced =>
    have hno : s.listening ≠ true := fun h => hstate ((hs.listening pcb hpcb).mpr h)
    constructor
    · intro pcb' hmem
      have hsync := hsynced pcb' hmem
      rw [hlistening]
      constructor
      · intro hlisten
        rw [hlisten] at hsync
        contradiction
      · intro h
        contradiction
    · intro pcb' hmem hunsynced
      rw [hsynced pcb' hmem] at hunsynced
      contradiction
  | connects pcb pcb' hpcb hclosed hpcb' hstate hlistening hconnected hrxq =>
    have hno : s.listening ≠ true := by
      intro h
      have hlisten := (hs.listening pcb hpcb).mpr h
      rw [hclosed] at hlisten
      contradiction
    constructor
    · rw [hpcb', hlistening]
      rintro _ ⟨⟩
      rw [hstate]
      constructor
      · nofun
      · intro h
        contradiction
    · rw [hconnected, hrxq]
      intro _ _ _
      apply hs.unsynced pcb hpcb
      rw [hclosed]
      rfl
  | listens pcb pcb' hpcb hclosed hpcb' hstate hlistening hconnected hrxq =>
    constructor
    · rw [hpcb', hlistening]
      rintro _ ⟨⟩
      rw [hstate]
      simp
    · rw [hconnected, hrxq]
      intro _ _ _
      apply hs.unsynced pcb hpcb
      rw [hclosed]
      rfl

theorem Synced.step (hs : s.Synced) (h : KindStep s s') :
  s'.Synced
  := by
  have hclosed : ∀ pcb, s.pcb = some pcb → pcb.state ≠ .closed := by
    intro pcb hpcb hclosed
    have hsync := hs pcb hpcb
    rw [hclosed] at hsync
    contradiction
  cases h with
  | same hpcb =>
    intro pcb' hmem
    obtain ⟨pcb, hold, hstate⟩ := hpcb pcb' hmem
    rw [hstate]
    apply hs pcb hold
  | synced pcb hpcb hstate hlistening hsynced => apply hsynced
  | connects pcb pcb' hpcb h | listens pcb pcb' hpcb h => exact absurd h (hclosed pcb hpcb)

theorem kindStep_tcpWrite (s : SbSocket β κ) (chunk : ℕ) :
  KindStep s (s.tcpWrite chunk).1
  := by
  unfold tcpWrite
  split
  next => exact .of_pcb rfl rfl rfl rfl
  next pcb hpcb =>
    split
    · exact .of_pcb rfl rfl rfl rfl
    · exact .of_some hpcb rfl rfl rfl rfl rfl

theorem kindStep_event
    (hL : L.Documented) (hD : L.DeliversSynchronized) {e : TcpEvent β κ}
    (h : s.event L e = some s') :
  KindStep s s'
  := by
  have hunlisten : ∀ {state : TcpState}, state.synchronized = true → state ≠ .listen := by
    rintro _ hsync rfl
    contradiction
  cases eventStep_of_event h with
  | deliver p pcb hpcb hdel =>
    have hsync := hD pcb _ hdel
    have hsame := sameConn_deliver s p
    apply KindStep.synced pcb hpcb (hunlisten hsync) hsame.listening_eq
    intro pcb' hmem
    have hmap := hsame.state_eq
    rw [hpcb, Option.mem_def.mp hmem] at hmap
    rw [Option.some.inj hmap, hsync]
  | urgent up pcb hpcb | sent n memFull pcb hpcb | memory full pcb hpcb
  | write left chunk pcb hpcb => exact .of_some hpcb rfl rfl rfl rfl rfl
  | err e => exact .of_none rfl rfl nofun rfl
  | shutBoth r => exact .of_none rfl rfl id rfl
  | established rcvNxt pcb hpcb hsyn =>
    apply KindStep.synced pcb hpcb
    · rw [hsyn]
      nofun
    · rfl
    · rintro _ ⟨⟩
      rfl
  | progress state pcb hpcb hold hnew =>
    apply KindStep.synced pcb hpcb (hunlisten hold)
    · rfl
    · rintro _ ⟨⟩
      apply hnew
  | connects pcb hpcb _ _ hr =>
    exact .connects pcb _ hpcb (hL.connect_closed pcb hr) rfl rfl rfl rfl rfl
  | listens backlog pcb hpcb hl =>
    exact .listens pcb _ hpcb (hL.listen_closed pcb hl) rfl rfl rfl rfl rfl
  | _ => exact .of_pcb rfl rfl rfl rfl

theorem kindStep_api (s : SbSocket β κ) (c : ApiCall β) :
  KindStep s (s.api c)
  := by
  unfold api
  split
  · exact .of_pcb rfl rfl rfl rfl
  · exact .of_pcb rfl rfl rfl rfl
  · exact .of_pcb rfl rfl rfl rfl
  · split
    · exact .of_pcb rfl rfl rfl rfl
    · split
      · apply kindStep_tcpWrite
      · exact .of_pcb rfl rfl rfl rfl
  · exact .of_pcb rfl rfl rfl rfl

end SbSocket

/-! ### Receive calls -/

def Call.took : Call → Bool
  | .drain _ _ d => decide (0 < d.acked)
  | .after _ _ d => decide (0 < d.acked)
  | .copy .. => true
  | _ => false

theorem Call.Step.kindStep
    {β κ : Type} {s : SbSocket β κ} {pos : ℕ} {c : Call} {sec : Section β κ}
    (h : Call.Step s pos c sec) :
  SbSocket.KindStep s sec.sock
  := by
  apply SbSocket.KindStep.of_sameConn h.sameConn
  intro hempty
  cases h with
  | enter r =>
    simp only [SbSocket.passMark]
    split
    · apply hempty
    · apply hempty
  | consume r p d h t hq =>
    rw [hq] at hempty
    contradiction
  | detach r p d run rest hlt hrun hne =>
    rw [hempty] at hrun
    cases hrun
    contradiction
  | oob hc h =>
    obtain hs | ⟨-, hs⟩ | hs := h.sock_eq
    · rw [hs]
      apply hempty
    · rw [hs]
      apply hempty
    · rw [hs]
      apply hempty
  | _ => apply hempty

theorem Call.Step.took
    {β κ : Type} {s : SbSocket β κ} {pos : ℕ} {c : Call} {sec : Section β κ}
    (h : Call.Step s pos c sec) (htook : sec.call.took = true) :
  c.took = true ∨ s.rxq ≠ []
  := by
  cases h with
  | leave r p d => exact .inl htook
  | consume r p d h t hq =>
    right
    rw [hq]
    apply List.cons_ne_nil
  | detach r p d run rest hlt hrun hne =>
    right
    intro hempty
    rw [hempty] at hrun
    cases hrun
    contradiction
  | relock r p d run => exact .inl rfl
  | oob hc h =>
    obtain hoob | ⟨r, p, res, hdone, -⟩ := h.call_eq
    · cases hcall : sec.call <;> simp [hcall, Call.isOob, Call.took] at hoob htook
    · rw [hdone] at htook
      contradiction
  | _ => contradiction
