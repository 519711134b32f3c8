import LwipAmiga.Tcp.Kind

/-!
# Operations on listening control blocks

The tests of `connected` keep most calls from touching fields that a listening control block does not
have.
-/

open Option Function TransitionSystem

/-! ### Well-typed operations -/

def Typed (ops : List (PcbOp × TcpState)) : Prop :=
  ∀ x ∈ ops, x.2 = .listen → x.1.full = false

theorem typed_nil :
  Typed []
  := nofun

theorem typed_append {ops ops' : List (PcbOp × TcpState)} :
  Typed (ops ++ ops') ↔ Typed ops ∧ Typed ops'
  := List.forall_mem_append

namespace SbSocket

variable {β κ : Type} {L : Lwip} {s s' : SbSocket β κ}

theorem typed_on {ops : List PcbOp} :
  Typed (s.on ops) ↔ (s.ListenPcb → ∀ op ∈ ops, op.full = false)
  := by
  cases hpcb : s.pcb with
  | none => simp [Typed, SbSocket.on, ListenPcb, hpcb]
  | some pcb =>
    simp only [Typed, SbSocket.on, ListenPcb, hpcb, List.forall_mem_map, mem_some_iff,
      exists_eq_left']
    exact ⟨fun h hlisten op hop => h op hop hlisten, fun h op hop hlisten => h hlisten op hop⟩

theorem typed_on_common {ops : List PcbOp} (h : ∀ op ∈ ops, op.full = false) :
  Typed (s.on ops)
  := typed_on.mpr fun _ => h

theorem typed_on_of_not {ops : List PcbOp} (h : ¬ s.ListenPcb) :
  Typed (s.on ops)
  := typed_on.mpr fun hlisten => absurd hlisten h

theorem typed_on_full {ops : List PcbOp} (op : PcbOp) (hop : op ∈ ops) (hfull : op.full = true) :
  Typed (s.on ops) ↔ ¬ s.ListenPcb
  := by
  constructor
  · intro h hlisten
    have hcommon := typed_on.mp h hlisten op hop
    rw [hfull] at hcommon
    contradiction
  · apply typed_on_of_not

theorem sendTest_cases (s : SbSocket β κ) (left : ℕ) :
  (∃ e, s.sendTest left = .stop e) ∨ (∃ e, s.sendTest left = .fail e) ∨
    s.sendTest left = .block ∧ s.connecting = true ∨ s.connected = true
  := by
  unfold sendTest
  split
  · simp
  · split
    · simp
    · split
      · simp
      · split
        · rename_i hconnecting
          simp [hconnecting]
        · split
          · simp
          · rename_i hconnected
            right; right; right
            simpa using hconnected

theorem Synced.not_listenPcb (h : s.Synced) :
  ¬ s.ListenPcb
  := by
  rintro ⟨pcb, hmem, hlisten⟩
  have hsync := h pcb hmem
  rw [hlisten] at hsync
  contradiction

namespace KindOk

theorem synced_of_connected (hs : s.KindOk) (h : s.connected = true) :
  s.Synced
  := by
  intro pcb hmem
  by_contra hno
  have hunsynced := (hs.unsynced pcb hmem (Bool.eq_false_iff.mpr hno)).1
  rw [h] at hunsynced
  contradiction

theorem synced_of_rxq (hs : s.KindOk) (h : s.rxq ≠ []) :
  s.Synced
  := by
  intro pcb hmem
  by_contra hno
  apply h
  apply (hs.unsynced pcb hmem (Bool.eq_false_iff.mpr hno)).2

theorem not_listenPcb (hs : s.KindOk) (h : s.connected = true) :
  ¬ s.ListenPcb
  := (hs.synced_of_connected h).not_listenPcb

theorem listening_of_listenPcb (hs : s.KindOk) (h : s.ListenPcb) :
  s.listening = true
  := by
  obtain ⟨pcb, hmem, hlisten⟩ := h
  apply (hs.listening pcb hmem).mp hlisten

theorem typed_sendOps (hs : s.KindOk) (left : ℕ) :
  Typed (s.sendOps left) ↔ (s.ListenPcb → left ≠ 0)
  := by
  unfold sendOps
  split
  next hzero =>
    rw [typed_on_full .output (by simp) rfl]
    simp [hzero]
  next hleft =>
    have hopen := s.sendTest_cases left
    simp only [ne_eq, hleft, not_false_eq_true, implies_true, iff_true]
    split
    next => apply typed_nil
    next => apply typed_nil
    next hblock =>
      split
      next => apply typed_nil
      next hconnecting =>
        apply typed_on_of_not
        apply hs.not_listenPcb
        simpa [hblock, hconnecting] using hopen
    next n hwrite =>
      apply typed_on_of_not
      apply hs.not_listenPcb
      simpa [hwrite] using hopen

theorem typed_freeOps (hs : s.KindOk) :
  Typed s.freeOps
  := by
  unfold freeOps
  split
  · apply typed_on_common
    decide
  · rename_i hno
    apply typed_on_of_not
    intro hlisten
    apply hno (hs.listening_of_listenPcb hlisten)

theorem typed_eventOps
    (hs : s.KindOk) (hD : L.DeliversSynchronized) {e : TcpEvent β κ} (h : s.event L e = some s') :
  Typed (s.eventOps e) ↔ (s.ListenPcb → ∀ r, e ≠ .shutdown 2 r)
  := by
  cases e with
  | shutdown how r =>
    rw [eventOps]
    split
    next hrange =>
      have hne : how ≠ 2 := by
        omega
      simp [typed_nil, hne]
    next =>
      split
      next hboth =>
        rw [typed_on_full .recv (by simp) rfl]
        simp [hboth]
      next hne =>
        have hcommon : Typed (s.on [.shutdown]) := by
          apply typed_on_common
          decide
        simp [hcommon, hne]
  | deliver p =>
    simp only [event, bind_eq_some_iff, ite_none_right_eq_some,
      some.injEq] at h
    obtain ⟨pcb, hpcb, ⟨hdel, -⟩, -⟩ := h
    have htyped : Typed (s.eventOps (.deliver p)) := by
      apply typed_on_of_not
      rintro ⟨pcb', hmem, hlisten⟩
      cases hpcb.symm.trans hmem
      have hsync := hD pcb _ hdel
      rw [hlisten] at hsync
      contradiction
    simp [htyped]
  | connected rcvNxt e =>
    have htyped : Typed (s.eventOps (.connected rcvNxt e)) := by
      rw [eventOps]
      split
      · simp [Typed]
      · apply typed_nil
    simp [htyped]
  | connect r =>
    have htyped : Typed (s.eventOps (.connect r)) := by
      rw [eventOps]
      split
      · apply typed_nil
      · apply typed_on_common
        decide
    simp [htyped]
  | listen backlog listens =>
    have hlisten : Typed (s.on [.listen]) := by
      apply typed_on_common
      decide
    have htyped : Typed (s.eventOps (.listen backlog listens)) := by
      rw [eventOps]
      split
      · apply typed_nil
      · split
        · rw [typed_append]
          use hlisten
          simp [Typed, PcbOp.full]
        · apply hlisten
    simp [htyped]
  | write left =>
    have htyped : Typed (s.eventOps (.write left)) := by
      rw [eventOps, hs.typed_sendOps]
      intro hlisten
      have hopen := s.sendTest_cases left
      simp only [event] at h
      split at h
      · rename_i chunk hwrite
        exact absurd hlisten (hs.not_listenPcb (by simpa [hwrite] using hopen))
      · contradiction
    simp [htyped]
  | _ => simp [eventOps, typed_nil]

end KindOk

theorem typed_callOps {c : Call} (h : c.took = true → s.Synced) :
  Typed (s.callOps c)
  := by
  unfold callOps
  split
  · split
    · rename_i hacked
      apply typed_on_of_not
      apply Synced.not_listenPcb
      apply h
      simpa [Call.took] using hacked
    · apply typed_nil
  · apply typed_nil

end SbSocket

/-! ### The calls that make no test -/

def ApiCall.unguarded {β : Type} : ApiCall β → Bool
  | .setsockopt .nodelay => true
  | .getsockopt .nodelay => true
  | .send left => left == 0
  | .peerAddr _ => true
  | _ => false

def TypedLabel.unguarded {β κ : Type} : TypedLabel β κ → Bool
  | .step l => l.shutsBoth
  | .api c => c.unguarded

theorem shutsBoth_event {β κ : Type} {e : TcpEvent β κ} :
  (TcpLabel.event e).shutsBoth = false ↔ ∀ r, e ≠ .shutdown 2 r
  := by
  cases e <;> simp [TcpLabel.shutsBoth]

namespace SbSocket

variable {β κ : Type} {s : SbSocket β κ} {c : ApiCall β}

theorem typed_apiOps_of_unguarded (hs : s.KindOk) (hc : c.unguarded = true) :
  Typed (s.apiOps c) ↔ ¬ s.ListenPcb
  := by
  cases c with
  | setsockopt o | getsockopt o =>
    cases o with
    | nodelay => apply typed_on_full .nagle (by simp) rfl
    | _ => contradiction
  | send left =>
    obtain rfl : left = 0 := by
      simpa [ApiCall.unguarded] using hc
    change Typed (s.sendOps 0) ↔ _
    rw [hs.typed_sendOps]
    simp
  | peerAddr i => apply typed_on_full .remotePort (by simp) rfl
  | _ => contradiction

theorem KindOk.typed_apiOps
    (hs : s.KindOk) (hc : c.unguarded = false) (hlinger : c = .linger → s.Synced)
    (hstart : c = .lingerStart → s.connected = true) :
  Typed (s.apiOps c)
  := by
  have hconnected : ∀ ops, s.connected = true → Typed (s.on ops) := by
    intro ops h
    apply typed_on_of_not (hs.not_listenPcb h)
  cases c with
  | setsockopt o =>
    cases o with
    | pcbOption =>
      apply typed_on_common
      decide
    | eventMask val =>
      change Typed (if s.connected then s.on [.sndbuf] else [])
      split
      · rename_i h
        apply hconnected _ h
      · apply typed_nil
    | nodelay => contradiction
    | _ => apply typed_nil
  | getsockopt o =>
    cases o with
    | pcbOption =>
      apply typed_on_common
      decide
    | nodelay => contradiction
    | _ => apply typed_nil
  | bind | getsockname =>
    apply typed_on_common
    decide
  | getpeername =>
    change Typed (if s.connected then s.on [.remotePort] else [])
    split
    · rename_i h
      apply hconnected _ h
    · apply typed_nil
  | select =>
    change Typed s.writableOps
    rw [writableOps]
    split
    · apply typed_nil
    · rename_i h
      simp only [Bool.or_eq_true, Bool.not_eq_true', not_or, Bool.not_eq_false] at h
      apply hconnected _ h.2
  | send left =>
    change Typed (s.sendOps left)
    rw [hs.typed_sendOps]
    intro _
    simpa [ApiCall.unguarded] using hc
  | peerAddr i => contradiction
  | lingerStart => apply hconnected _ (hstart rfl)
  | linger => apply typed_on_of_not (hlinger rfl).not_listenPcb

end SbSocket

/-! ### Runs -/

namespace TypedWorld

variable {β κ : Type} {L : Lwip} {w w' : TypedWorld β κ}

structure KindInv (w : TypedWorld β κ) : Prop where
  sock : w.world.sock.KindOk
  took : ∀ i, (w.world.call i).took = true → w.world.sock.Synced
  lingering : w.lingering = true → w.world.sock.Synced

def Careful (w : TypedWorld β κ) (l : TypedLabel β κ) : Prop :=
  w.world.sock.ListenPcb → l.unguarded = false

instance (w : TypedWorld β κ) (l : TypedLabel β κ) : Decidable (w.Careful l) :=
  inferInstanceAs (Decidable (_ → _))

def WellTyped (w : TypedWorld β κ) : Prop :=
  Typed w.applied

theorem kindInv_start {b : β} {s : SbSocket β κ} (hs : TcpWorld.Created b s) :
  (start s).KindInv
  := by
  refine ⟨?_, (by intros; contradiction), (by intros; contradiction)⟩
  cases hs with
  | socket sndBuf =>
    constructor
    · rintro _ ⟨⟩
      simp [start, TcpWorld.start, SbSocket.sbSockAlloc, tcpNew]
    · intro _ _ _
      exact ⟨rfl, rfl⟩
  | accepted pcb hstate hdel hrecv =>
    constructor
    · rintro _ ⟨⟩
      constructor
      · intro hlisten
        rw [hlisten] at hstate
        contradiction
      · intros
        contradiction
    · rintro _ ⟨⟩ hunsynced
      rw [hstate] at hunsynced
      contradiction

theorem KindInv.move
    (hw : w.KindInv) (hstep : SbSocket.KindStep w.world.sock w'.world.sock)
    (htook : ∀ i, (w'.world.call i).took = true →
      (w.world.call i).took = true ∨ w.world.sock.Synced)
    (hlingering : w'.lingering = true → w.lingering = true ∨ w.world.sock.Synced) :
  w'.KindInv
  := by
  constructor
  · apply hw.sock.step hstep
  · intro i h
    obtain hold | hsynced := htook i h
    · apply (hw.took i hold).step hstep
    · apply hsynced.step hstep
  · intro h
    obtain hold | hsynced := hlingering h
    · apply (hw.lingering hold).step hstep
    · apply hsynced.step hstep

theorem wellTyped_start {b : β} {s : SbSocket β κ} (hs : TcpWorld.Created b s) :
  (start s).WellTyped
  := by
  have hunlisten : ¬ s.ListenPcb := by
    rintro ⟨pcb, hmem, hlisten⟩
    cases hs with
    | socket sndBuf =>
      cases hmem
      contradiction
    | accepted pcb hstate hdel hrecv =>
      cases hmem
      rw [hlisten] at hstate
      contradiction
  change Typed (wireOps s)
  unfold wireOps
  split
  · apply SbSocket.typed_on_of_not hunlisten
  · apply SbSocket.typed_on_of_not hunlisten

theorem took_begin (s : SbSocket β κ) (r : RecvReq) (oob : Bool) :
  (Call.begin s r oob).took = false
  := by
  simp only [Call.begin]
  split
  · split <;> rfl
  · rfl

variable [DecidableEq β]

theorem took_update
    {call : β → Call} {i j : β} {c : Call} (hc : c.took = false)
    (h : (update call i c j).took = true) :
  (call j).took = true
  := by
  obtain rfl | hj := eq_or_ne j i
  · rw [update_self, hc] at h
    contradiction
  · rw [update_of_ne hj] at h
    apply h

variable [Fintype β]

theorem KindInv.next
    (hL : L.Documented) (hD : L.DeliversSynchronized) (hw : w.KindInv) {l : TypedLabel β κ}
    (h : w.next L l = some w') :
  w'.KindInv
  := by
  cases l with
  | api c =>
    simp only [TypedWorld.next, ite_none_right_eq_some, some.injEq,
      Bool.and_eq_true] at h
    obtain ⟨⟨-, henabled⟩, rfl⟩ := h
    apply hw.move
    · apply SbSocket.kindStep_api
    · intro i
      apply Or.inl
    · intro hlingering
      rw [Bool.or_eq_true] at hlingering
      obtain hold | hnew := hlingering
      · exact .inl hold
      · right
        cases c with
        | lingerStart =>
          simp only [enabled, Bool.and_eq_true] at henabled
          apply hw.sock.synced_of_connected henabled.2
        | _ => contradiction
  | step l =>
    obtain ⟨world, hworld, rfl⟩ := map_eq_some_iff.mp h
    cases TcpWorld.step_of_next hworld with
    | event e s' hlock hevent =>
      apply hw.move
      · apply SbSocket.kindStep_event hL hD hevent
      · intro i
        apply Or.inl
      · apply Or.inl
    | close hrest => exact ⟨hw.sock, hw.took, hw.lingering⟩
    | begin i r oob hrest =>
      apply hw.move
      · exact .of_pcb rfl rfl rfl rfl
      · intro j htook
        left
        apply took_update (took_begin _ _ _) htook
      · apply Or.inl
    | call i sec hl hlock hcall =>
      apply hw.move
      · apply hcall.kindStep
      · intro j htook
        change (update w.world.call i sec.call j).took = true at htook
        obtain rfl | hj := eq_or_ne j i
        · rw [update_self] at htook
          obtain hold | hrxq := hcall.took htook
          · exact .inl hold
          · exact .inr (hw.sock.synced_of_rxq hrxq)
        · rw [update_of_ne hj] at htook
          exact .inl htook
      · apply Or.inl
    | clear i r p e hc =>
      apply hw.move
      · exact .of_pcb rfl rfl rfl rfl
      · intro j htook
        left
        apply took_update _ htook
        rfl
      · apply Or.inl

theorem KindInv.typed_iff
    (hD : L.DeliversSynchronized) (hw : w.KindInv) {l : TypedLabel β κ} (h : w.next L l = some w') :
  ∃ ops, w'.applied = w.applied ++ ops ∧ (Typed ops ↔ w.Careful l)
  := by
  cases l with
  | api c =>
    simp only [TypedWorld.next, ite_none_right_eq_some, some.injEq,
      Bool.and_eq_true] at h
    obtain ⟨⟨-, henabled⟩, rfl⟩ := h
    refine ⟨_, rfl, ?_⟩
    cases hc : c.unguarded with
    | true =>
      rw [SbSocket.typed_apiOps_of_unguarded hw.sock hc]
      simp [Careful, TypedLabel.unguarded, hc]
    | false =>
      have htyped : Typed (w.world.sock.apiOps c) := by
        apply hw.sock.typed_apiOps hc
        · rintro rfl
          apply hw.lingering henabled
        · rintro rfl
          simp only [enabled, Bool.and_eq_true] at henabled
          apply henabled.2
      simp [Careful, TypedLabel.unguarded, hc, htyped]
  | step l =>
    obtain ⟨world, hworld, rfl⟩ := map_eq_some_iff.mp h
    refine ⟨_, rfl, ?_⟩
    change Typed (stepOps w.world l) ↔ (w.world.sock.ListenPcb → l.shutsBoth = false)
    cases l with
    | event e =>
      cases TcpWorld.step_of_next hworld with
      | event e s' hlock hevent =>
        rw [stepOps, hw.sock.typed_eventOps hD hevent, shutsBoth_event]
      | call i sec hl => contradiction
    | close => simp [stepOps, TcpLabel.shutsBoth, hw.sock.typed_freeOps]
    | run i =>
      have htyped : Typed (w.world.sock.callOps (w.world.call i)) :=
        SbSocket.typed_callOps (hw.took i)
      simp [stepOps, TcpLabel.shutsBoth, htyped]
    | _ => simp [stepOps, TcpLabel.shutsBoth, typed_nil]

theorem KindInv.wellTyped_iff
    (hD : L.DeliversSynchronized) (hw : w.KindInv) (htyped : w.WellTyped) {l : TypedLabel β κ}
    (h : w.next L l = some w') :
  w'.WellTyped ↔ w.Careful l
  := by
  obtain ⟨ops, happlied, hops⟩ := hw.typed_iff hD h
  rw [WellTyped, happlied, typed_append, ← hops]
  exact and_iff_right htyped

theorem kindInv_of_reach
    {good : TypedWorld β κ → TypedLabel β κ → Prop} (hL : L.Documented)
    (hD : L.DeliversSynchronized) (r : (system L).Reach good w) :
  w.KindInv
  := by
  apply r.invariant (I := KindInv)
  · rintro _ ⟨b, s, hs, rfl⟩
    apply kindInv_start hs
  · intro w l w' hw _ h
    apply hw.next hL hD h

/-- Only operations that suit it are applied to a control block, unless a call that makes no test is
made on one that listens. -/
theorem listen_ops_typed
    (hL : L.Documented) (hD : L.DeliversSynchronized) (r : (system L).Reach Careful w) :
  w.WellTyped ∧ ∀ l w', w.next L l = some w' → (w'.WellTyped ↔ w.Careful l)
  := by
  have htyped : w.WellTyped := by
    apply r.invariant_of (J := KindInv) (I := WellTyped)
    · intro w r
      apply kindInv_of_reach hL hD r
    · rintro _ ⟨b, s, hs, rfl⟩
      apply wellTyped_start hs
    · intro w l w' hw htyped hgood h
      apply (hw.wellTyped_iff hD htyped h).mpr hgood
  use htyped
  intro l w' h
  apply (kindInv_of_reach hL hD r).wellTyped_iff hD htyped h

/-! ### Calls on a listening socket -/

def connectionsDeliver : Lwip :=
  { Lwip.reference with
    deliver := fun pcb n => pcb.state.synchronized && Lwip.reference.deliver pcb n }

theorem connectionsDeliver_documented :
  connectionsDeliver.Documented ∧ connectionsDeliver.DeliversSynchronized
  := by
  have href := Lwip.reference_documented
  constructor
  · refine ⟨href.connect_closed, href.connect_already, href.reports_already, href.listen_closed, ?_⟩
    intro pcb n h
    apply href.deliver_window pcb n
    apply Bool.and_elim_right h
  · intro pcb n h
    apply Bool.and_elim_left h

def newTypedSocket : TypedWorld Bool Unit :=
  start { SbSocket.sbSockAlloc true .tcp with pcb := some (tcpNew 1000) }

theorem init_newTypedSocket (L : Lwip) :
  (system L).init newTypedSocket
  := ⟨true, _, .socket 1000, rfl⟩

def listenerRun : List (TypedLabel Bool Unit) :=
  [.step (.event (.listen 5 true)), .api (.setsockopt .pcbOption), .api .select, .api (.send 3)]

theorem listenerRun_enabled :
  ((system connectionsDeliver).exec newTypedSocket listenerRun).isSome = true
  := by
  decide

def listener : TypedWorld Bool Unit :=
  (system connectionsDeliver).last newTypedSocket listenerRun listenerRun_enabled

theorem listen_ops_typed_listener :
  (system connectionsDeliver).Reach Careful listener ∧ listener.world.sock.ListenPcb ∧
    listener.WellTyped
  := by
  have hreach : (system connectionsDeliver).Reach Careful listener := by
    apply reach_last (init_newTypedSocket _)
    decide
  obtain ⟨hL, hD⟩ := connectionsDeliver_documented
  exact ⟨hreach, by decide, (listen_ops_typed hL hD hreach).1⟩

def carelessRun : List (TypedLabel Bool Unit) :=
  [.step (.event (.shutdown 0 .ok)), .step (.event (.listen 5 true)),
    .api (.setsockopt .nodelay), .api (.getsockopt .nodelay), .api (.send 0),
    .step (.begin true (.plain 10 (by decide)) false), .step (.enter true), .step (.run true),
    .api (.peerAddr true), .step (.event (.shutdown 2 .conn))]

theorem carelessRun_enabled :
  ((system connectionsDeliver).exec newTypedSocket carelessRun).isSome = true
  := by
  decide

def careless : TypedWorld Bool Unit :=
  (system connectionsDeliver).last newTypedSocket carelessRun carelessRun_enabled

/-- Each of these calls applies an operation that needs a connection to a control block that
listens. -/
theorem careless_ops :
  (system connectionsDeliver).Reachable careless ∧
    (.nagle, .listen) ∈ careless.applied ∧ (.output, .listen) ∈ careless.applied ∧
    (.remotePort, .listen) ∈ careless.applied ∧ (.recv, .listen) ∈ careless.applied ∧
    ¬ careless.WellTyped
  := by
  have hnagle : (.nagle, .listen) ∈ careless.applied := by
    decide
  refine ⟨reachable_last (init_newTypedSocket _), hnagle, by decide,
    by decide, by decide, ?_⟩
  intro htyped
  have hcommon := htyped _ hnagle rfl
  contradiction

end TypedWorld
