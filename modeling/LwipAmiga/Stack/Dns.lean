import LwipAmiga.Stack.Netctl

/-!
# Configured name servers

`DNS1` and `DNS2` are to override the servers that lwIP takes from every acknowledgement of a DHCP
server.
-/

open TransitionSystem Option

structure DnsWorld where
  cfgDns : Fin 2 → UInt32
  servers : ℕ → UInt32
  pendingAdd : Option NetCtlIfConfig
  created : Bool
  dhcp : Bool
  supplied : Bool
  linkUp : Bool
  due : Bool

namespace DnsWorld

/-! ### The handlers -/

def override (cfgDns : Fin 2 → UInt32) (servers : ℕ → UInt32) (i : Fin 2) : ℕ → UInt32 :=
  if cfgDns i ≠ 0 then Function.update servers i (cfgDns i) else servers

def sbNetctlApplyDns (w : DnsWorld) : DnsWorld :=
  { w with servers := [0, 1].foldl (override w.cfgDns) w.servers }

def ready (w : DnsWorld) (nif : NetCtlIfConfig) : Bool :=
  if nif.has NETCTL_IFF_DHCP then w.supplied else w.linkUp

def sbNetctlTryCompleteAdd (w : DnsWorld) : DnsWorld × Bool :=
  match w.pendingAdd with
  | none => (w, false)
  | some nif =>
      if w.ready nif then ({ w.sbNetctlApplyDns with pendingAdd := none }, true) else (w, false)

/-- `sb_netctl_add`, `up` being whether `sb_if_up` brings up the interface and `link` whether it has
a link then. -/
def sbNetctlAdd (w : DnsWorld) (nif : NetCtlIfConfig) (up link : Bool) : DnsWorld :=
  if w.created || w.pendingAdd.isSome then w
  else if nif.acceptable && up then
    (sbNetctlTryCompleteAdd
      { w with
        created := true, dhcp := nif.has NETCTL_IFF_DHCP, supplied := false, linkUp := link
        pendingAdd := some nif }).1
  else w

def sbNetctlCancelAdd (w : DnsWorld) : DnsWorld :=
  match w.sbNetctlTryCompleteAdd with
  | (w', true) => w'
  | (w', false) => { w' with pendingAdd := none }

def sbNetctlRem (w : DnsWorld) : DnsWorld :=
  { w with pendingAdd := none, created := false, dhcp := false, supplied := false }

def sbNetctlTick (w : DnsWorld) : DnsWorld :=
  w.sbNetctlTryCompleteAdd.1

/-! ### The system -/

inductive Label where
  | add (nif : NetCtlIfConfig) (up link : Bool)
  | cancel
  | rem
  | tick
  | lease (offered : List UInt32)
  | lost
  | link (up : Bool)

def offer (servers : ℕ → UInt32) (offered : List UInt32) : ℕ → UInt32 :=
  fun i => offered.getD i (servers i)

def next (w : DnsWorld) : Label → Option DnsWorld
  | .add nif up link => some (w.sbNetctlAdd nif up link)
  | .cancel => some w.sbNetctlCancelAdd
  | .rem => if w.created then some w.sbNetctlRem else none
  | .tick => some { w.sbNetctlTick with due := false }
  | .lease offered =>
      if w.dhcp then
        some { w with servers := offer w.servers offered, supplied := true, due := true }
      else none
  | .lost => if w.dhcp then some { w with supplied := false } else none
  | .link up => if w.created then some { w with linkUp := up } else none

def start (cfgDns : Fin 2 → UInt32) : DnsWorld :=
  sbNetctlApplyDns
    { cfgDns := cfgDns, servers := fun _ => 0, pendingAdd := none, created := false, dhcp := false
      supplied := false, linkUp := false, due := false }

def system : TransitionSystem DnsWorld Label where
  init w := ∃ cfgDns, w = start cfgDns
  next := next

/-! ### The configured servers are in their slots -/

def Configured (w : DnsWorld) : Prop :=
  ∀ i, w.cfgDns i ≠ 0 → w.servers i = w.cfgDns i

def Waiting (w : DnsWorld) : Prop :=
  w.supplied = true ∧ ∃ nif, w.pendingAdd = some nif ∧ nif.has NETCTL_IFF_DHCP = true

def Inv (w : DnsWorld) : Prop :=
  w.Configured ∨ w.due = true ∧ w.Waiting

def orderly (w : DnsWorld) : Label → Bool
  | .lease _ => w.pendingAdd.any fun nif => nif.has NETCTL_IFF_DHCP
  | .lost | .rem => !w.due
  | _ => true

variable {w w' : DnsWorld}

theorem configured_sbNetctlApplyDns (w : DnsWorld) :
  w.sbNetctlApplyDns.Configured
  := by
  intro i hi
  simp only [sbNetctlApplyDns, List.foldl_cons, List.foldl_nil, override] at hi ⊢
  match i with
  | 0 =>
    rw [if_pos hi]
    split <;> simp
  | 1 =>
    rw [if_pos hi]
    simp

theorem tryCompleteAdd_cases (w : DnsWorld) :
  (w.sbNetctlTryCompleteAdd.2 = true ∧ w.sbNetctlTryCompleteAdd.1.Configured) ∨
  (w.sbNetctlTryCompleteAdd = (w, false) ∧ ¬ w.Waiting)
  := by
  unfold sbNetctlTryCompleteAdd
  split
  next hnone =>
    right
    refine ⟨rfl, ?_⟩
    rintro ⟨-, nif, hnif, -⟩
    rw [hnone] at hnif
    contradiction
  next nif hpending =>
    split
    · exact .inl ⟨rfl, w.configured_sbNetctlApplyDns⟩
    next hready =>
      right
      refine ⟨rfl, ?_⟩
      rintro ⟨hsupplied, nif', hnif', hdhcp⟩
      cases hpending.symm.trans hnif'
      simp [ready, hdhcp, hsupplied] at hready

theorem Inv.tryCompleteAdd (h : w.Inv) :
  w.sbNetctlTryCompleteAdd.1.Configured
  := by
  obtain ⟨-, hconf⟩ | ⟨heq, hwait⟩ := w.tryCompleteAdd_cases
  · apply hconf
  · rw [heq]
    obtain hconf | ⟨-, hwaiting⟩ := h
    · apply hconf
    · exact absurd hwaiting hwait

theorem Inv.step
    (h : w.Inv) {l : Label} (hl : w.orderly l = true) (hnext : next w l = some w') :
  w'.Inv
  := by
  cases l with
  | add nif up link =>
    cases hnext
    unfold sbNetctlAdd
    split
    · apply h
    next hfree =>
      split
      · left
        apply Inv.tryCompleteAdd
        left
        obtain hconf | ⟨-, -, nif', hpending, -⟩ := h
        · apply hconf
        · simp [hpending] at hfree
      · apply h
  | cancel =>
    cases hnext
    left
    have hconf := h.tryCompleteAdd
    unfold sbNetctlCancelAdd
    cases heq : w.sbNetctlTryCompleteAdd with
    | mk v done =>
      rw [heq] at hconf
      cases done <;> apply hconf
  | rem | lost =>
    obtain ⟨-, ⟨⟩⟩ := ite_none_right_eq_some.mp hnext
    left
    obtain hconf | ⟨hdue, -⟩ := h
    · apply hconf
    · simp [orderly, hdue] at hl
  | tick =>
    cases hnext
    left
    apply h.tryCompleteAdd
  | lease offered =>
    obtain ⟨-, ⟨⟩⟩ := ite_none_right_eq_some.mp hnext
    right
    refine ⟨rfl, rfl, ?_⟩
    simpa [orderly, any_eq_true] using hl
  | link up =>
    obtain ⟨-, ⟨⟩⟩ := ite_none_right_eq_some.mp hnext
    apply h

/-- Every slot with a configured server holds it whenever no lease has come since the last tick. -/
theorem configured_servers_win
    (hw : system.Reach (fun w l => w.orderly l = true) w) (hdue : w.due = false) :
  ∀ i, w.cfgDns i ≠ 0 → w.servers i = w.cfgDns i
  := by
  have hinv : w.Inv := by
    apply hw.invariant
    · rintro _ ⟨cfgDns, rfl⟩
      left
      apply configured_sbNetctlApplyDns
    · intro w l w' ih hl hnext
      apply ih.step hl hnext
  obtain hconf | ⟨hdue', -⟩ := hinv
  · apply hconf
  · rw [hdue] at hdue'
    contradiction

/-! ### Runs -/

theorem init_start (cfgDns : Fin 2 → UInt32) :
  system.init (start cfgDns)
  := ⟨cfgDns, rfl⟩

def prefs (i : Fin 2) : UInt32 :=
  if i = 0 then 0xc0a80102 else 0

def dhcpIf : NetCtlIfConfig where
  name := [0x65]
  device := [0x67]
  type := 0
  flags := NETCTL_IFF_DHCP
  addr := 0
  mtu := 0
  id := []
  hwAddr := []

def leaseRun : List Label :=
  [.add dhcpIf true true, .tick, .lease [0xc0a80101], .tick]

theorem leaseRun_enabled :
  (system.exec (start prefs) leaseRun).isSome = true
  := by
  decide

def leased : DnsWorld :=
  system.last (start prefs) leaseRun leaseRun_enabled

theorem configured_servers_win_leased :
  leased.due = false ∧ leased.supplied = true ∧ leased.servers 0 = 0xc0a80102
  := by
  have hreach : system.Reach (fun w l => w.orderly l = true) leased := by
    apply reach_last (init_start prefs)
    decide
  have hdue : leased.due = false := by decide
  have hwin := configured_servers_win hreach hdue 0 (by decide)
  refine ⟨hdue, by decide, hwin.trans ?_⟩
  decide

def renewalRun : List Label :=
  leaseRun ++ [.lease [0xc0a80101], .tick]

theorem renewalRun_enabled :
  (system.exec (start prefs) renewalRun).isSome = true
  := by
  decide

def renewed : DnsWorld :=
  system.last (start prefs) renewalRun renewalRun_enabled

def cancelRun : List Label :=
  [.add dhcpIf true true, .cancel, .lease [0xc0a80101], .tick]

theorem cancelRun_enabled :
  (system.exec (start prefs) cancelRun).isSome = true
  := by
  decide

def cancelled : DnsWorld :=
  system.last (start prefs) cancelRun cancelRun_enabled

/-- After a renewal, and after a lease that comes once its `ADD` is cancelled, the server of the lease
is in the slot of the configured one, and stays there. -/
theorem renewal_wins :
  (system.Reachable renewed ∧ renewed.due = false ∧ renewed.cfgDns 0 = 0xc0a80102 ∧
    renewed.servers 0 = 0xc0a80101) ∧
  (system.Reachable cancelled ∧ cancelled.due = false ∧ cancelled.cfgDns 0 = 0xc0a80102 ∧
    cancelled.servers 0 = 0xc0a80101)
  := by
  constructor
  · exact ⟨reachable_last (init_start prefs), by decide, by decide,
      by decide⟩
  · exact ⟨reachable_last (init_start prefs), by decide, by decide,
      by decide⟩

end DnsWorld
