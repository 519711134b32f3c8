import LwipAmiga.Lib.Ledger
import LwipAmiga.Lib.Transition

/-!
# The control port

The stack task serves a public port, through which interfaces are added and removed and the stack is
ended.
-/

def NETCTL_VERSION : ℕ := 3

def NETCTL_IFNAME_MAX : ℕ := 16

def NETCTL_DEV_MAX : ℕ := 64

def NETCTL_ID_MAX : ℕ := 64

def NETCTL_IFF_DHCP : UInt32 := 1

def NETCTL_IFF_HAS_MASK : UInt32 := 2

def NETCTL_IFF_HAS_MTU : UInt32 := 8

def NETCTL_IFF_HAS_HWADDR : UInt32 := 16

def NETCTL_TYPE_AUTO : ℤ := 0

def NETCTL_TYPE_SANA2 : ℤ := 2

inductive NetctlOp where
  | addIf
  | cancelAdd
  | remIf
  | shutdown
  | cancelShutdown
  | unknown (n : ℕ)
  deriving DecidableEq

inductive NetctlResult where
  | ok
  | errVersion
  | errOp
  | errParam
  | errExists
  | errNotfound
  | errBusy
  | errDevice
  | errNomem
  | errInactive
  | errPending
  | errAborted
  | errHwtype
  deriving DecidableEq

structure NetCtlIfConfig where
  name : List UInt8
  device : List UInt8
  type : ℤ
  flags : UInt32
  addr : UInt32
  mtu : ℤ
  id : List UInt8
  hwAddr : List UInt8
  deriving DecidableEq

structure NetctlOut where
  addrOut : UInt32
  maskOut : UInt32
  gatewayOut : UInt32
  dnsOut : UInt32 × UInt32
  deriving DecidableEq

structure NetCtlMsg where
  version : ℕ
  op : NetctlOp
  result : NetctlResult
  aux : ℤ
  force : UInt32
  count : ℕ
  config : NetCtlIfConfig
  out : NetctlOut
  deriving DecidableEq

def netctlMacUsable (mac : List UInt8) : Bool :=
  (mac.headD 0 &&& 1 == 0) && mac.any (· != 0)

namespace NetCtlIfConfig

def has (nif : NetCtlIfConfig) (flag : UInt32) : Bool :=
  nif.flags &&& flag != 0

def terminated (nif : NetCtlIfConfig) : NetCtlIfConfig :=
  { nif with
    name := nif.name.set (NETCTL_IFNAME_MAX - 1) 0
    device := nif.device.set (NETCTL_DEV_MAX - 1) 0
    id := nif.id.set (NETCTL_ID_MAX - 1) 0 }

def acceptable (nif : NetCtlIfConfig) : Bool :=
  nif.name.headD 0 != 0 && nif.device.headD 0 != 0 &&
    decide (NETCTL_TYPE_AUTO ≤ nif.type ∧ nif.type ≤ NETCTL_TYPE_SANA2) &&
    !(nif.has NETCTL_IFF_HAS_MTU && decide (nif.mtu ≤ 0)) &&
    !(nif.has NETCTL_IFF_HAS_HWADDR && !netctlMacUsable nif.hwAddr) &&
    -- a static configuration needs an address and a mask
    !(!nif.has NETCTL_IFF_DHCP && (nif.addr == 0 || !nif.has NETCTL_IFF_HAS_MASK))

end NetCtlIfConfig

/-! ### Writes to a message -/

namespace NetCtlMsg

def withResult (result : NetctlResult) (msg : NetCtlMsg) : NetCtlMsg :=
  { msg with result := result }

def withAux (aux : ℤ) (msg : NetCtlMsg) : NetCtlMsg :=
  { msg with aux := aux }

def withCount (count : ℕ) (msg : NetCtlMsg) : NetCtlMsg :=
  { msg with count := count }

def withOut (out : NetctlOut) (msg : NetCtlMsg) : NetCtlMsg :=
  { msg with out := out }

def terminated (msg : NetCtlMsg) : NetCtlMsg :=
  { msg with config := msg.config.terminated }

def nameTerminated (msg : NetCtlMsg) : NetCtlMsg :=
  { msg with config := { msg.config with
      name := msg.config.name.set (NETCTL_IFNAME_MAX - 1) 0 } }

end NetCtlMsg

structure NetctlEnv where
  ifUp : NetctlResult
  aux : ℤ
  dhcpSupplied : Bool
  linkUp : Bool
  out : NetctlOut
  found : Bool
  bound : ℕ

def NetctlEnv.operational (env : NetctlEnv) (nif : NetCtlIfConfig) : Bool :=
  if nif.has NETCTL_IFF_DHCP then env.dhcpSupplied else env.linkUp

inductive NetctlPhase where
  | running
  | stopped
  | leaving
  | ended
  deriving DecidableEq

structure SbNetctl (ι : Type) where
  port : Option (List ι)
  pendingAdd : Option ι
  pendingShutdown : Option ι
  shutdownMsg : Option ι
  created : Bool
  shuttingDown : Bool
  openCount : ℕ
  phase : NetctlPhase
  msgs : ι → NetCtlMsg
  log : List (Ledger.Event ι)

namespace SbNetctl

variable {ι : Type} [DecidableEq ι]

/-! ### Access to the messages -/

def look (c : SbNetctl ι) (m : ι) : SbNetctl ι :=
  { c with log := .touch m :: c.log }

def write (c : SbNetctl ι) (m : ι) (f : NetCtlMsg → NetCtlMsg) : SbNetctl ι :=
  { c with msgs := Function.update c.msgs m (f (c.msgs m)), log := .touch m :: c.log }

def replyMsg (c : SbNetctl ι) (m : ι) : SbNetctl ι :=
  { c with log := .reply m :: c.log }

def answer (c : SbNetctl ι) (m : ι) (result : NetctlResult) : SbNetctl ι :=
  (c.write m (.withResult result)).replyMsg m

/-! ### The handlers -/

def sbNetctlFillOutputs (c : SbNetctl ι) (env : NetctlEnv) (m : ι) : SbNetctl ι :=
  c.write m (.withOut env.out)

/-- `sb_netctl_try_complete_add`: answer a parked `ADD` once the interface is operational. -/
def sbNetctlTryCompleteAdd (c : SbNetctl ι) (env : NetctlEnv) : SbNetctl ι × Bool :=
  match c.pendingAdd with
  | none => (c, false)
  | some m =>
      let c := c.look m
      if env.operational (c.msgs m).config = false then (c, false)
      else
        let c := (c.sbNetctlFillOutputs env m).answer m .ok
        ({ c with pendingAdd := none }, true)

/-- `sb_netctl_add`, with `none` for `SB_NETCTL_PARKED`. -/
def sbNetctlAdd (c : SbNetctl ι) (env : NetctlEnv) (m : ι) : SbNetctl ι × Option NetctlResult :=
  if c.pendingShutdown.isSome then (c, some .errInactive)
  else if c.created || c.pendingAdd.isSome then (c, some .errExists)
  else
    let c := c.write m .terminated
    if (c.msgs m).config.acceptable = false then (c, some .errParam)
    else
      let c := c.write m (.withAux env.aux)
      if env.ifUp ≠ .ok then (c, some env.ifUp)
      else
        -- parked until operational; the attempt covers a link that is already up
        let c := { c with created := true, pendingAdd := some m }
        ((c.sbNetctlTryCompleteAdd env).1, none)

def sbNetctlCancelAdd (c : SbNetctl ι) (env : NetctlEnv) : SbNetctl ι × Option NetctlResult :=
  match c.pendingAdd with
  | none => (c, some .errNotfound)
  | some m =>
      let (c, done) := c.sbNetctlTryCompleteAdd env
      if done then (c, some .errNotfound)
      else
        let c := (c.look m).write m (.withResult .errPending)
        let c := (c.sbNetctlFillOutputs env m).replyMsg m
        ({ c with pendingAdd := none }, some .ok)

def withdrawAdd (c : SbNetctl ι) : SbNetctl ι :=
  match c.pendingAdd with
  | none => c
  | some m => { c.answer m .errInactive with pendingAdd := none }

def sbNetctlRem (c : SbNetctl ι) (env : NetctlEnv) (m : ι) : SbNetctl ι × Option NetctlResult :=
  if c.pendingShutdown.isSome then (c, some .errInactive)
  else
    let c := c.write m .nameTerminated
    if (c.msgs m).config.name.headD 0 = 0 then (c, some .errParam)
    else if (c.created && env.found) = false then (c, some .errNotfound)
    else if (c.msgs m).force = 0 ∧ 0 < env.bound then
      (c.write m (.withCount env.bound), some .errBusy)
    else
      let c := c.withdrawAdd.look m
      ({ c with created := false }, some .ok)

def sbNetctlShutdown (c : SbNetctl ι) (m : ι) : SbNetctl ι × Option NetctlResult :=
  if c.pendingShutdown.isSome then (c, some .errExists)
  else ({ c with shuttingDown := true, pendingShutdown := some m }, none)

def sbNetctlCancelShutdown (c : SbNetctl ι) : SbNetctl ι × Option NetctlResult :=
  match c.pendingShutdown with
  | none => (c, some .errNotfound)
  | some m =>
      let c := { c with shuttingDown := false }
      let c := ((c.write m (.withResult .errAborted)).write m (.withCount c.openCount)).replyMsg m
      ({ c with pendingShutdown := none }, some .ok)

def sbNetctlHandle (c : SbNetctl ι) (env : NetctlEnv) (m : ι) : SbNetctl ι × Option NetctlResult :=
  let c := c.look m
  if (c.msgs m).version ≠ NETCTL_VERSION then (c, some .errVersion)
  else
    match (c.msgs m).op with
    | .addIf => c.sbNetctlAdd env m
    | .cancelAdd => c.sbNetctlCancelAdd env
    | .remIf => c.sbNetctlRem env m
    | .shutdown => c.sbNetctlShutdown m
    | .cancelShutdown => c.sbNetctlCancelShutdown
    | .unknown _ => (c, some .errOp)

def serve (c : SbNetctl ι) (env : NetctlEnv) (m : ι) : SbNetctl ι :=
  match c.sbNetctlHandle env m with
  | (c, none) => c
  | (c, some result) => c.answer m result

def sbNetctlTick (c : SbNetctl ι) (env : NetctlEnv) : SbNetctl ι :=
  (c.sbNetctlTryCompleteAdd env).1

def sbNetctlShutdownReady (c : SbNetctl ι) : Bool :=
  c.pendingShutdown.isSome && c.openCount == 0

def drain (c : SbNetctl ι) : List ι → SbNetctl ι
  | [] => c
  | m :: queue => (({ c with port := some queue }).answer m .errInactive).drain queue

/-- `sb_netctl_stop`: the port is withdrawn, and everything owed is answered, except a parked
`SHUTDOWN`. -/
def sbNetctlStop (c : SbNetctl ι) : SbNetctl ι :=
  match c.port with
  | none => c
  | some queue => { c.withdrawAdd.drain queue with port := none }

/-! ### The transition system -/

inductive Label (ι : Type) where
  | put (m : ι) (msg : NetCtlMsg)
  | serve (env : NetctlEnv)
  | tick (env : NetctlEnv)
  | opened
  | closed
  | stop (signalled : Bool)
  | leave
  | last

def next (c : SbNetctl ι) : Label ι → Option (SbNetctl ι)
  | .put m msg =>
      match c.port with
      | none => none
      | some queue =>
          -- a message is the client's own when it is put
          if ∃ e ∈ c.log, e.msg = m then none
          else
            some { c with
              port := some (queue ++ [m])
              msgs := Function.update c.msgs m msg
              log := .put m :: c.log }
  | .serve env =>
      match c.phase, c.port with
      | .running, some (m :: queue) => some (({ c with port := some queue }).serve env m)
      | _, _ => none
  | .tick env => if c.phase = .running then some (c.sbNetctlTick env) else none
  | .opened =>
      if c.phase = .running ∧ c.shuttingDown = false then
        some { c with openCount := c.openCount + 1 }
      else none
  | .closed => if 0 < c.openCount then some { c with openCount := c.openCount - 1 } else none
  | .stop signalled =>
      if c.phase = .running ∧ (signalled || c.sbNetctlShutdownReady) then
        some { c.sbNetctlStop with phase := .stopped }
      else none
  | .leave =>
      if c.phase = .stopped then
        some { c with
          created := false
          shutdownMsg := c.pendingShutdown
          pendingShutdown := none
          shuttingDown := false
          phase := .leaving }
      else none
  | .last =>
      if c.phase = .leaving then
        match c.shutdownMsg with
        | none => some { c with phase := .ended }
        | some m =>
            let c := ((c.write m (.withResult .ok)).write m (.withCount 0)).replyMsg m
            some { c with shutdownMsg := none, phase := .ended }
      else none

def Started (c : SbNetctl ι) : Prop :=
  c.port = some [] ∧ c.pendingAdd = none ∧ c.pendingShutdown = none ∧ c.shutdownMsg = none ∧
    c.created = false ∧ c.phase = .running ∧ c.log = []

def system (ι : Type) [DecidableEq ι] : TransitionSystem (SbNetctl ι) (Label ι) where
  init := Started
  next := next

end SbNetctl
