import LwipAmiga.Lib.Mask
import LwipAmiga.Stack.Netctl
import Mathlib.Data.List.DropRight

/-!
# Interface files

`AddNetInterface` reads a file of options into a `NetCtlIfConfig`, which `sb_netctl_add` checks again.
-/

def NETCTL_IFF_HAS_GW : UInt32 := 4

def NETCTL_TYPE_NETDEV : ℤ := 1

/-- A template of `FindArg`: the entries between the commas, each with the names that stand for it,
which the text of the template separates by `=`. -/
abbrev ArgTemplate : Type := List (List String)

def FILE_TEMPLATE : ArgTemplate :=
  [["DEVICE"], ["UNIT"], ["TYPE"], ["ADDRESS"], ["NETMASK"], ["GATEWAY"], ["CONFIGURE"], ["MTU"],
    ["VLAN"], ["ID"], ["STATE"], ["HARDWAREADDRESS"],
    ["IPREQUESTS"], ["WRITEREQUESTS"], ["ARPREQUESTS"], ["METRIC"], ["IPTYPE"], ["ARPTYPE"],
    ["DEBUG"], ["DOWNGOESOFFLINE"], ["REPORTOFFLINE"], ["REQUIRESINITDELAY"], ["DHCPUNICAST"],
    ["POINTTOPOINT"], ["MULTICAST"], ["COPYMODE"], ["FILTER"], ["HARDWARETYPE"],
    ["ALIAS"], ["BROADCASTADDRESS"], ["DESTINATION", "DESTINATIONADDRESS"], ["LEASE"],
    ["LINKSTATUSCOMMAND"]]

def typeTemplate : ArgTemplate :=
  [["AUTO"], ["NETDEV"], ["SANA2"]]

def configureTemplate : ArgTemplate :=
  [["DHCP"], ["AUTO", "SLOWAUTO"], ["FASTAUTO"]]

def stateTemplate : ArgTemplate :=
  [["UP", "ONLINE"], ["DOWN", "OFFLINE"]]

def K_WARNED : ℕ := 28

def LINE_MAX_LEN : ℕ := 512

inductive IfKey where
  | device
  | unit
  | type
  | address
  | netmask
  | gateway
  | configure
  | mtu
  | vlan
  | id
  | state
  | hwaddr
  | ignored
  | warned
  deriving DecidableEq

def IfKey.ofIndex : ℕ → IfKey
  | 0 => device
  | 1 => unit
  | 2 => type
  | 3 => address
  | 4 => netmask
  | 5 => gateway
  | 6 => configure
  | 7 => mtu
  | 8 => vlan
  | 9 => id
  | 10 => state
  | 11 => hwaddr
  | k => if K_WARNED ≤ k then warned else ignored

structure DosLib where
  findArg : ArgTemplate → List UInt8 → Option ℕ
  findArg_lt : ∀ template word k, findArg template word = some k → k < template.length
  strToLong : List UInt8 → ℤ × ℤ
  strtoul : List UInt8 → ℕ × UInt32
  stricmp : List UInt8 → String → Bool
  filePart : List UInt8 → List UInt8

structure IfConfig extends NetCtlIfConfig where
  unit : ℤ
  mask : UInt32
  gateway : UInt32
  vlanTci : ℤ
  deriving DecidableEq

structure IfDiagnostic where
  error : Bool
  line : ℕ
  opt : List UInt8
  msg : String
  deriving DecidableEq

structure Parse where
  cfg : IfConfig
  line : ℕ
  opt : List UInt8
  staticAddr : UInt32
  dhcp : Bool
  down : Bool
  said : List IfDiagnostic
  deriving DecidableEq

/-! ### Text -/

def cString (buffer : List UInt8) : List UInt8 :=
  buffer.takeWhile (· != 0)

def strcpy (buffer s : List UInt8) : List UInt8 :=
  s ++ 0 :: buffer.drop (s.length + 1)

def isspace (c : UInt8) : Bool :=
  c == 32 || (9 ≤ c && c ≤ 13)

def fgets (read : List UInt8) : List UInt8 → List (List UInt8)
  | [] => if read = [] then [] else [read.reverse]
  | c :: text =>
      if c = 10 ∨ read.length + 1 = LINE_MAX_LEN - 2 then (c :: read).reverse :: fgets [] text
      else fgets (c :: read) text

namespace DosLib

variable (dos : DosLib)

def num (s : List UInt8) : Option ℤ :=
  if 0 < (dos.strToLong s).1 ∧ (s.drop (dos.strToLong s).1.toNat).headD 0 = 0 then
    some (dos.strToLong s).2
  else none

def octets : ℕ → UInt32 → List UInt8 → Option UInt32
  | 0, v, _ => some v
  | i + 1, v, s =>
      let n := (dos.strToLong s).1
      let octet := (dos.strToLong s).2
      if n ≤ 0 ∨ octet < 0 ∨ 255 < octet ∨
          (s.drop n.toNat).headD 0 ≠ (if 0 < i then 46 else 0) then none
      else octets i (v <<< 8 ||| UInt32.ofNat octet.toNat) (s.drop (n.toNat + 1))

def aton (s : List UInt8) : Option UInt32 :=
  dos.octets 4 0 s

def hexOctets : ℕ → List UInt8 → Option (List UInt8)
  | 0, _ => some []
  | i + 1, s =>
      let n := (dos.strtoul s).1
      let stop := (s.drop n).headD 0
      if n < 1 ∨ 2 < n then none
      else if (if 0 < i then stop ≠ 58 ∧ stop ≠ 45 else stop ≠ 0) then none
      else (hexOctets i (s.drop (n + 1))).map (UInt8.ofNat (dos.strtoul s).2.toNat :: ·)

def mac (s : List UInt8) : Option (List UInt8) :=
  dos.hexOctets 6 s

def vlanTci (val : List UInt8) : Option ℤ :=
  match dos.num (val.takeWhile (· != 44)) with
  | none => none
  | some vid =>
      if vid < 1 ∨ 4094 < vid then none
      else
        match val.dropWhile (· != 44) with
        | [] => some vid
        | _ :: pcpStr =>
            match dos.num pcpStr with
            | none => none
            | some pcp =>
                if pcp < 0 ∨ 7 < pcp then none
                else some ((pcp.toNat <<< 13 ||| vid.toNat : ℕ) : ℤ)

end DosLib

/-! ### The parser -/

namespace Parse

def say (ps : Parse) (error : Bool) (msg : String) : Parse × Bool :=
  ({ ps with said := ps.said ++ [⟨error, ps.line, ps.opt, msg⟩] }, !error)

def orBad : Option Parse → Except String Parse
  | none => .error "bad value"
  | some ps => .ok ps

def setFlag (ps : Parse) (flag : UInt32) : Parse :=
  { ps with cfg := { ps.cfg with flags := ps.cfg.flags ||| flag } }

def clearFlag (ps : Parse) (flag : UInt32) : Parse :=
  { ps with cfg := { ps.cfg with flags := ps.cfg.flags &&& ~~~flag } }

def setOption (dos : DosLib) (ps : Parse) (val : List UInt8) : IfKey → Except String Parse
  | .device =>
      if NETCTL_DEV_MAX - 1 < val.length then .error "longer than 63 characters"
      else .ok { ps with cfg := { ps.cfg with device := strcpy ps.cfg.device val } }
  | .unit => orBad <| (dos.num val).map fun n => { ps with cfg := { ps.cfg with unit := n } }
  | .type => orBad <| (dos.findArg typeTemplate val).map fun (n : ℕ) =>
      { ps with cfg := { ps.cfg with type := (n : ℤ) } }
  | .address =>
      if dos.stricmp val "DHCP" then .ok { ps with dhcp := true }
      else orBad <| (dos.aton val).map fun addr => { ps with staticAddr := addr }
  | .netmask =>
      if dos.stricmp val "DHCP" then .ok { ps with dhcp := true }
      else orBad <| (dos.aton val).map fun mask =>
        { ps with cfg := { ps.cfg with mask := mask } }.setFlag NETCTL_IFF_HAS_MASK
  | .gateway => orBad <| (dos.aton val).map fun gateway =>
      { ps with cfg := { ps.cfg with gateway := gateway } }.setFlag NETCTL_IFF_HAS_GW
  | .configure =>
      match dos.findArg configureTemplate val with
      | none => .error "bad value"
      | some 0 => .ok { ps with dhcp := true }
      | some (_ + 1) => .error "ZeroConf is not supported - use DHCP or a fixed ADDRESS"
  | .mtu =>
      match dos.num val with
      | none => .error "bad value"
      | some mtu =>
          let ps := { ps with cfg := { ps.cfg with mtu := mtu } }
          if mtu < 0 then .error "bad value"
          else if 0 < mtu then .ok (ps.setFlag NETCTL_IFF_HAS_MTU)
          else .ok (ps.clearFlag NETCTL_IFF_HAS_MTU)
  | .vlan => orBad <| (dos.vlanTci val).map fun tci =>
      { ps with cfg := { ps.cfg with vlanTci := tci } }
  | .id =>
      if val.length < 2 ∨ NETCTL_ID_MAX - 1 < val.length then
        .error "must be 2 to 63 characters long"
      else .ok { ps with cfg := { ps.cfg with id := strcpy ps.cfg.id val } }
  | .state => orBad <| (dos.findArg stateTemplate val).map fun n =>
      { ps with down := n == 1 }
  | .hwaddr =>
      match dos.mac val with
      | none => .error "bad value"
      | some mac =>
          if netctlMacUsable mac then
            .ok ({ ps with cfg := { ps.cfg with hwAddr := mac } }.setFlag NETCTL_IFF_HAS_HWADDR)
          else .error "bad value"
  | .ignored => .ok ps
  | .warned => .ok ps

def parseLine (dos : DosLib) (ps : Parse) (line : List UInt8) : Parse × Bool :=
  let p := (line.rdropWhile isspace).dropWhile isspace
  if p = [] ∨ p.headD 0 = 35 ∨ p.headD 0 = 59 then (ps, true)
  else
    -- the option up to a blank or '=', and any run of both before the value
    let key := p.takeWhile fun c => c != 61 && !isspace c
    let val := (p.drop key.length).dropWhile fun c => c == 61 || isspace c
    let ps := { ps with opt := key }
    match (dos.findArg FILE_TEMPLATE key).map IfKey.ofIndex with
    | none => ps.say false "unknown option, ignored"
    | some .warned => ps.say false "not supported, ignored"
    | some .ignored => (ps, true)
    | some k =>
        if val = [] then ps.say true "needs a value"
        else
          match setOption dos ps val k with
          | .ok ps => (ps, true)
          | .error msg => ps.say true msg

def parseLines (dos : DosLib) : Parse → List (List UInt8) → Parse × Bool
  | ps, [] => (ps, true)
  | ps, line :: lines =>
      match parseLine dos { ps with line := ps.line + 1 } (cString line) with
      | (ps, true) => parseLines dos ps lines
      | (ps, false) => (ps, false)

def parseEnd (ps : Parse) : Parse × Bool :=
  if ps.cfg.device.headD 0 = 0 then ps.say true "DEVICE is required"
  else if ps.dhcp || ps.staticAddr == 0 then
    -- no address at all is DHCP too
    let ps := ps.setFlag NETCTL_IFF_DHCP
    if ps.staticAddr ≠ 0 then ps.say false "ADDRESS ignored, DHCP assigns the address"
    else (ps, true)
  else if ps.cfg.has NETCTL_IFF_HAS_MASK then
    ({ ps with cfg := { ps.cfg with addr := ps.staticAddr } }, true)
  else ps.say true "a fixed ADDRESS needs a NETMASK"

end Parse

def IfConfig.fresh (name : List UInt8) : IfConfig where
  name := strcpy (List.replicate NETCTL_IFNAME_MAX 0) name
  device := List.replicate NETCTL_DEV_MAX 0
  type := 0
  flags := 0
  addr := 0
  mtu := 0
  id := List.replicate NETCTL_ID_MAX 0
  hwAddr := List.replicate 6 0
  unit := 0
  mask := 0
  gateway := 0
  vlanTci := -1

def Parse.start (name : List UInt8) : Parse where
  cfg := .fresh name
  line := 0
  opt := []
  staticAddr := 0
  dhcp := false
  down := false
  said := []

/-- `parse_file`: the configuration and whether the interface is to be skipped, `none` for a file that
is refused, and what is reported.  `file` is the text, `none` when the file cannot be opened. -/
def parseFile (dos : DosLib) (path : List UInt8) (file : Option (List UInt8)) :
    Option (IfConfig × Bool) × List IfDiagnostic :=
  let name := cString (dos.filePart path)
  if name = [] ∨ NETCTL_IFNAME_MAX - 1 < name.length then
    (none, [⟨true, 0, [], "the file name is the interface name and must be 1 to 15 characters long"⟩])
  else
    match file with
    | none => (none, [⟨true, 0, [], "cannot open"⟩])
    | some text =>
        match (Parse.start name).parseLines dos (fgets [] text) with
        | (ps, false) => (none, ps.said)
        | (ps, true) =>
            match { ps with line := 0 }.parseEnd with
            | (ps, false) => (none, ps.said)
            | (ps, true) =>
                let ps := if ps.down then (ps.say false "STATE=DOWN, interface not added").1 else ps
                (some (ps.cfg, ps.down), ps.said)

/-! ### Bringing the interface up -/

def NETDEV_CMD_ATTACH : ℕ := 0x8900

def IOERR_OPENFAIL : ℤ := -1

def IOERR_NOCMD : ℤ := -3

def S2ERR_BAD_STATE : ℤ := 4

structure DriverAnswers where
  ioRequest : Bool
  openDevice : ℤ × ℤ
  nsdQuery : ℤ
  nsdSana2 : Bool
  nsdCommands : List ℕ
  attach : ℤ
  netdevifCreate : Bool
  start : ℤ
  deviceQuery : ℤ × ℤ
  sizeSupplied : Bool
  ethernet : Bool
  getStationAddress : ℤ
  dstAddr : List UInt8
  configInterface : ℤ
  online : ℤ
  sana2ifCreate : Bool
  pumpStart : Bool

namespace DriverAnswers

variable (drv : DriverAnswers) (nif : NetCtlIfConfig)

def sbIfOpen : NetctlResult × ℤ :=
  if drv.ioRequest = false then (.errNomem, 0)
  else if drv.openDevice.1 = 0 ∨ drv.openDevice.2 = 0 then (.ok, 0)
  -- a driver that was found and refused tells more than one that is not there
  else (.errDevice,
    if drv.openDevice.1 = IOERR_OPENFAIL then drv.openDevice.2 else drv.openDevice.1)

def sbIfProbeKind : Bool :=
  drv.nsdQuery == 0 && !drv.nsdSana2 && drv.nsdCommands.contains NETDEV_CMD_ATTACH

def sbNetdevUp : NetctlResult × ℤ :=
  if drv.attach ≠ 0 then (.errDevice, drv.attach)
  else if drv.netdevifCreate = false then (.errNomem, 0)
  else if drv.start ≠ 0 then (.errDevice, drv.start)
  else (.ok, 0)

def sbSanaUp : NetctlResult × ℤ :=
  let query := if drv.deviceQuery.1 ≠ 0 then drv.deviceQuery.2 else 0
  let mac := if nif.has NETCTL_IFF_HAS_HWADDR then nif.hwAddr else drv.dstAddr
  if query ≠ 0 ∨ drv.sizeSupplied = false then (.errDevice, query)
  else if drv.ethernet = false then (.errHwtype, 0)
  else if drv.getStationAddress ≠ 0 then (.errDevice, drv.getStationAddress)
  else if netctlMacUsable mac = false then (.errDevice, 0)
  else if drv.configInterface ≠ 0 ∧ drv.configInterface ≠ S2ERR_BAD_STATE then
    (.errDevice, drv.configInterface)
  else if drv.online ≠ 0 ∧ drv.online ≠ S2ERR_BAD_STATE ∧ drv.online ≠ IOERR_NOCMD then
    (.errDevice, drv.online)
  else if drv.sana2ifCreate = false then (.errNomem, 0)
  else if drv.pumpStart = false then (.errNomem, 0)
  else (.ok, 0)

def sbIfUp : NetctlResult × ℤ :=
  if drv.sbIfOpen.1 ≠ .ok then drv.sbIfOpen
  else if nif.type = NETCTL_TYPE_NETDEV then drv.sbNetdevUp
  else if nif.type = NETCTL_TYPE_SANA2 then drv.sbSanaUp nif
  else if drv.sbIfProbeKind then drv.sbNetdevUp
  else drv.sbSanaUp nif

theorem sbNetdevUp_ne_errParam :
  drv.sbNetdevUp.1 ≠ .errParam
  := by
  unfold sbNetdevUp
  split_ifs <;> nofun

theorem sbSanaUp_ne_errParam :
  (drv.sbSanaUp nif).1 ≠ .errParam
  := by
  simp only [sbSanaUp]
  split_ifs <;> nofun

theorem sbIfUp_ne_errParam :
  (drv.sbIfUp nif).1 ≠ .errParam
  := by
  unfold sbIfUp
  split_ifs
  · unfold sbIfOpen
    split_ifs <;> nofun
  · apply sbNetdevUp_ne_errParam
  · apply sbSanaUp_ne_errParam
  · apply sbNetdevUp_ne_errParam
  · apply sbSanaUp_ne_errParam

end DriverAnswers

/-! ### Flags -/

namespace NetCtlIfConfig

theorem and_eq_zero_iff_toBitVec {a b : UInt32} :
  a &&& b = 0 ↔ a.toBitVec &&& b.toBitVec = 0
  := by
  rw [← UInt32.toBitVec_inj]
  rfl

theorem has_iff {nif : NetCtlIfConfig} {flag : UInt32} :
  nif.has flag = true ↔ nif.flags.toBitVec &&& flag.toBitVec ≠ 0
  := by
  rw [has, bne_iff_ne, Ne, and_eq_zero_iff_toBitVec]

end NetCtlIfConfig

namespace Parse

theorem has_of_setFlag
    {ps : Parse} {flag other : UInt32} (hflag : flag.toBitVec &&& other.toBitVec = 0)
    (h : (ps.setFlag flag).cfg.has other = true) :
  ps.cfg.has other = true
  := by
  rw [NetCtlIfConfig.has_iff] at h ⊢
  intro hps
  apply h
  apply Mask.or_and_eq_zero.mpr
  use hps

theorem has_setFlag
    {ps : Parse} {flag : UInt32} (hflag : flag.toBitVec ≠ 0) :
  (ps.setFlag flag).cfg.has flag = true
  := by
  rw [NetCtlIfConfig.has_iff]
  intro h
  apply hflag
  have hself := (Mask.or_and_eq_zero.mp h).2
  rwa [BitVec.and_self] at hself

theorem has_of_clearFlag
    {ps : Parse} {flag other : UInt32} (h : (ps.clearFlag flag).cfg.has other = true) :
  ps.cfg.has other = true
  := by
  rw [NetCtlIfConfig.has_iff] at h ⊢
  intro hps
  apply h
  exact Mask.clear_and_eq_zero hps

theorem has_clearFlag_self (ps : Parse) (flag : UInt32) :
  (ps.clearFlag flag).cfg.has flag ≠ true
  := by
  rw [Ne, NetCtlIfConfig.has_iff, not_not]
  apply Mask.clear_self
  intro _ hbit
  apply hbit

/-! ### What the lines keep -/

structure Fit (ps : Parse) : Prop where
  name : ps.cfg.name.headD 0 ≠ 0
  type : NETCTL_TYPE_AUTO ≤ ps.cfg.type ∧ ps.cfg.type ≤ NETCTL_TYPE_SANA2
  mtu : ps.cfg.has NETCTL_IFF_HAS_MTU = true → 0 < ps.cfg.mtu
  hwAddr : ps.cfg.has NETCTL_IFF_HAS_HWADDR = true → netctlMacUsable ps.cfg.hwAddr = true

theorem Fit.congr
    {ps ps' : Parse} (h : ps.Fit)
    (hname : ps'.cfg.name = ps.cfg.name) (htype : ps'.cfg.type = ps.cfg.type)
    (hflags : ps'.cfg.flags = ps.cfg.flags) (hmtu : ps'.cfg.mtu = ps.cfg.mtu)
    (hhwAddr : ps'.cfg.hwAddr = ps.cfg.hwAddr) :
  ps'.Fit
  := by
  have hhas (flag : UInt32) : ps'.cfg.has flag = ps.cfg.has flag := by
    rw [NetCtlIfConfig.has, hflags, NetCtlIfConfig.has]
  constructor
  · rw [hname]
    apply h.name
  · rw [htype]
    apply h.type
  · rw [hhas, hmtu]
    apply h.mtu
  · rw [hhas, hhwAddr]
    apply h.hwAddr

theorem Fit.setFlag
    {ps : Parse} (h : ps.Fit) (flag : UInt32)
    (hmtu : flag.toBitVec &&& NETCTL_IFF_HAS_MTU.toBitVec = 0)
    (hhwAddr : flag.toBitVec &&& NETCTL_IFF_HAS_HWADDR.toBitVec = 0) :
  (ps.setFlag flag).Fit
  := by
  constructor
  · apply h.name
  · apply h.type
  · intro hhas
    apply h.mtu
    apply has_of_setFlag hmtu hhas
  · intro hhas
    apply h.hwAddr
    apply has_of_setFlag hhwAddr hhas

theorem Fit.setMtu
    {ps : Parse} (h : ps.Fit) {mtu : ℤ} (hmtu : 0 < mtu) :
  ({ ps with cfg := { ps.cfg with mtu := mtu } }.setFlag NETCTL_IFF_HAS_MTU).Fit
  := by
  constructor
  · apply h.name
  · apply h.type
  · intro _
    apply hmtu
  · intro hhas
    apply h.hwAddr
    apply has_of_setFlag (by decide) hhas

theorem Fit.clearMtu
    {ps : Parse} (h : ps.Fit) (mtu : ℤ) :
  ({ ps with cfg := { ps.cfg with mtu := mtu } }.clearFlag NETCTL_IFF_HAS_MTU).Fit
  := by
  constructor
  · apply h.name
  · apply h.type
  · intro hhas
    exact absurd hhas (has_clearFlag_self _ _)
  · intro hhas
    apply h.hwAddr
    apply has_of_clearFlag hhas

theorem Fit.setHwAddr
    {ps : Parse} (h : ps.Fit) {mac : List UInt8} (hmac : netctlMacUsable mac = true) :
  ({ ps with cfg := { ps.cfg with hwAddr := mac } }.setFlag NETCTL_IFF_HAS_HWADDR).Fit
  := by
  constructor
  · apply h.name
  · apply h.type
  · intro hhas
    apply h.mtu
    apply has_of_setFlag (by decide) hhas
  · intro _
    apply hmac

theorem Fit.setType
    {ps : Parse} (h : ps.Fit) {dos : DosLib} {val : List UInt8} {n : ℕ}
    (hn : dos.findArg typeTemplate val = some n) :
  Fit { ps with cfg := { ps.cfg with type := n } }
  := by
  have hlt : n < 3 := dos.findArg_lt _ _ _ hn
  constructor
  · apply h.name
  · simp only [NETCTL_TYPE_AUTO, NETCTL_TYPE_SANA2]
    omega
  · apply h.mtu
  · apply h.hwAddr

theorem orBad_eq_ok
    {α : Type} {o : Option α} {f : α → Parse} {ps : Parse} (h : orBad (o.map f) = .ok ps) :
  ∃ a, o = some a ∧ ps = f a
  := by
  cases o with
  | none => cases h
  | some a =>
    cases h
    use a

theorem Fit.setOption
    {ps ps' : Parse} (h : ps.Fit) {dos : DosLib} {val : List UInt8} {k : IfKey}
    (hset : ps.setOption dos val k = .ok ps') :
  ps'.Fit
  := by
  cases k with
  | device | id =>
    simp only [Parse.setOption] at hset
    split_ifs at hset
    cases hset
    exact h.congr rfl rfl rfl rfl rfl
  | unit | vlan | state =>
    obtain ⟨_, _, rfl⟩ := orBad_eq_ok hset
    exact h.congr rfl rfl rfl rfl rfl
  | type =>
    obtain ⟨_, hn, rfl⟩ := orBad_eq_ok hset
    apply h.setType hn
  | address =>
    simp only [Parse.setOption] at hset
    split_ifs at hset
    · cases hset
      exact h.congr rfl rfl rfl rfl rfl
    · obtain ⟨_, _, rfl⟩ := orBad_eq_ok hset
      exact h.congr rfl rfl rfl rfl rfl
  | netmask =>
    simp only [Parse.setOption] at hset
    split_ifs at hset
    · cases hset
      exact h.congr rfl rfl rfl rfl rfl
    · obtain ⟨mask, _, rfl⟩ := orBad_eq_ok hset
      have hmask : Fit { ps with cfg := { ps.cfg with mask := mask } } :=
        h.congr rfl rfl rfl rfl rfl
      exact hmask.setFlag NETCTL_IFF_HAS_MASK (by decide) (by decide)
  | gateway =>
    obtain ⟨gateway, _, rfl⟩ := orBad_eq_ok hset
    have hgateway : Fit { ps with cfg := { ps.cfg with gateway := gateway } } :=
      h.congr rfl rfl rfl rfl rfl
    exact hgateway.setFlag NETCTL_IFF_HAS_GW (by decide) (by decide)
  | configure =>
    simp only [Parse.setOption] at hset
    split at hset
    · cases hset
    · cases hset
      exact h.congr rfl rfl rfl rfl rfl
    · cases hset
  | mtu =>
    simp only [Parse.setOption] at hset
    split at hset
    · cases hset
    · split_ifs at hset with _ hpos
      · cases hset
        apply h.setMtu hpos
      · cases hset
        apply h.clearMtu
  | hwaddr =>
    simp only [Parse.setOption] at hset
    split at hset
    · cases hset
    · split_ifs at hset with hmac
      cases hset
      apply h.setHwAddr hmac
  | ignored | warned =>
    cases hset
    apply h

theorem Fit.say
    {ps : Parse} (h : ps.Fit) (error : Bool) (msg : String) :
  (ps.say error msg).1.Fit
  :=
  h.congr rfl rfl rfl rfl rfl

theorem Fit.parseLine
    {ps : Parse} (h : ps.Fit) (dos : DosLib) (line : List UInt8) :
  (ps.parseLine dos line).1.Fit
  := by
  have hopt (key : List UInt8) : Fit { ps with opt := key } := h.congr rfl rfl rfl rfl rfl
  simp only [Parse.parseLine]
  split
  · apply h
  · split
    · apply (hopt _).say
    · apply (hopt _).say
    · apply hopt
    · split
      · apply (hopt _).say
      · split
        case _ _ _ hset => apply (hopt _).setOption hset
        case _ => apply (hopt _).say

theorem Fit.parseLines
    (dos : DosLib) (lines : List (List UInt8)) :
  ∀ {ps : Parse}, ps.Fit → (ps.parseLines dos lines).1.Fit
  := by
  induction lines with
  | nil => exact id
  | cons line lines ih =>
    intro ps h
    have hline := Fit.parseLine (h.congr rfl rfl rfl rfl rfl : Fit { ps with line := ps.line + 1 })
      dos (cString line)
    rw [Parse.parseLines]
    split
    case _ _ heq =>
      rw [heq] at hline
      apply ih hline
    case _ _ heq =>
      rw [heq] at hline
      apply hline

theorem IfConfig.has_fresh (name : List UInt8) (flag : UInt32) :
  (IfConfig.fresh name).has flag = false
  := by
  simp [NetCtlIfConfig.has, IfConfig.fresh]

theorem fit_start
    {name : List UInt8} (hname : cString name ≠ []) :
  (start (cString name)).Fit
  := by
  constructor
  · -- the first byte of a string that is not empty is not the closing zero
    cases name with
    | nil => exact absurd rfl hname
    | cons c rest =>
      by_cases hc : c = 0
      · rw [cString, List.takeWhile_cons, hc] at hname
        exact absurd rfl hname
      · have hne : (c != 0) = true := bne_iff_ne.mpr hc
        simpa [start, IfConfig.fresh, cString, strcpy, hne] using hc
  · constructor
    · apply Int.le_refl
    · change (0 : ℤ) ≤ 2
      decide
  · intro hhas
    rw [start, IfConfig.has_fresh] at hhas
    contradiction
  · intro hhas
    rw [start, IfConfig.has_fresh] at hhas
    contradiction

/-! ### The end of the file -/

structure Complete (ps : Parse) : Prop where
  fit : ps.Fit
  device : ps.cfg.device.headD 0 ≠ 0
  address : ps.cfg.has NETCTL_IFF_DHCP = true ∨
    ps.cfg.addr ≠ 0 ∧ ps.cfg.has NETCTL_IFF_HAS_MASK = true

theorem Fit.parseEnd
    {ps ps' : Parse} (h : ps.Fit) (hend : ps.parseEnd = (ps', true)) :
  ps'.Complete
  := by
  have hdhcp : (ps.setFlag NETCTL_IFF_DHCP).Fit := h.setFlag _ (by decide) (by decide)
  simp only [Parse.parseEnd] at hend
  split_ifs at hend with hdevice hleave haddr hmask
  · nomatch (Prod.mk.inj hend).2
  · cases hend
    use hdhcp.say _ _, hdevice
    left
    exact has_setFlag (by decide)
  · cases hend
    use hdhcp, hdevice
    left
    exact has_setFlag (by decide)
  · cases hend
    rw [Bool.or_eq_true, not_or, beq_iff_eq] at hleave
    use h.congr rfl rfl rfl rfl rfl, hdevice
    right
    use hleave.2
    exact hmask
  · nomatch (Prod.mk.inj hend).2

end Parse

/-! ### The checks of the stack -/

theorem headD_set_succ (l : List UInt8) (n : ℕ) :
  (l.set (n + 1) 0).headD 0 = l.headD 0
  := by
  cases l <;> rfl

theorem Parse.Complete.acceptable
    {ps : Parse} (h : ps.Complete) :
  ps.cfg.terminated.acceptable = true
  := by
  have hname : ps.cfg.terminated.name.headD 0 ≠ 0 := by
    rw [NetCtlIfConfig.terminated]
    change (ps.cfg.name.set (14 + 1) 0).headD 0 ≠ 0
    rw [headD_set_succ]
    apply h.fit.name
  have hdevice : ps.cfg.terminated.device.headD 0 ≠ 0 := by
    rw [NetCtlIfConfig.terminated]
    change (ps.cfg.device.set (62 + 1) 0).headD 0 ≠ 0
    rw [headD_set_succ]
    apply h.device
  have hmtu : (ps.cfg.has NETCTL_IFF_HAS_MTU && decide (ps.cfg.mtu ≤ 0)) = false := by
    rw [Bool.and_eq_false_imp]
    intro hhas
    rw [decide_eq_false_iff_not, Int.not_le]
    apply h.fit.mtu hhas
  have hhwAddr :
      (ps.cfg.has NETCTL_IFF_HAS_HWADDR && !netctlMacUsable ps.cfg.hwAddr) = false := by
    rw [Bool.and_eq_false_imp]
    intro hhas
    rw [h.fit.hwAddr hhas]
    rfl
  have haddress : (!ps.cfg.has NETCTL_IFF_DHCP &&
      (ps.cfg.addr == 0 || !ps.cfg.has NETCTL_IFF_HAS_MASK)) = false := by
    rcases h.address with hdhcp | ⟨haddr, hmask⟩
    · rw [hdhcp]
      rfl
    · rw [hmask, beq_false_of_ne haddr]
      apply Bool.and_false
  have hhas (flag : UInt32) : ps.cfg.terminated.has flag = ps.cfg.has flag := rfl
  simp only [NetCtlIfConfig.acceptable, hhas, Bool.and_eq_true, bne_iff_ne, Bool.not_eq_true',
    decide_eq_true_eq]
  exact ⟨⟨⟨⟨⟨hname, hdevice⟩, h.fit.type⟩, hmtu⟩, hhwAddr⟩, haddress⟩

theorem complete_of_parseFile
    {dos : DosLib} {path : List UInt8} {file : Option (List UInt8)} {cfg : IfConfig} {skip : Bool}
    (h : (parseFile dos path file).1 = some (cfg, skip)) :
  ∃ ps : Parse, ps.cfg = cfg ∧ ps.Complete
  := by
  simp only [parseFile] at h
  split at h
  · cases h
  · next hname =>
      rw [not_or] at hname
      split at h
      · cases h
      · next text =>
          have hlines := (Parse.fit_start hname.1).parseLines dos (fgets [] text)
          split at h
          · cases h
          · next ps heq =>
              rw [heq] at hlines
              split at h
              · cases h
              · next ps' hend =>
                  have hline : Parse.Fit { ps with line := 0 } := hlines.congr rfl rfl rfl rfl rfl
                  cases h
                  use ps'
                  constructor
                  · split <;> rfl
                  · apply hline.parseEnd hend

/-- The configuration of every file the parser accepts passes the checks of `sb_netctl_add`. -/
theorem accepted_file_passes
    {ι : Type} [DecidableEq ι] (dos : DosLib) (path : List UInt8) (file : Option (List UInt8))
    (cfg : IfConfig) (skip : Bool) (h : (parseFile dos path file).1 = some (cfg, skip)) :
  cfg.terminated.acceptable = true ∧
    ∀ (c : SbNetctl ι) (env : NetctlEnv) (drv : DriverAnswers) (m : ι),
      (c.msgs m).config = cfg.toNetCtlIfConfig →
      env.ifUp = (drv.sbIfUp cfg.terminated).1 →
      (c.sbNetctlAdd env m).2 ≠ some .errParam
  := by
  obtain ⟨ps, rfl, hcomplete⟩ := complete_of_parseFile h
  have hpass := hcomplete.acceptable
  use hpass
  intro c env drv m hconfig hup
  have hwrite : ((c.write m .terminated).msgs m).config = ps.cfg.terminated := by
    simp only [SbNetctl.write, Function.update_self, NetCtlMsg.terminated, hconfig]
  simp only [SbNetctl.sbNetctlAdd, hwrite, hpass, Bool.true_eq_false, if_false]
  split_ifs
  · nofun
  · nofun
  · rw [hup, Ne, Option.some_inj]
    apply drv.sbIfUp_ne_errParam
  · nofun

/-! ### A file with a fixed address -/

def textBytes (s : String) : List UInt8 :=
  s.toList.map fun c => UInt8.ofNat c.toNat

def upperByte (c : UInt8) : UInt8 :=
  if 97 ≤ c ∧ c ≤ 122 then c - 32 else c

def hexDigit (c : UInt8) : Option ℕ :=
  if 48 ≤ c ∧ c ≤ 57 then some (c.toNat - 48)
  else if 65 ≤ upperByte c ∧ upperByte c ≤ 70 then some ((upperByte c).toNat - 55)
  else none

def plainDos : DosLib where
  findArg template word :=
    template.findIdx? fun entry => entry.any fun name => textBytes name == word.map upperByte
  findArg_lt := by
    intro template word k h
    obtain ⟨hk, -⟩ := List.findIdx?_eq_some_iff_getElem.mp h
    exact hk
  strToLong s :=
    let digits := s.takeWhile fun c => 48 ≤ c && c ≤ 57
    (digits.length, digits.foldl (fun n c => 10 * n + (c.toNat - 48 : ℕ)) 0)
  strtoul s :=
    let digits := s.takeWhile fun c => (hexDigit c).isSome
    (digits.length, digits.foldl (fun n c => 16 * n + UInt32.ofNat ((hexDigit c).getD 0)) 0)
  stricmp s t := s.map upperByte == textBytes t
  filePart path := path.rtakeWhile fun c => c != 47 && c != 58

def staticConfig : IfConfig :=
  { IfConfig.fresh (textBytes "genet") with
    device := strcpy (List.replicate NETCTL_DEV_MAX 0) (textBytes "genet")
    type := NETCTL_TYPE_NETDEV
    flags := NETCTL_IFF_HAS_MASK ||| NETCTL_IFF_HAS_MTU ||| NETCTL_IFF_HAS_HWADDR
    addr := 0x0A000002
    mask := 0xFF000000
    mtu := 1400
    hwAddr := [2, 0, 0, 0, 0, 0x1f] }

def staticPath : List UInt8 :=
  textBytes "DEVS:NetInterfaces/genet"

def staticText : List UInt8 :=
  textBytes ("# port\nDEVICE=genet\ntype = netdev\nADDRESS 10.0.0.2\nNETMASK=255.0.0.0\n" ++
    "MTU=1400\nHARDWAREADDRESS=2:0:0:0:0:1f\n")

theorem parseFile_static :
  (parseFile plainDos staticPath (some staticText)).1 = some (staticConfig, false)
  := by
  decide +kernel

def willingDriver : DriverAnswers where
  ioRequest := true
  openDevice := (0, 0)
  nsdQuery := 0
  nsdSana2 := false
  nsdCommands := [NETDEV_CMD_ATTACH]
  attach := 0
  netdevifCreate := true
  start := 0
  deviceQuery := (0, 0)
  sizeSupplied := true
  ethernet := true
  getStationAddress := 0
  dstAddr := [2, 0, 0, 0, 0, 1]
  configInterface := 0
  online := 0
  sana2ifCreate := true
  pumpStart := true

def noOutputs : NetctlOut := ⟨0, 0, 0, (0, 0)⟩

def willingEnv : NetctlEnv where
  ifUp := (willingDriver.sbIfUp staticConfig.terminated).1
  aux := (willingDriver.sbIfUp staticConfig.terminated).2
  dhcpSupplied := false
  linkUp := false
  out := noOutputs
  found := false
  bound := 0

def staticAdd : SbNetctl Unit where
  port := some []
  pendingAdd := none
  pendingShutdown := none
  shutdownMsg := none
  created := false
  shuttingDown := false
  openCount := 1
  phase := .running
  msgs := fun _ =>
    ⟨NETCTL_VERSION, .addIf, .ok, 0, 0, 0, staticConfig.toNetCtlIfConfig, noOutputs⟩
  log := []

theorem accepted_file_passes_static :
  (parseFile plainDos staticPath (some staticText)).1 = some (staticConfig, false) ∧
    staticConfig.terminated.acceptable = true ∧
    (staticAdd.sbNetctlAdd willingEnv ()).2 ≠ some .errParam ∧
    (staticAdd.sbNetctlAdd willingEnv ()).2 = none
  := by
  obtain ⟨hpass, hadd⟩ :=
    @accepted_file_passes Unit _ plainDos _ _ _ _ parseFile_static
  use parseFile_static, hpass, hadd staticAdd willingEnv willingDriver () rfl rfl
  decide +kernel
