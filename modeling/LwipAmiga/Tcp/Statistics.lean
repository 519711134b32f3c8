import LwipAmiga.Descriptor.World

/-!
# Control blocks and the sockets they name

lwIP keeps a callback argument in every control block, the address of the socket it belongs to.
-/

open Option List Function TransitionSystem

structure PcbRec (ι κ : Type) where
  arg : Option κ
  state : TcpState
  listener : Option ι
  sndBuf : ℕ
  deriving DecidableEq

structure SockRec (ι κ : Type) where
  refs : UInt8
  listening : Bool
  pcb : Option ι
  rxBytes : UInt32
  acceptq : List κ

structure PcbWorld (ι κ : Type) where
  socks : κ → Option (SockRec ι κ)
  pcbs : ι → Option (PcbRec ι κ)
  tcpActivePcbs : List ι

def SockRec.new {ι κ : Type} (i : ι) : SockRec ι κ where
  refs := 1
  listening := false
  pcb := some i
  rxBytes := 0
  acceptq := []

namespace PcbWorld

variable {ι κ : Type}

/-! ### The statistics -/

structure Row where
  receiveQueueSize : UInt32
  sendQueueSize : ℕ
  tcpState : TcpState
  deriving DecidableEq

def row (w : PcbWorld ι κ) (p : PcbRec ι κ) : Option Row :=
  match p.arg with
  | none => some ⟨0, TCP_SND_BUF - p.sndBuf, p.state⟩
  | some k => (w.socks k).map fun s => ⟨s.rxBytes, TCP_SND_BUF - p.sndBuf, p.state⟩

def sbTcpSockets (w : PcbWorld ι κ) : Option (List Row) :=
  (w.tcpActivePcbs.filterMap w.pcbs).mapM w.row

def ArgsLive (w : PcbWorld ι κ) : Prop :=
  ∀ i ∈ w.tcpActivePcbs, ∀ p ∈ w.pcbs i, ∀ k ∈ p.arg, (w.socks k).isSome = true

/-! ### Closing -/

def setSock [DecidableEq κ] (w : PcbWorld ι κ) (k : κ) (s : Option (SockRec ι κ)) : PcbWorld ι κ :=
  { w with socks := Function.update w.socks k s }

section

variable [DecidableEq ι]

def setPcb (w : PcbWorld ι κ) (i : ι) (p : PcbRec ι κ) : PcbWorld ι κ :=
  { w with pcbs := Function.update w.pcbs i (some p) }

def dropPcb (w : PcbWorld ι κ) (i : ι) : PcbWorld ι κ :=
  { w with
    pcbs := Function.update w.pcbs i none
    tcpActivePcbs := w.tcpActivePcbs.filter (· ≠ i) }

/-- `tcp_arg` with `NULL`. -/
def clearArg (w : PcbWorld ι κ) (i : ι) : PcbWorld ι κ :=
  match w.pcbs i with
  | none => w
  | some p => w.setPcb i { p with arg := none }

/-- `tcp_close` or `tcp_abort` of a connection: its control block stays until the peer has
acknowledged the end, or is freed. -/
def closePcb (w : PcbWorld ι κ) (i : ι) (stays : Bool) : PcbWorld ι κ :=
  if stays then
    match w.pcbs i with
    | none => w
    | some p => w.setPcb i { p with state := .finWait1 }
  else w.dropPcb i

/-- `tcp_close` of a listening control block: the half-open connections forget it. -/
def closeListen (w : PcbWorld ι κ) (i : ι) : PcbWorld ι κ :=
  { w.dropPcb i with
    pcbs := fun j => ((w.dropPcb i).pcbs j).map fun p =>
      if p.listener = some i then { p with listener := none } else p }

def detach (w : PcbWorld ι κ) (s : SockRec ι κ) (stays : ι → Bool) : PcbWorld ι κ :=
  match s.pcb with
  | none => w
  | some i =>
      if s.listening then (w.clearArg i).closeListen i else (w.clearArg i).closePcb i (stays i)

end

section

variable [DecidableEq ι] [DecidableEq κ]

/-- `sb_sock_free`.  `stays` says which of the control blocks that are closed stay for a while; the
fuel bounds how deep accept queues nest. -/
def sbSockFree (stays : ι → Bool) : ℕ → PcbWorld ι κ → κ → PcbWorld ι κ
  | 0, w, _ => w
  | fuel + 1, w, k =>
      match w.socks k with
      | none => w
      | some s =>
          if s.refs - 1 ≠ 0 then w.setSock k (some { s with refs := s.refs - 1 })
          else (s.acceptq.foldl (sbSockFree stays fuel) (w.detach s stays)).setSock k none

/-! ### The system -/

inductive Label (ι κ : Type) where
  | socket (k : κ) (i : ι)
  | ref (k : κ)
  | connect (k : κ)
  | listen (k : κ) (i : ι)
  | syn (i j : ι)
  | accepted (i : ι) (mem : Option κ)
  | accept (k : κ) (fd : Bool) (stays : ι → Bool)
  | close (k : κ) (stays : ι → Bool)
  | shutdown (k : κ) (stays : Bool)
  | progress (i : ι) (state : TcpState)
  | err (i : ι)
  | gone (i : ι)
  | received (k : κ) (n : UInt32)

def moves : TcpState → Bool
  | .closed | .listen | .synRcvd => false
  | _ => true

def afterHandshake (w : PcbWorld ι κ) (i : ι) (p : PcbRec ι κ) (mem : Option κ) :
    Option (PcbWorld ι κ) :=
  if p.listener.isNone then some (w.dropPcb i)
  else
    match p.arg with
    | none => some (w.dropPcb i)
    | some l =>
        match w.socks l with
        | none => none
        | some lst =>
            match mem with
            | none => some (w.dropPcb i)
            | some k =>
                if (w.socks k).isNone then
                  some (((w.setPcb i { p with arg := some k, state := .established }).setSock k
                    (some (.new i))).setSock l (some { lst with acceptq := lst.acceptq ++ [k] }))
                else none

def afterErr (w : PcbWorld ι κ) (i : ι) (p : PcbRec ι κ) : Option (PcbWorld ι κ) :=
  match p.arg with
  | none => some (w.dropPcb i)
  | some k => (w.socks k).map fun s => (w.dropPcb i).setSock k (some { s with pcb := none })

def next (w : PcbWorld ι κ) : Label ι κ → Option (PcbWorld ι κ)
  | .socket k i =>
      if (w.socks k).isNone ∧ (w.pcbs i).isNone then
        some ((w.setPcb i ⟨some k, .closed, none, TCP_SND_BUF⟩).setSock k (some (.new i)))
      else none
  | .ref k => (w.socks k).map fun s => w.setSock k (some { s with refs := s.refs + 1 })
  | .connect k =>
      (w.socks k).bind fun s => s.pcb.bind fun i => (w.pcbs i).bind fun p =>
        if p.state = .closed then
          some { w.setPcb i { p with state := .synSent } with
            tcpActivePcbs := i :: w.tcpActivePcbs }
        else none
  | .listen k j =>
      (w.socks k).bind fun s => s.pcb.bind fun i => (w.pcbs i).bind fun p =>
        if p.state = .closed ∧ (w.pcbs j).isNone then
          some (((w.dropPcb i).setPcb j ⟨some k, .listen, none, 0⟩).setSock k
            (some { s with pcb := some j, listening := true }))
        else none
  | .syn i j =>
      (w.pcbs i).bind fun p =>
        if p.state = .listen ∧ (w.pcbs j).isNone then
          some { w.setPcb j ⟨p.arg, .synRcvd, some i, TCP_SND_BUF⟩ with
            tcpActivePcbs := j :: w.tcpActivePcbs }
        else none
  | .accepted i mem =>
      (w.pcbs i).bind fun p => if p.state = .synRcvd then w.afterHandshake i p mem else none
  | .accept k fd stays =>
      (w.socks k).bind fun s =>
        match s.acceptq with
        | [] => none
        | q :: rest =>
            let w' := w.setSock k (some { s with acceptq := rest })
            some (if fd then w' else sbSockFree stays FREE_DEPTH w' q)
  | .close k stays =>
      if (w.socks k).isSome then some (sbSockFree stays FREE_DEPTH w k) else none
  | .shutdown k stays =>
      (w.socks k).bind fun s => s.pcb.map fun i =>
        let w' := (w.clearArg i).setSock k (some { s with pcb := none })
        if s.listening then w' else w'.closePcb i stays
  | .progress i state =>
      (w.pcbs i).bind fun p =>
        if moves p.state ∧ moves state then
          let w' := w.setPcb i { p with state := state }
          some (if state = .timeWait then
            { w' with tcpActivePcbs := w.tcpActivePcbs.filter (· ≠ i) } else w')
        else none
  | .err i => (w.pcbs i).bind fun p => if p.state ≠ .synRcvd then w.afterErr i p else none
  | .gone i =>
      (w.pcbs i).bind fun p =>
        if p.state = .synRcvd ∨ p.state = .timeWait ∨ p.arg = none then some (w.dropPcb i) else none
  | .received k n => (w.socks k).map fun s => w.setSock k (some { s with rxBytes := n })

def system : TransitionSystem (PcbWorld ι κ) (Label ι κ) where
  init w := w = { socks := fun _ => none, pcbs := fun _ => none, tcpActivePcbs := [] }
  next := next

end

/-! ### The condition -/

section

variable [DecidableEq κ]

def carried (w : PcbWorld ι κ) (k : κ) : Bool :=
  w.tcpActivePcbs.any fun i =>
    (w.pcbs i).any fun p => p.state == .synRcvd && p.arg == some k

def spared : ℕ → PcbWorld ι κ → κ → Bool
  | 0, _, _ => true
  | fuel + 1, w, k =>
      !w.carried k && (w.socks k).all fun s => s.acceptq.all fun q => spared fuel w q

def sparing (w : PcbWorld ι κ) : Label ι κ → Bool
  | .close k _ => (w.socks k).all fun s => s.refs - 1 != 0 || spared FREE_DEPTH w k
  | .accept k false _ => (w.socks k).all fun s => s.acceptq.head?.all fun q => spared FREE_DEPTH w q
  | _ => true

end

/-! ### The walk over the list -/

variable {w w' : PcbWorld ι κ}

theorem isSome_sbTcpSockets_iff :
  w.sbTcpSockets.isSome = true ↔ w.ArgsLive
  := by
  have hrow : ∀ p, (w.row p).isSome = true ↔ ∀ k ∈ p.arg, (w.socks k).isSome = true := by
    intro p
    unfold row
    cases harg : p.arg with
    | none | some k => simp
  have hwalk : ∀ ps : List (PcbRec ι κ), (ps.mapM w.row).isSome = true ↔
      ∀ p ∈ ps, (w.row p).isSome = true := by
    intro ps
    induction ps with
    | nil => simp
    | cons p ps ih =>
      rw [mapM_cons, forall_mem_cons, ← ih]
      cases w.row p <;> cases ps.mapM w.row <;> simp
  rw [sbTcpSockets, hwalk]
  simp only [mem_filterMap, hrow, ArgsLive, mem_def]
  constructor
  · intro h i hi p hp
    apply h p ⟨i, hi, hp⟩
  · rintro h p ⟨i, hi, hp⟩
    apply h i hi p hp

/-! ### The invariant -/

structure Inv (w : PcbWorld ι κ) : Prop where
  own : ∀ i p k, w.pcbs i = some p → p.arg = some k →
    ∃ s, w.socks k = some s ∧ (s.pcb = some i ∨ p.state = .synRcvd)
  active : ∀ i p, w.pcbs i = some p → p.state = .synRcvd → i ∈ w.tcpActivePcbs

def NoArg (w : PcbWorld ι κ) (k : κ) : Prop :=
  ∀ i p, w.pcbs i = some p → p.arg ≠ some k

theorem Inv.argsLive (h : w.Inv) :
  w.ArgsLive
  := by
  intro i _ p hp k hk
  obtain ⟨s, hs, -⟩ := h.own i p k hp hk
  rw [hs]
  rfl

/-! ### Changes that take away -/

structure Shrinks (w w' : PcbWorld ι κ) : Prop where
  pcb : ∀ i p', w'.pcbs i = some p' → ∃ p, w.pcbs i = some p ∧
    (p'.arg = none ∧ (p'.state = .synRcvd → p.state = .synRcvd) ∨
      p'.arg = p.arg ∧ p'.state = p.state)
  active_subset : ∀ i ∈ w'.tcpActivePcbs, i ∈ w.tcpActivePcbs
  active_keeps : ∀ i ∈ w.tcpActivePcbs, (w'.pcbs i).isSome = true → i ∈ w'.tcpActivePcbs
  sock : ∀ k s', w'.socks k = some s' → ∃ s, w.socks k = some s ∧ s'.pcb = s.pcb ∧
    ∀ q ∈ s'.acceptq, q ∈ s.acceptq

theorem Shrinks.refl (w : PcbWorld ι κ) :
  Shrinks w w
  := ⟨fun _ p hp => ⟨p, hp, .inr ⟨rfl, rfl⟩⟩, fun _ hi => hi, fun _ hi _ => hi,
    fun _ s hs => ⟨s, hs, rfl, fun _ hq => hq⟩⟩

theorem Shrinks.trans
    {w'' : PcbWorld ι κ} (h : Shrinks w w') (h' : Shrinks w' w'') :
  Shrinks w w''
  := by
  refine ⟨?_, fun i hi => h.active_subset i (h'.active_subset i hi), ?_, ?_⟩
  · intro i p'' hp''
    obtain ⟨p', hp', hcases'⟩ := h'.pcb i p'' hp''
    obtain ⟨p, hp, hcases⟩ := h.pcb i p' hp'
    refine ⟨p, hp, ?_⟩
    obtain ⟨harg', hstate'⟩ | ⟨harg', hstate'⟩ := hcases'
    · left
      refine ⟨harg', fun hopen => ?_⟩
      obtain ⟨-, hstate⟩ | ⟨-, hstate⟩ := hcases
      · apply hstate (hstate' hopen)
      · rw [← hstate]
        apply hstate' hopen
    · rw [harg', hstate']
      apply hcases
  · intro i hi hsome
    obtain ⟨p'', hp''⟩ := isSome_iff_exists.mp hsome
    obtain ⟨p', hp', -⟩ := h'.pcb i p'' hp''
    apply h'.active_keeps i (h.active_keeps i hi (by rw [hp']; rfl)) hsome
  · intro k s'' hs''
    obtain ⟨s', hs', hpcb', hq'⟩ := h'.sock k s'' hs''
    obtain ⟨s, hs, hpcb, hq⟩ := h.sock k s' hs'
    exact ⟨s, hs, hpcb'.trans hpcb, fun q hmem => hq q (hq' q hmem)⟩

theorem NoArg.shrinks
    {k : κ} (hk : w.NoArg k) (h : Shrinks w w') :
  w'.NoArg k
  := by
  intro i p' hp' harg'
  obtain ⟨p, hp, ⟨hnone, -⟩ | ⟨harg, -⟩⟩ := h.pcb i p' hp'
  · rw [hnone] at harg'
    contradiction
  · apply hk i p hp
    rw [← harg, harg']

theorem Inv.shrinks
    (h : w.Inv) (hw : Shrinks w w')
    (hsock : ∀ k s, w.socks k = some s → w'.NoArg k ∨ ∃ s', w'.socks k = some s' ∧ s'.pcb = s.pcb) :
  w'.Inv
  := by
  constructor
  · intro i p' k hp' harg'
    obtain ⟨p, hp, ⟨hnone, -⟩ | ⟨harg, hstate⟩⟩ := hw.pcb i p' hp'
    · rw [hnone] at harg'
      contradiction
    · obtain ⟨s, hs, hcases⟩ := h.own i p k hp (harg ▸ harg')
      obtain hno | ⟨s', hs', hpcb⟩ := hsock k s hs
      · exact absurd harg' (hno i p' hp')
      · refine ⟨s', hs', ?_⟩
        rw [hpcb, hstate]
        apply hcases
  · intro i p' hp' hopen
    obtain ⟨p, hp, hcases⟩ := hw.pcb i p' hp'
    have hopen' : p.state = .synRcvd := by
      obtain ⟨-, hstate⟩ | ⟨-, hstate⟩ := hcases
      · apply hstate hopen
      · rw [← hstate, hopen]
    apply hw.active_keeps i (h.active i p hp hopen')
    rw [hp']
    rfl

theorem Inv.activate
    (h : w.Inv) (i : ι) :
  Inv { w with tcpActivePcbs := i :: w.tcpActivePcbs }
  := ⟨h.own, fun j p hp hopen => mem_cons_of_mem i (h.active j p hp hopen)⟩

/-! ### Sockets -/

section

variable [DecidableEq κ]

theorem socks_setSock_self
    {k : κ} {s : Option (SockRec ι κ)} :
  (w.setSock k s).socks k = s
  := update_self ..

theorem socks_setSock_of_ne
    {k l : κ} {s : Option (SockRec ι κ)} (h : l ≠ k) :
  (w.setSock k s).socks l = w.socks l
  := update_of_ne h ..

theorem Inv.pcb_of_arg
    (h : w.Inv) {k : κ} (hcarried : w.carried k = false) {i : ι} {p : PcbRec ι κ}
    (hp : w.pcbs i = some p) (harg : p.arg = some k) {s : SockRec ι κ} (hs : w.socks k = some s) :
  s.pcb = some i
  := by
  obtain ⟨s', hs', hpcb | hopen⟩ := h.own i p k hp harg
  · cases hs.symm.trans hs'
    apply hpcb
  · have htrue : w.carried k = true := by
      rw [carried, List.any_eq_true]
      use i, h.active i p hp hopen
      simp [hp, hopen, harg]
    rw [hcarried] at htrue
    contradiction

theorem carried_of_shrinks
    {k : κ} (hk : w.carried k = false) (h : Shrinks w w') :
  w'.carried k = false
  := by
  rw [Bool.eq_false_iff, ne_eq, carried, List.any_eq_true] at hk ⊢
  rintro ⟨i, hi, hcarried⟩
  apply hk
  use i, h.active_subset i hi
  cases hp' : w'.pcbs i with
  | none =>
    rw [hp'] at hcarried
    contradiction
  | some p' =>
    obtain ⟨p, hp, ⟨hnone, -⟩ | ⟨harg, hstate⟩⟩ := h.pcb i p' hp'
    · simp [hp', hnone] at hcarried
    · simpa [hp', hp, harg, hstate] using hcarried

theorem spared_of_shrinks
    {fuel : ℕ} {k : κ} (hk : spared fuel w k = true) (h : Shrinks w w') :
  spared fuel w' k = true
  := by
  induction fuel generalizing k with
  | zero => rfl
  | succ fuel ih =>
    simp only [spared, Bool.and_eq_true, Bool.not_eq_true', Option.all_eq_true,
      List.all_eq_true] at hk ⊢
    refine ⟨carried_of_shrinks hk.1 h, ?_⟩
    intro s' hs' q hq
    obtain ⟨s, hs, -, hsub⟩ := h.sock k s' hs'
    apply ih (hk.2 s hs q (hsub q hq))

theorem shrinks_free (w : PcbWorld ι κ) (k : κ) :
  Shrinks w (w.setSock k none)
  := by
  refine ⟨(Shrinks.refl w).pcb, fun _ hi => hi, fun _ hi _ => hi, ?_⟩
  intro j s hs
  by_cases hjk : j = k
  · rw [hjk, socks_setSock_self] at hs
    contradiction
  · rw [socks_setSock_of_ne hjk] at hs
    exact ⟨s, hs, rfl, fun _ hq => hq⟩

theorem Inv.free
    (h : w.Inv) {k : κ} (hk : w.NoArg k) :
  (w.setSock k none).Inv
  := by
  apply h.shrinks (shrinks_free w k)
  intro j s hs
  by_cases hjk : j = k
  · left
    subst hjk
    apply hk
  · right
    use s
    rw [socks_setSock_of_ne hjk]
    exact ⟨hs, rfl⟩

theorem shrinks_setSock
    {k : κ} {s s' : SockRec ι κ} (hs : w.socks k = some s) (hpcb : s'.pcb = s.pcb)
    (hq : ∀ q ∈ s'.acceptq, q ∈ s.acceptq) :
  Shrinks w (w.setSock k (some s'))
  := by
  refine ⟨(Shrinks.refl w).pcb, fun _ hi => hi, fun _ hi _ => hi, ?_⟩
  intro j t ht
  by_cases hjk : j = k
  · subst hjk
    rw [socks_setSock_self] at ht
    cases ht
    exact ⟨s, hs, hpcb, hq⟩
  · rw [socks_setSock_of_ne hjk] at ht
    exact ⟨t, ht, rfl, fun _ hq => hq⟩

theorem Inv.setSock
    (h : w.Inv) {k : κ} {s s' : SockRec ι κ} (hs : w.socks k = some s) (hpcb : s'.pcb = s.pcb) :
  (w.setSock k (some s')).Inv
  := by
  constructor
  · intro i p j hp harg
    obtain ⟨t, ht, hcases⟩ := h.own i p j hp harg
    by_cases hjk : j = k
    · subst hjk
      cases hs.symm.trans ht
      use s'
      rw [socks_setSock_self, hpcb]
      exact ⟨rfl, hcases⟩
    · use t
      rw [socks_setSock_of_ne hjk]
      exact ⟨ht, hcases⟩
  · apply h.active

theorem Inv.rewire
    (h : w.Inv) {k : κ} (s : SockRec ι κ)
    (hk : ∀ i p, w.pcbs i = some p → p.arg = some k → s.pcb = some i ∨ p.state = .synRcvd) :
  (w.setSock k (some s)).Inv
  := by
  constructor
  · intro i p j hp harg
    by_cases hjk : j = k
    · subst hjk
      use s
      rw [socks_setSock_self]
      exact ⟨rfl, hk i p hp harg⟩
    · obtain ⟨t, ht, hcases⟩ := h.own i p j hp harg
      use t
      rw [socks_setSock_of_ne hjk]
      exact ⟨ht, hcases⟩
  · apply h.active

end

/-! ### Control blocks -/

section

variable [DecidableEq ι]

theorem pcbs_setPcb_self
    {i : ι} {p : PcbRec ι κ} :
  (w.setPcb i p).pcbs i = some p
  := update_self ..

theorem pcbs_setPcb_of_ne
    {i j : ι} {p : PcbRec ι κ} (h : j ≠ i) :
  (w.setPcb i p).pcbs j = w.pcbs j
  := update_of_ne h ..

theorem pcbs_dropPcb_self
    {i : ι} :
  (w.dropPcb i).pcbs i = none
  := update_self ..

theorem pcbs_dropPcb_of_ne
    {i j : ι} (h : j ≠ i) :
  (w.dropPcb i).pcbs j = w.pcbs j
  := update_of_ne h ..

theorem shrinks_dropPcb (w : PcbWorld ι κ) (i : ι) :
  Shrinks w (w.dropPcb i)
  := by
  refine ⟨?_, ?_, ?_, fun k s hs => ⟨s, hs, rfl, fun _ hq => hq⟩⟩
  · intro j p' hp'
    by_cases hji : j = i
    · rw [hji, pcbs_dropPcb_self] at hp'
      contradiction
    · rw [pcbs_dropPcb_of_ne hji] at hp'
      exact ⟨p', hp', .inr ⟨rfl, rfl⟩⟩
  · intro j hj
    apply mem_of_mem_filter hj
  · intro j hj hsome
    by_cases hji : j = i
    · rw [hji, pcbs_dropPcb_self] at hsome
      contradiction
    · simp [dropPcb, hj, hji]

theorem shrinks_setPcb
    {i : ι} {p p' : PcbRec ι κ} (hp : w.pcbs i = some p)
    (hp' : p'.arg = none ∧ (p'.state = .synRcvd → p.state = .synRcvd) ∨
      p'.arg = p.arg ∧ p'.state = p.state) :
  Shrinks w (w.setPcb i p')
  := by
  refine ⟨?_, fun _ hj => hj, fun _ hj _ => hj, fun k s hs => ⟨s, hs, rfl, fun _ hq => hq⟩⟩
  intro j q hq
  by_cases hji : j = i
  · subst hji
    rw [pcbs_setPcb_self] at hq
    cases hq
    exact ⟨p, hp, hp'⟩
  · rw [pcbs_setPcb_of_ne hji] at hq
    exact ⟨q, hq, .inr ⟨rfl, rfl⟩⟩

theorem shrinks_clearArg (w : PcbWorld ι κ) (i : ι) :
  Shrinks w (w.clearArg i)
  := by
  unfold clearArg
  split
  · apply Shrinks.refl
  next p hp =>
    apply shrinks_setPcb hp
    exact .inl ⟨rfl, id⟩

theorem arg_clearArg
    {i : ι} {p : PcbRec ι κ} (h : (w.clearArg i).pcbs i = some p) :
  p.arg = none
  := by
  unfold clearArg at h
  split at h
  next hnone =>
    rw [hnone] at h
    contradiction
  next =>
    rw [pcbs_setPcb_self] at h
    cases h
    rfl

theorem shrinks_closePcb
    {i : ι} (h : ∀ p, w.pcbs i = some p → p.arg = none) (stays : Bool) :
  Shrinks w (w.closePcb i stays)
  := by
  unfold closePcb
  split
  · split
    · apply Shrinks.refl
    next p hp =>
      apply shrinks_setPcb hp
      exact .inl ⟨h p hp, nofun⟩
  · apply shrinks_dropPcb

theorem shrinks_closeListen (w : PcbWorld ι κ) (i : ι) :
  Shrinks w (w.closeListen i)
  := by
  apply (shrinks_dropPcb w i).trans
  refine ⟨?_, fun _ hj => hj, fun _ hj _ => hj, fun k s hs => ⟨s, hs, rfl, fun _ hq => hq⟩⟩
  intro j p' hp'
  obtain ⟨p, hp, rfl⟩ := map_eq_some_iff.mp hp'
  refine ⟨p, hp, .inr ?_⟩
  split <;> exact ⟨rfl, rfl⟩

theorem shrinks_detach (w : PcbWorld ι κ) (s : SockRec ι κ) (stays : ι → Bool) :
  Shrinks w (w.detach s stays)
  := by
  unfold detach
  split
  · apply Shrinks.refl
  next i hi =>
    apply (shrinks_clearArg w i).trans
    split
    · apply shrinks_closeListen
    · apply shrinks_closePcb
      intro p hp
      apply arg_clearArg hp

theorem arg_detach
    {s : SockRec ι κ} {stays : ι → Bool} {i : ι} (hi : s.pcb = some i) {p : PcbRec ι κ}
    (hp : (w.detach s stays).pcbs i = some p) :
  p.arg = none
  := by
  have hshrinks : Shrinks (w.clearArg i) (w.detach s stays) := by
    simp only [detach, hi]
    split
    · apply shrinks_closeListen
    · apply shrinks_closePcb
      intro p hp
      apply arg_clearArg hp
  obtain ⟨p₀, hp₀, ⟨hnone, -⟩ | ⟨harg, -⟩⟩ := hshrinks.pcb i p hp
  · apply hnone
  · rw [harg]
    apply arg_clearArg hp₀

theorem socks_detach (w : PcbWorld ι κ) (s : SockRec ι κ) (stays : ι → Bool) :
  (w.detach s stays).socks = w.socks
  := by
  unfold detach clearArg closeListen closePcb
  split
  · rfl
  · split
    · split <;> rfl
    · split
      · split <;> split <;> rfl
      · split <;> rfl

theorem Inv.setPcb
    (h : w.Inv) {i : ι} {p : PcbRec ι κ}
    (hown : ∀ k, p.arg = some k → ∃ s, w.socks k = some s ∧ (s.pcb = some i ∨ p.state = .synRcvd))
    (hactive : p.state = .synRcvd → i ∈ w.tcpActivePcbs) :
  (w.setPcb i p).Inv
  := by
  constructor
  · intro j q k hq harg
    by_cases hji : j = i
    · subst hji
      rw [pcbs_setPcb_self] at hq
      cases hq
      apply hown k harg
    · rw [pcbs_setPcb_of_ne hji] at hq
      apply h.own j q k hq harg
  · intro j q hq hopen
    by_cases hji : j = i
    · subst hji
      rw [pcbs_setPcb_self] at hq
      cases hq
      apply hactive hopen
    · rw [pcbs_setPcb_of_ne hji] at hq
      apply h.active j q hq hopen

theorem Inv.dropPcb
    (h : w.Inv) (i : ι) :
  (w.dropPcb i).Inv
  := by
  apply h.shrinks (shrinks_dropPcb w i)
  intro k s hs
  right
  exact ⟨s, hs, rfl⟩

theorem Inv.closePcb
    (h : w.Inv) {i : ι} (hi : ∀ p, w.pcbs i = some p → p.arg = none) (stays : Bool) :
  (w.closePcb i stays).Inv
  := by
  apply h.shrinks (shrinks_closePcb hi stays)
  intro k s hs
  right
  refine ⟨s, ?_, rfl⟩
  unfold PcbWorld.closePcb
  split
  · split <;> exact hs
  · exact hs

theorem Inv.progress
    (h : w.Inv) {i : ι} {p : PcbRec ι κ} (hp : w.pcbs i = some p) {state : TcpState}
    (hfrom : p.state ≠ .synRcvd) (hto : state ≠ .synRcvd) {active : List ι}
    (hactive : ∀ j ∈ w.tcpActivePcbs, j ≠ i → j ∈ active) :
  Inv { w.setPcb i { p with state := state } with tcpActivePcbs := active }
  := by
  constructor
  · intro j q k hq harg
    by_cases hji : j = i
    · subst hji
      cases pcbs_setPcb_self.symm.trans hq
      obtain ⟨s, hs, hpcb | hopen⟩ := h.own j p k hp harg
      · exact ⟨s, hs, .inl hpcb⟩
      · contradiction
    · apply h.own j q k ((pcbs_setPcb_of_ne hji).symm.trans hq) harg
  · intro j q hq hopen
    by_cases hji : j = i
    · subst hji
      cases pcbs_setPcb_self.symm.trans hq
      contradiction
    · apply hactive j _ hji
      apply h.active j q ((pcbs_setPcb_of_ne hji).symm.trans hq) hopen

end

/-! ### Closing a socket -/

variable [DecidableEq ι] [DecidableEq κ]

theorem Inv.noArg_detach
    (h : w.Inv) {k : κ} {s : SockRec ι κ} (hs : w.socks k = some s) (hk : w.carried k = false)
    (stays : ι → Bool) :
  (w.detach s stays).NoArg k
  := by
  intro i p' hp' harg'
  obtain ⟨p, hp, ⟨hnone, -⟩ | ⟨harg, -⟩⟩ := (shrinks_detach w s stays).pcb i p' hp'
  · rw [hnone] at harg'
    contradiction
  · have hpcb := h.pcb_of_arg hk hp (harg ▸ harg') hs
    rw [arg_detach hpcb hp'] at harg'
    contradiction

theorem Inv.sbSockFree
    (stays : ι → Bool) {fuel : ℕ} {k : κ} (h : w.Inv) (hk : spared fuel w k = true) :
  (sbSockFree stays fuel w k).Inv ∧ Shrinks w (sbSockFree stays fuel w k)
  := by
  induction fuel generalizing w k with
  | zero => exact ⟨h, .refl w⟩
  | succ fuel ih =>
    rw [PcbWorld.sbSockFree]
    cases hs : w.socks k with
    | none => exact ⟨h, .refl w⟩
    | some s =>
      dsimp only
      split
      · exact ⟨h.setSock hs rfl, shrinks_setSock hs rfl fun _ hq => hq⟩
      · simp only [spared, hs, Bool.and_eq_true, Bool.not_eq_true', Option.all_some,
          List.all_eq_true] at hk
        -- the accept queue: each connection is freed in the world the ones before it leave
        have hfold : ∀ (qs : List κ) (v : PcbWorld ι κ), v.Inv →
            (∀ q ∈ qs, spared fuel v q = true) →
            (qs.foldl (PcbWorld.sbSockFree stays fuel) v).Inv ∧
              Shrinks v (qs.foldl (PcbWorld.sbSockFree stays fuel) v) := by
          intro qs
          induction qs with
          | nil => exact fun v hv _ => ⟨hv, .refl v⟩
          | cons q qs ihq =>
            intro v hv hqs
            obtain ⟨hv', hshrinks⟩ := ih hv (hqs q List.mem_cons_self)
            obtain ⟨hv'', hshrinks'⟩ := ihq _ hv' fun r hr =>
              spared_of_shrinks (hqs r (List.mem_cons_of_mem q hr)) hshrinks
            exact ⟨hv'', hshrinks.trans hshrinks'⟩
        have hdetach := shrinks_detach w s stays
        have hinv : (w.detach s stays).Inv := by
          apply h.shrinks hdetach
          intro j t ht
          right
          exact ⟨t, socks_detach w s stays ▸ ht, rfl⟩
        obtain ⟨hinv', hqueue⟩ := hfold s.acceptq _ hinv fun q hq =>
          spared_of_shrinks (hk.2 q hq) hdetach
        have hno := (h.noArg_detach hs hk.1 stays).shrinks hqueue
        exact ⟨hinv'.free hno, (hdetach.trans hqueue).trans (shrinks_free _ k)⟩

/-! ### Steps -/

theorem Inv.create
    (h : w.Inv) {k : κ} (hk : w.socks k = none) {i : ι} {p : PcbRec ι κ} (harg : p.arg = some k)
    (hstate : p.state ≠ .synRcvd) :
  ((w.setPcb i p).setSock k (some (.new i))).Inv
  := by
  constructor
  · intro j q l hq hl
    by_cases hji : j = i
    · subst hji
      rw [PcbWorld.setSock, pcbs_setPcb_self] at hq
      cases hq
      cases harg.symm.trans hl
      use .new j
      rw [socks_setSock_self]
      exact ⟨rfl, .inl rfl⟩
    · rw [PcbWorld.setSock, pcbs_setPcb_of_ne hji] at hq
      obtain ⟨s, hs, hcases⟩ := h.own j q l hq hl
      have hlk : l ≠ k := by
        rintro rfl
        rw [hk] at hs
        contradiction
      use s
      rw [socks_setSock_of_ne hlk]
      exact ⟨hs, hcases⟩
  · intro j q hq hopen
    by_cases hji : j = i
    · subst hji
      rw [PcbWorld.setSock, pcbs_setPcb_self] at hq
      cases hq
      contradiction
    · rw [PcbWorld.setSock, pcbs_setPcb_of_ne hji] at hq
      apply h.active j q hq hopen

theorem Inv.listen
    (h : w.Inv) {k : κ} {s : SockRec ι κ} (hs : w.socks k = some s) {i j : ι} (hi : s.pcb = some i) :
  (((w.dropPcb i).setPcb j ⟨some k, .listen, none, 0⟩).setSock k
    (some { s with pcb := some j, listening := true })).Inv
  := by
  have hsock : ((w.dropPcb i).setSock k
      (some { s with pcb := some j, listening := true })).Inv := by
    apply (h.dropPcb i).rewire
    intro l p hp harg
    by_cases hli : l = i
    · rw [hli, pcbs_dropPcb_self] at hp
      contradiction
    · rw [pcbs_dropPcb_of_ne hli] at hp
      obtain ⟨t, ht, hpcb | hopen⟩ := h.own l p k hp harg
      · cases hs.symm.trans ht
        rw [hi] at hpcb
        exact absurd (some.inj hpcb).symm hli
      · right
        apply hopen
  refine hsock.setPcb (i := j) (p := ⟨some k, .listen, none, 0⟩) ?_ nofun
  rintro _ ⟨⟩
  exact ⟨_, socks_setSock_self, .inl rfl⟩

theorem Inv.afterHandshake
    (h : w.Inv) {i : ι} {p : PcbRec ι κ} {mem : Option κ}
    (hw' : w.afterHandshake i p mem = some w') :
  w'.Inv
  := by
  unfold PcbWorld.afterHandshake at hw'
  split at hw'
  · cases hw'
    apply h.dropPcb
  · split at hw'
    · cases hw'
      apply h.dropPcb
    next l harg =>
      split at hw'
      · contradiction
      next lst hlst =>
        split at hw'
        · cases hw'
          apply h.dropPcb
        next k =>
          obtain ⟨hk, ⟨⟩⟩ := ite_none_right_eq_some.mp hw'
          rw [isNone_iff_eq_none] at hk
          have hlk : l ≠ k := by
            rintro rfl
            rw [hk] at hlst
            contradiction
          have hnew := h.create (i := i) (p := { p with arg := some k, state := .established }) hk
            rfl nofun
          exact hnew.setSock ((socks_setSock_of_ne hlk).trans hlst) rfl

theorem Inv.afterErr
    (h : w.Inv) {i : ι} {p : PcbRec ι κ} (hp : w.pcbs i = some p) (hstate : p.state ≠ .synRcvd)
    (hw' : w.afterErr i p = some w') :
  w'.Inv
  := by
  unfold PcbWorld.afterErr at hw'
  split at hw'
  · cases hw'
    apply h.dropPcb
  next k harg =>
    obtain ⟨s, hs, rfl⟩ := map_eq_some_iff.mp hw'
    apply (h.dropPcb i).rewire
    intro j q hq hk
    by_cases hji : j = i
    · rw [hji, pcbs_dropPcb_self] at hq
      contradiction
    · rw [pcbs_dropPcb_of_ne hji] at hq
      obtain ⟨t, ht, hpcb | hopen⟩ := h.own i p k hp harg
      · obtain ⟨t', ht', hpcb' | hopen'⟩ := h.own j q k hq hk
        · cases ht.symm.trans ht'
          exact absurd (some.inj (hpcb'.symm.trans hpcb)) hji
        · right
          apply hopen'
      · contradiction

theorem Inv.shutdown
    (h : w.Inv) {k : κ} {s : SockRec ι κ} (hs : w.socks k = some s) {i : ι} (hi : s.pcb = some i) :
  ((w.clearArg i).setSock k (some { s with pcb := none })).Inv
  := by
  have hshrinks := shrinks_clearArg w i
  have hclear : (w.clearArg i).Inv := by
    apply h.shrinks hshrinks
    intro l t ht
    right
    refine ⟨t, ?_, rfl⟩
    unfold clearArg
    split <;> exact ht
  apply hclear.rewire
  intro j p' hp' harg'
  obtain ⟨p, hp, ⟨hnone, -⟩ | ⟨harg, hstate⟩⟩ := hshrinks.pcb j p' hp'
  · rw [hnone] at harg'
    contradiction
  · obtain ⟨t, ht, hpcb | hopen⟩ := h.own j p k hp (harg ▸ harg')
    · cases hs.symm.trans ht
      cases hi.symm.trans hpcb
      rw [arg_clearArg hp'] at harg'
      contradiction
    · right
      rw [hstate, hopen]

theorem Inv.close
    (h : w.Inv) {k : κ} {stays : ι → Bool} (hk : w.sparing (.close k stays) = true) :
  (PcbWorld.sbSockFree stays FREE_DEPTH w k).Inv
  := by
  cases hs : w.socks k with
  | none =>
    rw [FREE_DEPTH, PcbWorld.sbSockFree, hs]
    apply h
  | some s =>
    simp only [sparing, hs, all_some, Bool.or_eq_true, bne_iff_ne] at hk
    obtain hrefs | hspared := hk
    · rw [FREE_DEPTH, PcbWorld.sbSockFree, hs]
      dsimp only
      rw [if_pos hrefs]
      exact h.setSock hs rfl
    · apply (h.sbSockFree stays hspared).1

theorem Inv.step
    (h : w.Inv) {l : Label ι κ} (hl : w.sparing l = true) (hnext : next w l = some w') :
  w'.Inv
  := by
  cases l with
  | socket k i =>
    obtain ⟨⟨hk, -⟩, ⟨⟩⟩ := ite_none_right_eq_some.mp hnext
    exact h.create (isNone_iff_eq_none.mp hk) rfl nofun
  | ref k | received k n =>
    obtain ⟨s, hs, rfl⟩ := map_eq_some_iff.mp hnext
    exact h.setSock hs rfl
  | connect k =>
    simp only [next, bind_eq_some_iff, ite_none_right_eq_some] at hnext
    obtain ⟨s, hs, i, hi, p, hp, hclosed, ⟨⟩⟩ := hnext
    have hfrom : p.state ≠ .synRcvd := by
      rw [hclosed]
      nofun
    have hto : TcpState.synSent ≠ .synRcvd := nofun
    exact h.progress hp hfrom hto fun j hj _ => mem_cons_of_mem i hj
  | listen k j =>
    simp only [next, bind_eq_some_iff, ite_none_right_eq_some] at hnext
    obtain ⟨s, hs, i, hi, p, hp, -, ⟨⟩⟩ := hnext
    apply h.listen hs hi
  | syn i j =>
    simp only [next, bind_eq_some_iff, ite_none_right_eq_some] at hnext
    obtain ⟨p, hp, -, ⟨⟩⟩ := hnext
    refine (h.activate j).setPcb (i := j) (p := ⟨p.arg, .synRcvd, some i, TCP_SND_BUF⟩) ?_ ?_
    · intro k hk
      obtain ⟨s, hs, -⟩ := h.own i p k hp hk
      exact ⟨s, hs, .inr rfl⟩
    · intro _
      apply mem_cons_self
  | accepted i mem =>
    simp only [next, bind_eq_some_iff, ite_none_right_eq_some] at hnext
    obtain ⟨p, hp, -, hnext⟩ := hnext
    apply h.afterHandshake hnext
  | accept k fd stays =>
    simp only [next, bind_eq_some_iff] at hnext
    obtain ⟨s, hs, hnext⟩ := hnext
    split at hnext
    · contradiction
    next q rest hq =>
      cases hnext
      have hsock : (w.setSock k (some { s with acceptq := rest })).Inv := h.setSock hs rfl
      cases fd with
      | true => apply hsock
      | false =>
        refine (hsock.sbSockFree stays ?_).1
        apply spared_of_shrinks (w := w)
        · simpa [sparing, hs, hq] using hl
        · refine shrinks_setSock hs rfl ?_
          intro r hr
          rw [hq]
          apply mem_cons_of_mem q hr
  | close k stays =>
    obtain ⟨-, ⟨⟩⟩ := ite_none_right_eq_some.mp hnext
    apply h.close hl
  | shutdown k stays =>
    simp only [next, bind_eq_some_iff, map_eq_some_iff] at hnext
    obtain ⟨s, hs, i, hi, rfl⟩ := hnext
    have hshut := h.shutdown hs hi
    split
    · apply hshut
    · apply hshut.closePcb
      intro p hp
      apply arg_clearArg hp
  | progress i state =>
    simp only [next, bind_eq_some_iff, ite_none_right_eq_some] at hnext
    obtain ⟨p, hp, ⟨hfrom, hto⟩, ⟨⟩⟩ := hnext
    have hfrom' : p.state ≠ .synRcvd := by
      intro heq
      rw [heq] at hfrom
      contradiction
    have hto' : state ≠ .synRcvd := by
      rintro rfl
      contradiction
    split
    · apply h.progress hp hfrom' hto'
      intro j hj hji
      simp [hj, hji]
    · exact h.progress hp hfrom' hto' fun j hj _ => hj
  | err i =>
    simp only [next, bind_eq_some_iff, ite_none_right_eq_some] at hnext
    obtain ⟨p, hp, hstate, hnext⟩ := hnext
    apply h.afterErr hp hstate hnext
  | gone i =>
    simp only [next, bind_eq_some_iff, ite_none_right_eq_some] at hnext
    obtain ⟨p, hp, -, ⟨⟩⟩ := hnext
    apply h.dropPcb

/-- Every argument that `sb_tcp_sockets` follows leads to a socket. -/
theorem arguments_live
    (hw : system.Reach (fun w l => w.sparing l = true) w) :
  w.ArgsLive
  := by
  have hinv : w.Inv := by
    apply hw.invariant
    · rintro _ rfl
      exact ⟨nofun, nofun⟩
    · intro w l w' ih hl hnext
      apply ih.step hl hnext
  apply hinv.argsLive

/-! ### Runs -/

def empty : PcbWorld (Fin 3) (Fin 2) where
  socks _ := none
  pcbs _ := none
  tcpActivePcbs := []

def synRun : List (Label (Fin 3) (Fin 2)) :=
  [.socket 0 0, .listen 0 1, .syn 1 2]

def patientRun : List (Label (Fin 3) (Fin 2)) :=
  synRun ++ [.accepted 2 (some 1), .accept 0 true fun _ => true, .close 0 fun _ => true]

theorem patientRun_enabled :
  (system.exec empty patientRun).isSome = true
  := by
  decide

def patient : PcbWorld (Fin 3) (Fin 2) :=
  system.last empty patientRun patientRun_enabled

theorem arguments_live_patient :
  patient.ArgsLive ∧ patient.sbTcpSockets = some [⟨0, 0, .established⟩]
  := by
  have hreach : system.Reach (fun w l => w.sparing l = true) patient := by
    apply reach_last rfl
    decide
  exact ⟨arguments_live hreach, by decide⟩

def hastyRun : List (Label (Fin 3) (Fin 2)) :=
  synRun ++ [.close 0 fun _ => true]

theorem hastyRun_enabled :
  (system.exec empty hastyRun).isSome = true
  := by
  decide

def hasty : PcbWorld (Fin 3) (Fin 2) :=
  system.last empty hastyRun hastyRun_enabled

/-- The half-open connection is active with the address of the freed listener, and the statistics
read it. -/
theorem half_open_dangles :
  system.Reachable hasty ∧ hasty.tcpActivePcbs = [2] ∧
    hasty.pcbs 2 = some ⟨some 0, .synRcvd, none, TCP_SND_BUF⟩ ∧
    (hasty.socks 0).isNone = true ∧ hasty.sbTcpSockets = none ∧ ¬ hasty.ArgsLive
  := by
  have hwalk : hasty.sbTcpSockets = none := by decide
  refine ⟨reachable_last rfl, by decide, by decide,
    by decide, hwalk, ?_⟩
  rw [← isSome_sbTcpSockets_iff, hwalk]
  nofun

end PcbWorld
