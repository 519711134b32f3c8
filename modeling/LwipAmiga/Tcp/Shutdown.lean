import LwipAmiga.Lib.Transition
import LwipAmiga.Socket.Api

/-!
# Shutting down a connection

`bsd_shutdown` of both directions clears the callbacks before it calls `tcp_shutdown`.
-/

open Option Function

structure WiredPcb (κ : Type) where
  arg : Option κ
  callbacks : Bool
  lwips : Bool

structure ShutSock (ι : Type) where
  type : SbSockType
  pcb : Option ι
  shutRd : Bool
  shutWr : Bool

def SbSocket.shutSock {ι β κ : Type} (s : SbSocket β κ) (i : ι) : ShutSock ι where
  type := s.type
  pcb := s.pcb.map fun _ => i
  shutRd := s.shutRd
  shutWr := s.shutWr

structure ShutWorld (ι κ : Type) where
  socks : κ → Option (ShutSock ι)
  pcbs : ι → Option (WiredPcb κ)

inductive ShutLabel (ι κ : Type) where
  | socket (k : κ) (i : ι)
  | dgramSocket (k : κ) (type : SbSockType)
  | listen (k : κ) (j : ι)
  | shutdown (k : κ) (how : ℤ) (r : Err) (stays : Bool)
  | close (k : κ) (stays : Bool)
  | err (i : ι)

namespace ShutWorld

variable {ι κ : Type} [DecidableEq ι] [DecidableEq κ]

def setSock (w : ShutWorld ι κ) (k : κ) (s : Option (ShutSock ι)) : ShutWorld ι κ :=
  { w with socks := Function.update w.socks k s }

def setPcb (w : ShutWorld ι κ) (i : ι) (p : Option (WiredPcb κ)) : ShutWorld ι κ :=
  { w with pcbs := Function.update w.pcbs i p }

/-- `tcp_arg`, `tcp_recv`, `tcp_sent` and `tcp_err` with `NULL`; the control block is left to lwIP or
not. -/
def unwire (w : ShutWorld ι κ) (i : ι) (lwips : Bool) : ShutWorld ι κ :=
  w.setPcb i ((w.pcbs i).map fun _ => { arg := none, callbacks := false, lwips := lwips })

def handOver (w : ShutWorld ι κ) (i : ι) (stays : Bool) : ShutWorld ι κ :=
  if stays then w.unwire i true else w.setPcb i none

def bsdShutdown (w : ShutWorld ι κ) (k : κ) (s : ShutSock ι) (how : ℤ) (r : Err) (stays : Bool) :
    ShutWorld ι κ × Except Errno Unit :=
  if s.type ≠ .tcp then (w, .error .eopnotsupp)
  else if how < 0 ∨ 2 < how then (w, .error .einval)
  else
    let rd := how == 0 || how == 2
    let wr := how == 1 || how == 2
    match s.pcb with
    | none => (w, .error .enotconn)
    | some i =>
        let s := if rd && wr then { s with pcb := none } else s
        let w := if rd && wr then (w.unwire i false).setSock k (some s) else w
        match sbMapErr r with
        | some e => (w, .error e)
        | none =>
            let s := { s with shutRd := s.shutRd || rd, shutWr := s.shutWr || wr }
            let w := if rd && wr then w.handOver i stays else w
            (w.setSock k (some s), .ok ())

omit [DecidableEq ι] in
@[grind =] theorem setSock_socks (w : ShutWorld ι κ) (k : κ) (s : Option (ShutSock ι)) (k' : κ) :
  (w.setSock k s).socks k' = if k' = k then s else w.socks k'
  := update_apply ..

omit [DecidableEq ι] in
@[grind =] theorem setSock_pcbs (w : ShutWorld ι κ) (k : κ) (s : Option (ShutSock ι)) (j : ι) :
  (w.setSock k s).pcbs j = w.pcbs j
  := rfl

omit [DecidableEq κ] in
@[grind =] theorem setPcb_pcbs (w : ShutWorld ι κ) (i : ι) (p : Option (WiredPcb κ)) (j : ι) :
  (w.setPcb i p).pcbs j = if j = i then p else w.pcbs j
  := update_apply ..

omit [DecidableEq κ] in
@[grind =] theorem setPcb_socks (w : ShutWorld ι κ) (i : ι) (p : Option (WiredPcb κ)) (k : κ) :
  (w.setPcb i p).socks k = w.socks k
  := rfl

omit [DecidableEq κ] in
@[grind =] theorem unwire_socks (w : ShutWorld ι κ) (i : ι) (lwips : Bool) (k : κ) :
  (w.unwire i lwips).socks k = w.socks k
  := rfl

omit [DecidableEq κ] in
@[grind =] theorem handOver_socks (w : ShutWorld ι κ) (i : ι) (stays : Bool) (k : κ) :
  (w.handOver i stays).socks k = w.socks k
  := by
  cases stays <;> rfl

def next (w : ShutWorld ι κ) : ShutLabel ι κ → Option (ShutWorld ι κ)
  | .socket k i =>
      if (w.socks k).isNone ∧ (w.pcbs i).isNone then
        some ((w.setPcb i (some ⟨some k, true, false⟩)).setSock k (some ⟨.tcp, some i, false, false⟩))
      else none
  | .dgramSocket k type =>
      if (w.socks k).isNone ∧ type ≠ .tcp then
        some (w.setSock k (some ⟨type, none, false, false⟩))
      else none
  | .listen k j =>
      (w.socks k).bind fun s => s.pcb.bind fun i =>
        if (w.pcbs j).isNone ∧ i ≠ j then
          some (((w.setPcb i none).setPcb j (some ⟨some k, true, false⟩)).setSock k
            (some { s with pcb := some j }))
        else none
  | .shutdown k how r stays => (w.socks k).map fun s => (w.bsdShutdown k s how r stays).1
  | .close k stays =>
      (w.socks k).map fun s =>
        match s.pcb with
        | none => w.setSock k none
        | some i => (w.handOver i stays).setSock k none
  | .err i =>
      (w.pcbs i).map fun p =>
        match p.arg with
        | none => w.setPcb i none
        | some k => (w.setPcb i none).setSock k ((w.socks k).map fun s => { s with pcb := none })

def system : TransitionSystem (ShutWorld ι κ) (ShutLabel ι κ) where
  init w := w = ⟨fun _ => none, fun _ => none⟩
  next := next

def Holds (w : ShutWorld ι κ) (i : ι) (p : WiredPcb κ) : Prop :=
  ∃ k s, w.socks k = some s ∧ s.pcb = some i ∧ p.arg = some k ∧ p.callbacks = true

def Owned (w : ShutWorld ι κ) : Prop :=
  ∀ i p, w.pcbs i = some p → p.lwips = true ∧ p.arg = none ∨ w.Holds i p

/-- `tcp_shutdown` of both directions does not fail. -/
def Gentle (w : ShutWorld ι κ) : ShutLabel ι κ → Prop
  | .shutdown k how r _ => how = 2 → r = .ok ∨ ∀ s ∈ w.socks k, s.pcb = none
  | _ => True

/-! ### Shutting down -/

theorem bsdShutdown_eq
    {β γ : Type} (w : ShutWorld ι κ) (k : κ) (s : SbSocket β γ) (i : ι) (how : ℤ) (r : Err)
    (stays : Bool) (hk : w.socks k = some (s.shutSock i)) :
  (w.bsdShutdown k (s.shutSock i) how r stays).2 = (s.bsdShutdown how r).2 ∧
    (w.bsdShutdown k (s.shutSock i) how r stays).1.socks k =
      some ((s.bsdShutdown how r).1.shutSock i)
  := by
  unfold bsdShutdown SbSocket.bsdShutdown SbSocket.shutSock at *
  cases hpcb : s.pcb with
  | none => grind
  | some pcb =>
    cases hr : sbMapErr r with
    | none | some e =>
      simp only [map_some]
      grind

theorem bsdShutdown_failed
    {w : ShutWorld ι κ} {k : κ} {s : ShutSock ι} {how : ℤ} {r : Err} {stays : Bool} {e : Errno}
    (hboth : how = 2 → s.pcb = none) (h : (w.bsdShutdown k s how r stays).2 = .error e) :
  (w.bsdShutdown k s how r stays).1 = w
  := by
  unfold bsdShutdown at h ⊢
  grind

theorem bsdShutdown_gentle
    {w : ShutWorld ι κ} {k : κ} {s : ShutSock ι} {how : ℤ} {r : Err} (stays : Bool)
    (hr : how = 2 → r = .ok ∨ s.pcb = none) :
  (w.bsdShutdown k s how r stays).1 = w ∨
    ∃ s', (s'.pcb = s.pcb ∧ (w.bsdShutdown k s how r stays).1 = w.setSock k (some s')) ∨
      ∃ i, s.pcb = some i ∧
        (w.bsdShutdown k s how r stays).1 = (w.handOver i stays).setSock k (some s')
  := by
  have hboth : ∀ i s₁ s₂, (((w.unwire i false).setSock k s₁).handOver i stays).setSock k s₂ =
      (w.handOver i stays).setSock k s₂ := by
    intro i s₁ s₂
    cases stays <;> simp [setSock, handOver, unwire, setPcb, comp_def]
  unfold bsdShutdown
  by_cases htype : s.type = .tcp
  · by_cases hhow : how < 0 ∨ 2 < how
    · grind
    · cases hi : s.pcb with
      | none => grind
      | some i =>
        cases hmap : sbMapErr r with
        | some e => grind [sbMapErr]
        | none => grind
  · grind

/-! ### Who owns a control block -/

omit [DecidableEq ι] [DecidableEq κ] in
theorem Owned.change
    {w w' : ShutWorld ι κ} (hw : w.Owned) {k : κ} (o : Option ι)
    (hsocks : ∀ k' ≠ k, w'.socks k' = w.socks k')
    (hpcb : ∀ s, w.socks k = some s → ∀ j, s.pcb = some j → o = some j)
    (hpcbs : ∀ j p, w'.pcbs j = some p →
      (w.pcbs j = some p ∧ o ≠ some j) ∨ (p.lwips = true ∧ p.arg = none) ∨ w'.Holds j p) :
  w'.Owned
  := by
  intro j p hp
  rcases hpcbs j p hp with ⟨hold, hj⟩ | hlwip | hholds
  · rcases hw j p hold with hlwip | ⟨k', s, hs, hsj, harg⟩
    · left
      apply hlwip
    · right
      -- the owner is not the socket that changes
      have hne : k' ≠ k := by
        rintro rfl
        apply hj (hpcb s hs j hsj)
      use k', s
      rw [hsocks k' hne]
      exact ⟨hs, hsj, harg⟩
  · left
    apply hlwip
  · right
    apply hholds

omit [DecidableEq ι] in
theorem Owned.setSock
    {w : ShutWorld ι κ} (hw : w.Owned) {k : κ} {s s' : ShutSock ι} (hs : w.socks k = some s)
    (hpcb : s'.pcb = s.pcb) :
  (w.setSock k (some s')).Owned
  := by
  intro j p hp
  rcases hw j p hp with hlwip | ⟨k', s₁, hs₁, hj, harg⟩
  · left
    apply hlwip
  · right
    by_cases hk : k' = k
    · subst hk
      use k', s'
      grind
    · use k', s₁
      grind

omit [DecidableEq κ] in
theorem handOver_pcbs
    {w : ShutWorld ι κ} {i j : ι} {stays : Bool} {p : WiredPcb κ}
    (h : (w.handOver i stays).pcbs j = some p) :
  (j ≠ i ∧ w.pcbs j = some p) ∨ (p.lwips = true ∧ p.arg = none)
  := by
  cases stays with
  | false =>
    simp only [ShutWorld.handOver, Bool.false_eq_true, if_false, setPcb_pcbs] at h
    grind
  | true =>
    simp only [ShutWorld.handOver, if_true, unwire, setPcb_pcbs] at h
    split at h
    next =>
      right
      obtain ⟨_, -, rfl⟩ := map_eq_some_iff.mp h
      exact ⟨rfl, rfl⟩
    next hj =>
      left
      exact ⟨hj, h⟩

theorem Owned.handOver
    {w : ShutWorld ι κ} (hw : w.Owned) {k : κ} {s : ShutSock ι} {i : ι} (hs : w.socks k = some s)
    (hpcb : s.pcb = some i) (stays : Bool) (s' : Option (ShutSock ι)) :
  ((w.handOver i stays).setSock k s').Owned
  := by
  apply hw.change (k := k) (some i)
  · grind
  · grind
  · intro j p hp
    rcases handOver_pcbs hp with ⟨hj, hold⟩ | hlwip
    · grind
    · right
      left
      apply hlwip

omit [DecidableEq κ] in
theorem Owned.free {w : ShutWorld ι κ} (hw : w.Owned) (i : ι) :
  (w.setPcb i none).Owned
  := by
  intro j p hp
  apply hw j p
  grind

theorem Owned.new
    {w : ShutWorld ι κ} (hw : w.Owned) {k : κ} {s : ShutSock ι} {i : ι} (hi : s.pcb = some i)
    (hpcb : ∀ s, w.socks k = some s → ∀ j, s.pcb = some j → w.pcbs j = none) :
  ((w.setPcb i (some ⟨some k, true, false⟩)).setSock k (some s)).Owned
  := by
  intro j p hp
  by_cases hj : j = i
  · right
    use k, s
    grind
  · rw [setSock_pcbs, setPcb_pcbs, if_neg hj] at hp
    rcases hw j p hp with hlwip | ⟨k', s', hs', hj', harg⟩
    · left
      apply hlwip
    · right
      use k', s'
      grind

theorem Owned.next
    {w w' : ShutWorld ι κ} {l : ShutLabel ι κ} (hw : w.Owned) (hl : w.Gentle l)
    (h : w.next l = some w') :
  w'.Owned
  := by
  cases l with
  | socket k i =>
    simp only [ShutWorld.next, ite_none_right_eq_some] at h
    obtain ⟨⟨hk, -⟩, ⟨⟩⟩ := h
    apply hw.new rfl
    grind
  | dgramSocket k type =>
    simp only [ShutWorld.next, ite_none_right_eq_some] at h
    obtain ⟨⟨hk, -⟩, ⟨⟩⟩ := h
    apply hw.change (k := k) none
    · grind
    · grind
    · grind
  | listen k j =>
    simp only [ShutWorld.next, bind_eq_some_iff, ite_none_right_eq_some] at h
    obtain ⟨s, hs, i, hi, -, ⟨⟩⟩ := h
    apply Owned.new _ rfl
    · grind
    · apply hw.free
  | shutdown k how r stays =>
    obtain ⟨s, hs, rfl⟩ := map_eq_some_iff.mp h
    have hr : how = 2 → r = .ok ∨ s.pcb = none := by
      intro hhow
      apply (hl hhow).imp_right
      intro hnone
      apply hnone s hs
    rcases bsdShutdown_gentle (w := w) (k := k) stays hr with heq | ⟨s', ⟨hs', heq⟩ | ⟨i, hi, heq⟩⟩
    · rw [heq]
      apply hw
    · rw [heq]
      apply hw.setSock hs hs'
    · rw [heq]
      apply hw.handOver hs hi
  | close k stays =>
    obtain ⟨s, hs, rfl⟩ := map_eq_some_iff.mp h
    cases hi : s.pcb with
    | none =>
      apply hw.change (k := k) none
      · grind
      · grind
      · grind
    | some i => apply hw.handOver hs hi
  | err i =>
    obtain ⟨p, hp, rfl⟩ := map_eq_some_iff.mp h
    cases harg : p.arg with
    | none => apply hw.free
    | some k =>
      apply hw.change (k := k) (some i)
      · grind
      · have := hw i p hp
        grind [Holds]
      · grind

/-- Every control block is lwIP's or belongs to the socket it is wired to, and a failing shutdown
changes nothing. -/
theorem failed_shutdown_keeps_pcb
    {w : ShutWorld ι κ} (hw : system.Reach Gentle w) :
  w.Owned ∧
    ∀ k s, w.socks k = some s →
      (∀ how r stays e, (how = 2 → s.pcb = none) → (w.bsdShutdown k s how r stays).2 = .error e →
        (w.bsdShutdown k s how r stays).1 = w) ∧
      ∀ i, s.pcb = some i → ∀ stays, ∃ w', w.next (.close k stays) = some w' ∧
        ∀ p, w'.pcbs i = some p → p.lwips = true
  := by
  constructor
  · apply hw.invariant
    · rintro _ rfl i p ⟨⟩
    · intro w l w' h hl hnext
      apply h.next hl hnext
  · intro k s hs
    constructor
    · intro how r stays e hboth
      apply bsdShutdown_failed hboth
    · intro i hi stays
      refine ⟨(w.handOver i stays).setSock k none, ?_, ?_⟩
      · simp only [next, hs, map_some, hi]
      · intro p hp
        rcases handOver_pcbs hp with ⟨hne, -⟩ | ⟨hlwip, -⟩
        · apply absurd rfl hne
        · apply hlwip

def start : ShutWorld ℕ Unit :=
  ⟨fun _ => none, fun _ => none⟩

def memRun : List (ShutLabel ℕ Unit) :=
  [.socket () 0, .shutdown () 1 .mem false]

theorem failed_shutdown_keeps_pcb_mem :
  ∃ w, system.exec start memRun = some w ∧ w.Owned ∧
    ∃ s, w.socks () = some s ∧ s.pcb = some 0 ∧
      (w.bsdShutdown () s 1 .mem false).1 = w ∧
      ∃ w', w.next (.close () false) = some w' ∧ ∀ p, w'.pcbs 0 = some p → p.lwips = true
  := by
  have hreach : system.Reach Gentle (system.last start memRun rfl) := by
    apply TransitionSystem.reach_last rfl
    exact ⟨trivial, by rintro _ ⟨⟩; exact ⟨nofun, by rintro _ ⟨⟩; trivial⟩⟩
  obtain ⟨howned, hsocks⟩ := failed_shutdown_keeps_pcb hreach
  obtain ⟨hfailed, hclose⟩ := hsocks () _ rfl
  exact ⟨_, rfl, howned, _, rfl, rfl, hfailed 1 .mem false .enobufs nofun rfl, hclose 0 rfl false⟩

/-! ### A control block without an owner -/

def lostRun : List (ShutLabel ℕ Unit) :=
  [.socket () 0, .listen () 1, .shutdown () 2 .conn false, .close () false]

/-- The failing call has taken the control block from the socket, and it stays behind without an owner.
-/
theorem failed_shutdown_loses_pcb :
  ∃ w s, system.exec start (lostRun.take 2) = some w ∧ w.socks () = some s ∧ s.pcb = some 1 ∧
    (w.bsdShutdown () s 2 .conn false).2 = .error .enotconn ∧
    ((w.bsdShutdown () s 2 .conn false).1.socks ()).map ShutSock.pcb = some none ∧
    ∃ w', system.exec start lostRun = some w' ∧ (∀ k, w'.socks k = none) ∧
      w'.pcbs 1 = some { arg := none, callbacks := false, lwips := false }
  := ⟨_, _, rfl, rfl, rfl, rfl, rfl, _, rfl, fun _ => rfl, rfl⟩

end ShutWorld
