import LwipAmiga.Lib.Transition

/-!
# Forward lookups

An opener has one cell for the answer, `dnsAddr` and `dnsErr`, and one flag `dnsDone`, which the
callback sets.
-/

open TransitionSystem List

inductive HErrno where
  | hostNotFound
  | tryAgain
  deriving DecidableEq

inductive DnsResult where
  | ok (addr : UInt32)
  | inProgress
  | failed
  deriving DecidableEq

inductive QueryPc (ν : Type) where
  | idle
  | waiting (name : ν)
  | unlocked (name : ν) (ok : Bool)
  | closed
  deriving DecidableEq

structure DnsOpener (ν : Type) where
  dnsDone : Bool
  dnsErr : Option HErrno
  dnsAddr : UInt32
  pc : QueryPc ν
  lookups : List ν
  reported : List (ν × UInt32)
  returned : List (ν × Except HErrno UInt32)
  strayWrites : ℕ

namespace DnsOpener

variable {ν : Type} {s s' : DnsOpener ν} {name : ν}

/-- `sb_dns_query` up to the wait, or to `netstack_unlock` when there is nothing to wait for. -/
def sbDnsQuery (s : DnsOpener ν) (name : ν) (r : DnsResult) : DnsOpener ν :=
  let s := { s with dnsDone := false, dnsErr := none }
  match r with
  | .ok addr =>
      { s with
        dnsAddr := addr
        reported := (name, addr) :: s.reported
        pc := .unlocked name true }
  | .inProgress => { s with lookups := s.lookups ++ [name], pc := .waiting name }
  | .failed => { s with pc := .unlocked name false }

def answer (s : DnsOpener ν) (name : ν) (result : Except HErrno UInt32) : DnsOpener ν :=
  { s with returned := (name, result) :: s.returned, pc := .idle }

/-- `sb_dns_cb`, with the base for its argument. -/
def sbDnsCb (s : DnsOpener ν) (ipaddr : Option UInt32) : DnsOpener ν :=
  let s :=
    match ipaddr with
    | some addr => { s with dnsAddr := addr, dnsErr := none }
    | none => { s with dnsErr := some .hostNotFound }
  { s with
    dnsDone := true
    strayWrites := match s.pc with
      | .closed => s.strayWrites + 1
      | _ => s.strayWrites }

/-! ### The transition system -/

inductive Label (ν : Type) where
  | query (name : ν) (r : DnsResult)
  | wake
  | interrupt
  | read
  | complete (i : ℕ) (ipaddr : Option UInt32)
  | close
  deriving DecidableEq

def next (s : DnsOpener ν) : Label ν → Option (DnsOpener ν)
  | .query name r =>
      match s.pc with
      | .idle => some (s.sbDnsQuery name r)
      | _ => none
  | .wake =>
      match s.pc with
      | .waiting name =>
          if s.dnsDone then some { s with pc := .unlocked name s.dnsErr.isNone } else some s
      | _ => none
  | .interrupt =>
      match s.pc with
      | .waiting name => some (s.answer name (.error .tryAgain))
      | _ => none
  | .read =>
      match s.pc with
      | .unlocked name true => some (s.answer name (.ok s.dnsAddr))
      | .unlocked name false => some (s.answer name (.error .hostNotFound))
      | _ => none
  | .complete i ipaddr =>
      match s.lookups[i]? with
      | some name =>
          some { s.sbDnsCb ipaddr with
            lookups := s.lookups.eraseIdx i
            reported := (ipaddr.toList.map fun addr => (name, addr)) ++ s.reported }
      | none => none
  | .close =>
      match s.pc with
      | .idle => some { s with pc := .closed }
      | _ => none

def start : DnsOpener ν where
  dnsDone := false
  dnsErr := none
  dnsAddr := 0
  pc := .idle
  lookups := []
  reported := []
  returned := []
  strayWrites := 0

def system (ν : Type) : TransitionSystem (DnsOpener ν) (Label ν) where
  init s := s = start
  next := next

def patient (s : DnsOpener ν) : Label ν → Prop
  | .interrupt => s.lookups = []
  | _ => True

instance [DecidableEq ν] (s : DnsOpener ν) (l : Label ν) : Decidable (s.patient l) := by
  unfold patient
  split <;> infer_instance

/-! ### The question that is answered -/

def Answered (s : DnsOpener ν) (name : ν) : Prop :=
  (name, s.dnsAddr) ∈ s.reported

def Fits (s : DnsOpener ν) : QueryPc ν → Prop
  | .idle | .closed => s.lookups = []
  | .waiting name =>
      s.dnsDone = false ∧ s.lookups = [name] ∨
        s.dnsDone = true ∧ s.lookups = [] ∧ (s.dnsErr = none → s.Answered name)
  | .unlocked name ok => s.lookups = [] ∧ (ok = true → s.Answered name)

structure Inv (s : DnsOpener ν) : Prop where
  fits : s.Fits s.pc
  returned : ∀ name addr, (name, .ok addr) ∈ s.returned → (name, addr) ∈ s.reported
  stray : s.strayWrites = 0

theorem Inv.fitsAt {pc : QueryPc ν} (h : s.Inv) (hpc : s.pc = pc) :
  s.Fits pc
  := by
  rw [← hpc]
  apply h.fits

theorem Inv.answer
    {result : Except HErrno UInt32} (h : s.Inv) (hlookups : s.lookups = [])
    (hresult : ∀ addr, result = .ok addr → (name, addr) ∈ s.reported) :
  (s.answer name result).Inv
  := by
  constructor
  · apply hlookups
  · intro name' addr hmem
    rcases mem_cons.mp hmem with heq | hold
    · cases heq
      apply hresult addr rfl
    · apply h.returned name' addr hold
  · apply h.stray

theorem Inv.query {r : DnsResult} (h : s.Inv) (hpc : s.pc = .idle) :
  (s.sbDnsQuery name r).Inv
  := by
  have hlookups : s.lookups = [] := h.fitsAt hpc
  cases r with
  | ok addr =>
    constructor
    · exact ⟨hlookups, fun _ => mem_cons_self⟩
    · intro name' addr' hmem
      apply mem_cons_of_mem _ (h.returned name' addr' hmem)
    · apply h.stray
  | inProgress =>
    refine ⟨.inl ⟨rfl, ?_⟩, h.returned, h.stray⟩
    change s.lookups ++ [name] = [name]
    rw [hlookups]
    rfl
  | failed => exact ⟨⟨hlookups, nofun⟩, h.returned, h.stray⟩

theorem Inv.complete
    {i : ℕ} (h : s.Inv) (ipaddr : Option UInt32) (hname : s.lookups[i]? = some name) :
  ({ s.sbDnsCb ipaddr with
    lookups := s.lookups.eraseIdx i
    reported := (ipaddr.toList.map fun addr => (name, addr)) ++ s.reported }).Inv
  := by
  have hne : s.lookups ≠ [] := by
    intro hnil
    rw [hnil] at hname
    contradiction
  have hwaiting : s.pc = .waiting name ∧ s.lookups.eraseIdx i = [] := by
    have hfits := h.fits
    cases hpc : s.pc with
    | waiting name' =>
      rw [hpc] at hfits
      rcases hfits with ⟨-, hlookups⟩ | ⟨-, hlookups, -⟩
      · rw [hlookups] at hname ⊢
        cases i with
        | zero =>
          cases hname
          exact ⟨rfl, rfl⟩
        | succ i => contradiction
      · exact absurd hlookups hne
    | unlocked name' ok =>
      rw [hpc] at hfits
      exact absurd hfits.1 hne
    | _ =>
      rw [hpc] at hfits
      exact absurd hfits hne
  obtain ⟨hpc, hlookups⟩ := hwaiting
  cases ipaddr with
  | some addr =>
    constructor
    · change Fits _ s.pc
      rw [hpc]
      exact .inr ⟨rfl, hlookups, fun _ => mem_cons_self⟩
    · intro name' addr' hmem
      apply mem_cons_of_mem _ (h.returned name' addr' hmem)
    · simp only [sbDnsCb, hpc]
      apply h.stray
  | none =>
    constructor
    · change Fits _ s.pc
      rw [hpc]
      exact .inr ⟨rfl, hlookups, nofun⟩
    · apply h.returned
    · simp only [sbDnsCb, hpc]
      apply h.stray

theorem Inv.step {l : Label ν} (h : s.Inv) (hpatient : s.patient l) (hnext : s.next l = some s') :
  s'.Inv
  := by
  cases l with
  | query name r =>
    simp only [next] at hnext
    split at hnext
    · rename_i hpc
      cases hnext
      apply h.query hpc
    · contradiction
  | wake =>
    simp only [next] at hnext
    split at hnext
    · rename_i name hpc
      split at hnext
      · rename_i hdone
        cases hnext
        rcases h.fitsAt hpc with ⟨hnot, -⟩ | ⟨-, hlookups, hanswered⟩
        · cases hnot.symm.trans hdone
        · refine ⟨⟨hlookups, fun hok => ?_⟩, h.returned, h.stray⟩
          apply hanswered (Option.isNone_iff_eq_none.mp hok)
      · cases hnext
        apply h
    · contradiction
  | interrupt =>
    simp only [next] at hnext
    split at hnext
    · cases hnext
      exact h.answer hpatient nofun
    · contradiction
  | read =>
    simp only [next] at hnext
    split at hnext
    · rename_i name hpc
      cases hnext
      obtain ⟨hlookups, hanswered⟩ := h.fitsAt hpc
      apply h.answer hlookups
      rintro addr ⟨⟩
      apply hanswered rfl
    · rename_i name hpc
      cases hnext
      exact h.answer (h.fitsAt hpc).1 nofun
    · contradiction
  | complete i ipaddr =>
    simp only [next] at hnext
    split at hnext
    · rename_i name hname
      cases hnext
      apply h.complete ipaddr hname
    · contradiction
  | close =>
    simp only [next] at hnext
    split at hnext
    · rename_i hpc
      cases hnext
      have hlookups : s.lookups = [] := h.fitsAt hpc
      exact ⟨hlookups, h.returned, h.stray⟩
    · contradiction

/-- In every run of patient waits a query that succeeds returns an address that lwIP reported for its
name, and no callback writes to a base that is closed. -/
theorem answers_question (h : (system ν).Reach patient s) :
  (∀ name addr, (name, .ok addr) ∈ s.returned → (name, addr) ∈ s.reported) ∧ s.strayWrites = 0
  := by
  have hinv : s.Inv := by
    apply h.invariant
    · rintro s rfl
      exact ⟨rfl, nofun, rfl⟩
    · intro s l s' hs hpatient hnext
      apply hs.step hpatient hnext
  exact ⟨hinv.returned, hinv.stray⟩

def patientRun : List (Label Bool) :=
  [.query true .inProgress, .wake, .complete 0 (some 10), .interrupt, .query true (.ok 10), .read,
    .query false .inProgress, .complete 0 (some 20), .wake, .read, .close]

theorem patientRun_enabled :
  ((system Bool).exec start patientRun).isSome = true
  := by
  decide

def patientEnd : DnsOpener Bool :=
  (system Bool).last start patientRun patientRun_enabled

theorem answers_question_patient :
  (false, .ok 20) ∈ patientEnd.returned ∧ (false, 20) ∈ patientEnd.reported ∧
    patientEnd.strayWrites = 0
  := by
  have hreach : (system Bool).Reach patient patientEnd :=
    reach_last rfl (by decide)
  have hmem : (false, .ok 20) ∈ patientEnd.returned := mem_cons_self
  obtain ⟨hreturned, hstray⟩ := answers_question hreach
  exact ⟨hmem, hreturned false 20 hmem, hstray⟩

def mixedRun : List (Label Bool) :=
  [.query true .inProgress, .interrupt, .query false .inProgress, .complete 0 (some 10), .wake, .read]

def lateRun : List (Label Bool) :=
  [.query true .inProgress, .interrupt, .close, .complete 0 (some 10)]

theorem mixedRun_enabled :
  ((system Bool).exec start mixedRun).isSome = true
  := by
  decide

theorem lateRun_enabled :
  ((system Bool).exec start lateRun).isSome = true
  := by
  decide

def mixedEnd : DnsOpener Bool :=
  (system Bool).last start mixedRun mixedRun_enabled

def lateEnd : DnsOpener Bool :=
  (system Bool).last start lateRun lateRun_enabled

/-- The second query returns the address of the first name, and the callback writes to a closed base. -/
theorem abandoned_lookup_strikes :
  (system Bool).Reachable mixedEnd ∧ (false, .ok 10) ∈ mixedEnd.returned ∧
    (false, 10) ∉ mixedEnd.reported ∧ (system Bool).Reachable lateEnd ∧ lateEnd.strayWrites = 1
  := by
  refine ⟨reachable_last rfl, mem_cons_self, ?_,
    reachable_last rfl, ?_⟩
  · decide
  · decide

end DnsOpener
