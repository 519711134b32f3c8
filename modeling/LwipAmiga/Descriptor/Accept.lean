import LwipAmiga.Descriptor.World

/-!
# Accepting a connection

`bsd_accept` takes the first connection off the queue of the listener before it looks for a free
descriptor.
-/

open Option

namespace World

variable {β κ : Type} [DecidableEq β] [DecidableEq κ] {w w' last : World β κ} {b : β} {fd : ℤ}
  {fut : List (Option Errno × World β κ)} {res : Except Errno ℤ}

inductive Accepts (b : β) (fd : ℤ) :
    List (Option Errno × World β κ) → World β κ → World β κ → World β κ → Except Errno ℤ → Prop where
  | returns {w w' : World β κ} {res : Except Errno ℤ} (h : w.bsdAccept b fd = some (w', res)) :
      Accepts b fd [] w w w' res
  | interrupted {w w₁ : World β κ} (e : Errno) (h : w.bsdAccept b fd = none) :
      Accepts b fd [(some e, w₁)] w w₁ w₁ (.error e)
  | again {w w₁ last w' : World β κ} {fut : List (Option Errno × World β κ)} {res : Except Errno ℤ}
      (h : w.bsdAccept b fd = none) (hrest : Accepts b fd fut w₁ last w' res) :
      Accepts b fd ((none, w₁) :: fut) w last w' res

def AcceptReady (w : World β κ) (b : β) (fd : ℤ) : Prop :=
  ∃ l s, sbFdGet (w.fds b) fd = some l ∧ w.socks l = some s ∧ s.naccept ≠ 0

omit [DecidableEq κ] in
theorem sbFdAlloc_isSome
    {k : κ} {tab : List (Option κ)} (h : none ∈ tab) :
  (sbFdAlloc k tab).isSome = true
  := by
  induction tab with
  | nil => cases h
  | cons x tab ih =>
    cases x with
    | none => rfl
    | some x =>
      rw [sbFdAlloc, isSome_map]
      exact ih (by simpa using h)

def fullRun : List (Label Unit ℕ) :=
  [.libOpen (), .socket () 2 1 0 (some 0) true, .listen () 0 5 true] ++
    List.replicate 63 (.dup2 () 0 (-1)) ++
    [.incoming 0 { tcpNew TCP_SND_BUF with state := .established } (some 1)]

theorem fullRun_enabled :
  ((system Unit ℕ).exec start fullRun).isSome = true
  := by
  decide

def full : World Unit ℕ :=
  (system Unit ℕ).last start fullRun fullRun_enabled

theorem reachable_full :
  (system Unit ℕ).Reachable full
  := TransitionSystem.reachable_last rfl

def acceptqAt (w : World Unit ℕ) (k : ℕ) : Option (List ℕ) :=
  (w.socks k).map SbSocket.acceptq

def idleRun : List (Label Unit ℕ) :=
  [.libOpen (), .socket () 2 1 0 (some 0) true, .listen () 0 5 true,
    .other 0 fun s => s.setNonblock true]

theorem idleRun_enabled :
  ((system Unit ℕ).exec start idleRun).isSome = true
  := by
  decide

end World
