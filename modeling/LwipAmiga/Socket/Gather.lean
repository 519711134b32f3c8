import LwipAmiga.Socket.Basic
import Mathlib.Algebra.BigOperators.Group.List.Basic

/-!
# Gathering a datagram

`sb_dgram_send` makes one datagram of the buffers of a call.
-/

open List

structure SbIovec where
  iovBase : ℕ
  iovLen : UInt32

def bytesAt (mem : ℕ → UInt8) (a n : ℕ) : List UInt8 :=
  (List.range n).map fun i => mem (a + i)

@[simp]
theorem length_bytesAt (mem : ℕ → UInt8) (a n : ℕ) :
  (bytesAt mem a n).length = n
  := by
  simp [bytesAt]

inductive GatherPcb where
  | gone
  | udp (connected : Bool)
  | raw (hdrincl : Bool)
  deriving DecidableEq

structure GatherEnv where
  mem : ℕ → UInt8
  room : Option Errno
  alloc : Bool
  heap : ℕ → UInt8
  complete : Option Errno
  answer : Err

/-- `pbuf_take_at` on a packet buffer of one piece, which does nothing if the bytes do not fit. -/
def pbufTakeAt (p : List UInt8) (mem : ℕ → UInt8) (base : ℕ) (len off : UInt16) : List UInt8 :=
  if off.toNat < p.length ∧ off.toNat + len.toNat ≤ p.length then
    p.take off.toNat ++ bytesAt mem base len.toNat ++ p.drop (off.toNat + len.toNat)
  else p

def iovTotal (iov : List SbIovec) : UInt32 :=
  iov.foldl (fun total v => total + v.iovLen) 0

def takeBuffer (mem : ℕ → UInt8) (st : List UInt8 × UInt32) (v : SbIovec) : List UInt8 × UInt32 :=
  if v.iovLen ≠ 0 then
    (pbufTakeAt st.1 mem v.iovBase v.iovLen.toUInt16 st.2.toUInt16, st.2 + v.iovLen)
  else st

def dgramOutput (s : GatherPcb) (env : GatherEnv) (p : List UInt8) (total : UInt32) :
    Option (List UInt8) × Except Errno ℕ :=
  match s, env.complete with
  | .gone, _ => (none, .error .einval)
  | .raw true, some e => (none, .error e)
  | _, _ =>
      match sbMapErr env.answer with
      | none => (some p, .ok total.toNat)
      | some e => (none, .error e)

/-- `sb_dgram_send`, with or without a destination. -/
def gatherSend (s : GatherPcb) (dst : Bool) (env : GatherEnv) (iov : List SbIovec) :
    Option (List UInt8) × Except Errno ℕ :=
  let total := iovTotal iov
  if 0xFFFF < total then (none, .error .emsgsize)
  else if s = .udp false ∧ dst = false then (none, .error .edestaddrreq)
  else
    match env.room with
    | some e => (none, .error e)
    | none =>
        if env.alloc then
          let p := bytesAt env.heap 0 total.toUInt16.toNat
          dgramOutput s env (iov.foldl (takeBuffer env.mem) (p, 0)).1 total
        else (none, .error .enobufs)

/-! ### Sums that do not wrap around -/

def iovLength (iov : List SbIovec) : ℕ :=
  (iov.map fun v => v.iovLen.toNat).sum

def iovBytes (mem : ℕ → UInt8) (iov : List SbIovec) : List UInt8 :=
  iov.flatMap fun v => bytesAt mem v.iovBase v.iovLen.toNat

theorem length_iovBytes (mem : ℕ → UInt8) (iov : List SbIovec) :
  (iovBytes mem iov).length = iovLength iov
  := by
  simp [iovBytes, iovLength, length_flatMap]

theorem toNat_iovTotal
    {iov : List SbIovec} (hsum : iovLength iov < 2 ^ 32) :
  (iovTotal iov).toNat = iovLength iov
  := by
  have hfold : ∀ (iov : List SbIovec) (t : UInt32),
      (iov.foldl (fun total v => total + v.iovLen) t).toNat = (t.toNat + iovLength iov) % 2 ^ 32 := by
    intro iov
    induction iov with
    | nil =>
      intro t
      exact (Nat.mod_eq_of_lt t.toNat_lt).symm
    | cons v iov ih =>
      intro t
      rw [foldl_cons, ih, UInt32.toNat_add, Nat.mod_add_mod, Nat.add_assoc]
      rfl
  rw [iovTotal, hfold, UInt32.toNat_zero, Nat.zero_add, Nat.mod_eq_of_lt hsum]

theorem foldl_takeBuffer
    (mem : ℕ → UInt8) (iov : List SbIovec) {p : List UInt8} {off : UInt32}
    (hp : off.toNat + iovLength iov = p.length) (hmax : p.length ≤ 0xFFFF) :
  (iov.foldl (takeBuffer mem) (p, off)).1 = p.take off.toNat ++ iovBytes mem iov
  := by
  induction iov generalizing p off with
  | nil =>
    have hall : p.length ≤ off.toNat := hp.ge
    simp [iovBytes, take_of_length_le hall]
  | cons v iov ih =>
    have hcons : iovLength (v :: iov) = v.iovLen.toNat + iovLength iov := rfl
    rw [hcons] at hp
    rw [foldl_cons, takeBuffer]
    dsimp only
    split
    next hne =>
      have hpos : 0 < v.iovLen.toNat := by
        apply Nat.pos_of_ne_zero
        intro hzero
        exact hne (UInt32.toNat_inj.mp hzero)
      have hoff : off.toUInt16.toNat = off.toNat := by
        rw [UInt32.toNat_toUInt16]
        omega
      have hlen : v.iovLen.toUInt16.toNat = v.iovLen.toNat := by
        rw [UInt32.toNat_toUInt16]
        omega
      have hnext : (off + v.iovLen).toNat = off.toNat + v.iovLen.toNat := by
        rw [UInt32.toNat_add]
        omega
      have htake : (p.take off.toNat ++ bytesAt mem v.iovBase v.iovLen.toNat).length
          = (off + v.iovLen).toNat := by
        rw [length_append, length_take, length_bytesAt, hnext]
        omega
      rw [pbufTakeAt, hoff, hlen, if_pos (by omega), ih]
      · rw [take_left' htake, append_assoc]
        rfl
      · rw [length_append, htake, length_drop]
        omega
      · rw [length_append, htake, length_drop]
        omega
    next hzero =>
      have hlen : v.iovLen.toNat = 0 := by
        rw [not_not.mp hzero]
        rfl
      rw [ih (by omega) hmax]
      simp [iovBytes, bytesAt, hlen]

theorem dgramOutput_cases (s : GatherPcb) (env : GatherEnv) (p : List UInt8) (total : UInt32) :
  (∃ e, dgramOutput s env p total = (none, .error e)) ∨
    dgramOutput s env p total = (some p, .ok total.toNat)
  := by
  unfold dgramOutput
  split
  · exact .inl ⟨_, rfl⟩
  · exact .inl ⟨_, rfl⟩
  · split
    · exact .inr rfl
    · exact .inl ⟨_, rfl⟩

def openEnv : GatherEnv where
  mem _ := 0
  room := none
  alloc := true
  heap _ := 0xAA
  complete := none
  answer := .ok
