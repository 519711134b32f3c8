import Mathlib.Algebra.GroupWithZero.Nat
import Mathlib.Data.List.Basic

/-!
# Packet buffers

A pbuf has an address, the bytes it holds, and `tot_len`, the bytes in it and in the nodes after it.
-/

open List

structure Pbuf where
  addr : ℕ
  payload : List UInt8
  totLen : ℕ
  len_lt : payload.length < 65536
  deriving DecidableEq

namespace Pbuf

def len (p : Pbuf) : ℕ := p.payload.length

theorem len_le (p : Pbuf) :
  p.len ≤ 0xFFFF
  := Nat.lt_succ_iff.mp p.len_lt

def bytes (q : List Pbuf) : List UInt8 :=
  q.flatMap payload

def size (q : List Pbuf) : ℕ :=
  (q.map len).sum

@[simp]
theorem bytes_nil :
  bytes [] = []
  := rfl

@[simp]
theorem bytes_cons (p : Pbuf) (q : List Pbuf) :
  bytes (p :: q) = p.payload ++ bytes q
  := flatMap_cons

@[simp]
theorem bytes_append (q r : List Pbuf) :
  bytes (q ++ r) = bytes q ++ bytes r
  := flatMap_append

@[simp]
theorem size_nil :
  size [] = 0
  := rfl

@[simp]
theorem size_cons (p : Pbuf) (q : List Pbuf) :
  size (p :: q) = p.len + size q
  := rfl

@[simp]
theorem size_append (q r : List Pbuf) :
  size (q ++ r) = size q + size r
  := by
  simp [size]

@[simp]
theorem length_bytes (q : List Pbuf) :
  (bytes q).length = size q
  := by
  induction q with
  | nil => rfl
  | cons p q ih => simp [ih, len]

/-! ### Chains handed over by lwIP -/

def TotLens : List Pbuf → Prop
  | [] => True
  | p :: q => p.totLen = size (p :: q) ∧ TotLens q

instance decidableTotLens : ∀ q, Decidable (TotLens q)
  | [] => inferInstanceAs (Decidable True)
  | p :: q =>
      have := decidableTotLens q
      inferInstanceAs (Decidable (p.totLen = size (p :: q) ∧ TotLens q))

end Pbuf

structure PbufChain where
  bufs : List Pbuf
  ne_nil : bufs ≠ []
  totLens : Pbuf.TotLens bufs
  size_lt : Pbuf.size bufs < 65536
  nodup : (bufs.map Pbuf.addr).Nodup

namespace PbufChain

def single (addr : ℕ) (payload : List UInt8) (h : payload.length < 65536) : PbufChain where
  bufs := [{ addr, payload, totLen := payload.length, len_lt := h }]
  ne_nil := nofun
  totLens := ⟨rfl, trivial⟩
  size_lt := h
  nodup := by simp

def totLen (p : PbufChain) : ℕ := (p.bufs.head p.ne_nil).totLen

theorem totLen_eq_size (p : PbufChain) :
  p.totLen = Pbuf.size p.bufs
  := by
  obtain ⟨_ | ⟨b, q⟩, hne, htot, -, -⟩ := p
  · contradiction
  · exact htot.1

def bytes (p : PbufChain) : List UInt8 := Pbuf.bytes p.bufs

theorem length_bytes (p : PbufChain) :
  p.bytes.length = p.totLen
  := by
  rw [totLen_eq_size, bytes, Pbuf.length_bytes]

end PbufChain

namespace Pbuf

/-! ### Taking one byte out of a chain -/

def removeByte (p : Pbuf) (off : ℕ) : Pbuf where
  addr := p.addr
  payload := p.payload.eraseIdx off
  totLen := p.totLen - 1
  len_lt := Nat.lt_of_le_of_lt (List.length_eraseIdx_le ..) p.len_lt

def excise : ℕ → List Pbuf → Option (UInt8 × List Pbuf)
  | _, [] => none
  | off, h :: t =>
      if h.len ≤ off then
        (excise (off - h.len) t).map fun (b, t') => (b, { h with totLen := h.totLen - 1 } :: t')
      else
        (h.payload[off]?).map fun b => (b, h.removeByte off :: t)

theorem excise_spec
    {off : ℕ} {q : List Pbuf} (h : off < size q) :
  ∃ b q', excise off q = some (b, q') ∧ (bytes q)[off]? = some b ∧
    bytes q' = (bytes q).eraseIdx off ∧ q'.map addr = q.map addr
  := by
  induction q generalizing off with
  | nil => contradiction
  | cons p q ih =>
    by_cases hp : p.len ≤ off
    · have hlen : p.payload.length ≤ off := hp
      rw [size_cons] at h
      have hoff : off - p.len < size q := by omega
      obtain ⟨b, q', he, hb, hbytes, haddr⟩ := ih hoff
      use b, { p with totLen := p.totLen - 1 } :: q'
      refine ⟨by simp [excise, hp, he], ?_, ?_, by simp [haddr]⟩
      · rw [bytes_cons, getElem?_append_right hlen]
        exact hb
      · rw [bytes_cons, bytes_cons, eraseIdx_append_of_length_le hlen, hbytes]
        rfl
    · have hlt : off < p.payload.length := Nat.lt_of_not_le hp
      use p.payload[off], p.removeByte off :: q
      refine ⟨by simp [excise, hp, hlt], ?_, ?_, rfl⟩
      · rw [bytes_cons, getElem?_append_left hlt, getElem?_eq_getElem hlt]
      · rw [bytes_cons, bytes_cons, eraseIdx_append_of_lt_length hlt]
        rfl

/-! ### Linking a chain at the tail -/

def linkAfter (a : ℕ) (p : List Pbuf) : List Pbuf → List Pbuf
  | [] => []
  | x :: q => if x.addr = a then x :: p else x :: linkAfter a p q

theorem linkAfter_getLast
    {q : List Pbuf} {x : Pbuf} (p : List Pbuf) (hx : q.getLast? = some x)
    (hq : (q.map addr).Nodup) :
  linkAfter x.addr p q = q ++ p
  := by
  induction q with
  | nil => contradiction
  | cons y q ih =>
    cases q with
    | nil =>
      obtain rfl : y = x := by simpa using hx
      simp [linkAfter]
    | cons z q =>
      have hmem : x ∈ z :: q := mem_of_getLast? (by simpa using hx)
      have hne : y.addr ≠ x.addr := by
        rw [map_cons, nodup_cons] at hq
        intro heq
        apply hq.1
        rw [heq]
        apply mem_map_of_mem hmem
      rw [linkAfter, if_neg hne, ih (by simpa using hx) (nodup_cons.mp hq).2]
      rfl

/-! ### Splitting off a run of whole pbufs -/

def takeRun (room : ℕ) : ℕ → List Pbuf → List Pbuf × List Pbuf
  | _, [] => ([], [])
  | take, p :: q =>
      if take + p.len ≤ room ∧ take + p.len ≤ 0xFFFF then
        let (run, rest) := takeRun room (take + p.len) q
        (p :: run, rest)
      else
        ([], p :: q)

theorem takeRun_append (room take : ℕ) (q : List Pbuf) :
  (takeRun room take q).1 ++ (takeRun room take q).2 = q
  := by
  induction q generalizing take with
  | nil => rfl
  | cons p q ih =>
    by_cases h : take + p.len ≤ room ∧ take + p.len ≤ 0xFFFF
    · simp only [takeRun, if_pos h, cons_append, ih]
    · simp only [takeRun, if_neg h, nil_append]

theorem size_takeRun_le
    {room take : ℕ} (q : List Pbuf) (h : take ≤ room) :
  take + size (takeRun room take q).1 ≤ room
  := by
  induction q generalizing take with
  | nil => simpa [takeRun] using h
  | cons p q ih =>
    by_cases hp : take + p.len ≤ room ∧ take + p.len ≤ 0xFFFF
    · simp only [takeRun, if_pos hp, size_cons]
      have := ih hp.1
      omega
    · simpa [takeRun, if_neg hp] using h

theorem size_takeRun_snd_pos
    {room take : ℕ} {q : List Pbuf} (hroom : take ≤ room) (hcap : take ≤ 0xFFFF)
    (h : (takeRun room take q).2 ≠ []) :
  0 < size (takeRun room take q).2
  := by
  induction q generalizing take with
  | nil => contradiction
  | cons p q ih =>
    by_cases hp : take + p.len ≤ room ∧ take + p.len ≤ 0xFFFF
    · simp only [takeRun, if_pos hp] at h ⊢
      exact ih hp.1 hp.2 h
    · simp only [takeRun, if_neg hp, size_cons]
      omega

theorem takeRun_eq_nil
    {room : ℕ} {p : Pbuf} {q : List Pbuf} (h : (takeRun room 0 (p :: q)).1 = []) :
  room < p.len
  := by
  by_contra hle
  have hfit : 0 + p.len ≤ room ∧ 0 + p.len ≤ 0xFFFF := by
    have := p.len_le
    omega
  simp only [takeRun, if_pos hfit] at h
  contradiction

/-! ### Dropping bytes from the front of one pbuf -/

/-- `pbuf_remove_header`: the node without its first `n` bytes. -/
def removeHeader (p : Pbuf) (n : ℕ) : Pbuf where
  addr := p.addr
  payload := p.payload.drop n
  totLen := p.totLen - n
  len_lt := by
    rw [List.length_drop]
    have := p.len_lt
    omega

@[simp]
theorem len_removeHeader (p : Pbuf) (n : ℕ) :
  (p.removeHeader n).len = p.len - n
  := length_drop

end Pbuf
