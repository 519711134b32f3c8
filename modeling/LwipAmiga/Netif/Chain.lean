import LwipAmiga.Lib.Refs

/-!
# Frames handed to an interface

The pbuf chains lwIP hands to `linkoutput`, with their reference counts, and the choice of the frame
that is sent.
-/

open Option

structure TxChain (ι : Type) where
  id : ι
  more : ℕ
deriving DecidableEq

/-- `pbuf_clen`. -/
def TxChain.clen {ι : Type} (p : TxChain ι) : ℕ :=
  p.more + 1

section

variable {ι : Type} [DecidableEq ι]

def pbufRef (refs : ι → ℕ) (p : TxChain ι) : ι → ℕ :=
  RefCount.incr refs p.id

def pbufFree (refs : ι → ℕ) (p : TxChain ι) : ι → ℕ :=
  RefCount.decr refs p.id

/-- `pbuf_clone` into a `PBUF_RAM`: one new pbuf, when there is memory for it. -/
def pbufClone (refs : ι → ℕ) (mem : Option ι) : Option (TxChain ι × (ι → ℕ)) :=
  mem.map fun i => (⟨i, 0⟩, Function.update refs i 1)

/-- `pbuf_coalesce`: a chain of several pbufs is copied into one and freed; without memory, or with
one pbuf only, the chain is returned as it is. -/
def pbufCoalesce (refs : ι → ℕ) (p : TxChain ι) (mem : Option ι) : TxChain ι × (ι → ℕ) :=
  if p.more = 0 then (p, refs)
  else
    match pbufClone refs mem with
    | none => (p, refs)
    | some (q, refs') => (q, pbufFree refs' p)

def aliasGuard (refs : ι → ℕ) (p : TxChain ι) (mem : Option ι) : Option (TxChain ι × (ι → ℕ)) :=
  if 1 < refs p.id then pbufClone refs mem else some (p, pbufRef refs p)

inductive PbufOp (ι : Type) where
  | alloc (i : ι)
  | ref (i : ι)
  | free (i : ι)

def PbufOp.apply (refs owned : ι → ℕ) : PbufOp ι → Option ((ι → ℕ) × (ι → ℕ))
  | .alloc i =>
      if refs i = 0 then some (RefCount.incr refs i, RefCount.incr owned i) else none
  | .ref i =>
      if 0 < owned i then some (RefCount.incr refs i, RefCount.incr owned i) else none
  | .free i =>
      if 0 < owned i then some (RefCount.decr refs i, RefCount.decr owned i) else none

variable {refs refs' : ι → ℕ} {p f : TxChain ι} {mem : Option ι}

theorem PbufOp.accounts
    {owned owned' : ι → ℕ} {held : List ι} {op : PbufOp ι}
    (hop : op.apply refs owned = some (refs', owned')) (h : RefCount.Accounts refs owned held) :
  RefCount.Accounts refs' owned' held
  := by
  cases op with
  | alloc i | ref i =>
    simp only [PbufOp.apply, ite_none_right_eq_some, some.injEq, Prod.mk.injEq] at hop
    obtain ⟨-, rfl, rfl⟩ := hop
    apply h.own
  | free i =>
    simp only [PbufOp.apply, ite_none_right_eq_some, some.injEq, Prod.mk.injEq] at hop
    obtain ⟨howned, rfl, rfl⟩ := hop
    apply h.disown howned

theorem pbufFree_pbufRef (refs : ι → ℕ) (p : TxChain ι) :
  pbufFree (pbufRef refs p) p = refs
  := RefCount.decr_incr refs p.id

theorem aliasGuard_some
    (h : aliasGuard refs p mem = some (f, refs')) (hfree : ∀ i ∈ mem, refs i = 0) :
  refs' = pbufRef refs f ∧ (f = p ∨ ∃ i ∈ mem, f = ⟨i, 0⟩)
  := by
  unfold aliasGuard at h
  split at h
  next =>
    simp only [pbufClone, map_eq_some_iff, Prod.mk.injEq] at h
    obtain ⟨i, hi, rfl, rfl⟩ := h
    constructor
    · apply RefCount.incr_of_free (hfree i hi)
    · right
      use i, hi
  next =>
    cases h
    use rfl
    left
    rfl

theorem aliasGuard_isSome
    (h : mem.isSome = true) :
  (aliasGuard refs p mem).isSome = true
  := by
  unfold aliasGuard
  split
  · rwa [pbufClone, isSome_map]
  · rfl

end
