import LwipAmiga.Resolver.Reverse

/-!
# Names in packets

A name of a packet is labels up to a zero byte, with pointers to where it goes on.
-/

open List

open Bytes

def pointerTarget (pkt : List UInt8) (pos : ℕ) : ℕ :=
  (mem pkt pos).toNat % 0x40 * 0x100 + (mem pkt (pos + 1)).toNat

inductive NameAt (pkt : List UInt8) : (left pos : ℕ) → List (List UInt8) → Prop where
  | root {left pos : ℕ} (hpos : pos < pkt.length) (hzero : mem pkt pos = 0) : NameAt pkt left pos []
  | pointer {left pos : ℕ} {labels : List (List UInt8)} (hpos : pos + 1 < pkt.length)
      (hpointer : isPointer (mem pkt pos) = true)
      (hrest : NameAt pkt left (pointerTarget pkt pos) labels) : NameAt pkt (left + 1) pos labels
  | label {left pos : ℕ} {labels : List (List UInt8)}
      (hpointer : isPointer (mem pkt pos) = false) (hzero : mem pkt pos ≠ 0)
      (hlen : (mem pkt pos).toNat ≤ 63) (hpos : pos + 1 + (mem pkt pos).toNat ≤ pkt.length)
      (hrest : NameAt pkt left (pos + 1 + (mem pkt pos).toNat) labels) :
      NameAt pkt (left + 1) pos (slice pkt (pos + 1) (mem pkt pos).toNat :: labels)

def dottedFrom (out : List UInt8) : List (List UInt8) → List UInt8
  | [] => out
  | l :: labels => dottedFrom ((if out.length ≠ 0 then out ++ [46] else out) ++ l) labels

def dotted (labels : List (List UInt8)) : List UInt8 :=
  dottedFrom [] labels

def leaves (pkt : List UInt8) : (left pos : ℕ) → Bool
  | left, pos =>
      if pos < pkt.length then
        if isPointer (mem pkt pos) then
          if pos + 1 ≥ pkt.length then false
          else
            match left with
            | 0 => false
            | left + 1 => leaves pkt left (pointerTarget pkt pos)
        else if mem pkt pos = 0 then false
        else if (mem pkt pos).toNat > 63 ∨ pos + 1 + (mem pkt pos).toNat > pkt.length then false
        else
          match left with
          | 0 => false
          | left + 1 => leaves pkt left (pos + 1 + (mem pkt pos).toNat)
      else true

/-! ### The output -/

variable {pkt out out' : List UInt8} {outmax left pos : ℕ} {labels : List (List UInt8)}

theorem length_le_dottedFrom (out : List UInt8) (labels : List (List UInt8)) :
  out.length ≤ (dottedFrom out labels).length
  := by
  induction labels generalizing out with
  | nil => apply le_rfl
  | cons l labels ih =>
    rw [dottedFrom]
    refine le_trans ?_ (ih _)
    rw [length_append]
    split
    · rw [length_append]
      omega
    · omega

theorem putName_eq {bytes : List UInt8} (hfits : out.length + bytes.length < outmax) :
  putName outmax out bytes = out ++ bytes
  := by
  rw [putName, take_of_length_le]
  omega

theorem putName_label {l : List UInt8} (hfits : (dottedFrom out (l :: labels)).length < outmax) :
  putName outmax (if out.length ≠ 0 then putName outmax out [46] else out) l =
    (if out.length ≠ 0 then out ++ [46] else out) ++ l
  := by
  have hle := length_le_dottedFrom ((if out.length ≠ 0 then out ++ [46] else out) ++ l) labels
  rw [dottedFrom] at hfits
  have hlt := lt_of_le_of_lt hle hfits
  rw [length_append] at hlt
  split
  · rename_i hout
    rw [if_pos hout, length_append, length_singleton] at hlt
    have hdot : putName outmax out [46] = out ++ [46] := by
      apply putName_eq
      rw [length_singleton]
      omega
    rw [hdot]
    apply putName_eq
    rw [length_append, length_singleton]
    omega
  · rename_i hout
    rw [if_neg hout] at hlt
    apply putName_eq hlt

/-! ### The loop -/

theorem loop_of_nameAt
    (h : NameAt pkt left pos labels) (hfits : (dottedFrom out labels).length < outmax) :
  sbDnsName.loop pkt outmax left pos out = some (dottedFrom out labels)
  := by
  induction h generalizing out with
  | @root left pos hpos hzero =>
    have hpointer : isPointer (mem pkt pos) = false := by
      rw [hzero]
      decide
    unfold sbDnsName.loop
    rw [if_pos hpos]
    dsimp only
    rw [hpointer, if_neg Bool.false_ne_true, if_pos hzero]
    rfl
  | pointer hpos hpointer hrest ih =>
    unfold sbDnsName.loop
    rw [if_pos (by omega)]
    dsimp only
    rw [if_pos hpointer, if_neg (by omega)]
    apply ih hfits
  | label hpointer hzero hlen hpos hrest ih =>
    unfold sbDnsName.loop
    rw [if_pos (by omega)]
    dsimp only
    rw [hpointer, if_neg Bool.false_ne_true, if_neg hzero, if_neg (by omega), putName_label hfits]
    apply ih hfits

theorem nameAt_of_loop
    (hleaves : leaves pkt left pos = false) (h : sbDnsName.loop pkt outmax left pos out = some out') :
  ∃ labels, NameAt pkt left pos labels
  := by
  induction left generalizing pos out with
  | zero =>
    unfold sbDnsName.loop at h
    unfold leaves at hleaves
    split at h
    · rename_i hpos
      dsimp only at h
      split at h
      · split at h <;> contradiction
      · split at h
        · rename_i hzero
          exact ⟨[], .root hpos hzero⟩
        · split at h <;> contradiction
    · rename_i hpos
      rw [if_neg hpos] at hleaves
      contradiction
  | succ left ih =>
    unfold sbDnsName.loop at h
    unfold leaves at hleaves
    split at h
    · rename_i hpos
      rw [if_pos hpos] at hleaves
      dsimp only at h
      split at h
      · rename_i hpointer
        rw [if_pos hpointer] at hleaves
        split at h
        · contradiction
        · rename_i hnext
          rw [if_neg hnext] at hleaves
          obtain ⟨labels, hrest⟩ := ih hleaves h
          exact ⟨labels, .pointer (Nat.lt_of_not_le hnext) hpointer hrest⟩
      · rename_i hpointer
        rw [if_neg hpointer] at hleaves
        split at h
        · rename_i hzero
          exact ⟨[], .root hpos hzero⟩
        · rename_i hzero
          rw [if_neg hzero] at hleaves
          split at h
          · contradiction
          · rename_i hlabel
            rw [if_neg hlabel] at hleaves
            rw [not_or] at hlabel
            obtain ⟨labels, hrest⟩ := ih hleaves h
            exact ⟨_, .label (Bool.eq_false_of_not_eq_true hpointer) hzero
              (Nat.le_of_not_lt hlabel.1) (Nat.le_of_not_lt hlabel.2) hrest⟩
    · rename_i hpos
      rw [if_neg hpos] at hleaves
      contradiction

theorem leaves_of_nameAt (h : NameAt pkt left pos labels) :
  leaves pkt left pos = false
  := by
  induction h with
  | @root left pos hpos hzero =>
    have hpointer : isPointer (mem pkt pos) = false := by
      rw [hzero]
      decide
    unfold leaves
    rw [if_pos hpos, hpointer, if_neg Bool.false_ne_true, if_pos hzero]
  | pointer hpos hpointer _ ih =>
    unfold leaves
    rw [if_pos (by omega), if_pos hpointer, if_neg (by omega)]
    apply ih
  | label hpointer hzero hlen hpos _ ih =>
    unfold leaves
    rw [if_pos (by omega), hpointer, if_neg Bool.false_ne_true, if_neg hzero, if_neg (by omega)]
    apply ih

theorem dotted_ne_nil (h : NameAt pkt left pos labels) (hne : labels ≠ []) :
  (dotted labels).length ≠ 0
  := by
  induction h with
  | root => contradiction
  | pointer _ _ _ ih => apply ih hne
  | @label left pos labels hpointer hzero hlen hpos hrest ih =>
    have hle := length_le_dottedFrom (slice pkt (pos + 1) (mem pkt pos).toNat) labels
    have hlength : (slice pkt (pos + 1) (mem pkt pos).toNat).length = (mem pkt pos).toNat := by
      rw [slice, length_take, length_drop]
      omega
    have hpositive : (mem pkt pos).toNat ≠ 0 := fun heq => hzero (UInt8.toNat_inj.mp heq)
    change (dottedFrom (slice pkt (pos + 1) (mem pkt pos).toNat) labels).length ≠ 0
    omega

def pointed : List UInt8 := [1, 97, 0, 0xC0, 0]

theorem nameAt_pointed :
  NameAt pointed 128 3 [[97]]
  := by
  apply NameAt.pointer (by decide) (by decide)
  exact .label (by decide) (by decide) (by decide) (by decide) (.root (by decide) (by decide))
