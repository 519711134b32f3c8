import Mathlib.Data.List.TakeWhile
import Mathlib.Tactic

/-!
# Network numbers

`sb_cfg_parse_netnum` reads a network number of `/etc/networks`: one to four decimal numbers with dots
between them.
-/

open List

namespace Netnum

def isDigit (c : UInt8) : Bool :=
  decide (48 ≤ c.toNat) && decide (c.toNat ≤ 57)

def dot : UInt8 := 46

def addDigit (octet : ℕ) (c : UInt8) : ℕ :=
  octet * 10 + (c.toNat - 48)

def pack (net : UInt32) (octet : ℕ) : UInt32 :=
  (net <<< 8) ||| UInt32.ofNat octet

/-- `sb_cfg_parse_netnum` from a place of the string on.  At the head of the outer loop there is no
octet; in the loop over the digits there is the one of the digits read. -/
def parse (net : UInt32) (parts : ℕ) : Option ℕ → List UInt8 → Option UInt32
  | none, [] => if parts = 0 then none else some net
  | none, c :: s => if isDigit c then parse net parts (some (addDigit 0 c)) s else none
  | some octet, [] => if parts + 1 > 4 then none else some (pack net octet)
  | some octet, c :: s =>
      if isDigit c then
        if addDigit octet c > 255 then none else parse net parts (some (addDigit octet c)) s
      else if parts + 1 > 4 then none
      else if c = dot then parse (pack net octet) (parts + 1) none s
      else none

def sbCfgParseNetnum (s : List UInt8) : Option UInt32 :=
  parse 0 0 none s

/-! ### Network numbers -/

def value (octet : ℕ) (p : List UInt8) : ℕ :=
  p.foldl addDigit octet

structure IsPart (p : List UInt8) : Prop where
  nonempty : p ≠ []
  digits : ∀ c ∈ p, isDigit c = true
  bound : value 0 p ≤ 255

def joined : List (List UInt8) → List UInt8
  | [] => []
  | [p] => p
  | p :: ps => p ++ dot :: joined ps

structure IsNetnum (ps : List (List UInt8)) (s : List UInt8) : Prop where
  parts : ∀ p ∈ ps, IsPart p
  nonempty : ps ≠ []
  bound : ps.length ≤ 4
  joined : s = joined ps

def packed (net : UInt32) (ps : List (List UInt8)) : UInt32 :=
  ps.foldl (fun net p => pack net (value 0 p)) net

/-! ### The digits of a part -/

variable {net n : UInt32} {parts octet : ℕ} {p s : List UInt8} {ps : List (List UInt8)}

theorem le_value (octet : ℕ) (p : List UInt8) :
  octet ≤ value octet p
  := by
  induction p generalizing octet with
  | nil => apply le_rfl
  | cons c p ih =>
    have hdigit : octet ≤ addDigit octet c := by
      unfold addDigit
      omega
    apply hdigit.trans (ih _)

theorem parse_digits (hp : ∀ c ∈ p, isDigit c = true) (hoctet : octet ≤ 255) :
  parse net parts (some octet) (p ++ s) =
    if value octet p ≤ 255 then parse net parts (some (value octet p)) s else none
  := by
  induction p generalizing octet with
  | nil =>
    rw [nil_append, value, foldl_nil, if_pos hoctet]
  | cons c p ih =>
    have hc : isDigit c = true := hp c mem_cons_self
    rw [cons_append, parse, if_pos hc]
    by_cases hlarge : addDigit octet c > 255
    · -- A number that is too large stays so.
      have hle := le_value (addDigit octet c) p
      rw [if_pos hlarge, if_neg]
      change ¬ value (addDigit octet c) p ≤ 255
      omega
    · rw [if_neg hlarge]
      apply ih (fun c hc => hp c (mem_cons_of_mem _ hc)) (Nat.le_of_not_lt hlarge)

theorem parse_part (hp : p ≠ []) (hdigits : ∀ c ∈ p, isDigit c = true) :
  parse net parts none (p ++ s) =
    if value 0 p ≤ 255 then parse net parts (some (value 0 p)) s else none
  := by
  cases p with
  | nil => contradiction
  | cons c p =>
    have hc : isDigit c = true := hdigits c mem_cons_self
    have hsmall : addDigit 0 c ≤ 255 := by
      simp only [isDigit, Bool.and_eq_true, decide_eq_true_eq] at hc
      unfold addDigit
      omega
    rw [cons_append, parse, if_pos hc]
    apply parse_digits (fun c hc => hdigits c (mem_cons_of_mem _ hc)) hsmall

/-! ### What is accepted -/

theorem joined_cons (hps : ps ≠ []) (p : List UInt8) :
  joined (p :: ps) = p ++ dot :: joined ps
  := by
  cases ps with
  | nil => contradiction
  | cons q ps => rfl

theorem isDigit_dot :
  isDigit dot = false
  := by
  decide

theorem parse_joined
    (hps : ∀ p ∈ ps, IsPart p) (hne : ps ≠ []) (hbound : parts + ps.length ≤ 4) :
  parse net parts none (joined ps) = some (packed net ps)
  := by
  induction ps generalizing net parts with
  | nil => contradiction
  | cons p ps ih =>
    have hpart : IsPart p := hps p mem_cons_self
    rw [length_cons] at hbound
    by_cases hlast : ps = []
    · subst hlast
      have hend : parse net parts none (p ++ []) = _ := parse_part hpart.nonempty hpart.digits
      rw [append_nil, if_pos hpart.bound] at hend
      change parse net parts none p = _
      rw [hend, parse, if_neg (by omega)]
      rfl
    · rw [joined_cons hlast, parse_part hpart.nonempty hpart.digits, if_pos hpart.bound, parse,
        isDigit_dot, if_neg Bool.false_ne_true, if_neg (by omega), if_pos rfl]
      apply ih (fun q hq => hps q (mem_cons_of_mem _ hq)) hlast (by omega)

theorem parse_sound (s : List UInt8) (net : UInt32) (parts : ℕ)
    (h : parse net parts none s = some n) :
  (s = [] ∧ parts ≠ 0 ∧ n = net) ∨
    ∃ ps, (∀ p ∈ ps, IsPart p) ∧ ps ≠ [] ∧ parts + ps.length ≤ 4 ∧ n = packed net ps ∧
      (s = joined ps ∨ s = joined ps ++ [dot])
  := by
  -- The digits at the head of the string are its first part.
  have hsplit := takeWhile_append_dropWhile (p := isDigit) (l := s)
  have hdigits : ∀ c ∈ s.takeWhile isDigit, isDigit c = true := fun c hc =>
    mem_takeWhile_imp hc
  by_cases hnil : s.takeWhile isDigit = []
  · left
    cases s with
    | nil =>
      rw [parse] at h
      split at h
      · cases h
      · rename_i hparts
        exact ⟨rfl, hparts, (Option.some.inj h).symm⟩
    | cons c s =>
      rw [parse] at h
      split at h
      · rename_i hc
        rw [takeWhile_cons_of_pos hc] at hnil
        contradiction
      · contradiction
  · right
    rw [← hsplit, parse_part hnil hdigits] at h
    split at h
    · rename_i hbound
      have hpart : IsPart (s.takeWhile isDigit) := ⟨hnil, hdigits, hbound⟩
      cases hrest : s.dropWhile isDigit with
      | nil =>
        rw [hrest, append_nil] at hsplit
        rw [hrest, parse] at h
        split at h
        · contradiction
        · rename_i hparts
          refine ⟨[s.takeWhile isDigit], ?_, cons_ne_nil _ _, ?_, ?_, .inl hsplit.symm⟩
          · rintro p hp
            rw [mem_singleton] at hp
            rw [hp]
            apply hpart
          · rw [length_singleton]
            omega
          · apply (Option.some.inj h).symm
      | cons c t =>
        have hc : isDigit c = false := by
          have hne : s.dropWhile isDigit ≠ [] := by
            rw [hrest]
            apply cons_ne_nil
          have hhead := head_dropWhile_not isDigit hne
          simpa only [hrest, head_cons] using hhead
        rw [hrest] at hsplit
        rw [hrest, parse, hc, if_neg Bool.false_ne_true] at h
        split at h
        · contradiction
        · rename_i hparts
          split at h
          · rename_i hdot
            subst hdot
            have hlt : t.length < s.length := by
              rw [← hsplit, length_append, length_cons]
              omega
            rcases parse_sound t _ _ h with ⟨rfl, -, rfl⟩ | ⟨ps, hps, hne, hlen, hn, ht⟩
            · -- The dot is the end of the string.
              refine ⟨[s.takeWhile isDigit], ?_, cons_ne_nil _ _, ?_, rfl, .inr hsplit.symm⟩
              · rintro p hp
                rw [mem_singleton] at hp
                rw [hp]
                apply hpart
              · rw [length_singleton]
                omega
            · refine ⟨s.takeWhile isDigit :: ps, ?_, cons_ne_nil _ _, ?_, hn, ?_⟩
              · rintro p hp
                rcases mem_cons.mp hp with rfl | hp
                · apply hpart
                · apply hps p hp
              · rw [length_cons]
                omega
              · rw [joined_cons hne]
                rcases ht with ht | ht
                · left
                  rw [← ht, hsplit]
                · right
                  rw [append_assoc, cons_append, ← ht, hsplit]
          · contradiction
    · contradiction
termination_by s.length

end Netnum
