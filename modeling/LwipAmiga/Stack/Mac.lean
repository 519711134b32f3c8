import LwipAmiga.Stack.IfFile

/-!
# Hardware addresses in interface files

`mac` leaves each group to `strtoul`, which skips blanks and takes a sign and a leading `0x`.
-/

open List

namespace MacSyntax

def isHex (c : UInt8) : Bool :=
  (hexDigit c).isSome

def hexValue (g : List UInt8) : ℕ :=
  g.foldl (fun n c => 16 * n + (hexDigit c).getD 0) 0

/-- `strtoul` takes a sign. -/
def skipSign : List UInt8 → Bool × List UInt8
  | [] => (false, [])
  | c :: s => if c = 43 then (false, s) else if c = 45 then (true, s) else (false, c :: s)

/-- `strtoul` to base 16 takes a `0x` before a digit. -/
def skip0x : List UInt8 → List UInt8
  | c :: x :: d :: s =>
      if c = 48 ∧ (x = 120 ∨ x = 88) ∧ isHex d = true then d :: s else c :: x :: d :: s
  | s => s

/-- `strtoul` to base 16: the number of characters used, none without a digit, and the number. -/
def strtoul (s : List UInt8) : ℕ × UInt32 :=
  let signed := skipSign (s.dropWhile isspace)
  let body := skip0x signed.2
  let digits := body.takeWhile isHex
  if digits = [] then (0, 0)
  else
    (s.length - (body.length - digits.length),
      if 2 ^ 32 ≤ hexValue digits then 0xFFFFFFFF
      else if signed.1 then -UInt32.ofNat (hexValue digits)
      else UInt32.ofNat (hexValue digits))

/-! ### Hardware addresses -/

structure IsGroup (g : List UInt8) : Prop where
  nonempty : g ≠ []
  bound : g.length ≤ 2
  digits : ∀ c ∈ g, isHex c = true

def isSeparator (c : UInt8) : Bool :=
  c == 58 || c == 45

inductive IsMac : ℕ → List UInt8 → List UInt8 → Prop
  | last {g} (hg : IsGroup g) : IsMac 1 g [UInt8.ofNat (hexValue g)]
  | more {n g c s m} (hg : IsGroup g) (hc : isSeparator c = true) (hs : IsMac n s m) :
      IsMac (n + 1) (g ++ c :: s) (UInt8.ofNat (hexValue g) :: m)

def skipped (c : UInt8) : Bool :=
  isspace c || c == 43 || c == 45

def plain : Bool → List UInt8 → Bool
  | _, [] => true
  | start, c :: s => !(start && skipped c) && plain (isSeparator c) s

variable {s t g m : List UInt8} {c : UInt8} {start : Bool}

/-! ### Numbers -/

theorem isHex_of_isSeparator (h : isSeparator c = true) :
  isHex c = false
  := by
  simp only [isSeparator, Bool.or_eq_true, beq_iff_eq] at h
  obtain rfl | rfl := h
  · decide
  · decide

theorem dropWhile_group (hg : ∀ c ∈ g, isHex c = true) (hc : isHex c = false) :
  (g ++ c :: s).dropWhile isHex = c :: s
  := by
  rw [dropWhile_append_of_pos hg, dropWhile_cons_of_neg (by simp [hc])]

theorem takeWhile_group (hg : ∀ c ∈ g, isHex c = true) (hc : isHex c = false) :
  (g ++ c :: s).takeWhile isHex = g
  := by
  rw [takeWhile_append_of_pos hg, takeWhile_cons_of_neg (by simp [hc]), append_nil]

theorem hexDigit_lt (c : UInt8) :
  (hexDigit c).getD 0 < 16
  := by
  unfold hexDigit
  split_ifs with hdigit hletter
  · have hle : c.toNat ≤ 57 := hdigit.2
    simp only [Option.getD_some]
    omega
  · have hle : (upperByte c).toNat ≤ 70 := hletter.2
    simp only [Option.getD_some]
    omega
  · decide

theorem IsGroup.value_lt (hg : IsGroup g) :
  hexValue g < 256
  := by
  match g, hg.nonempty, hg.bound with
  | [a], _, _ =>
    have ha := hexDigit_lt a
    simp only [hexValue, foldl]
    omega
  | [a, b], _, _ =>
    have ha := hexDigit_lt a
    have hb := hexDigit_lt b
    simp only [hexValue, foldl]
    omega

theorem strtoul_of_plain (h : plain true s = true) :
  (strtoul s).1 = (s.takeWhile isHex).length ∧
      (hexValue (s.takeWhile isHex) < 256 →
        (strtoul s).2 = UInt32.ofNat (hexValue (s.takeWhile isHex))) ∨
    2 < (strtoul s).1 ∧ ∃ x, isHex x = false ∧ isSeparator x = false ∧ x ≠ 0 ∧
      ∃ t, s = 48 :: x :: t
  := by
  have hsigned : skipSign (s.dropWhile isspace) = (false, s) := by
    cases s with
    | nil => rfl
    | cons c s =>
      simp only [plain, skipped, Bool.true_and, Bool.and_eq_true, Bool.not_eq_true',
        Bool.or_eq_false_iff, beq_eq_false_iff_ne] at h
      obtain ⟨⟨⟨hspace, hplus⟩, hminus⟩, -⟩ := h
      rw [dropWhile_cons_of_neg (by simp [hspace]), skipSign, if_neg hplus, if_neg hminus]
  have hdigits : ∀ body, skip0x s = body → (strtoul s).1 =
      if body.takeWhile isHex = [] then 0
      else s.length - (body.length - (body.takeWhile isHex).length) := by
    rintro _ rfl
    simp only [strtoul, hsigned]
    split_ifs <;> rfl
  by_cases hbody : skip0x s = s
  · left
    have hlen := ( takeWhile_prefix isHex (l := s)).length_le
    constructor
    · rw [hdigits s hbody]
      split_ifs with hnil
      · rw [hnil]
        rfl
      · omega
    · intro hlt
      simp only [strtoul, hsigned, hbody, Bool.false_eq_true, if_false]
      split_ifs with hnil hbig
      · rw [hnil]
        rfl
      · omega
      · rfl
  · right
    match s, hbody, hdigits with
    | c :: x :: d :: t, hbody, hdigits =>
      rw [skip0x] at hbody
      split_ifs at hbody with hpre
      · obtain ⟨rfl, hx, hd⟩ := hpre
        constructor
        · have hlen := ( takeWhile_prefix isHex (l := t)).length_le
          rw [hdigits (d :: t) (by rw [skip0x, if_pos ⟨rfl, hx, hd⟩]),
            takeWhile_cons_of_pos hd, if_neg (cons_ne_nil _ _)]
          simp only [length_cons]
          omega
        · refine ⟨x, ?_, ?_, ?_, d :: t, rfl⟩
          all_goals
            obtain rfl | rfl := hx
            · decide
            · decide
      · contradiction
    | [], hbody, _ | [_], hbody, _ | [_, _], hbody, _ => contradiction

/-! ### What is accepted -/

variable {dos : DosLib}

theorem plain_of_append (h : plain start (g ++ c :: s) = true) (hc : isSeparator c = true) :
  plain true s = true
  := by
  induction g generalizing start with
  | nil =>
    simp only [nil_append, plain, hc, Bool.and_eq_true] at h
    apply h.2
  | cons d g ih =>
    simp only [cons_append, plain, Bool.and_eq_true] at h
    apply ih h.2

theorem isGroup_takeWhile :
  IsGroup (s.takeWhile isHex) ↔
    ¬ ((s.takeWhile isHex).length < 1 ∨ 2 < (s.takeWhile isHex).length)
  := by
  rw [not_or, not_lt, not_lt]
  constructor
  · intro hg
    exact ⟨length_pos_iff.mpr hg.nonempty, hg.bound⟩
  · rintro ⟨hpos, hle⟩
    exact ⟨length_pos_iff.mp hpos, hle, fun c hc => mem_takeWhile_imp hc⟩

theorem drop_takeWhile (s : List UInt8) :
  s.drop (s.takeWhile isHex).length = s.dropWhile isHex
  := by
  have hdrop : (s.takeWhile isHex ++ s.dropWhile isHex).drop _ = _ := drop_left
  rw [takeWhile_append_dropWhile] at hdrop
  apply hdrop

theorem headD_dropWhile (hzero : 0 ∉ s) :
  (s.dropWhile isHex).headD 0 = 0 ↔ s.dropWhile isHex = []
  := by
  cases hr : s.dropWhile isHex with
  | nil => simp
  | cons c r =>
    have hc : c ∈ s := by
      apply (dropWhile_suffix isHex).mem
      rw [hr]
      apply mem_cons_self
    have hne : c ≠ 0 := fun h => hzero (h ▸ hc)
    simp [hne]

def EndsGroup (n : ℕ) (rest : List UInt8) : Prop :=
  if 0 < n then isSeparator (rest.headD 0) = true else rest = []

theorem hexOctets_succ
    (hdos : dos.strtoul = strtoul) (hplain : plain true s = true) (hzero : 0 ∉ s) (n : ℕ) :
  dos.hexOctets (n + 1) s = some m ↔
    IsGroup (s.takeWhile isHex) ∧ EndsGroup n (s.dropWhile isHex) ∧
      ∃ m', dos.hexOctets n (s.dropWhile isHex).tail = some m' ∧
        UInt8.ofNat (hexValue (s.takeWhile isHex)) :: m' = m
  := by
  have hstop : (if 0 < n then (s.dropWhile isHex).headD 0 ≠ 58 ∧ (s.dropWhile isHex).headD 0 ≠ 45
      else (s.dropWhile isHex).headD 0 ≠ 0) ↔ ¬ EndsGroup n (s.dropWhile isHex) := by
    unfold EndsGroup
    split_ifs
    · simp [isSeparator]
    · rw [ne_eq, headD_dropWhile hzero]
  rw [DosLib.hexOctets, hdos]
  obtain ⟨hused, hvalue⟩ | ⟨hused, x, hx, hsep, hne, t, rfl⟩ := strtoul_of_plain hplain
  · have hrest : s.drop (strtoul s).1 = s.dropWhile isHex := by
      rw [hused, drop_takeWhile]
    have hgroup := isGroup_takeWhile (s := s)
    rw [← hused] at hgroup
    rw [← drop_drop, hrest, drop_one]
    by_cases hg : IsGroup (s.takeWhile isHex)
    · by_cases hend : EndsGroup n (s.dropWhile isHex)
      · have hbyte : (strtoul s).2.toNat = hexValue (s.takeWhile isHex) := by
          rw [hvalue hg.value_lt, UInt32.toNat_ofNat_of_lt']
          apply hg.value_lt.trans
          decide
        rw [if_neg (hgroup.mp hg), if_neg (mt hstop.mp (not_not.mpr hend)), hbyte,
          Option.map_eq_some_iff]
        exact ⟨fun h => ⟨hg, hend, h⟩, fun h => h.2.2⟩
      · rw [if_neg (hgroup.mp hg), if_pos (hstop.mpr hend)]
        exact ⟨nofun, fun h => absurd h.2.1 hend⟩
    · rw [if_pos (not_not.mp (mt hgroup.mpr hg))]
      exact ⟨nofun, fun h => absurd h.1 hg⟩
  · -- A `0x` is not a group, and too long for `mac`.
    have hrest : (48 :: x :: t).dropWhile isHex = x :: t := by
      apply dropWhile_group (g := [48]) _ hx
      rintro c (_ | ⟨_, ⟨⟩⟩)
      rfl
    rw [if_pos (Or.inr hused), hrest, EndsGroup, headD_cons, hsep]
    simp

theorem hexOctets_iff
    (hdos : dos.strtoul = strtoul) (hplain : plain true s = true) (hzero : 0 ∉ s) (n : ℕ) :
  dos.hexOctets (n + 1) s = some m ↔ IsMac (n + 1) s m
  := by
  induction n generalizing s m with
  | zero =>
    rw [hexOctets_succ hdos hplain hzero]
    constructor
    · rintro ⟨hg, hnil, m', ⟨⟩, rfl⟩
      have hs := takeWhile_append_dropWhile (p := isHex) (l := s)
      rw [EndsGroup, if_neg (lt_irrefl 0)] at hnil
      rw [hnil, append_nil] at hs
      rw [hs] at hg ⊢
      apply IsMac.last hg
    · rintro (hg | ⟨-, -, ⟨⟩⟩)
      rw [takeWhile_eq_self_iff.mpr hg.digits, dropWhile_eq_nil_iff.mpr hg.digits]
      exact ⟨hg, rfl, [], rfl, rfl⟩
  | succ n ih =>
    rw [hexOctets_succ hdos hplain hzero]
    constructor
    · rintro ⟨hg, hsep, m', hm', rfl⟩
      have hs := takeWhile_append_dropWhile (p := isHex) (l := s)
      rw [EndsGroup, if_pos n.succ_pos] at hsep
      cases hr : s.dropWhile isHex with
      | nil =>
        rw [hr] at hsep
        contradiction
      | cons c r =>
        rw [hr] at hsep hm' hs
        rw [← hs] at hplain hzero
        nth_rewrite 1 [← hs]
        apply IsMac.more hg hsep
        rw [← ih (plain_of_append hplain hsep) (fun h => hzero (by simp [h]))]
        apply hm'
    · rintro (- | ⟨hg, hsep, hs⟩)
      have hhex := isHex_of_isSeparator hsep
      rw [takeWhile_group hg.digits hhex, dropWhile_group hg.digits hhex, EndsGroup,
        if_pos n.succ_pos]
      refine ⟨hg, hsep, _, ?_, rfl⟩
      rw [tail_cons, ih (plain_of_append hplain hsep) (fun h => hzero (by simp [h]))]
      apply hs

def cDos : DosLib :=
  { plainDos with strtoul := strtoul }

theorem IsMac.isHex_head {n : ℕ} (h : IsMac n (c :: s) m) :
  isHex c = true
  := by
  generalize hs : c :: s = t at h
  cases h with
  | last hg =>
    rw [← hs] at hg
    apply hg.digits c mem_cons_self
  | @more _ g _ _ _ hg =>
    cases g with
    | nil => apply absurd rfl hg.nonempty
    | cons d g =>
      cases hs
      apply hg.digits _ mem_cons_self

end MacSyntax
