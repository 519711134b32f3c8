import LwipAmiga.Lib.Newest
import LwipAmiga.Lib.Transition
import Mathlib.Algebra.Order.Ring.Int

/-!
# The graph of NetSpeed

The graph is a ring of columns, of which the newest are shown in an area of the window.
-/

open List TransitionSystem

namespace Nsp

def NSP_SCALE_MIN : ℕ := 1000

structure NspColumn where
  rx : ℕ
  tx : ℕ

structure IBox where
  left : ℤ
  top : ℤ
  width : ℤ
  height : ℤ

structure Pens where
  bg : ℕ
  rx : ℕ
  tx : ℕ
  mid : ℕ

structure NspGraph where
  ring : ℕ → NspColumn
  capacity : ℕ
  head : ℕ
  count : ℕ
  samplesPerColumn : ℕ
  accCount : ℕ
  accRx : ℕ
  accTx : ℕ
  maxSeen : ℕ
  scale : ℕ
  needsRedraw : Bool
  undrawn : ℕ
  haveArea : Bool
  area : IBox
  mid : ℤ
  halfUp : ℕ
  halfDown : ℕ
  perPixel : ℕ
  pens : Pens

/-- The pixels of the window. -/
abbrev Screen : Type :=
  ℤ → ℤ → ℕ

def rectFill (scr : Screen) (pen : ℕ) (xMin yMin xMax yMax : ℤ) : Screen :=
  fun x y => if (xMin ≤ x ∧ x ≤ xMax) ∧ yMin ≤ y ∧ y ≤ yMax then pen else scr x y

def scrollRaster (scr : Screen) (pen : ℕ) (dx xMin yMin xMax yMax : ℤ) : Screen :=
  fun x y =>
    if (xMin ≤ x ∧ x ≤ xMax) ∧ yMin ≤ y ∧ y ≤ yMax then
      if x + dx ≤ xMax then scr (x + dx) y else pen
    else scr x y

namespace NspGraph

/-! ### The ring -/

/-- `nsp_graph_reset`. -/
def reset (g : NspGraph) : NspGraph :=
  { g with
    head := 0, count := 0, accCount := 0, accRx := 0, accTx := 0, maxSeen := 0, undrawn := 0
    needsRedraw := true }

def columnSamples (secs : ℤ) : ℕ :=
  if 0 < secs then secs.toNat else 1

/-- `nsp_graph_set_column`. -/
def setColumn (g : NspGraph) (secs : ℤ) : NspGraph :=
  if columnSamples secs = g.samplesPerColumn then g
  else reset { g with samplesPerColumn := columnSamples secs }

def addColumn (g : NspGraph) (c : NspColumn) : NspGraph :=
  { g with
    ring := Function.update g.ring g.head c
    head := (g.head + 1) % g.capacity
    count := if g.count < g.capacity then g.count + 1 else g.count
    maxSeen := max (max g.maxSeen c.rx) c.tx
    undrawn := if g.undrawn < g.capacity then g.undrawn + 1 else g.undrawn }

/-- `nsp_graph_push`. -/
def push (g : NspGraph) (rx tx : ℕ) : NspGraph :=
  let accRx := g.accRx + rx
  let accTx := g.accTx + tx
  let accCount := g.accCount + 1
  if accCount < g.samplesPerColumn then { g with accRx, accTx, accCount }
  else
    addColumn { g with accRx := 0, accTx := 0, accCount := 0 }
      ⟨accRx / accCount, accTx / accCount⟩

def wanted (g : NspGraph) (linkScale : Bool) (linkBytesPerSec : ℕ) : ℕ :=
  if linkScale = true ∧ linkBytesPerSec ≠ 0 then linkBytesPerSec else max g.maxSeen NSP_SCALE_MIN

/-- `nsp_graph_set_scale`. -/
def setScale (g : NspGraph) (linkScale : Bool) (linkBytesPerSec : ℕ) : NspGraph :=
  if g.wanted linkScale linkBytesPerSec ≠ g.scale then
    { g with scale := g.wanted linkScale linkBytesPerSec, needsRedraw := true }
  else g

/-! ### Rendering -/

def right (g : NspGraph) : ℤ :=
  g.area.left + g.area.width - 1

def bottom (g : NspGraph) : ℤ :=
  g.area.top + g.area.height - 1

/-- `nsp_graph_geometry`. -/
def geometry (g : NspGraph) : NspGraph :=
  let mid := g.area.top + g.area.height / 2
  let halfUp := (mid - g.area.top).toNat
  { g with
    mid
    halfUp
    halfDown := (g.area.top + g.area.height - 1 - mid).toNat
    perPixel := max (if 0 < halfUp then g.scale / halfUp else g.scale) 1 }

def up (g : NspGraph) (c : NspColumn) : ℕ :=
  min (c.rx / g.perPixel) g.halfUp

def down (g : NspGraph) (c : NspColumn) : ℕ :=
  min (c.tx / g.perPixel) g.halfDown

/-- `nsp_graph_column`. -/
def column (g : NspGraph) (scr : Screen) (x : ℤ) (c : NspColumn) : Screen :=
  let scr' := if 0 < g.up c then rectFill scr g.pens.rx x (g.mid - g.up c) x (g.mid - 1) else scr
  if 0 < g.down c then rectFill scr' g.pens.tx x (g.mid + 1) x (g.mid + g.down c) else scr'

/-- `nsp_graph_columns` for columns that the ring was read for. -/
def columns (g : NspGraph) : Screen → ℤ → List NspColumn → Screen
  | scr, _, [] => scr
  | scr, x, c :: cs => columns g (g.column scr x c) (x - 1) cs

def newest (g : NspGraph) (n : ℕ) : List NspColumn :=
  Newest.entries g.ring g.capacity g.head n

def repaint (g : NspGraph) (scr : Screen) : Screen :=
  let scr := rectFill scr g.pens.bg g.area.left g.area.top g.right g.bottom
  let scr := rectFill scr g.pens.mid g.area.left g.mid g.right g.mid
  g.columns scr g.right (g.newest (min g.count g.area.width.toNat))

def fresh (g : NspGraph) : NspGraph :=
  { g with needsRedraw := false, undrawn := 0 }

/-- `nsp_graph_redraw`. -/
def redraw (g : NspGraph) (scr : Screen) : NspGraph × Screen :=
  if g.area.width ≤ 0 ∨ g.area.height ≤ 0 then (g.fresh, scr)
  else (g.fresh.geometry, g.fresh.geometry.repaint scr)

def scrollPixels (g : NspGraph) (scr : Screen) (n : ℕ) : Screen :=
  let scr := scrollRaster scr g.pens.bg n g.area.left g.area.top g.right g.bottom
  let scr := rectFill scr g.pens.mid (g.right - n + 1) g.mid g.right g.mid
  g.columns scr g.right (g.newest n)

/-- `nsp_graph_scroll`. -/
def scroll (g : NspGraph) (scr : Screen) (n : ℕ) : NspGraph × Screen :=
  ({ g with undrawn := 0 }, g.scrollPixels scr n)

/-- `nsp_graph_draw`: the graph, the pixels and what it returns. -/
def draw (g : NspGraph) (scr : Screen) (win locked : Bool) : (NspGraph × Screen) × Bool :=
  if !win || !g.haveArea then ((g, scr), false)
  else if !g.needsRedraw && g.undrawn = 0 then ((g, scr), true)
  else if locked then ((g, scr), false)
  else if g.needsRedraw || g.area.width.toNat ≤ g.undrawn then (g.redraw scr, true)
  else (g.scroll scr g.undrawn, true)

/-- `nsp_graph_render_hook`, with the box and the `RastPort` if there are both. -/
def renderHook (g : NspGraph) (scr : Screen) (box : Option IBox) (pens : Option Pens) :
    NspGraph × Screen :=
  match box with
  | none => (g, scr)
  | some area => redraw { g with area, pens := pens.getD g.pens, haveArea := true } scr

end NspGraph

/-! ### Runs -/

inductive GraphCall
  | push (rx tx : ℕ)
  | setScale (linkScale : Bool) (linkBytesPerSec : ℕ)
  | setColumn (secs : ℤ)
  | reset
  | renderHook (box : Option IBox) (pens : Option Pens)
  | draw (win locked : Bool)

namespace NspGraph

def next : NspGraph × Screen → GraphCall → NspGraph × Screen
  | (g, scr), .push rx tx => (g.push rx tx, scr)
  | (g, scr), .setScale linkScale linkBytesPerSec => (g.setScale linkScale linkBytesPerSec, scr)
  | (g, scr), .setColumn secs => (g.setColumn secs, scr)
  | (g, scr), .reset => (g.reset, scr)
  | (g, scr), .renderHook box pens => g.renderHook scr box pens
  | (g, scr), .draw win locked => (g.draw scr win locked).1

structure Init (g : NspGraph) : Prop where
  capacity : 0 < g.capacity
  head : g.head = 0
  count : g.count = 0
  haveArea : g.haveArea = false

def system : TransitionSystem (NspGraph × Screen) GraphCall where
  init w := w.1.Init
  next w l := some (next w l)

def Drawable (height : Bool) (w : NspGraph × Screen) : GraphCall → Prop
  | .renderHook (some area) _ =>
      0 ≤ area.width ∧ area.width ≤ w.1.capacity ∧
        (height = true → 0 < area.width → 0 < area.height)
  | _ => True

instance (height : Bool) (w : NspGraph × Screen) (l : GraphCall) : Decidable (Drawable height w l) := by
  unfold Drawable
  split <;> infer_instance

variable {g : NspGraph} {scr : Screen} {log : List NspColumn} {x y : ℤ}

/-! ### Pixels -/

def bar (g : NspGraph) (c : NspColumn) (y : ℤ) (pen : ℕ) : ℕ :=
  if g.mid - g.up c ≤ y ∧ y < g.mid then g.pens.rx
  else if g.mid < y ∧ y ≤ g.mid + g.down c then g.pens.tx
  else pen

def shown (cs : List NspColumn) (right x : ℤ) : Option NspColumn :=
  if x ≤ right then cs[(right - x).toNat]? else none

theorem fill_apply {n : ℕ} {x₀ yMin yMax : ℤ} (pen : ℕ) (h : n = 0 → yMax < yMin) :
  (if 0 < n then rectFill scr pen x₀ yMin x₀ yMax else scr) x y =
    if x = x₀ ∧ yMin ≤ y ∧ y ≤ yMax then pen else scr x y
  := by
  by_cases hn : 0 < n
  · have hx : x₀ ≤ x ∧ x ≤ x₀ ↔ x = x₀ := by omega
    simp only [if_pos hn, rectFill, hx]
  · have hempty := h (Nat.eq_zero_of_not_pos hn)
    rw [if_neg hn, if_neg]
    omega

theorem column_apply (x₀ : ℤ) (c : NspColumn) :
  g.column scr x₀ c x y = if x = x₀ then g.bar c y (scr x y) else scr x y
  := by
  unfold column bar
  rw [fill_apply _ (by omega), fill_apply _ (by omega)]
  split_ifs <;> first | rfl | omega

theorem columns_apply (cs : List NspColumn) (right : ℤ) :
  g.columns scr right cs x y =
    (shown cs right x).elim (scr x y) fun c => g.bar c y (scr x y)
  := by
  induction cs generalizing scr right with
  | nil =>
    unfold columns shown
    split <;> rfl
  | cons c cs ih =>
    rw [columns, ih, column_apply]
    obtain hx | rfl | hx := lt_trichotomy x right
    · have hindex : (right - x).toNat = (right - 1 - x).toNat + 1 := by omega
      rw [if_neg hx.ne, shown, shown, if_pos hx.le, if_pos (by omega), hindex, getElem?_cons_succ]
    · rw [if_pos rfl, shown, shown, if_neg (by omega), if_pos le_rfl, Int.sub_self]
      rfl
    · rw [if_neg hx.ne', shown, shown, if_neg (by omega), if_neg (by omega)]

def ground (g : NspGraph) (y : ℤ) : ℕ :=
  if y = g.mid then g.pens.mid else g.pens.bg

abbrev Inside (g : NspGraph) (x y : ℤ) : Prop :=
  (g.area.left ≤ x ∧ x ≤ g.right) ∧ g.area.top ≤ y ∧ y ≤ g.bottom

def picture (g : NspGraph) (cs : List NspColumn) (x y : ℤ) : ℕ :=
  (shown cs g.right x).elim (g.ground y) fun c => g.bar c y (g.ground y)

def showing (g : NspGraph) (cs : List NspColumn) (scr : Screen) : Screen :=
  fun x y => if g.Inside x y then g.picture cs x y else scr x y

structure Fits (g : NspGraph) : Prop where
  width : 0 < g.area.width
  top : g.mid - g.halfUp = g.area.top
  bottom : g.mid + g.halfDown = g.bottom

theorem fits_geometry (hwidth : 0 < g.area.width) (hheight : 0 < g.area.height) :
  g.geometry.Fits
  := by
  refine ⟨hwidth, ?_, ?_⟩
  · simp only [geometry]
    omega
  · simp only [geometry, NspGraph.bottom]
    omega

theorem Fits.bar_of_not_inside
    (h : g.Fits) (hy : ¬ (g.area.top ≤ y ∧ y ≤ g.bottom)) (c : NspColumn) (pen : ℕ) :
  g.bar c y pen = pen
  := by
  have htop := h.top
  have hbottom := h.bottom
  have hup : g.up c ≤ g.halfUp := Nat.min_le_right _ _
  have hdown : g.down c ≤ g.halfDown := Nat.min_le_right _ _
  rw [bar, if_neg (by omega), if_neg (by omega)]

theorem lt_of_shown {cs : List NspColumn} {right : ℤ} {c : NspColumn} (h : shown cs right x = some c) :
  right - cs.length < x ∧ x ≤ right
  := by
  unfold shown at h
  split at h
  · obtain ⟨hlt, -⟩ := List.getElem?_eq_some_iff.mp h
    omega
  · contradiction

theorem Fits.columns_eq
    {cs : List NspColumn} {before : Screen} (h : g.Fits) (hcs : cs.length ≤ g.area.width.toNat)
    (hin : ∀ x y, g.Inside x y →
      (shown cs g.right x).elim (scr x y) (fun c => g.bar c y (scr x y)) = g.picture log x y)
    (hout : ∀ x y, ¬ g.Inside x y → scr x y = before x y) :
  g.columns scr g.right cs = g.showing log before
  := by
  funext x y
  rw [columns_apply, showing]
  split_ifs with hinside
  · apply hin x y hinside
  · cases hc : shown cs g.right x with
    | none => apply hout x y hinside
    | some c =>
      -- The column is in the area, so the pixel is above or below it.
      have hx := lt_of_shown hc
      have hwidth := h.width
      have hright : g.right = g.area.left + g.area.width - 1 := rfl
      rw [Option.elim_some, h.bar_of_not_inside]
      · apply hout x y hinside
      · intro hy
        apply hinside ⟨⟨by omega, hx.2⟩, hy⟩

/-! ### Repaints and scrolls -/

structure Holds (g : NspGraph) (log : List NspColumn) : Prop where
  keeps : Newest.Keeps g.ring g.capacity g.head log
  count : g.count = min log.length g.capacity

theorem shown_take
    (log : List NspColumn) (n : ℕ) {right : ℤ} (h : log.length ≤ n ∨ right - n < x) :
  shown (log.take n) right x = shown log right x
  := by
  unfold shown
  split_ifs with hx
  · rw [getElem?_take]
    split_ifs with hlt
    · rfl
    · rw [getElem?_eq_none]
      omega
  · rfl

theorem Fits.repaint_eq (h : g.Fits) (hlog : g.Holds log) (hcap : g.area.width ≤ g.capacity) :
  g.repaint scr = g.showing log scr
  := by
  have hcount := hlog.count
  have htop := h.top
  have hbottom := h.bottom
  have hnewest : g.newest (min g.count g.area.width.toNat) =
      log.take (min g.count g.area.width.toNat) := by
    apply hlog.keeps.entries
    · omega
    · omega
  rw [repaint, hnewest]
  apply h.columns_eq
  · rw [length_take]
    omega
  · intro x y hinside
    have hground : rectFill (rectFill scr g.pens.bg g.area.left g.area.top g.right g.bottom) g.pens.mid
        g.area.left g.mid g.right g.mid x y = g.ground y := by
      have hmid : (g.area.left ≤ x ∧ x ≤ g.right) ∧ g.mid ≤ y ∧ y ≤ g.mid ↔ y = g.mid := by
        rw [and_iff_right hinside.1]
        omega
      simp only [rectFill, hmid, if_pos hinside, ground]
    rw [hground, shown_take, picture]
    have hleft := hinside.1.1
    have hright : g.right = g.area.left + g.area.width - 1 := rfl
    omega
  · intro x y hinside
    have hmid : ¬ ((g.area.left ≤ x ∧ x ≤ g.right) ∧ g.mid ≤ y ∧ y ≤ g.mid) := by
      intro hmid
      apply hinside ⟨hmid.1, by omega⟩
    rw [rectFill, if_neg hmid, rectFill, if_neg hinside]

theorem Fits.scrollPixels_eq
    {fresh old : List NspColumn} (h : g.Fits) (hlog : g.Holds (fresh ++ old))
    (hfresh : fresh.length < g.area.width.toNat) (hcap : g.area.width ≤ g.capacity)
    (hscr : ∀ x y, g.Inside x y → scr x y = g.picture old x y) :
  g.scrollPixels scr fresh.length = g.showing (fresh ++ old) scr
  := by
  have htop := h.top
  have hbottom := h.bottom
  have hnewest : g.newest fresh.length = fresh := by
    rw [newest, hlog.keeps.entries, take_left]
    · omega
    · rw [length_append]
      omega
  have hright : g.right = g.area.left + g.area.width - 1 := rfl
  rw [scrollPixels, hnewest]
  apply h.columns_eq
  · omega
  · intro x y hinside
    by_cases hx : x + fresh.length ≤ g.right
    · -- The pixel comes from an older column, which the midline and the new columns do not touch.
      have hnone : shown fresh g.right x = none := by
        rw [shown, if_pos hinside.1.2, getElem?_eq_none]
        omega
      have hold : shown (fresh ++ old) g.right x = shown old g.right (x + fresh.length) := by
        rw [shown, shown, if_pos hx, if_pos hinside.1.2, getElem?_append_right (by omega)]
        congr 1
        omega
      rw [hnone, Option.elim_none, rectFill, if_neg (by omega), scrollRaster, if_pos hinside, if_pos hx,
        hscr _ _ ⟨⟨by omega, hx⟩, hinside.2⟩, picture, picture, hold]
    · have hground : rectFill (scrollRaster scr g.pens.bg fresh.length g.area.left g.area.top g.right
          g.bottom) g.pens.mid (g.right - fresh.length + 1) g.mid g.right g.mid x y = g.ground y := by
        have hmid : (g.right - fresh.length + 1 ≤ x ∧ x ≤ g.right) ∧ g.mid ≤ y ∧ y ≤ g.mid ↔
            y = g.mid := by
          omega
        simp only [rectFill, hmid, scrollRaster, if_pos hinside, if_neg hx, ground]
      have hsame : shown fresh g.right x = shown (fresh ++ old) g.right x := by
        rw [← shown_take (fresh ++ old) fresh.length (by omega), take_left]
      rw [hground, hsame, picture]
  · intro x y hinside
    have hmid : ¬ ((g.right - fresh.length + 1 ≤ x ∧ x ≤ g.right) ∧ g.mid ≤ y ∧ y ≤ g.mid) := by
      intro hmid
      apply hinside ⟨by omega, by omega⟩
    rw [rectFill, if_neg hmid, scrollRaster, if_neg hinside]

/-! ### The invariant -/

def Current (g : NspGraph) : Prop :=
  g.mid = g.geometry.mid ∧ g.halfUp = g.geometry.halfUp ∧ g.halfDown = g.geometry.halfDown ∧
    g.perPixel = g.geometry.perPixel

def Shows (g : NspGraph) (scr : Screen) (log : List NspColumn) : Prop :=
  ∃ fresh old, log = fresh ++ old ∧ g.undrawn = min fresh.length g.capacity ∧
    ∀ x y, g.Inside x y → scr x y = g.picture old x y

structure Inv (g : NspGraph) (scr : Screen) (log : List NspColumn) : Prop where
  holds : g.Holds log
  area : g.haveArea = true →
    0 ≤ g.area.width ∧ g.area.width ≤ g.capacity ∧ (0 < g.area.width → 0 < g.area.height)
  drawn : g.haveArea = true → g.needsRedraw = false → 0 < g.area.width → g.Current ∧ g.Shows scr log

theorem Current.geometry_eq (h : g.Current) :
  g.geometry = g
  := by
  obtain ⟨hmid, hup, hdown, hper⟩ := h
  cases g
  simp only [geometry, mk.injEq, true_and, and_true] at hmid hup hdown hper ⊢
  exact ⟨hmid.symm, hup.symm, hdown.symm, hper.symm⟩

theorem Holds.reset (h : g.Holds log) :
  g.reset.Holds []
  := ⟨.nil (Nat.zero_lt_of_lt h.keeps.head_lt), rfl⟩

theorem Inv.reset (h : g.Inv scr log) :
  g.reset.Inv scr []
  := ⟨h.holds.reset, h.area, nofun⟩

theorem Inv.addColumn (h : g.Inv scr log) (c : NspColumn) :
  (g.addColumn c).Inv scr (c :: log)
  := by
  refine ⟨⟨h.holds.keeps.push c, ?_⟩, h.area, ?_⟩
  · have hcount := h.holds.count
    simp only [NspGraph.addColumn, length_cons]
    split <;> omega
  · intro harea hdrawn hwidth
    obtain ⟨hcurrent, fresh, old, rfl, hundrawn, hscr⟩ := h.drawn harea hdrawn hwidth
    refine ⟨hcurrent, c :: fresh, old, rfl, ?_, hscr⟩
    simp only [NspGraph.addColumn, length_cons]
    split <;> omega

theorem Inv.of_acc (h : g.Inv scr log) (samplesPerColumn accCount accRx accTx : ℕ) :
  Inv { g with samplesPerColumn, accCount, accRx, accTx } scr log
  := ⟨⟨h.holds.keeps, h.holds.count⟩, h.area, h.drawn⟩

theorem Inv.push (h : g.Inv scr log) (rx tx : ℕ) :
  ∃ log', (g.push rx tx).Inv scr log'
  := by
  simp only [NspGraph.push]
  split
  · exact ⟨log, h.of_acc _ _ _ _⟩
  · exact ⟨_, (h.of_acc _ _ _ _).addColumn _⟩

theorem Inv.setScale (h : g.Inv scr log) (linkScale : Bool) (linkBytesPerSec : ℕ) :
  (g.setScale linkScale linkBytesPerSec).Inv scr log
  := by
  unfold NspGraph.setScale
  split
  · exact ⟨⟨h.holds.keeps, h.holds.count⟩, h.area, nofun⟩
  · apply h

theorem Inv.setColumn (h : g.Inv scr log) (secs : ℤ) :
  ∃ log', (g.setColumn secs).Inv scr log'
  := by
  unfold NspGraph.setColumn
  split
  · exact ⟨log, h⟩
  · exact ⟨[], (h.of_acc _ _ _ _).reset⟩

theorem redraw_of_width (h : g.area.width ≤ 0) :
  g.redraw scr = (g.fresh, scr)
  := if_pos (Or.inl h)

theorem Holds.redraw_eq
    (hlog : g.Holds log) (hwidth : 0 < g.area.width) (hcap : g.area.width ≤ g.capacity)
    (hheight : 0 < g.area.height) (scr : Screen) :
  g.redraw scr = (g.fresh.geometry, g.fresh.geometry.showing log scr)
  := by
  have hfits : g.fresh.geometry.Fits := fits_geometry hwidth hheight
  rw [redraw, if_neg (by omega), hfits.repaint_eq ⟨hlog.keeps, hlog.count⟩ hcap]

theorem inv_redraw
    (hlog : g.Holds log) (hwidth : 0 ≤ g.area.width) (hcap : g.area.width ≤ g.capacity)
    (hheight : 0 < g.area.width → 0 < g.area.height) (scr : Screen) :
  Inv (g.redraw scr).1 (g.redraw scr).2 log
  := by
  obtain hzero | hpos := hwidth.eq_or_lt
  · rw [redraw_of_width hzero.symm.le]
    refine ⟨⟨hlog.keeps, hlog.count⟩, fun _ => ⟨hwidth, hcap, hheight⟩, fun _ _ hpos => ?_⟩
    apply absurd hzero hpos.ne
  · rw [hlog.redraw_eq hpos hcap (hheight hpos)]
    refine ⟨⟨hlog.keeps, hlog.count⟩, fun _ => ⟨hwidth, hcap, hheight⟩, fun _ _ _ => ⟨?_, ?_⟩⟩
    · exact ⟨rfl, rfl, rfl, rfl⟩
    · refine ⟨[], log, rfl, (Nat.zero_min _).symm, fun x y hinside => ?_⟩
      apply if_pos hinside

/-! ### Draws -/

theorem fresh_of_undrawn (hdrawn : g.needsRedraw = false) :
  { g with undrawn := 0 } = g.fresh
  := by
  rw [fresh, ← hdrawn]

theorem Inv.scroll_eq
    (h : g.Inv scr log) (harea : g.haveArea = true) (hdrawn : g.needsRedraw = false)
    (hfew : g.undrawn < g.area.width.toNat) :
  g.scroll scr g.undrawn = g.redraw scr
  := by
  have hpos : 0 < g.area.width := by omega
  obtain ⟨-, hcap, hheight⟩ := h.area harea
  obtain ⟨hcurrent, fresh, old, rfl, hundrawn, hscr⟩ := h.drawn harea hdrawn hpos
  have hfits : g.Fits := by
    rw [← hcurrent.geometry_eq]
    apply fits_geometry hpos (hheight hpos)
  have hlen : g.undrawn = fresh.length := by omega
  have hsame : g.fresh.geometry = g.fresh := Current.geometry_eq hcurrent
  rw [h.holds.redraw_eq hpos hcap (hheight hpos), scroll, hlen,
    hfits.scrollPixels_eq h.holds (by omega) hcap hscr, hsame, fresh_of_undrawn hdrawn]
  rfl

theorem scrollPixels_zero :
  g.scrollPixels scr 0 = scr
  := by
  funext x y
  change rectFill _ _ _ _ _ _ x y = scr x y
  rw [rectFill, if_neg (by omega), scrollRaster, Nat.cast_zero, Int.add_zero]
  split_ifs
  · rfl
  · omega
  · rfl

theorem Inv.redraw_eq_self
    (h : g.Inv scr log) (harea : g.haveArea = true) (hdrawn : g.needsRedraw = false)
    (hzero : g.undrawn = 0) :
  g.redraw scr = (g, scr)
  := by
  have hself : { g with undrawn := 0 } = g := by
    rw [← hzero]
  obtain hwidth | hpos := (h.area harea).1.eq_or_lt
  · rw [redraw_of_width hwidth.symm.le, ← fresh_of_undrawn hdrawn, hself]
  · rw [← h.scroll_eq harea hdrawn (by omega), hzero, scroll, scrollPixels_zero, hself]

theorem Inv.draw_cases (h : g.Inv scr log) (win locked : Bool) :
  g.haveArea = true ∧ g.draw scr win locked = (g.redraw scr, true) ∨
    g.draw scr win locked = ((g, scr), false)
  := by
  unfold draw
  split_ifs with hclosed hnothing hlocked hredraw
  · apply Or.inr rfl
  · simp only [Bool.or_eq_true, Bool.not_eq_true', not_or, Bool.not_eq_false, Bool.and_eq_true,
      decide_eq_true_eq] at hclosed hnothing
    refine Or.inl ⟨hclosed.2, ?_⟩
    rw [h.redraw_eq_self hclosed.2 hnothing.1 hnothing.2]
  · apply Or.inr rfl
  · simp only [Bool.or_eq_true, Bool.not_eq_true', not_or, Bool.not_eq_false] at hclosed
    apply Or.inl ⟨hclosed.2, rfl⟩
  · simp only [Bool.or_eq_true, Bool.not_eq_true', not_or, Bool.not_eq_false, decide_eq_true_eq,
      Bool.not_eq_true, not_le] at hclosed hredraw
    refine Or.inl ⟨hclosed.2, ?_⟩
    rw [h.scroll_eq hclosed.2 hredraw.1 hredraw.2]

theorem Inv.next {l : GraphCall} (h : g.Inv scr log) (hbox : Drawable true (g, scr) l) :
  ∃ log', Inv (next (g, scr) l).1 (next (g, scr) l).2 log'
  := by
  cases l with
  | push rx tx => apply h.push
  | setScale linkScale linkBytesPerSec => exact ⟨log, h.setScale _ _⟩
  | setColumn secs => apply h.setColumn
  | reset => exact ⟨[], h.reset⟩
  | renderHook box pens =>
    cases box with
    | none => exact ⟨log, h⟩
    | some area =>
      obtain ⟨hwidth, hcap, hheight⟩ := hbox
      refine ⟨log, inv_redraw ?_ hwidth hcap (hheight rfl) scr⟩
      exact ⟨h.holds.keeps, h.holds.count⟩
  | draw win locked =>
    rw [NspGraph.next]
    obtain ⟨harea, hdraw⟩ | hdraw := h.draw_cases win locked
    · obtain ⟨hwidth, hcap, hheight⟩ := h.area harea
      rw [hdraw]
      exact ⟨log, inv_redraw h.holds hwidth hcap hheight scr⟩
    · rw [hdraw]
      exact ⟨log, h⟩

theorem inv_of_reach {w : NspGraph × Screen} (h : system.Reach (Drawable true) w) :
  ∃ log, w.1.Inv w.2 log
  := by
  apply h.invariant
  · intro w hw
    refine ⟨[], ⟨?_, hw.count⟩, ?_, ?_⟩
    · rw [hw.head]
      apply Newest.Keeps.nil hw.capacity
    · intro harea
      rw [hw.haveArea] at harea
      contradiction
    · intro harea
      rw [hw.haveArea] at harea
      contradiction
  · rintro w l w' ⟨log, hw⟩ hbox ⟨⟩
    apply hw.next hbox

def blank : NspGraph where
  ring _ := ⟨0, 0⟩
  capacity := 4
  head := 0
  count := 0
  samplesPerColumn := 1
  accCount := 0
  accRx := 0
  accTx := 0
  maxSeen := 0
  scale := 0
  needsRedraw := true
  undrawn := 0
  haveArea := false
  area := ⟨0, 0, 0, 0⟩
  mid := 0
  halfUp := 0
  halfDown := 0
  perPixel := 0
  pens := ⟨0, 1, 2, 3⟩

theorem init_blank :
  system.init (blank, fun _ _ => 0)
  := ⟨by decide, rfl, rfl, rfl⟩

def oneSample (height : ℤ) : List GraphCall :=
  [.renderHook (some ⟨0, 0, 2, 4⟩) none, .renderHook (some ⟨0, 0, 2, height⟩) none, .push 5 5]

theorem oneSample_enabled (height : ℤ) :
  (system.exec (blank, fun _ _ => 0) (oneSample height)).isSome = true
  := rfl

def sampled (height : ℤ) : NspGraph × Screen :=
  system.last _ _ (oneSample_enabled height)

end NspGraph

end Nsp
