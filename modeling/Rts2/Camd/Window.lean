import Mathlib.Algebra.Field.Rat
import Mathlib.Algebra.Group.Int.Defs
import Mathlib.Algebra.Order.Ring.Rat

/-! # The window of a camera

The part of the chip that is read out. `box` is asked for it by a command, by `center` and
when the value WINDOW is set; it looks only at the far edges of the chip. `int` arithmetic
is taken to wrap. -/
namespace Rts2.Camd

/-- A `ValueRectangle` of integers. -/
structure Rectangle where
  x : Int32
  y : Int32
  w : Int32
  h : Int32
  deriving DecidableEq, Repr

/-- What `box` reads and sets: the reference pixels are there when the camera has WCS
values. -/
structure Readout where
  chipSize : Rectangle
  chipUsedReadout : Rectangle
  defaultCrpix : ℚ × ℚ := (0, 0)
  wcsCrpix : Option (ℚ × ℚ) := none
  binningHorizontal : Int32 := 1
  binningVertical : Int32 := 1
  deriving DecidableEq

/-! ## Requests -/

/-- The -1 of a request stands for the value of the chip. -/
def Rectangle.full (r chip : Rectangle) : Rectangle where
  x := if r.x = -1 then chip.x else r.x
  y := if r.y = -1 then chip.y else r.y
  w := if r.w = -1 then chip.w else r.w
  h := if r.h = -1 then chip.h else r.h

/-- The test of `box` -/
def Rectangle.pastEdges (r chip : Rectangle) : Bool :=
  r.x - chip.x + r.w > chip.w || r.y - chip.y + r.h > chip.h

/-- `Camera::box`: the return value, what is set and the contents of `retv`. -/
def Readout.box (s : Readout) (r : Rectangle) (retv : Option Rectangle) :
    Int × Readout × Option Rectangle :=
  let r := r.full s.chipSize
  if r.pastEdges s.chipSize then (-1, s, retv)
  else
    let crpix : ℚ × ℚ := ((s.defaultCrpix.1 - r.x.toInt) / s.binningHorizontal.toInt,
      (s.defaultCrpix.2 - r.y.toInt) / s.binningVertical.toInt)
    (0, { s with wcsCrpix := s.wcsCrpix.map fun _ => crpix, chipUsedReadout := r },
      retv.map fun _ => r)

/-- An offset and a size of `Camera::center`, where the chip has `size` pixels. -/
def centered (asked size : Int32) : Int32 × Int32 :=
  if asked > 0 && size ≥ asked then (size / 2 - asked / 2, asked) else (size / 4, size / 2)

/-- The window `Camera::center` asks `box` for -/
def Rectangle.center (chip : Rectangle) (inW inH : Int32) : Rectangle :=
  let horizontal := centered inW chip.w
  let vertical := centered inH chip.h
  ⟨horizontal.1, vertical.1, horizontal.2, vertical.2⟩

/-- `Camera::center` -/
def Readout.center (s : Readout) (inW inH : Int32) : Int × Readout × Option Rectangle :=
  s.box (s.chipSize.center inW inH) none

/-- `Camera::setValue` of WINDOW -/
def Readout.setWindow (s : Readout) (rect : Rectangle) : Int × Readout × Option Rectangle :=
  let answer := s.box rect (some rect)
  (if answer.1 = 0 then 0 else -2, answer.2)

/-- The commands `box` and `center`, and a new WINDOW. `full` is the command `box` of -1. -/
inductive WindowRequest where
  | box (r : Rectangle)
  | center (inW inH : Int32)
  | setValue (rect : Rectangle)

def WindowRequest.handle (s : Readout) : WindowRequest → Int × Readout × Option Rectangle
  | .box r => s.box r none
  | .center inW inH => s.center inW inH
  | .setValue rect => s.setWindow rect

/-- The four numbers a request stands for. -/
def WindowRequest.asked (chip : Rectangle) : WindowRequest → Rectangle
  | .box r => r.full chip
  | .center inW inH => (chip.center inW inH).full chip
  | .setValue rect => rect.full chip

/-! ## Windows inside the chip -/

/-- A stretch of pixels is not empty and lies on the chip. -/
def Stretch (offset size chipOffset chipSize : Int32) : Prop :=
  chipOffset.toInt ≤ offset.toInt ∧ 0 < size.toInt ∧
    offset.toInt - chipOffset.toInt + size.toInt ≤ chipSize.toInt

def Rectangle.Inside (r chip : Rectangle) : Prop :=
  Stretch r.x r.w chip.x chip.w ∧ Stretch r.y r.h chip.y chip.h

/-- What the test leaves out: the stretch begins on the chip and is not empty, and its sum
is an `int`. -/
def Begins (offset size chipOffset : Int32) : Prop :=
  chipOffset.toInt ≤ offset.toInt ∧ 0 < size.toInt ∧
    offset.toInt - chipOffset.toInt + size.toInt < 2 ^ 31

def Rectangle.BeginsOn (r chip : Rectangle) : Prop :=
  Begins r.x r.w chip.x ∧ Begins r.y r.h chip.y

/-- A request that is accepted sets a window inside the chip, one that is refused sets
nothing. -/
structure Guarded (s : Readout) (req : WindowRequest) : Prop where
  accepted : (req.handle s).1 = 0 →
    (req.handle s).2.1.chipUsedReadout.Inside s.chipSize ∧
      ∀ rect ∈ (req.handle s).2.2, rect = (req.handle s).2.1.chipUsedReadout
  refused : (req.handle s).1 ≠ 0 → (req.handle s).2.1 = s

variable {s : Readout} {req : WindowRequest}

/-- A sum that does not wrap and is not past the edge is on the chip. -/
theorem stretch_iff {offset size chipOffset chipSize : Int32}
    (hedge : ¬offset - chipOffset + size > chipSize) :
    Stretch offset size chipOffset chipSize ↔ Begins offset size chipOffset := by
  have hchip := chipSize.toInt_lt
  constructor
  · intro hcond
    obtain ⟨hoffset, hsize, hsum⟩ := hcond
    exact ⟨hoffset, hsize, by omega⟩
  · intro hcond
    obtain ⟨hoffset, hsize, hsum⟩ := hcond
    have hsub : (offset - chipOffset).toInt = offset.toInt - chipOffset.toInt := by
      rw [Int32.toInt_sub]
      exact Int.bmod_eq_of_le (by omega) (by omega)
    have hadd : (offset - chipOffset + size).toInt = offset.toInt - chipOffset.toInt + size.toInt := by
      rw [Int32.toInt_add, hsub]
      exact Int.bmod_eq_of_le (by omega) (by omega)
    have hle := not_lt.mp (fun h => hedge (Int32.lt_iff_toInt_lt.mpr h))
    exact ⟨hoffset, hsize, hadd ▸ hle⟩

theorem Rectangle.inside_iff {r chip : Rectangle} (h : r.pastEdges chip = false) :
    r.Inside chip ↔ r.BeginsOn chip := by
  simp only [Rectangle.pastEdges, Bool.or_eq_false_iff, decide_eq_false_iff_not] at h
  exact and_congr (stretch_iff h.1) (stretch_iff h.2)

/-! ## What `box` does -/

theorem Readout.box_refused {r : Rectangle} (retv : Option Rectangle)
    (h : (r.full s.chipSize).pastEdges s.chipSize = true) : s.box r retv = (-1, s, retv) := by
  simp only [Readout.box, h, if_true]

theorem Readout.box_accepted {r : Rectangle} (retv : Option Rectangle)
    (h : (r.full s.chipSize).pastEdges s.chipSize = false) :
    (s.box r retv).1 = 0 ∧ (s.box r retv).2.1.chipUsedReadout = r.full s.chipSize ∧
      (s.box r retv).2.2 = retv.map fun _ => r.full s.chipSize := by
  simp only [Readout.box, h, Bool.false_eq_true, if_false, and_self]

theorem WindowRequest.handle_refused (h : (req.asked s.chipSize).pastEdges s.chipSize = true) :
    (req.handle s).1 ≠ 0 ∧ (req.handle s).2.1 = s := by
  cases req with
  | box r =>
    have hbox : (WindowRequest.box r).handle s = (-1, s, none) := Readout.box_refused none h
    rw [hbox]
    exact ⟨Int.negSucc_ne_zero _, rfl⟩
  | center inW inH =>
    have hbox : (WindowRequest.center inW inH).handle s = (-1, s, none) := Readout.box_refused none h
    rw [hbox]
    exact ⟨Int.negSucc_ne_zero _, rfl⟩
  | setValue rect =>
    have hbox : s.box rect (some rect) = (-1, s, some rect) := Readout.box_refused (some rect) h
    have hset : (WindowRequest.setValue rect).handle s = (-2, s, some rect) := by
      simp only [WindowRequest.handle, Readout.setWindow, hbox]
      rfl
    rw [hset]
    exact ⟨Int.negSucc_ne_zero _, rfl⟩

theorem WindowRequest.handle_accepted (h : (req.asked s.chipSize).pastEdges s.chipSize = false) :
    (req.handle s).1 = 0 ∧ (req.handle s).2.1.chipUsedReadout = req.asked s.chipSize ∧
      ∀ rect ∈ (req.handle s).2.2, rect = req.asked s.chipSize := by
  cases req with
  | box r =>
    obtain ⟨hret, hwindow, hretv⟩ := Readout.box_accepted none h
    refine ⟨hret, hwindow, fun rect hrect => ?_⟩
    exact absurd (hretv.symm.trans hrect) (by simp)
  | center inW inH =>
    obtain ⟨hret, hwindow, hretv⟩ := Readout.box_accepted none h
    refine ⟨hret, hwindow, fun rect hrect => ?_⟩
    exact absurd (hretv.symm.trans hrect) (by simp)
  | setValue rect =>
    obtain ⟨hret, hwindow, hretv⟩ := Readout.box_accepted (some rect) h
    refine ⟨if_pos hret, hwindow, fun set hset => ?_⟩
    exact (Option.some.inj (hretv.symm.trans hset)).symm

/-- A request is guarded when it is past the far edges, so that it is refused, or begins on
the chip and is not empty. -/
theorem guarded_iff (s : Readout) (req : WindowRequest) :
    Guarded s req ↔ (req.asked s.chipSize).pastEdges s.chipSize = true ∨
      (req.asked s.chipSize).BeginsOn s.chipSize := by
  cases hedges : (req.asked s.chipSize).pastEdges s.chipSize with
  | true =>
    obtain ⟨hret, hsame⟩ := WindowRequest.handle_refused hedges
    exact iff_of_true ⟨fun h => absurd h hret, fun _ => hsame⟩ (.inl rfl)
  | false =>
    obtain ⟨hret, hwindow, hretv⟩ := WindowRequest.handle_accepted hedges
    rw [← Rectangle.inside_iff hedges]
    constructor
    · intro h
      have hinside := (h.accepted hret).1
      rw [hwindow] at hinside
      exact .inr hinside
    · rintro (hpast | hinside)
      · cases hpast
      · refine ⟨fun _ => ⟨?_, fun rect hrect => ?_⟩, fun hne => absurd hret hne⟩
        · rwa [hwindow]
        · rw [hretv rect hrect, hwindow]

/-- A box of negative width, left of the chip. -/
theorem negative_box :
    ¬Guarded ⟨⟨0, 0, 1024, 1024⟩, ⟨0, 0, 1024, 1024⟩, (0, 0), none, 1, 1⟩
      (.box ⟨-100, 0, -5, 10⟩) := by
  intro h
  have hinside := (h.accepted (by decide)).1.1.1
  exact absurd hinside (by decide)

end Rts2.Camd
