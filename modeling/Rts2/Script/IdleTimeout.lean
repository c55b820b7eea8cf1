import Mathlib.Algebra.Order.Floor.Ring
import Mathlib.Data.Rat.Floor
import Rts2.Lib.Run

/-! # The timeout of an element

`setIdleTimeout` takes a duration apart into seconds and microseconds, and `idleCall` compares
the clock with the deadline that follows from them. Doubles are not rounded. -/
namespace Rts2.Script.IdleTimeout
open Rts2.Lib

/-! ## Times of the system -/

/-- `struct timeval` -/
structure Timeval where
  tvSec : Int
  tvUsec : Int
  deriving DecidableEq

namespace Timeval

/-- What `gettimeofday` fills in, so many microseconds after the epoch. -/
def ofUsecs (t : Nat) : Timeval := ⟨t / 1000000, t % 1000000⟩

def timerclear : Timeval := ⟨0, 0⟩

def timerisset (tv : Timeval) : Bool := tv.tvSec ≠ 0 || tv.tvUsec ≠ 0

/-- One second is carried, at most. -/
def timeradd (a b : Timeval) : Timeval :=
  if a.tvUsec + b.tvUsec ≥ 1000000 then ⟨a.tvSec + b.tvSec + 1, a.tvUsec + b.tvUsec - 1000000⟩
  else ⟨a.tvSec + b.tvSec, a.tvUsec + b.tvUsec⟩

/-- `timercmp (a, b, >)` -/
def later (a b : Timeval) : Bool :=
  if a.tvSec = b.tvSec then a.tvUsec > b.tvUsec else a.tvSec > b.tvSec

theorem timeradd_ofUsecs (s t : Nat) : timeradd (ofUsecs s) (ofUsecs t) = ofUsecs (s + t) := by
  show (if (s % 1000000 : Int) + t % 1000000 ≥ 1000000
    then (⟨s / 1000000 + t / 1000000 + 1, s % 1000000 + t % 1000000 - 1000000⟩ : Timeval)
    else ⟨s / 1000000 + t / 1000000, s % 1000000 + t % 1000000⟩) = ofUsecs (s + t)
  unfold ofUsecs
  push_cast
  split
  · congr 1 <;> omega
  · congr 1 <;> omega

theorem later_ofUsecs (s t : Nat) : later (ofUsecs s) (ofUsecs t) = decide (t < s) := by
  show (if (s / 1000000 : Int) = t / 1000000 then decide ((s % 1000000 : Int) > t % 1000000)
    else decide ((s / 1000000 : Int) > t / 1000000)) = _
  split
  · rw [decide_eq_decide]
    omega
  · rw [decide_eq_decide]
    omega

theorem timerisset_ofUsecs {t : Nat} (ht : 0 < t) : timerisset (ofUsecs t) = true := by
  have hsome : (t / 1000000 : Int) ≠ 0 ∨ (t % 1000000 : Int) ≠ 0 := by omega
  show (decide ((t / 1000000 : Int) ≠ 0) || decide ((t % 1000000 : Int) ≠ 0)) = true
  rw [Bool.or_eq_true, decide_eq_true_iff, decide_eq_true_iff]
  exact hsome

end Timeval
open Timeval

/-! ## The element -/

/-- `Element`, as far as its timeout goes. -/
structure Element where
  nextIdle : Timeval
  idleTimeout : Timeval
  deriving DecidableEq

/-- `Element::Element` -/
def Element.new : Element := ⟨timerclear, timerclear⟩

/-- `(long int) x` -/
def toLong (x : ℚ) : Int := x.num.tdiv x.den

/-- `Element::setIdleTimeout` -/
def Element.setIdleTimeout (e : Element) (sec : ℚ) (now : Timeval) : Element :=
  let idleTimeout : Timeval := ⟨⌊sec⌋, toLong ((sec - e.nextIdle.tvSec) * 1000000)⟩
  ⟨timeradd idleTimeout now, idleTimeout⟩

/-- `Element::idleCall`, with whether `idle` was run. -/
def Element.idleCall (e : Element) (tv : Timeval) : Element × Bool :=
  if timerisset e.idleTimeout = false then (e, false)
  else if later tv e.nextIdle then ({ e with nextIdle := timeradd tv e.idleTimeout }, true)
  else (e, false)

/-- A call, at a time in microseconds. Durations are positive numbers of microseconds. -/
inductive Input where
  | setIdleTimeout (duration : { d : Nat // 0 < d }) (now : Nat)
  | idleCall (now : Nat)

/-- An element, and for each `idleCall` whether `idle` was run. -/
structure Watched where
  element : Element
  ran : List Bool

def Watched.step (w : Watched) : Input → Watched
  | .setIdleTimeout duration now =>
    { w with element := w.element.setIdleTimeout (duration / 1000000) (ofUsecs now) }
  | .idleCall now =>
    let (element, ran) := w.element.idleCall (ofUsecs now)
    ⟨element, w.ran ++ [ran]⟩

/-! ## What the timeout is for -/

/-- The last requested duration, and when it was set or `idle` was run last. -/
structure Period where
  duration : Nat
  since : Nat

/-- `idle` is run when more than the duration has passed. -/
def Period.step (m : Option Period × List Bool) : Input → Option Period × List Bool
  | .setIdleTimeout duration now => (some ⟨duration, now⟩, m.2)
  | .idleCall now =>
    match m.1 with
    | none => (none, m.2 ++ [false])
    | some p =>
      if p.duration < now - p.since then (some ⟨p.duration, now⟩, m.2 ++ [true])
      else (some p, m.2 ++ [false])

/-- The calls of `idle` are those that are due. -/
def Due (inputs : List Input) : Prop :=
  (run Watched.step ⟨.new, []⟩ inputs).ran = (run Period.step (none, []) inputs).2

/-- The seconds of the deadline kept from before are those of the duration. -/
def SecondsKept (w : Watched) : Input → Prop
  | .setIdleTimeout duration _ => w.element.nextIdle.tvSec = duration / 1000000
  | .idleCall _ => True

instance SecondsKept.decidable (w : Watched) : DecidablePred (SecondsKept w)
  | .setIdleTimeout duration _ =>
    inferInstanceAs (Decidable (w.element.nextIdle.tvSec = duration / 1000000))
  | .idleCall _ => inferInstanceAs (Decidable True)

/-! ## Runs -/

/-- The element keeps the period, as its timeout and its deadline. -/
def Keeps (e : Element) : Option Period → Prop
  | none => e.idleTimeout = timerclear
  | some p => 0 < p.duration ∧ e.idleTimeout = ofUsecs p.duration ∧
      e.nextIdle = ofUsecs (p.since + p.duration)

theorem floor_usecs (d : Nat) : ⌊(d / 1000000 : ℚ)⌋ = d / 1000000 := by
  have h := Rat.floor_natCast_div_natCast d 1000000
  rw [Nat.cast_ofNat] at h
  exact h

theorem toLong_intCast (n : Int) : toLong n = n := by
  simp [toLong]

theorem setIdleTimeout_keeps {e : Element} {d : Nat} (hd : 0 < d) (now : Nat)
    (h : e.nextIdle.tvSec = d / 1000000) :
    Keeps (e.setIdleTimeout (d / 1000000) (ofUsecs now)) (some ⟨d, now⟩) := by
  have husec : toLong (((d : ℚ) / 1000000 - e.nextIdle.tvSec) * 1000000) = d % 1000000 := by
    have hrest : ((d : ℚ) / 1000000 - e.nextIdle.tvSec) * 1000000 =
        ((d - d / 1000000 * 1000000 : Int) : ℚ) := by
      rw [h]
      push_cast
      ring
    rw [hrest, toLong_intCast]
    omega
  have htimeout : (⟨⌊(d / 1000000 : ℚ)⌋, toLong ((d / 1000000 - e.nextIdle.tvSec) * 1000000)⟩ : Timeval) =
      ofUsecs d := by
    rw [husec, floor_usecs]
    rfl
  unfold Element.setIdleTimeout
  simp only [htimeout]
  refine ⟨hd, rfl, ?_⟩
  rw [timeradd_ofUsecs, Nat.add_comm]

/-- `idle` is run when the duration has passed, and the deadline is kept. -/
theorem idleCall_keeps {e : Element} {p : Period} (h : Keeps e (some p)) (now : Nat) :
    (e.idleCall (ofUsecs now)).2 = decide (p.duration < now - p.since) ∧
      Keeps (e.idleCall (ofUsecs now)).1
        (some (if p.duration < now - p.since then ⟨p.duration, now⟩ else p)) := by
  obtain ⟨hpos, htimeout, hnext⟩ := h
  have hset : timerisset e.idleTimeout ≠ false := by
    rw [htimeout, timerisset_ofUsecs hpos]
    exact Bool.noConfusion
  have hlater : later (ofUsecs now) e.nextIdle = decide (p.duration < now - p.since) := by
    rw [hnext, later_ofUsecs, decide_eq_decide]
    omega
  unfold Element.idleCall
  rw [if_neg hset, hlater]
  by_cases hdue : p.duration < now - p.since
  · rw [if_pos (decide_eq_true hdue), if_pos hdue, decide_eq_true hdue]
    refine ⟨rfl, hpos, htimeout, ?_⟩
    show timeradd (ofUsecs now) e.idleTimeout = _
    rw [htimeout, timeradd_ofUsecs]
  · rw [if_neg (by simpa using hdue), if_neg hdue, decide_eq_false hdue]
    exact ⟨rfl, hpos, htimeout, hnext⟩

theorem step_keeps {w : Watched} {m : Option Period × List Bool} (hkeeps : Keeps w.element m.1)
    (hran : w.ran = m.2) {i : Input} (hi : SecondsKept w i) :
    Keeps (w.step i).element (Period.step m i).1 ∧ (w.step i).ran = (Period.step m i).2 := by
  cases i with
  | setIdleTimeout duration now => exact ⟨setIdleTimeout_keeps duration.2 now hi, hran⟩
  | idleCall now =>
    obtain ⟨period, ran⟩ := m
    cases period with
    | none =>
      have hclear : w.element.idleTimeout = timerclear := hkeeps
      have hcall : w.element.idleCall (ofUsecs now) = (w.element, false) := by
        rw [Element.idleCall, hclear]
        rfl
      simp only [Watched.step, hcall, Period.step, hran]
      exact ⟨hclear, trivial⟩
    | some p =>
      obtain ⟨hcall, hnext⟩ := idleCall_keeps hkeeps now
      simp only [Watched.step, hcall, hran, Period.step]
      by_cases hdue : p.duration < now - p.since
      · rw [if_pos hdue] at hnext ⊢
        exact ⟨hnext, by rw [decide_eq_true hdue]⟩
      · rw [if_neg hdue] at hnext ⊢
        exact ⟨hnext, by rw [decide_eq_false hdue]⟩

/-- As long as each duration is set with the seconds kept, `idle` is run exactly when it is due. -/
theorem due_of_seconds_kept {inputs : List Input} (h : Along Watched.step SecondsKept ⟨.new, []⟩ inputs) :
    Due inputs := by
  have hrun : ∀ (inputs : List Input) (w : Watched) (m : Option Period × List Bool),
      Keeps w.element m.1 → w.ran = m.2 → Along Watched.step SecondsKept w inputs →
      (run Watched.step w inputs).ran = (run Period.step m inputs).2 := by
    intro inputs
    induction inputs with
    | nil =>
      intro w m _ hran _
      exact hran
    | cons i inputs ih =>
      intro w m hkeeps hran halong
      obtain ⟨hnext, hran'⟩ := step_keeps hkeeps hran halong.1
      exact ih _ _ hnext hran' halong.2
  exact hrun inputs ⟨.new, []⟩ (none, []) rfl rfl h

/-- Half a second, for a new element. -/
theorem due_half_second : Due [.setIdleTimeout ⟨500000, by decide⟩ 1700000000000000,
    .idleCall 1700000000500000, .idleCall 1700000000500001] :=
  due_of_seconds_kept ⟨rfl, trivial, trivial, trivial⟩

/-- A second, for a new element: `idle` waits for two. -/
theorem not_due_one_second : ¬Due [.setIdleTimeout ⟨1000000, by decide⟩ 1700000000000000,
    .idleCall 1700000001500000] := by
  unfold Due
  decide +kernel

end Rts2.Script.IdleTimeout
