import Mathlib.Algebra.Order.Archimedean.Basic
import Mathlib.Algebra.Order.Floor.Ring
import Mathlib.Data.Int.ConditionallyCompleteOrder
import Mathlib.Data.Int.LeastGreatest
import Mathlib.Order.Monotone.Basic
import Mathlib.Tactic.Linarith
import Mathlib.Tactic.Ring

/-! # Recurring events

The times of an event that comes again and again, numbered by integers: `IsNext`
is the first one after a time. -/
namespace Rts2.Lib

variable {K : Type} [LinearOrder K]

/-- The first event after `t`. -/
def IsNext (e : ℤ → K) (t x : K) : Prop := ∃ k, x = e (k + 1) ∧ e k ≤ t ∧ t < e (k + 1)

section
variable {t x y : K} {e : ℤ → K}

theorem IsNext.unique (h : StrictMono e) (hx : IsNext e t x) (hy : IsNext e t y) : x = y := by
  obtain ⟨j, rfl, hj, hj'⟩ := hx
  obtain ⟨k, rfl, hk, hk'⟩ := hy
  have hjk := h.lt_iff_lt.mp (hj.trans_lt hk')
  have hkj := h.lt_iff_lt.mp (hk.trans_lt hj')
  have heq : j = k := by omega
  rw [heq]

/-- Another numbering of the events. -/
theorem IsNext.of_shift {a : ℤ} (h : IsNext (fun n => e (n + a)) t x) : IsNext e t x := by
  obtain ⟨k, rfl, hk, hk'⟩ := h
  refine ⟨k + a, ?_, hk, ?_⟩
  · rw [add_right_comm]
  · rw [add_right_comm]
    exact hk'

end

variable [Field K] [IsStrictOrderedRing K]

/-- The events come between `1 - d` and `1 + d` after each other. -/
structure Regular (d : K) (e : ℤ → K) : Prop where
  lower : ∀ k, 1 - d ≤ e (k + 1) - e k
  upper : ∀ k, e (k + 1) - e k ≤ 1 + d

section
variable {d t : K} {e : ℤ → K}

theorem Regular.of_shift {a : ℤ} (h : Regular d fun n => e (n + a)) : Regular d e := by
  constructor
  · intro k
    have hstep := h.lower (k - a)
    simpa [sub_add_cancel, sub_add_eq_add_sub] using hstep
  · intro k
    have hstep := h.upper (k - a)
    simpa [sub_add_cancel, sub_add_eq_add_sub] using hstep

theorem Regular.strictMono (h : Regular d e) (hd : d < 1) : StrictMono e :=
  strictMono_int_of_lt_succ fun k => by
    have hstep := h.lower k
    linarith

/-- Every event is some time after the one before it. -/
theorem Regular.le_add (h : Regular d e) (k : ℤ) (n : ℕ) : e k + n * (1 - d) ≤ e (k + n) := by
  induction n with
  | zero => simp
  | succ n ih =>
    have hstep := h.lower (k + n)
    have hcast : k + ((n + 1 : ℕ) : ℤ) = k + n + 1 := by
      push_cast
      ring
    rw [hcast]
    push_cast
    linarith

/-- There is an event after every time, however late one begins to look. -/
theorem Regular.exists_gt [Archimedean K] (h : Regular d e) (hd : d < 1) (k : ℤ) (t : K) :
    ∃ n : ℕ, t < e (k + n) := by
  obtain ⟨n, hn⟩ := Archimedean.arch (t - e k + 1) (show 0 < 1 - d by linarith)
  refine ⟨n, ?_⟩
  have hle := h.le_add k n
  rw [nsmul_eq_mul] at hn
  linarith

/-- And one before every time. -/
theorem Regular.exists_le [Archimedean K] (h : Regular d e) (hd : d < 1) (t : K) :
    ∃ k, e k ≤ t := by
  obtain ⟨n, hn⟩ := Archimedean.arch (e 0 - t) (show 0 < 1 - d by linarith)
  refine ⟨-n, ?_⟩
  have hle := h.le_add (-n) n
  rw [nsmul_eq_mul] at hn
  rw [neg_add_cancel] at hle
  linarith

/-- Every time is between two events. -/
theorem Regular.exists_between [Archimedean K] (h : Regular d e) (hd : d < 1) (t : K) :
    ∃ k, e k ≤ t ∧ t < e (k + 1) := by
  obtain ⟨n, hn⟩ := h.exists_gt hd 0 t
  have hbound : ∀ k, e k ≤ t → k ≤ 0 + n := fun k hk => by
    by_contra hlt
    exact absurd (hk.trans_lt hn) (not_lt.mpr ((h.strictMono hd).monotone (not_le.mp hlt).le))
  obtain ⟨k, hk, hmax⟩ := Int.exists_greatest_of_bdd ⟨0 + n, hbound⟩ (h.exists_le hd t)
  refine ⟨k, hk, not_le.mp fun hle => ?_⟩
  have hsucc := hmax (k + 1) hle
  omega

end

end Rts2.Lib
