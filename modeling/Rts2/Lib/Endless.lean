import Mathlib.Data.List.Basic
import Mathlib.Data.Nat.Init

/-! # Runs that do not end

A machine that is given one input after another without an end. What its steps keep holds at every
time, and it comes to rest if the inputs that bring it on do not cease. -/
namespace Rts2.Lib

variable {σ α : Type*} {step : σ → α → σ} {s : σ} {inputs : ℕ → α} {I done : σ → Prop}

/-- The state after so many inputs. -/
def after (step : σ → α → σ) (s : σ) (inputs : ℕ → α) : ℕ → σ
  | 0 => s
  | k + 1 => step (after step s inputs k) (inputs k)

/-- A run goes on from the state it has reached. -/
theorem after_add (j k : ℕ) :
    after step s inputs (j + k) = after step (after step s inputs j) (fun i => inputs (j + i)) k := by
  induction k with
  | zero => rfl
  | succ k ih => exact congrArg (step · (inputs (j + k))) ih

theorem after_next (k : ℕ) :
    after step s inputs (k + 1) = after step (step s (inputs 0)) (fun i => inputs (i + 1)) k := by
  rw [Nat.add_comm, after_add]
  simp only [Nat.add_comm 1]
  rfl

theorem after_invariant (hs : I s) (hstep : ∀ s a, I s → I (step s a)) (k : ℕ) :
    I (after step s inputs k) := by
  induction k with
  | zero => exact hs
  | succ k ih => exact hstep _ _ ih

/-- Inputs of a kind come again and again. -/
def Recurs (good : α → Prop) (inputs : ℕ → α) : Prop := ∀ k, ∃ j, k ≤ j ∧ good (inputs j)

/-- No step adds to the measure as long as the run is not done. -/
theorem after_measure_le {μ : σ → ℕ} (hle : ∀ s a, ¬ done s → μ (step s a) ≤ μ s)
    (hnot : ∀ j, ¬ done (after step s inputs j)) {k j : ℕ} (hkj : k ≤ j) :
    μ (after step s inputs j) ≤ μ (after step s inputs k) := by
  induction j, hkj using Nat.le_induction with
  | base => exact Nat.le_refl _
  | succ j _ ih => exact Nat.le_trans (hle _ _ (hnot j)) ih

/-- No step adds to a measure and the good ones take off it, so that the run is done at some
time. -/
theorem Recurs.eventually {good : α → Prop} (hgood : Recurs good inputs) (μ : σ → ℕ) (hs : I s)
    (hstep : ∀ s a, I s → I (step s a)) (hle : ∀ s a, ¬ done s → μ (step s a) ≤ μ s)
    (hlt : ∀ s a, I s → ¬ done s → good a → done (step s a) ∨ μ (step s a) < μ s) :
    ∃ k, done (after step s inputs k) := by
  by_contra hnone
  have hnot : ∀ j, ¬ done (after step s inputs j) := fun j h => hnone ⟨j, h⟩
  -- induction on a bound of the measure, from any time on
  have hfrom : ∀ m k, ¬ μ (after step s inputs k) < m := by
    intro m
    induction m with
    | zero => exact fun k => Nat.not_lt_zero _
    | succ m ih =>
      intro k hm
      obtain ⟨j, hj, hjgood⟩ := hgood k
      have hdown := after_measure_le hle hnot hj
      rcases hlt _ _ (after_invariant hs hstep j) (hnot j) hjgood with hdone | hless
      · exact hnot (j + 1) hdone
      · have hnext : μ (after step s inputs (j + 1)) < μ (after step s inputs j) := hless
        exact ih (j + 1) (by omega)
  exact hfrom _ 0 (Nat.lt_succ_self _)

end Rts2.Lib
