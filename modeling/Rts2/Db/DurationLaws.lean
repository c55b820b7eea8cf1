import Mathlib.Algebra.Order.Archimedean.Basic
import Rts2.Db.SatisfiedDuration

/-! # What the duration of satisfaction says

`Constraints::getSatisfiedDuration` looks at samples from the end of the minimal length on. -/
namespace Rts2.Db
open Rts2.Lib

/-- `Constraints::satisfy` -/
def Constraints.satisfy (tar : Target) (constraints : List Constraint) (JD : ℚ) : Bool :=
  constraints.all fun c => (c.satisfy tar JD).1

/-- The result, for the sample at which the loop is left. -/
def Until.ofViolated (L : Libnova) (fromJD : ℚ) : Option ℚ → Until
  | none => .infinity
  | some t => if t = fromJD then .nan else .time (L.timet t)

variable (L : Libnova) (satisfy : ℚ → Bool) (fromT toT length step : ℚ)

/-- What `Constraints::getSatisfiedDuration` returns, after as many turns as it takes. -/
def Constraints.Returns (r : Until) : Prop :=
  ∃ violated, Leaves (sampleTurn satisfy (L.julian (toTimet toT)) step)
      (L.julian (toTimet (fromT + length))) violated ∧
    r = .ofViolated L (L.julian (toTimet (fromT + length))) violated

/-- The samples from the first one on. -/
def sampleAt (first step : ℚ) (k : Nat) : ℚ := first + k * (step / 86400)

/-- What a result says of the samples before the end of the window, from a first one on. -/
structure Until.Says (L : Libnova) (satisfy : ℚ → Bool) (first toJD step : ℚ) (r : Until) : Prop where
  nan : r = .nan ↔ first < toJD ∧ satisfy first = false
  time : ∀ x, r = .time x → ∃ k, x = L.timet (sampleAt first step k) ∧
    sampleAt first step k < toJD ∧ satisfy (sampleAt first step k) = false ∧
    ∀ j < k, satisfy (sampleAt first step j) = true
  infinity : r = .infinity → ∀ k, sampleAt first step k < toJD → satisfy (sampleAt first step k) = true

variable {L satisfy fromT toT length step} {first toJD : ℚ} {k : Nat} {violated : Option ℚ}

theorem sampleAt_zero (first step : ℚ) : sampleAt first step 0 = first := by
  rw [sampleAt, Nat.cast_zero, zero_mul, add_zero]

theorem sampleAt_succ (first step : ℚ) (k : Nat) :
    sampleAt first step k + step / 86400 = sampleAt first step (k + 1) := by
  rw [sampleAt, sampleAt, Nat.cast_add_one]
  ring

theorem sampleAt_lt (hstep : 0 < step) {j k : Nat} (h : j < k) :
    sampleAt first step j < sampleAt first step k := by
  have hpos : 0 < step / 86400 := by positivity
  have hcast : (j : ℚ) < k := Nat.cast_lt.mpr h
  exact add_lt_add_right (mul_lt_mul_of_pos_right hcast hpos) first

/-- The loop ends, for any step. -/
theorem leaves_samples (hstep : 0 < step) :
    ∃ violated, Leaves (sampleTurn satisfy toJD step) first violated := by
  obtain ⟨n, hn⟩ := exists_nat_gt ((toJD - first) / (step / 86400))
  have hpos : 0 < step / 86400 := by positivity
  have hend : ∀ d k : Nat, k + d = n →
      ∃ violated, Leaves (sampleTurn satisfy toJD step) (sampleAt first step k) violated := by
    intro d
    induction d with
    | zero =>
      intro k hk
      have hpast : ¬sampleAt first step k < toJD := by
        have hle := ((div_lt_iff₀ hpos).mp hn).le
        rw [← hk, Nat.add_zero] at hle
        rw [sampleAt, not_lt]
        linarith
      have hturn : sampleTurn satisfy toJD step (sampleAt first step k) = .inr none := if_neg hpast
      exact ⟨none, (leaves_inr hturn).mpr rfl⟩
    | succ d ih =>
      intro k hk
      by_cases hlt : sampleAt first step k < toJD
      · cases hsat : satisfy (sampleAt first step k) with
        | true =>
          obtain ⟨violated, hleaves⟩ := ih (k + 1) (by omega)
          have hturn : sampleTurn satisfy toJD step (sampleAt first step k) =
              .inl (sampleAt first step (k + 1)) := by
            rw [sampleTurn, if_pos hlt, if_pos hsat, sampleAt_succ]
          exact ⟨violated, (leaves_inl hturn).mpr hleaves⟩
        | false =>
          have hturn : sampleTurn satisfy toJD step (sampleAt first step k) =
              .inr (some (sampleAt first step k)) := by
            rw [sampleTurn, if_pos hlt, if_neg (by simp [hsat])]
          exact ⟨_, (leaves_inr hturn).mpr rfl⟩
      · have hturn : sampleTurn satisfy toJD step (sampleAt first step k) = .inr none := if_neg hlt
        exact ⟨none, (leaves_inr hturn).mpr rfl⟩
  obtain ⟨violated, hleaves⟩ := hend n 0 (Nat.zero_add n)
  rw [sampleAt_zero] at hleaves
  exact ⟨violated, hleaves⟩

/-- The loop has passed samples that are all satisfied. -/
def Passed (satisfy : ℚ → Bool) (first step t : ℚ) : Prop :=
  ∃ k, t = sampleAt first step k ∧ ∀ j < k, satisfy (sampleAt first step j) = true

theorem Passed.next {t t' : ℚ} (h : Passed satisfy first step t)
    (hturn : sampleTurn satisfy toJD step t = .inl t') : Passed satisfy first step t' := by
  obtain ⟨k, rfl, hbefore⟩ := h
  unfold sampleTurn at hturn
  split at hturn
  · split at hturn
    · rename_i hsat
      obtain rfl := Sum.inl.inj hturn
      refine ⟨k + 1, sampleAt_succ first step k, fun j hj => ?_⟩
      rcases Nat.lt_succ_iff_lt_or_eq.mp hj with hj | rfl
      · exact hbefore j hj
      · exact hsat
    · cases hturn
  · cases hturn

/-- It is left at the first sample that is violated, or behind the window. -/
theorem leaves_sample (hstep : 0 < step) (h : Leaves (sampleTurn satisfy toJD step) first violated) :
    (∃ k, violated = some (sampleAt first step k) ∧ sampleAt first step k < toJD ∧
        satisfy (sampleAt first step k) = false ∧ ∀ j < k, satisfy (sampleAt first step j) = true) ∨
      violated = none ∧ ∀ k, sampleAt first step k < toJD → satisfy (sampleAt first step k) = true := by
  have hfirst : Passed satisfy first step first := ⟨0, (sampleAt_zero first step).symm, nofun⟩
  obtain ⟨t, ⟨k, rfl, hbefore⟩, hout⟩ := h.invariant hfirst fun _ _ => Passed.next
  unfold sampleTurn at hout
  split at hout
  · split at hout
    · cases hout
    · rename_i hlt hsat
      exact .inl ⟨k, (Sum.inr.inj hout).symm, hlt, by simpa using hsat, hbefore⟩
  · rename_i hpast
    refine .inr ⟨(Sum.inr.inj hout).symm, fun j hj => hbefore j ?_⟩
    by_contra hk
    rcases (Nat.le_of_not_lt hk).eq_or_lt with rfl | hlt
    · exact hpast hj
    · exact hpast ((sampleAt_lt hstep hlt).trans hj)

theorem sampleAt_eq_first (hstep : 0 < step) : sampleAt first step k = first ↔ k = 0 := by
  constructor
  · intro h
    by_contra hk
    have hlt := @sampleAt_lt step first hstep 0 k (Nat.pos_of_ne_zero hk)
    rw [sampleAt_zero, h] at hlt
    exact lt_irrefl first hlt
  · intro h
    rw [h, sampleAt_zero]

/-- The result for the sample at which the loop is left. -/
theorem Until.says_of_leaves (hstep : 0 < step)
    (h : Leaves (sampleTurn satisfy toJD step) first violated) :
    Until.Says L satisfy first toJD step (.ofViolated L first violated) := by
  rcases leaves_sample hstep h with ⟨k, rfl, hlt, hviolated, hbefore⟩ | ⟨rfl, hall⟩
  · by_cases hk : k = 0
    · subst hk
      rw [sampleAt_zero] at hlt hviolated
      have hfirst : Until.ofViolated L first (some (sampleAt first step 0)) = .nan :=
        if_pos (sampleAt_zero first step)
      rw [hfirst]
      exact ⟨iff_of_true rfl ⟨hlt, hviolated⟩, fun x hx => (by cases hx), fun hx => (by cases hx)⟩
    · have hne : ¬sampleAt first step k = first := fun heq => hk ((sampleAt_eq_first hstep).mp heq)
      have htime : Until.ofViolated L first (some (sampleAt first step k)) =
          .time (L.timet (sampleAt first step k)) := if_neg hne
      rw [htime]
      refine ⟨iff_of_false (fun hx => (by cases hx)) fun hfirst => ?_, fun x hx => ?_, fun hx => (by cases hx)⟩
      · have hsat := hbefore 0 (Nat.pos_of_ne_zero hk)
        rw [sampleAt_zero, hfirst.2] at hsat
        cases hsat
      · exact ⟨k, (Until.time.inj hx).symm, hlt, hviolated, hbefore⟩
  · refine ⟨iff_of_false (fun hx => (by cases hx)) fun hfirst => ?_, fun x hx => (by cases hx), fun _ => hall⟩
    have hsat := hall 0
    rw [sampleAt_zero, hfirst.2] at hsat
    cases hsat hfirst.1

/-- With turns for whole seconds, too. -/
theorem Constraints.returns_of_getSatisfiedDuration {r : Until}
    (h : Constraints.getSatisfiedDuration L satisfy fromT toT length step = some r) :
    Constraints.Returns L satisfy fromT toT length step r := by
  obtain ⟨violated, hturns, hr⟩ := Option.map_eq_some_iff.mp h
  refine ⟨violated, ⟨_, hturns⟩, hr.symm.trans ?_⟩
  cases violated with
  | none => rfl
  | some t => rfl

end Rts2.Db
