import Mathlib.Tactic.Linarith
import Mathlib.Tactic.Ring
import Rts2.Db.SatisfiedIntervals
import Rts2.Db.TimeConstraint
import Rts2.Lib.Doubles
import Rts2.Lib.While

/-! # How long a target satisfies its constraints

`Target::getSatisfiedDuration` gives the time at which the constraints of a target cease to
be satisfied, and keeps it, with the times it has probed. -/
namespace Rts2.Db
open Rts2.Lib

/-- Until when the constraints are satisfied: NaN when they are not at the first sample,
INFINITY when they are at all. -/
inductive Until where
  | nan
  | infinity
  | time (x : ℚ)
  deriving DecidableEq

def Until.toDouble : Until → Double
  | .nan => .nan
  | .infinity => .inf false
  | .time x => .fin x

section
variable (L : Libnova) (satisfy : ℚ → Bool)

/-- The loop over the samples, in Julian dates: the first one that is not satisfied, if
there is one. -/
def sampleTurn (toJD step t : ℚ) : ℚ ⊕ Option ℚ :=
  if t < toJD then if satisfy t then .inl (t + step / 86400) else .inr (some t)
  else .inr none

/-- `Constraints::getSatisfiedDuration`; the loop may take a turn for each second. -/
def Constraints.getSatisfiedDuration (fromT toT length step : ℚ) : Option Until :=
  let fromJD := L.julian (toTimet (fromT + length))
  (turns (sampleTurn satisfy (L.julian (toTimet toT)) step)
      ((toTimet toT - toTimet (fromT + length)).toNat + 1) fromJD).map fun
    | none => .infinity
    | some t => if t = fromJD then .nan else .time (L.timet t)

/-- What a target keeps, `none` for NaN. The time at which the constraints cease to be
satisfied is as far as was probed. -/
structure Satisfied where
  satisfiedFrom : Option ℚ
  satisfiedTo : Until
  satisfiedProbedUntil : Option ℚ
  probed : ∀ x, satisfiedTo = .time x → satisfiedProbedUntil = some x

namespace Satisfied

/-- The boundaries after a probe. -/
def update (c : Satisfied) (fromT toT : ℚ) (satisfiedTo : Until) : Satisfied where
  satisfiedFrom := if c.satisfiedFrom.all (fromT < ·) then some fromT else c.satisfiedFrom
  satisfiedTo := satisfiedTo
  satisfiedProbedUntil :=
    match satisfiedTo with
    | .nan => some fromT
    | .infinity => some toT
    | .time x => some x
  probed x hx := by rw [hx]

/-- Where the target has to be probed from, unless what it keeps will do. -/
def probeFrom (c : Satisfied) (fromT toT : ℚ) : Option ℚ :=
  match c.satisfiedFrom, c.satisfiedProbedUntil with
  | some satisfiedFrom, some probedUntil =>
    if satisfiedFrom ≤ fromT ∧ fromT ≤ probedUntil then
      if c.satisfiedTo ≠ .infinity ∨ toT ≤ probedUntil then none else some probedUntil
    else some fromT
  | _, _ => some fromT

/-- `Target::getSatisfiedDuration` -/
def getSatisfiedDuration (c : Satisfied) (fromT toT length step : ℚ) : Option (Until × Satisfied) :=
  match c.probeFrom fromT toT with
  | none => some (c.satisfiedTo, c)
  | some fromT =>
    (Constraints.getSatisfiedDuration L satisfy fromT toT length step).map fun satisfiedTo =>
      (satisfiedTo, c.update fromT toT satisfiedTo)

end Satisfied

variable {L satisfy} {fromT toT length step : ℚ}

theorem lt_toTimet_add_one (x : ℚ) : x < toTimet x + 1 := by
  have hfloor : ⌊x⌋ ≤ toTimet x := le_toTimet (Int.floor_le x)
  have hfloor' : (⌊x⌋ : ℚ) ≤ toTimet x := Int.cast_le.mpr hfloor
  linarith [Int.lt_floor_add_one x]

/-- The samples are whole steps behind the first one. -/
def Sample (L : Libnova) (fromT step : Int) (t : ℚ) : Prop :=
  ∃ k : Nat, t = L.julian (fromT + step * k)

/-- The seconds that are left to a sample. -/
def secondsLeft (L : Libnova) (toT : Int) (t : ℚ) : Nat := (toT - L.timet t).toNat

theorem sampleTurn_inl {a b s : Int} {t t' : ℚ} (hs : 0 < s) (ht : Sample L a s t)
    (h : sampleTurn satisfy (L.julian b) s t = .inl t') :
    Sample L a s t' ∧ secondsLeft L b t' < secondsLeft L b t := by
  obtain ⟨k, rfl⟩ := ht
  unfold sampleTurn at h
  split at h
  · rename_i hlt
    split at h
    · obtain rfl := Sum.inl.inj h
      have hnext : L.julian (a + s * k) + s / 86400 = L.julian (a + s * (k + 1 : Nat)) := by
        rw [← L.julian_add]
        congr 1
        push_cast
        ring
      rw [hnext]
      refine ⟨⟨k + 1, rfl⟩, ?_⟩
      unfold secondsLeft
      rw [L.timet_julian, L.timet_julian]
      have hlt' : a + s * k < b := L.julian_lt_iff.mp hlt
      push_cast
      have : s * (k + 1) = s * k + s := by ring
      omega
    · cases h
  · cases h

/-- A sample that is not satisfied, at another time than the first. -/
theorem eq_time_of_sample {a s : Int} {t : ℚ} (hs : 0 < s) (ht : Sample L a s t)
    (hne : t ≠ L.julian a) : (a + s : ℚ) ≤ L.timet t := by
  obtain ⟨k, rfl⟩ := ht
  rw [L.timet_julian]
  have hk : k ≠ 0 := by
    rintro rfl
    exact hne (by rw [Nat.cast_zero, mul_zero, add_zero])
  have hk' : (1 : Int) ≤ k := by omega
  have hle : a + s ≤ a + s * k := by nlinarith
  exact_mod_cast hle

/-- The loop ends, and a time it ends with is a step behind the begin at least. -/
theorem Constraints.getSatisfiedDuration_spec {s : Int} (hs : 0 < s) :
    ∃ r, Constraints.getSatisfiedDuration L satisfy fromT toT length s = some r ∧
      ∀ x, r = .time x → (toTimet (fromT + length) + s : ℚ) ≤ x := by
  have hfirst : Sample L (toTimet (fromT + length)) s (L.julian (toTimet (fromT + length))) :=
    ⟨0, by rw [Nat.cast_zero, mul_zero, add_zero]⟩
  have hfuel : secondsLeft L (toTimet toT) (L.julian (toTimet (fromT + length))) <
      (toTimet toT - toTimet (fromT + length)).toNat + 1 := by
    rw [secondsLeft, L.timet_julian]
    exact Nat.lt_succ_self _
  have hturn : ∀ t t', Sample L (toTimet (fromT + length)) s t →
      sampleTurn satisfy (L.julian (toTimet toT)) s t = .inl t' →
      Sample L (toTimet (fromT + length)) s t' ∧
        secondsLeft L (toTimet toT) t' < secondsLeft L (toTimet toT) t :=
    fun t t' ht h => sampleTurn_inl hs ht h
  obtain ⟨r, hr⟩ := exists_turns (secondsLeft L (toTimet toT)) hturn hfirst hfuel
  refine ⟨_, by rw [Constraints.getSatisfiedDuration, hr]; rfl, ?_⟩
  obtain ⟨t, ht, hend⟩ := Leaves.invariant ⟨_, hr⟩ hfirst fun t t' ht h => (hturn t t' ht h).1
  intro x hx
  cases r with
  | none => cases hx
  | some t' =>
    have heq : t' = t := by
      unfold sampleTurn at hend
      split at hend
      · split at hend
        · cases hend
        · exact (Option.some.inj (Sum.inr.inj hend)).symm
      · cases hend
    subst heq
    dsimp only at hx
    by_cases hne : t' = L.julian (toTimet (fromT + length))
    · rw [if_pos hne] at hx
      cases hx
    · rw [if_neg hne] at hx
      obtain rfl := Until.time.inj hx
      exact eq_time_of_sample hs ht hne

/-- A time is not before the begin: it is probed from there, or was probed until then. -/
theorem Satisfied.getSatisfiedDuration_spec (c : Satisfied) {s : Int} (hs : 0 < s)
    (hlength : 0 ≤ length) :
    ∃ r c', c.getSatisfiedDuration L satisfy fromT toT length s = some (r, c') ∧
      ∀ x, r = .time x → fromT ≤ x := by
  unfold Satisfied.getSatisfiedDuration
  cases hprobe : c.probeFrom fromT toT with
  | none =>
    refine ⟨c.satisfiedTo, c, rfl, fun x hx => ?_⟩
    unfold probeFrom at hprobe
    rw [c.probed x hx] at hprobe
    cases hfrom : c.satisfiedFrom with
    | none =>
      rw [hfrom] at hprobe
      cases hprobe
    | some satisfiedFrom =>
      rw [hfrom] at hprobe
      dsimp only at hprobe
      split at hprobe
      · rename_i hwithin
        exact hwithin.2
      · cases hprobe
  | some probe =>
    obtain ⟨r, hr, hle⟩ :=
      @Constraints.getSatisfiedDuration_spec L satisfy probe toT length s hs
    refine ⟨r, c.update probe toT r, by dsimp only; rw [hr]; rfl, fun x hx => ?_⟩
    have hbegin : fromT ≤ probe := by
      unfold probeFrom at hprobe
      split at hprobe
      · split at hprobe
        · rename_i hwithin
          split at hprobe
          · cases hprobe
          · exact Option.some.inj hprobe ▸ hwithin.2
        · exact (Option.some.inj hprobe).le
      · exact (Option.some.inj hprobe).le
    have hone : (1 : ℚ) ≤ s := by exact_mod_cast hs
    have hceil := lt_toTimet_add_one (probe + length)
    linarith [hle x hx]

end
end Rts2.Db
