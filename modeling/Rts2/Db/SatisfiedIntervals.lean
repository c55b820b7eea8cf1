import Mathlib.Data.List.Induction
import Rts2.Db.Constraint

/-! # The times at which all constraints are satisfied

Samples give an ordered list of intervals, and a merge of two ordered lists is the
ordered list of their intersection. -/
namespace Rts2.Db
open Rts2.Lib

variable {L : Libnova} {tar : Target} {c : Constraint} {fromT toT step a x : Int}
  {mi : Int × Int} {master add : Intervals}

/-! ## Merges -/

theorem mergeInterval_from {lo : Int} (tested : Bool) (h : ∀ addi ∈ add, lo ≤ addi.1) :
    ∀ j ∈ mergeInterval mi tested add, lo ≤ j.1 := by
  induction add generalizing tested with
  | nil => exact nofun
  | cons addi add ih =>
    obtain ⟨haddi, hadd⟩ := List.forall_mem_cons.mp h
    unfold mergeInterval
    split
    · exact nofun
    · split
      · exact ih false hadd
      · split
        · exact nofun
        · exact List.forall_mem_cons.mpr ⟨le_max_of_le_right haddi, ih true hadd⟩

/-- The pieces of an interval are ordered, and lie in it. -/
theorem mergeInterval_ordered (tested : Bool) (hmi : mi.1 ≤ mi.2) (h : Ordered add) :
    Ordered (mergeInterval mi tested add) ∧ Within mi.1 mi.2 (mergeInterval mi tested add) := by
  induction add generalizing tested with
  | nil => exact ⟨ordered_nil, within_nil⟩
  | cons addi add ih =>
    obtain ⟨haddi, hnext, hadd⟩ := ordered_cons.mp h
    unfold mergeInterval
    split
    · exact ⟨ordered_nil, within_nil⟩
    · split
      · exact ih false hadd
      · next hends =>
        split
        · exact ⟨ordered_nil, within_nil⟩
        · next hbegins =>
          obtain ⟨hordered, hwithin⟩ := ih true hadd
          refine ⟨ordered_cons.mpr ⟨?_, ?_, hordered⟩, within_cons.mpr ⟨?_, hwithin⟩⟩
          · exact max_le (le_min hmi (not_lt.mp hends)) (le_min (not_lt.mp hbegins) haddi)
          · intro j hj
            exact (min_le_right _ _).trans (mergeInterval_from true hnext j hj)
          · exact ⟨le_max_left _ _, min_le_left _ _⟩

/-- The pieces cover what the interval has in common with the list. -/
theorem mergeInterval_covers (tested : Bool) (h : Ordered add) :
    Covers (mergeInterval mi tested add) x ↔ (mi.1 ≤ x ∧ x < mi.2) ∧ Covers add x := by
  induction add generalizing tested with
  | nil => simp [mergeInterval]
  | cons addi add ih =>
    obtain ⟨haddi, hnext, hadd⟩ := ordered_cons.mp h
    -- nothing is covered before the first interval begins
    have hbegins : Covers (addi :: add) x → addi.1 ≤ x := by
      rw [covers_cons]
      rintro (hx | ⟨j, hj, hx⟩)
      · exact hx.1
      · exact haddi.trans ((hnext j hj).trans hx.1)
    unfold mergeInterval
    split
    · next hpast =>
      refine iff_of_false covers_nil fun hx => ?_
      exact absurd (hbegins hx.2) (not_le.mpr (hx.1.2.trans_le hpast.2))
    · split
      · next hends =>
        rw [ih false hadd, covers_cons]
        constructor
        · exact fun hx => ⟨hx.1, .inr hx.2⟩
        · rintro ⟨hmi, hx | hx⟩
          · omega
          · exact ⟨hmi, hx⟩
      · split
        · next hpast =>
          refine iff_of_false covers_nil fun hx => ?_
          exact absurd (hbegins hx.2) (not_le.mpr (hx.1.2.trans hpast))
        · rw [covers_cons, ih true hadd, covers_cons, max_le_iff, lt_min_iff]
          tauto

theorem mergeIntervals_ordered (hmaster : Ordered master) (hadd : Ordered add) :
    Ordered (mergeIntervals master add) := by
  unfold mergeIntervals
  split
  · exact ordered_nil
  · exact hmaster.flatMap fun mi hmi => mergeInterval_ordered true (hmaster.1 mi hmi) hadd

theorem mergeIntervals_covers (hadd : Ordered add) :
    Covers (mergeIntervals master add) x ↔ Covers master x ∧ Covers add x := by
  unfold mergeIntervals
  split
  · next hempty =>
    rw [List.length_eq_zero_iff, List.length_eq_zero_iff] at hempty
    rcases hempty with rfl | rfl
    · simp
    · simp
  · rw [covers_flatMap]
    simp only [mergeInterval_covers true hadd]
    constructor
    · rintro ⟨mi, hmi, hx, hcovers⟩
      exact ⟨⟨mi, hmi, hx⟩, hcovers⟩
    · rintro ⟨⟨mi, hmi, hx⟩, hcovers⟩
      exact ⟨mi, hmi, hx, hcovers⟩

theorem mergeIntervals_within (hmaster : Ordered master) (hwithin : Within fromT toT master)
    (hadd : Ordered add) : Within fromT toT (mergeIntervals master add) := by
  unfold mergeIntervals
  split
  · exact within_nil
  · intro j hj
    obtain ⟨mi, hmi, hj⟩ := List.mem_flatMap.mp hj
    have hpieces := (mergeInterval_ordered true (hmaster.1 mi hmi) hadd).2
    exact (hpieces.mono (hwithin mi hmi).1 (hwithin mi hmi).2) j hj

/-- Intervals that end before the window leave nothing. -/
theorem mergeIntervals_before (hwithin : Within fromT toT master)
    (hadd : ∀ addi ∈ add, addi.2 < fromT) : mergeIntervals master add = [] := by
  have hpieces : ∀ (add : Intervals) (mi : Int × Int) (tested : Bool),
      (∀ addi ∈ add, addi.2 < mi.1) → mergeInterval mi tested add = [] := by
    intro add mi
    induction add with
    | nil => exact fun _ _ => rfl
    | cons addi add ih =>
      intro tested h
      obtain ⟨haddi, hadd⟩ := List.forall_mem_cons.mp h
      unfold mergeInterval
      rw [if_pos haddi, ih false hadd, ite_self]
  unfold mergeIntervals
  split
  · rfl
  · rw [List.flatMap_eq_nil_iff]
    intro mi hmi
    exact hpieces add mi true fun addi haddi => (hadd addi haddi).trans_le (hwithin mi hmi).1

/-! ## Samples -/

theorem Libnova.julian_lt (L : Libnova) {t s : Int} (h : t < s) : L.julian t < L.julian s := by
  have hadd := L.julian_add t (s - t)
  have hpos : (0 : ℚ) < ((s - t : Int) : ℚ) := by exact_mod_cast Int.sub_pos.mpr h
  rw [show t + (s - t) = s by omega] at hadd
  rw [hadd]
  linarith [div_pos hpos (by norm_num : (0 : ℚ) < 86400)]

@[simp] theorem Libnova.julian_lt_iff (L : Libnova) {t s : Int} :
    L.julian t < L.julian s ↔ t < s := by
  refine ⟨fun h => ?_, L.julian_lt⟩
  by_contra hle
  rcases (not_lt.mp hle).eq_or_lt with rfl | hlt
  · exact lt_irrefl _ h
  · exact lt_asymm h (L.julian_lt hlt)

/-- No constraint knows when the next change is. -/
theorem Constraint.satisfy_next (c : Constraint) (tar : Target) (JD : ℚ) :
    (c.satisfy tar JD).2 = none ∨ (c.satisfy tar JD).2 = some 0 := by
  have hknown : ∀ intervals val, (satisfyKnown intervals val).2 = none ∨
      (satisfyKnown intervals val).2 = some 0 := by
    intro intervals val
    cases val with
    | none => exact .inl rfl
    | some val => exact .inr rfl
  cases c with
  | maxRepeat n => exact .inl rfl
  | interval q intervals =>
    cases q with
    | time | laltitude | lphase | saltitude => exact .inr rfl
    | airmass | zenithDist | ha | dec | altitude | azimuth | ldistance | sdistance =>
      exact hknown intervals _

/-- Samples are whole seconds, and each comes after the one before. -/
theorem Constraint.next_sample (c : Constraint) (tar : Target) (hstep : 0 < step)
    (ha : L.julian a < L.julian toT) :
    ∃ b, a < b ∧
      nextSample (L.julian toT) step (L.julian a) (c.satisfy tar (L.julian a)).2 = L.julian b := by
  rcases c.satisfy_next tar (L.julian a) with h | h
  · rw [h]
    exact ⟨toT, L.julian_lt_iff.mp ha, rfl⟩
  · rw [h]
    exact ⟨a + step, by omega, (L.julian_add a step).symm⟩

theorem sampleFrom_ordered (hstep : 0 < step) (fuel : Nat) : ∀ (a : Int) (vf : Option Int),
    (∀ v ∈ vf, v ≤ a) →
      Ordered (sampleFrom L tar c (L.julian toT) step fuel (L.julian a) (vf.map L.julian)) ∧
      ∀ j ∈ sampleFrom L tar c (L.julian toT) step fuel (L.julian a) (vf.map L.julian),
        vf.getD a ≤ j.1 := by
  induction fuel with
  | zero => exact fun _ _ _ => ⟨ordered_nil, nofun⟩
  | succ fuel ih =>
    intro a vf hvf
    unfold sampleFrom
    split
    · next hend =>
      obtain ⟨b, hab, hb⟩ := c.next_sample tar hstep hend
      dsimp only
      rw [hb]
      cases vf with
      | none =>
        split
        · obtain ⟨hordered, hfrom⟩ := ih b (some a) (by simpa using hab.le)
          exact ⟨hordered, hfrom⟩
        · obtain ⟨hordered, hfrom⟩ := ih b none nofun
          exact ⟨hordered, fun j hj => hab.le.trans (hfrom j hj)⟩
      | some v =>
        have hva : v ≤ a := hvf v rfl
        split
        · obtain ⟨hordered, hfrom⟩ := ih b (some v) (by simpa using hva.trans hab.le)
          exact ⟨hordered, hfrom⟩
        · obtain ⟨hordered, hfrom⟩ := ih b none nofun
          have hnext : ∀ j ∈ sampleFrom L tar c (L.julian toT) step fuel (L.julian b) none,
              a ≤ j.1 := fun j hj => hab.le.trans (hfrom j hj)
          simp only [Option.map_some, L.timet_julian]
          refine ⟨ordered_cons.mpr ⟨hva, hnext, hordered⟩, List.forall_mem_cons.mpr ⟨le_refl v, ?_⟩⟩
          exact fun j hj => hva.trans (hnext j hj)
    · cases vf with
      | none => exact ⟨ordered_nil, nofun⟩
      | some v =>
        have hva : v ≤ a := hvf v rfl
        simp only [Option.map_some, L.timet_julian]
        exact ⟨ordered_cons.mpr ⟨hva, nofun, ordered_nil⟩, List.forall_mem_singleton.mpr (le_refl v)⟩

theorem Constraint.sampled_ordered (c : Constraint) (hstep : 0 < step) :
    Ordered (c.sampled L tar fromT toT step) :=
  (sampleFrom_ordered hstep _ fromT none nofun).1

/-- The sample before a time is the one here. -/
theorem sample_here (hax : a ≤ x) (hxa : x < a + step) : a + (x - a) / step * step = a := by
  rw [Int.ediv_eq_zero_of_lt (by omega) (by omega)]
  omega

/-- The sample before a time is the same one from the next sample on. -/
theorem sample_next (hstep : 0 < step) (a x : Int) :
    a + step + (x - (a + step)) / step * step = a + (x - a) / step * step := by
  rw [show x - (a + step) = x - a + -1 * step by ring, Int.add_mul_ediv_right _ _ (by omega)]
  ring

/-- What begins with a sample that satisfies the constraint goes on to the next one. -/
theorem covers_through {satisfied : Int → Prop} (hstep : 0 < step) (hsat : satisfied a)
    {vf : Option Int} (hvf : ∀ v ∈ vf, v ≤ a) :
    ((∃ v ∈ some (vf.getD a), v ≤ x ∧ x < a + step) ∨
        a + step ≤ x ∧ satisfied (a + (x - a) / step * step)) ↔
      (∃ v ∈ vf, v ≤ x ∧ x < a) ∨ a ≤ x ∧ satisfied (a + (x - a) / step * step) := by
  have hle : vf.getD a ≤ a := by
    cases vf with
    | none => exact le_refl a
    | some v => exact hvf v rfl
  constructor
  · rintro (⟨w, hw, hwx, hxa⟩ | ⟨hax, hs⟩)
    · cases hw
      by_cases hbefore : x < a
      · cases vf with
        | none =>
          have hax : a ≤ x := hwx
          omega
        | some v => exact .inl ⟨v, rfl, hwx, hbefore⟩
      · rw [sample_here (by omega) hxa]
        exact .inr ⟨by omega, hsat⟩
    · exact .inr ⟨by omega, hs⟩
  · rintro (⟨v, hv, hvx, hxa⟩ | ⟨hax, hs⟩)
    · cases hv
      exact .inl ⟨v, rfl, hvx, by omega⟩
    · by_cases hxa : x < a + step
      · exact .inl ⟨vf.getD a, rfl, hle.trans hax, hxa⟩
      · exact .inr ⟨by omega, hs⟩

/-- A time is covered when the sample before it satisfies the constraint. -/
theorem sampleFrom_covers (hstep : 0 < step)
    (hnext : ∀ JD, (c.satisfy tar JD).2 = some 0) (hx : x < toT) (fuel : Nat) :
    ∀ (a : Int) (vf : Option Int), (toT - a).toNat < fuel → (∀ v ∈ vf, v ≤ a) →
      (Covers (sampleFrom L tar c (L.julian toT) step fuel (L.julian a) (vf.map L.julian)) x ↔
        (∃ v ∈ vf, v ≤ x ∧ x < a) ∨
          a ≤ x ∧ (c.satisfy tar (L.julian (a + (x - a) / step * step))).1 = true) := by
  induction fuel with
  | zero => intro a vf hfuel; omega
  | succ fuel ih =>
    intro a vf hfuel hvf
    unfold sampleFrom
    split
    · next hend =>
      have hlt := L.julian_lt_iff.mp hend
      have hrest : ∀ vf : Option Int, (∀ v ∈ vf, v ≤ a) →
          (Covers (sampleFrom L tar c (L.julian toT) step fuel (L.julian (a + step))
            (vf.map L.julian)) x ↔ (∃ v ∈ vf, v ≤ x ∧ x < a + step) ∨ a + step ≤ x ∧
              (c.satisfy tar (L.julian (a + (x - a) / step * step))).1 = true) := by
        intro vf hvf
        rw [ih (a + step) vf (by omega) fun v hv => (hvf v hv).trans (by omega), sample_next hstep]
      have hsample : nextSample (L.julian toT) step (L.julian a) (c.satisfy tar (L.julian a)).2 =
          L.julian (a + step) := by
        rw [hnext, L.julian_add]
        rfl
      dsimp only
      rw [hsample]
      cases hsat : (c.satisfy tar (L.julian a)).1 with
      | true =>
        have hfirst : some ((vf.map L.julian).getD (L.julian a)) =
            (some (vf.getD a)).map L.julian := by cases vf <;> rfl
        have hle : vf.getD a ≤ a := by
          cases vf with
          | none => exact le_refl a
          | some v => exact hvf v rfl
        rw [if_pos rfl, hfirst, hrest _ (by simpa using hle)]
        exact @covers_through step a x (fun t => (c.satisfy tar (L.julian t)).1 = true) hstep hsat vf hvf
      | false =>
        have hlater : a + step ≤ x ∧
            (c.satisfy tar (L.julian (a + (x - a) / step * step))).1 = true ↔
            a ≤ x ∧ (c.satisfy tar (L.julian (a + (x - a) / step * step))).1 = true := by
          refine and_congr_left fun hs => ⟨fun h => by omega, fun hax => ?_⟩
          by_contra hxa
          rw [sample_here hax (by omega), hsat] at hs
          cases hs
        have hnone := hrest none nofun
        rw [hlater] at hnone
        rw [if_neg Bool.false_ne_true]
        cases vf with
        | none => simpa using hnone
        | some v =>
          simp only [Option.map_some, L.timet_julian, covers_cons]
          rw [Option.map_none] at hnone
          rw [hnone]
          simp
    · next hend =>
      have hle : toT ≤ a := by
        rw [L.julian_lt_iff] at hend
        omega
      cases vf with
      | none =>
        simp only [Option.map_none]
        refine iff_of_false covers_nil ?_
        rintro (⟨v, hv, -⟩ | ⟨hax, -⟩)
        · cases hv
        · omega
      | some v =>
        have hva : v ≤ a := hvf v rfl
        simp only [Option.map_some, L.timet_julian, covers_cons]
        constructor
        · rintro (hvx | hnil)
          · exact .inl ⟨v, rfl, hvx⟩
          · exact absurd hnil covers_nil
        · rintro (⟨w, hw, hwx⟩ | ⟨hax, -⟩)
          · cases hw
            exact .inl hwx
          · omega

/-- The samples find a change of the constraint no later than a step after it. -/
theorem Constraint.sampled_covers (c : Constraint) (hstep : 0 < step)
    (hnext : ∀ JD, (c.satisfy tar JD).2 = some 0) (hfrom : fromT ≤ x) (hx : x < toT) :
    Covers (c.sampled L tar fromT toT step) x ↔
      (c.satisfy tar (L.julian (fromT + (x - fromT) / step * step))).1 = true := by
  unfold Constraint.sampled
  have hcovers := sampleFrom_covers (L := L) hstep hnext hx ((toT - fromT).toNat + 1) fromT none
    (Nat.lt_succ_self _) nofun
  rw [Option.map_none] at hcovers
  rw [hcovers]
  simp [hfrom]

/-! ## Sets of constraints -/

/-- The interval of a time constraint gives none that reaches into the window: its dates
are compared with the seconds of the window, the upper one as the lower one. -/
def ConstraintDoubleInterval.Unreached (fromT toT : Int) (i : ConstraintDoubleInterval) : Prop :=
  match i.upper, i.lower with
  | some l, some u => l < fromT ∨ toT < u ∨ toTimet u < fromT
  | none, some u => toT < u ∨ toTimet u < fromT
  | some l, none => l < fromT
  | none, none => True

theorem ConstraintDoubleInterval.Unreached.before {i : ConstraintDoubleInterval}
    (h : i.Unreached fromT toT) : ∀ j ∈ i.timeIntervals fromT toT, j.2 < fromT := by
  unfold ConstraintDoubleInterval.Unreached at h
  unfold ConstraintDoubleInterval.timeIntervals
  cases hl : i.upper with
  | none =>
    cases hu : i.lower with
    | none => exact nofun
    | some u =>
      simp only [hl, hu] at h
      dsimp only
      split
      · next hto => exact List.forall_mem_singleton.mpr (h.resolve_left (not_lt.mpr hto))
      · exact nofun
  | some l =>
    cases hu : i.lower with
    | none =>
      simp only [hl, hu] at h
      dsimp only
      rw [if_neg (not_le.mpr h)]
      exact nofun
    | some u =>
      simp only [hl, hu] at h
      dsimp only
      split
      · next hreach =>
        have hbefore := (h.resolve_left (not_lt.mpr hreach.1)).resolve_left (not_lt.mpr hreach.2)
        exact List.forall_mem_singleton.mpr hbefore
      · exact nofun

/-- A constraint whose list `mergeIntervals` can take. -/
def Constraint.Mergeable (fromT toT : Int) : Constraint → Prop
  | .interval .time intervals => ∀ i ∈ intervals, i.Unreached fromT toT
  | _ => True

theorem Constraint.Mergeable.ordered_or_before (h : c.Mergeable fromT toT) (hle : fromT ≤ toT)
    (hstep : 0 < step) :
    Ordered (c.getSatisfiedIntervals L tar fromT toT step) ∨
      ∀ j ∈ c.getSatisfiedIntervals L tar fromT toT step, j.2 < fromT := by
  cases c with
  | maxRepeat n =>
    refine .inl ?_
    show Ordered (if n ≤ 0 ∨ tar.totalNumberOfObservations < n then [(fromT, toT)] else [])
    split
    · exact ordered_cons.mpr ⟨hle, nofun, ordered_nil⟩
    · exact ordered_nil
  | interval q intervals =>
    cases q with
    | time =>
      refine .inr fun j hj => ?_
      obtain ⟨i, hi, hj⟩ := List.mem_flatMap.mp hj
      exact (h i hi).before j hj
    | ldistance =>
      refine .inl ?_
      show Ordered (if tar.hasConstantPosition then _ else _)
      split
      · exact Constraint.sampled_ordered _ (by norm_num)
      · exact Constraint.sampled_ordered _ hstep
    | airmass | zenithDist | ha | dec | altitude | azimuth | laltitude | lphase | sdistance
    | saltitude => exact .inl (Constraint.sampled_ordered _ hstep)

/-- `ret` is an ordered list of intervals in the window, and stands for what the lists of
the constraints have in common there. -/
structure Intersection (fromT toT : Int) (lists : List Intervals) (ret : Intervals) : Prop where
  ordered : Ordered ret
  within : Within fromT toT ret
  covers : ∀ x, Covers ret x ↔ (fromT ≤ x ∧ x < toT) ∧ ∀ is ∈ lists, Covers is x

/-- One more list is merged. -/
theorem Intersection.merge {lists : List Intervals} {ret is : Intervals}
    (h : Intersection fromT toT lists ret) (his : Ordered is ∨ ∀ i ∈ is, i.2 < fromT) :
    Intersection fromT toT (lists ++ [is]) (mergeIntervals ret is) := by
  rcases his with hordered | hbefore
  · refine ⟨mergeIntervals_ordered h.ordered hordered,
      mergeIntervals_within h.ordered h.within hordered, fun x => ?_⟩
    rw [mergeIntervals_covers hordered, h.covers, List.forall_mem_append, List.forall_mem_singleton,
      and_assoc]
  · rw [mergeIntervals_before h.within hbefore]
    refine ⟨ordered_nil, within_nil, fun x => iff_of_false covers_nil ?_⟩
    rintro ⟨hx, hall⟩
    obtain ⟨i, hi, hix⟩ := hall is (List.mem_append_right _ (List.mem_singleton_self _))
    have hend := hbefore i hi
    omega

/-- The whole window is what no constraint leaves, and each list is merged with what the lists
before it leave. -/
theorem Intersection.of_mergeable (hle : fromT ≤ toT) (hstep : 0 < step) (constraints : List Constraint)
    (hmerge : ∀ c ∈ constraints, c.Mergeable fromT toT) :
    Intersection fromT toT
      (constraints.map fun c => c.getSatisfiedIntervals L tar fromT toT step)
      (getSatisfiedIntervals L tar fromT toT step constraints) := by
  have hstart : Intersection fromT toT [] [(fromT, toT)] := by
    refine ⟨ordered_cons.mpr ⟨hle, nofun, ordered_nil⟩, within_cons.mpr ⟨⟨le_refl _, le_refl _⟩, nofun⟩,
      fun x => ?_⟩
    simp
  unfold getSatisfiedIntervals
  induction constraints using List.reverseRecOn with
  | nil => exact hstart
  | append_singleton constraints c ih =>
    obtain ⟨hrest, hc⟩ := List.forall_mem_append.mp hmerge
    rw [List.foldl_append, List.map_append]
    exact (ih hrest).merge ((List.forall_mem_singleton.mp hc).ordered_or_before hle hstep)

/-- **The merged list is the intersection** of the lists of the constraints, in the
window, in whatever order the constraints are stored. -/
theorem getSatisfiedIntervals_intersection (L : Libnova) (tar : Target) {fromT toT step : Int}
    (hle : fromT ≤ toT) (hstep : 0 < step) (constraints : List Constraint)
    (hmerge : ∀ c ∈ constraints, c.Mergeable fromT toT) :
    Intersection fromT toT
      (constraints.map fun c => c.getSatisfiedIntervals L tar fromT toT step)
      (getSatisfiedIntervals L tar fromT toT step constraints) :=
  .of_mergeable hle hstep constraints hmerge

/-- A star that rises at noon, observed twice. -/
def risingStar : Target := ⟨fun _ jd => some (jd - 4881175 / 2), false, 2⟩

theorem getSatisfiedIntervals_intersection_rising :
    Intersection 0 86400
      ([.interval .ha [⟨some (1 / 2), none⟩], .maxRepeat 3].map fun c : Constraint =>
        c.getSatisfiedIntervals .exact risingStar 0 86400 50000)
      (getSatisfiedIntervals .exact risingStar 0 86400 50000
        [.interval .ha [⟨some (1 / 2), none⟩], .maxRepeat 3]) :=
  getSatisfiedIntervals_intersection _ _ (by norm_num) (by norm_num) _
    (List.forall_mem_cons.mpr ⟨trivial, List.forall_mem_singleton.mpr trivial⟩)

/-- The first of January 1970, in the window of that month: the interval ends before it
begins. -/
theorem january_reversed : ¬Intersection 0 2592000
    ([.interval .time [⟨some (4881175 / 2), some (4881177 / 2)⟩]].map fun c : Constraint =>
      c.getSatisfiedIntervals .exact risingStar 0 2592000 60)
    (getSatisfiedIntervals .exact risingStar 0 2592000 60
      [.interval .time [⟨some (4881175 / 2), some (4881177 / 2)⟩]]) := by
  intro h
  have hret : getSatisfiedIntervals .exact risingStar 0 2592000 60
      [.interval .time [⟨some (4881175 / 2), some (4881177 / 2)⟩]] = [(2440588, 2440587)] := by
    decide +kernel
  have hordered := h.ordered.1 (2440588, 2440587) (by rw [hret]; exact List.mem_singleton_self _)
  omega

end Rts2.Db
