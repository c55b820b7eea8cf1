import Rts2.Db.TimeConstraint
import Rts2.Lib.Gaps

/-! # The times at which a constraint is violated

They are what the times at which it is satisfied leave of the window. -/
namespace Rts2.Db
open Rts2.Lib

/-- One turn of the loop, on `ret` and `t`. -/
def reverseTurn (acc : Intervals × Int) (i : Int × Int) : Intervals × Int :=
  (if acc.2 < i.1 then acc.1 ++ [(acc.2, i.1)] else acc.1, i.2)

/-- `reverseInterval`. Intervals must be ordered. -/
def reverseInterval (fromT toT : Int) (intervals : Intervals) : Intervals :=
  match intervals.getLast? with
  | some last =>
    let ret := (intervals.foldl reverseTurn ([], fromT)).1
    if last.2 < toT then ret ++ [(last.2, toT)] else ret
  | none => [(fromT, toT)]

/-- `Constraint::getViolatedIntervals` -/
def Constraint.getViolatedIntervals (L : Libnova) (tar : Target) (fromT toT step : Int)
    (c : Constraint) : Intervals :=
  reverseInterval fromT toT (c.getSatisfiedIntervals L tar fromT toT step)

/-- `Constraints::getViolatedIntervals` -/
def getViolatedIntervals (L : Libnova) (tar : Target) (fromT toT step : Int)
    (constraints : List Constraint) : Intervals :=
  reverseInterval fromT toT (getSatisfiedIntervals L tar fromT toT step constraints)

/-- An ordered list without empty intervals, of what a list leaves of the window. -/
structure Complement (fromT toT : Int) (is ret : Intervals) : Prop where
  ordered : Ordered ret
  proper : Proper ret
  covers : ∀ x, Covers ret x ↔ (fromT ≤ x ∧ x < toT) ∧ ¬Covers is x

/-- A list without touching intervals that covers the same. -/
structure Restored (is ret : Intervals) : Prop where
  ordered : Ordered ret
  apart : Apart ret
  covers : ∀ x, Covers ret x ↔ Covers is x

/-- Each time of the window is in an interval of one of the lists, and of one only. -/
structure Partition (fromT toT : Int) (satisfied violated : Intervals) : Prop where
  satisfied_ordered : Ordered satisfied
  violated_ordered : Ordered violated
  violated_within : Within fromT toT violated
  covers : ∀ x, fromT ≤ x → x < toT → (Covers violated x ↔ ¬Covers satisfied x)

/-- A constraint that is sampled, or a time constraint that gives nothing. -/
def Constraint.Quiet (fromT toT : Int) : Constraint → Prop
  | .interval .time intervals => ∀ i ∈ intervals, i.Silent fromT toT
  | _ => True

variable {L : Libnova} {tar : Target} {c : Constraint} {fromT toT step t : Int} {is ret : Intervals}

/-! ## Reversed lists -/

theorem foldl_reverseTurn (is ret : Intervals) (t : Int) :
    (if (is.foldl reverseTurn (ret, t)).2 < toT then
        (is.foldl reverseTurn (ret, t)).1 ++ [((is.foldl reverseTurn (ret, t)).2, toT)]
      else (is.foldl reverseTurn (ret, t)).1) = ret ++ gaps toT t is := by
  induction is generalizing ret t with
  | nil =>
    by_cases hlt : t < toT
    · simp [gaps, hlt]
    · simp [gaps, hlt]
  | cons i is ih =>
    rw [List.foldl_cons]
    by_cases hlt : t < i.1
    · have hturn : reverseTurn (ret, t) i = (ret ++ [(t, i.1)], i.2) := by
        rw [reverseTurn, if_pos hlt]
      rw [hturn, ih, gaps_cons_of_lt hlt, List.append_assoc, List.singleton_append]
    · have hturn : reverseTurn (ret, t) i = (ret, i.2) := by rw [reverseTurn, if_neg hlt]
      rw [hturn, ih, gaps_cons_of_le (not_lt.mp hlt)]

theorem foldl_reverseTurn_snd (is : Intervals) (acc : Intervals × Int) :
    (is.foldl reverseTurn acc).2 = (is.getLast?.map Prod.snd).getD acc.2 := by
  induction is using List.reverseRecOn with
  | nil => rfl
  | append_singleton is i ih => simp [List.foldl_append, reverseTurn]

/-- The loop finds the gaps, if there is an interval. -/
theorem reverseInterval_eq_gaps (h : is ≠ [] ∨ fromT < toT) :
    reverseInterval fromT toT is = gaps toT fromT is := by
  unfold reverseInterval
  cases hlast : is.getLast? with
  | none =>
    have hnil := List.getLast?_eq_none_iff.mp hlast
    rw [hnil]
    exact (if_pos (h.resolve_left fun hne => hne hnil)).symm
  | some last =>
    have hsnd := foldl_reverseTurn_snd is ([], fromT)
    rw [hlast] at hsnd
    have hfold := @foldl_reverseTurn toT is [] fromT
    rw [hsnd] at hfold
    exact hfold

theorem reverseInterval_empty (hnil : is = []) : reverseInterval fromT toT is = [(fromT, toT)] := by
  rw [hnil]
  rfl

theorem reverseInterval_ordered (hle : fromT ≤ toT) (hordered : Ordered is)
    (hbegins : Begins fromT toT is) :
    Ordered (reverseInterval fromT toT is) ∧ Within fromT toT (reverseInterval fromT toT is) := by
  by_cases h : is ≠ [] ∨ fromT < toT
  · rw [reverseInterval_eq_gaps h]
    exact ⟨gaps_ordered hordered hbegins, gaps_within hordered hbegins⟩
  · rw [reverseInterval_empty (not_not.mp fun hne => h (.inl hne))]
    refine ⟨ordered_cons.mpr ⟨hle, fun j hj => absurd hj List.not_mem_nil, ordered_nil⟩, ?_⟩
    exact within_cons.mpr ⟨⟨le_refl _, le_refl _⟩, within_nil⟩

theorem reverseInterval_covers (hordered : Ordered is) (hbegins : Begins fromT toT is) (x : Int) :
    Covers (reverseInterval fromT toT is) x ↔ (fromT ≤ x ∧ x < toT) ∧ ¬Covers is x := by
  by_cases h : is ≠ [] ∨ fromT < toT
  · rw [reverseInterval_eq_gaps h]
    exact gaps_covers hordered hbegins
  · have hnil : is = [] := not_not.mp fun hne => h (.inl hne)
    rw [reverseInterval_empty hnil, hnil]
    simp

/-- Without an interval an empty window is an interval of its own. -/
theorem complement_iff (hle : fromT ≤ toT) (hordered : Ordered is) (hbegins : Begins fromT toT is) :
    Complement fromT toT is (reverseInterval fromT toT is) ↔ is ≠ [] ∨ fromT < toT := by
  constructor
  · intro hcomplement
    by_contra h
    have hproper := hcomplement.proper
    rw [reverseInterval_empty (not_not.mp fun hne => h (.inl hne))] at hproper
    exact h (.inr (hproper (fromT, toT) (List.mem_singleton_self _)))
  · intro h
    refine ⟨(reverseInterval_ordered hle hordered hbegins).1, ?_, reverseInterval_covers hordered hbegins⟩
    rw [reverseInterval_eq_gaps h]
    exact gaps_proper toT fromT is

/-- Reversed twice. -/
theorem reverseInterval_restored (hle : fromT ≤ toT) (hordered : Ordered is)
    (hwithin : Within fromT toT is) :
    Restored is (reverseInterval fromT toT (reverseInterval fromT toT is)) := by
  have hbegins := hwithin.begins hordered
  obtain ⟨hordered', hwithin'⟩ := reverseInterval_ordered hle hordered hbegins
  have hbegins' := hwithin'.begins hordered'
  refine ⟨(reverseInterval_ordered hle hordered' hbegins').1, ?_, fun x => ?_⟩
  · by_cases hnil : reverseInterval fromT toT is = []
    · rw [reverseInterval_empty hnil]
      exact List.pairwise_singleton _ _
    · rw [reverseInterval_eq_gaps (.inl hnil)]
      by_cases h : is ≠ [] ∨ fromT < toT
      · refine gaps_apart hordered' hbegins' ?_
        rw [reverseInterval_eq_gaps h]
        exact gaps_proper toT fromT is
      · have hsame : fromT = toT := hle.eq_or_lt.resolve_right fun hlt => h (.inr hlt)
        rw [reverseInterval_empty (not_not.mp fun hne => h (.inl hne)), hsame]
        simp [gaps, Apart]
  · rw [reverseInterval_covers hordered' hbegins', reverseInterval_covers hordered hbegins]
    constructor
    · intro h
      exact not_not.mp fun hnot => h.2 ⟨h.1, hnot⟩
    · intro h
      exact ⟨hwithin.covers h, fun hrev => hrev.2 h⟩

/-! ## Constraints -/

theorem Partition.of_reverse (hle : fromT ≤ toT) (hordered : Ordered is) (hbegins : Begins fromT toT is) :
    Partition fromT toT is (reverseInterval fromT toT is) := by
  obtain ⟨hordered', hwithin'⟩ := reverseInterval_ordered hle hordered hbegins
  refine ⟨hordered, hordered', hwithin', fun x hfrom hto => ?_⟩
  rw [reverseInterval_covers hordered hbegins]
  exact and_iff_right ⟨hfrom, hto⟩

/-- An interval begins with a sample of the window. -/
theorem sampleFrom_begins (hstep : 0 < step) (fuel : Nat) (a : Int) (vf : Option Int)
    (hvf : ∀ v ∈ vf, v < toT) :
    ∀ j ∈ sampleFrom L tar c (L.julian toT) step fuel (L.julian a) (vf.map L.julian), j.1 < toT := by
  induction fuel generalizing a vf with
  | zero => exact fun j hj => absurd hj List.not_mem_nil
  | succ fuel ih =>
    unfold sampleFrom
    by_cases hend : L.julian a < L.julian toT
    · obtain ⟨b, -, hb⟩ := c.next_sample tar hstep hend
      rw [if_pos hend]
      dsimp only
      rw [hb]
      cases vf with
      | none =>
        split
        · exact ih b (some a) fun v hv => Option.some.inj hv ▸ L.julian_lt_iff.mp hend
        · exact ih b none fun v hv => (by cases hv)
      | some v =>
        have hv : v < toT := hvf v rfl
        split
        · exact ih b (some v) fun v' hv' => Option.some.inj hv' ▸ hv
        · simp only [Option.map_some, L.timet_julian]
          exact List.forall_mem_cons.mpr ⟨hv, ih b none fun v' hv' => (by cases hv')⟩
    · rw [if_neg hend]
      cases vf with
      | none => exact fun j hj => absurd hj List.not_mem_nil
      | some v =>
        simp only [Option.map_some, L.timet_julian]
        exact List.forall_mem_singleton.mpr (hvf v rfl)

theorem Constraint.sampled_begins (c : Constraint) (hstep : 0 < step) :
    Begins fromT toT (c.sampled L tar fromT toT step) := fun j hj =>
  ⟨(sampleFrom_ordered hstep _ fromT none fun v hv => (by cases hv)).2 j hj,
    (sampleFrom_begins hstep _ fromT none (fun v hv => (by cases hv)) j hj).le⟩

theorem Constraint.Quiet.ordered_begins (h : c.Quiet fromT toT) (hle : fromT ≤ toT) (hstep : 0 < step) :
    Ordered (c.getSatisfiedIntervals L tar fromT toT step) ∧
      Begins fromT toT (c.getSatisfiedIntervals L tar fromT toT step) := by
  have hsampled : ∀ (c : Constraint) {step : Int}, 0 < step →
      Ordered (c.sampled L tar fromT toT step) ∧ Begins fromT toT (c.sampled L tar fromT toT step) :=
    fun c _ hstep => ⟨c.sampled_ordered hstep, c.sampled_begins hstep⟩
  have hnil : Ordered ([] : Intervals) ∧ Begins fromT toT [] :=
    ⟨ordered_nil, fun j hj => absurd hj List.not_mem_nil⟩
  cases c with
  | maxRepeat n =>
    show Ordered (if n ≤ 0 ∨ tar.totalNumberOfObservations < n then [(fromT, toT)] else []) ∧
      Begins fromT toT (if n ≤ 0 ∨ tar.totalNumberOfObservations < n then [(fromT, toT)] else [])
    split
    · refine ⟨ordered_cons.mpr ⟨hle, fun j hj => absurd hj List.not_mem_nil, ordered_nil⟩, ?_⟩
      exact List.forall_mem_singleton.mpr ⟨le_refl _, hle⟩
    · exact hnil
  | interval q intervals =>
    cases q with
    | time =>
      have hgives : (Constraint.interval .time intervals).getSatisfiedIntervals L tar fromT toT step = [] :=
        List.flatMap_eq_nil_iff.mpr fun i hi => i.timeIntervals_nil.mpr (h i hi)
      rw [hgives]
      exact hnil
    | ldistance =>
      show Ordered (if tar.hasConstantPosition then _ else _) ∧
        Begins fromT toT (if tar.hasConstantPosition then _ else _)
      split
      · exact hsampled _ (by norm_num)
      · exact hsampled _ hstep
    | airmass | zenithDist | ha | dec | altitude | azimuth | laltitude | lphase | sdistance
    | saltitude => exact hsampled _ hstep

/-- A list is reversed to its complement if it is not empty or the window is not, and twice to
itself; the violated and the satisfied intervals of constraints without time bounds that reach
into the window partition it. -/
theorem reverseInterval_laws (L : Libnova) (tar : Target) {fromT toT step : Int} (hle : fromT ≤ toT)
    (hstep : 0 < step) :
    (∀ is, Ordered is → Within fromT toT is →
      (Complement fromT toT is (reverseInterval fromT toT is) ↔ is ≠ [] ∨ fromT < toT) ∧
        Restored is (reverseInterval fromT toT (reverseInterval fromT toT is))) ∧
    (∀ c : Constraint, c.Quiet fromT toT → Partition fromT toT
      (c.getSatisfiedIntervals L tar fromT toT step) (c.getViolatedIntervals L tar fromT toT step)) ∧
    ∀ constraints : List Constraint, (∀ c ∈ constraints, c.Mergeable fromT toT) → Partition fromT toT
      (getSatisfiedIntervals L tar fromT toT step constraints)
      (getViolatedIntervals L tar fromT toT step constraints) := by
  refine ⟨fun is hordered hwithin => ⟨?_, ?_⟩, fun c hquiet => ?_, fun constraints hmerge => ?_⟩
  · exact complement_iff hle hordered (hwithin.begins hordered)
  · exact reverseInterval_restored hle hordered hwithin
  · obtain ⟨hordered, hbegins⟩ := @Constraint.Quiet.ordered_begins L tar c fromT toT step hquiet hle hstep
    exact .of_reverse hle hordered hbegins
  · have hmerged := @Intersection.of_mergeable L tar fromT toT step hle hstep constraints hmerge
    exact .of_reverse hle hmerged.ordered (hmerged.within.begins hmerged.ordered)

/-- A star that rises at noon, in the window of a day. -/
theorem reverseInterval_laws_rising :
    Partition 0 86400
      (getSatisfiedIntervals .exact risingStar 0 86400 50000 [.interval .ha [⟨some (1 / 2), none⟩]])
      (getViolatedIntervals .exact risingStar 0 86400 50000 [.interval .ha [⟨some (1 / 2), none⟩]]) :=
  (reverseInterval_laws .exact risingStar (by norm_num) (by norm_num)).2.2 _
    (List.forall_mem_singleton.mpr trivial)

/-- An empty window has an empty interval as its complement, and the first of January 1970 has its
bounds swapped. -/
theorem complement_and_partition_broken :
    ¬Complement 0 0 [] (reverseInterval 0 0 []) ∧
      ¬Partition 0 2592000
        (getSatisfiedIntervals .exact risingStar 0 2592000 60
          [.interval .time [⟨some (4881175 / 2), some (4881177 / 2)⟩]])
        (getViolatedIntervals .exact risingStar 0 2592000 60
          [.interval .time [⟨some (4881175 / 2), some (4881177 / 2)⟩]]) := by
  refine ⟨fun h => ?_, fun h => ?_⟩
  · have hproper := h.proper (0, 0) (List.mem_singleton_self _)
    exact lt_irrefl 0 hproper
  · have hret : getSatisfiedIntervals .exact risingStar 0 2592000 60
        [.interval .time [⟨some (4881175 / 2), some (4881177 / 2)⟩]] = [(2440588, 2440587)] := by
      decide +kernel
    have hordered := h.satisfied_ordered.1 (2440588, 2440587) (hret ▸ List.mem_singleton_self _)
    omega

end Rts2.Db
