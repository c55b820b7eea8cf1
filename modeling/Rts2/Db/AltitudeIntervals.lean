import Rts2.Db.Constraint
import Rts2.Lib.While

/-! # Altitudes at which a constraint is violated

Constraints on the airmass and the zenith distance of a target are constraints on its altitude.
`getAltitudeViolatedIntervals` goes down from the zenith through the altitudes they allow. As
quantities have half-open intervals, altitudes are those above -90 and up to 90. -/
namespace Rts2.Db.Altitude
open Rts2.Lib

/-- A quantity of a target at its altitude, and the altitude of a quantity, which is not known
where no altitude has it. -/
structure AltitudeQuantity where
  quantity : ℚ → ℚ
  altitude : ℚ → Option ℚ
  falls : ∀ {q a x}, altitude q = some a → -90 < x → x ≤ 90 → (q ≤ quantity x ↔ x ≤ a)

/-- `ConstraintZenithDistance` -/
def zenithDistance : AltitudeQuantity where
  quantity x := 90 - x
  altitude q := some (90 - q)
  falls h _ _ := by
    obtain rfl := Option.some.inj h
    constructor
    · intro hle
      linarith
    · intro hle
      linarith

/-- `getAltitudeIntervals` of `ConstraintAirmass` and `ConstraintZenithDistance` -/
def getAltitudeIntervals (q : AltitudeQuantity) (intervals : List ConstraintDoubleInterval) :
    List ConstraintDoubleInterval :=
  intervals.map fun i => ⟨i.upper.bind q.altitude, i.lower.bind q.altitude⟩

/-- The altitude `ah` of an interval that is higher than the highest one so far. -/
def higher (ah : ℚ) (i : ConstraintDoubleInterval) : Option ℚ :=
  match i.upper, i.lower with
  | some u, _ => if ah < u then some u else none
  | none, some l => if ah < l then some l else none
  | none, none => none

/-- The loop that finds the highest altitude: the interval, its altitude and the list without it.
The intervals before the highest one so far and those behind it are kept. -/
def findHighest (before : List ConstraintDoubleInterval) (highest : ConstraintDoubleInterval)
    (behind : List ConstraintDoubleInterval) (ah : ℚ) :
    List ConstraintDoubleInterval → ConstraintDoubleInterval × ℚ × List ConstraintDoubleInterval
  | [] => (highest, ah, before ++ behind)
  | i :: si =>
    match higher ah i with
    | some ah' => findHighest (before ++ highest :: behind) i [] ah' si
    | none => findHighest before highest (behind ++ [i]) ah si

/-- The highest of the intervals: from the first one on, with -90 if it has no upper bound. -/
def takeHighest (i : ConstraintDoubleInterval) (si : List ConstraintDoubleInterval) :
    ConstraintDoubleInterval × ℚ × List ConstraintDoubleInterval :=
  findHighest [] i [] (i.upper.getD (-90)) si

/-- `si`, `alt` and `ac`. -/
structure State where
  si : List ConstraintDoubleInterval
  alt : ℚ
  ac : List ConstraintDoubleInterval

/-- One turn of the loop of `getAltitudeViolatedIntervals`. -/
def turn (s : State) : State ⊕ List ConstraintDoubleInterval :=
  if -90 < s.alt then
    match s.si with
    | [] => .inl ⟨[], -90, if s.ac ≠ [] ∨ s.alt < 90 then s.ac ++ [⟨some s.alt, some (-90)⟩] else s.ac⟩
    | i :: si =>
      let (highest, ah, rest) := takeHighest i si
      -- decide which part is violated..
      .inl ⟨rest, highest.lower.getD (-90),
        if highest.upper.isSome ∧ ah < s.alt then s.ac ++ [⟨some s.alt, some ah⟩] else s.ac⟩
  else .inr s.ac

/-- `Constraint::getAltitudeViolatedIntervals`; an interval is erased in each turn. -/
def getAltitudeViolatedIntervals (q : AltitudeQuantity) (intervals : List ConstraintDoubleInterval) :
    Option (List ConstraintDoubleInterval) :=
  turns turn (intervals.length + 2) ⟨getAltitudeIntervals q intervals, 90, []⟩

/-! ## What is allowed and what is violated -/

/-- The interval holds an altitude. -/
def Holds (i : ConstraintDoubleInterval) (x : ℚ) : Prop := (∀ l ∈ i.lower, l < x) ∧ ∀ u ∈ i.upper, x ≤ u

/-- A violated interval goes down, from its first bound to its second one. -/
def Marks (v : ConstraintDoubleInterval) (x : ℚ) : Prop := ∃ hi lo, v = ⟨some hi, some lo⟩ ∧ lo < x ∧ x ≤ hi

/-- The violated intervals mark the altitudes that `satisfy` does not accept, and no others. -/
def Exact (q : AltitudeQuantity) (intervals ac : List ConstraintDoubleInterval) : Prop :=
  ∀ x, -90 < x → x ≤ 90 → ((∃ v ∈ ac, Marks v x) ↔ isBetween intervals (some (q.quantity x)) = false)

/-- A bound that no altitude has is below them all, or above them all. -/
def Bounded (q : AltitudeQuantity) (i : ConstraintDoubleInterval) : Prop :=
  (∀ l ∈ i.lower, q.altitude l = none → ∀ x, -90 < x → x ≤ 90 → l ≤ q.quantity x) ∧
    ∀ u ∈ i.upper, q.altitude u = none → ∀ x, -90 < x → x ≤ 90 → q.quantity x < u

/-- The intervals in the order in which the loop takes them. -/
def taken : Nat → List ConstraintDoubleInterval → List ConstraintDoubleInterval
  | 0, _ => []
  | _ + 1, [] => []
  | n + 1, i :: si => (takeHighest i si).1 :: taken n (takeHighest i si).2.2

/-- By its bounds, an interval holds no altitude above `lo` and up to `hi`. -/
def Away (lo hi : ℚ) (i : ConstraintDoubleInterval) : Prop :=
  min (min hi 90) (i.upper.getD 90) ≤ max (max lo (-90)) (i.lower.getD (-90))

/-- From `alt` down to -90, no interval of `all` reaches in where the next one to be taken ends
below; and when none was below the others, and all are taken, `alt` is below 90. -/
def Clear (all : List ConstraintDoubleInterval) : ℚ → Bool → List ConstraintDoubleInterval → Prop
  | alt, below, [] => -90 < alt → (below = true ∨ alt < 90) ∧ ∀ i ∈ all, Away (-90) alt i
  | alt, below, i :: order => -90 < alt →
    (∀ u ∈ i.upper, u < alt → ∀ i ∈ all, Away u alt i) ∧
      Clear all (i.lower.getD (-90)) (below || i.upper.any (· < alt)) order

/-- The intervals of a constraint, in their order, leave nothing out between them that is allowed. -/
def ClearConstraint (q : AltitudeQuantity) (intervals : List ConstraintDoubleInterval) : Prop :=
  Clear (getAltitudeIntervals q intervals) 90 false
    (taken intervals.length (getAltitudeIntervals q intervals))

variable {q : AltitudeQuantity} {intervals si order all : List ConstraintDoubleInterval}
  {i : ConstraintDoubleInterval} {alt lo hi x : ℚ} {below : Bool}

/-! ## Bounds -/

theorem holds_iff_lower (hupper : ∀ u ∈ i.upper, x ≤ u) (hbottom : -90 < x) :
    Holds i x ↔ i.lower.getD (-90) < x := by
  unfold Holds
  cases i.lower with
  | none => exact ⟨fun _ => hbottom, fun _ => ⟨fun l hl => (by cases hl), hupper⟩⟩
  | some l => exact ⟨fun h => h.1 l rfl, fun h => ⟨fun l' hl' => Option.some.inj hl' ▸ h, hupper⟩⟩

theorem away_iff :
    Away lo hi i ↔ ∀ x, -90 < x → x ≤ 90 → lo < x → x ≤ hi → ¬Holds i x := by
  constructor
  · intro haway x hbottom htop hlo hhi hholds
    obtain ⟨hlower, hupper⟩ := hholds
    have hbelow : max (max lo (-90)) (i.lower.getD (-90)) < x := by
      refine max_lt (max_lt hlo hbottom) ?_
      cases hl : i.lower with
      | none => exact hbottom
      | some l => exact hlower l hl
    have habove : x ≤ min (min hi 90) (i.upper.getD 90) := by
      refine le_min (le_min hhi htop) ?_
      cases hu : i.upper with
      | none => exact htop
      | some u => exact hupper u hu
    exact absurd (habove.trans haway) (not_le.mpr hbelow)
  · intro hall
    by_contra hreach
    have hreach' := not_le.mp hreach
    have hin := max_lt_iff.mp hreach'
    have hlow := max_lt_iff.mp hin.1
    refine hall (min (min hi 90) (i.upper.getD 90)) hlow.2 ?_ hlow.1 ?_ ⟨fun l hl => ?_, fun u hu => ?_⟩
    · exact (min_le_left _ _).trans (min_le_right _ _)
    · exact (min_le_left _ _).trans (min_le_left _ _)
    · have hlower := hin.2
      rwa [hl] at hlower
    · rw [hu]
      exact min_le_right _ _

/-! ## The order in which intervals are taken -/

theorem findHighest_perm (before behind si : List ConstraintDoubleInterval)
    (highest : ConstraintDoubleInterval) (ah : ℚ) :
    ((findHighest before highest behind ah si).1 :: (findHighest before highest behind ah si).2.2).Perm
      (before ++ highest :: behind ++ si) := by
  induction si generalizing before highest behind ah with
  | nil =>
    rw [List.append_nil]
    exact List.perm_middle.symm
  | cons i si ih =>
    unfold findHighest
    cases higher ah i with
    | some ah' =>
      refine (ih _ _ _ _).trans (.of_eq ?_)
      simp
    | none =>
      refine (ih _ _ _ _).trans (.of_eq ?_)
      simp

/-- The altitude of an interval with an upper bound is that bound. -/
theorem findHighest_altitude (before behind si : List ConstraintDoubleInterval)
    (highest : ConstraintDoubleInterval) (ah : ℚ) (h : ∀ u ∈ highest.upper, ah = u) :
    ∀ u ∈ (findHighest before highest behind ah si).1.upper,
      (findHighest before highest behind ah si).2.1 = u := by
  induction si generalizing before highest behind ah with
  | nil => exact h
  | cons i si ih =>
    unfold findHighest
    cases hhigher : higher ah i with
    | some ah' =>
      refine ih _ _ _ _ fun u hu => ?_
      unfold higher at hhigher
      rw [hu] at hhigher
      dsimp only at hhigher
      split at hhigher
      · exact (Option.some.inj hhigher).symm
      · cases hhigher
    | none => exact ih _ _ _ _ h

theorem takeHighest_perm (i : ConstraintDoubleInterval) (si : List ConstraintDoubleInterval) :
    ((takeHighest i si).1 :: (takeHighest i si).2.2).Perm (i :: si) :=
  findHighest_perm [] [] si i _

theorem takeHighest_altitude (i : ConstraintDoubleInterval) (si : List ConstraintDoubleInterval) :
    ∀ u ∈ (takeHighest i si).1.upper, (takeHighest i si).2.1 = u := by
  refine findHighest_altitude [] [] si i _ fun u hu => ?_
  rw [hu]
  rfl

theorem taken_perm (n : Nat) (si : List ConstraintDoubleInterval) (hn : si.length ≤ n) :
    (taken n si).Perm si := by
  induction n generalizing si with
  | zero => rw [List.eq_nil_of_length_eq_zero (Nat.le_zero.mp hn), taken]
  | succ n ih =>
    cases si with
    | nil => rw [taken]
    | cons i si =>
      have hperm := takeHighest_perm i si
      have hlength : (takeHighest i si).2.2.length ≤ n := by
        have hsame := hperm.length_eq
        simp only [List.length_cons] at hsame hn
        omega
      exact ((ih _ hlength).cons _).trans hperm

/-! ## The way down -/

/-- What is violated above an upper bound. -/
def above (alt : ℚ) : Option ℚ → List ConstraintDoubleInterval
  | some u => if u < alt then [⟨some alt, some u⟩] else []
  | none => []

/-- What the loop finds on its way down through intervals in their order. -/
def wayDown : ℚ → Bool → List ConstraintDoubleInterval → List ConstraintDoubleInterval
  | alt, below, [] => if -90 < alt ∧ (below = true ∨ alt < 90) then [⟨some alt, some (-90)⟩] else []
  | alt, below, i :: order =>
    if -90 < alt then
      above alt i.upper ++ wayDown (i.lower.getD (-90)) (below || i.upper.any (· < alt)) order
    else []

theorem turn_end (h : ¬-90 < alt) (si ac : List ConstraintDoubleInterval) :
    turn ⟨si, alt, ac⟩ = .inr ac := if_neg h

theorem turns_nil (n : Nat) (alt : ℚ) (ac : List ConstraintDoubleInterval) :
    turns turn (n + 2) ⟨[], alt, ac⟩ = some (ac ++ wayDown alt (decide (ac ≠ [])) []) := by
  by_cases halt : -90 < alt
  · have hturn : turn ⟨[], alt, ac⟩ =
        .inl ⟨[], -90, if ac ≠ [] ∨ alt < 90 then ac ++ [⟨some alt, some (-90)⟩] else ac⟩ := if_pos halt
    rw [turns_inl hturn, turns_inr (turn_end (lt_irrefl _) _ _), wayDown]
    by_cases hguard : ac ≠ [] ∨ alt < 90
    · rw [if_pos hguard, if_pos ⟨halt, by simpa using hguard⟩]
    · rw [if_neg hguard, if_neg fun h => hguard (by simpa using h.2), List.append_nil]
  · rw [turns_inr (turn_end halt _ _), wayDown, if_neg fun h => halt h.1, List.append_nil]

/-- A turn takes an interval and what is violated above it. -/
theorem turn_take (halt : -90 < alt) (i : ConstraintDoubleInterval) (si ac : List ConstraintDoubleInterval) :
    turn ⟨i :: si, alt, ac⟩ =
      .inl ⟨(takeHighest i si).2.2, (takeHighest i si).1.lower.getD (-90),
        ac ++ above alt (takeHighest i si).1.upper⟩ := by
  have hturn : turn ⟨i :: si, alt, ac⟩ = .inl ⟨(takeHighest i si).2.2, (takeHighest i si).1.lower.getD (-90),
      if (takeHighest i si).1.upper.isSome ∧ (takeHighest i si).2.1 < alt then
        ac ++ [⟨some alt, some (takeHighest i si).2.1⟩] else ac⟩ := if_pos halt
  have hah := takeHighest_altitude i si
  rw [hturn]
  cases hu : (takeHighest i si).1.upper with
  | none => simp [above]
  | some u =>
    rw [hah u hu]
    by_cases hlt : u < alt
    · simp only [above, Option.isSome_some, true_and, if_pos hlt]
    · simp only [above, Option.isSome_some, true_and, if_neg hlt, List.append_nil]

theorem turns_wayDown (n : Nat) (si ac : List ConstraintDoubleInterval) (alt : ℚ) (hn : si.length ≤ n) :
    turns turn (n + 2) ⟨si, alt, ac⟩ = some (ac ++ wayDown alt (decide (ac ≠ [])) (taken n si)) := by
  induction n generalizing si ac alt with
  | zero =>
    rw [List.eq_nil_of_length_eq_zero (Nat.le_zero.mp hn)]
    exact turns_nil 0 alt ac
  | succ n ih =>
    cases si with
    | nil => exact turns_nil (n + 1) alt ac
    | cons i si =>
      rw [taken, wayDown]
      by_cases halt : -90 < alt
      · have hlength : (takeHighest i si).2.2.length ≤ n := by
          have hsame := (takeHighest_perm i si).length_eq
          simp only [List.length_cons] at hsame hn
          omega
        have hbelow : ∀ u : Option ℚ,
            decide (ac ++ above alt u ≠ []) = (decide (ac ≠ []) || u.any (· < alt)) := by
          intro u
          cases u with
          | none => simp [above]
          | some u =>
            by_cases hlt : u < alt
            · simp [above, hlt]
            · simp [above, hlt]
        rw [turns_inl (turn_take halt i si ac), ih _ _ _ hlength, hbelow, if_pos halt, List.append_assoc]
      · rw [turns_inr (turn_end halt _ _), if_neg halt, List.append_nil]

/-! ## What the way down marks -/

theorem marks_pair {a b : ℚ} : Marks ⟨some a, some b⟩ x ↔ b < x ∧ x ≤ a := by
  constructor
  · intro h
    obtain ⟨hi, lo, heq, hx⟩ := h
    obtain ⟨rfl, rfl⟩ : a = hi ∧ b = lo := by simpa using heq
    exact hx
  · intro h
    exact ⟨a, b, rfl, h⟩

/-- The altitudes that are marked are not allowed, if intervals are away where they should be. -/
def ClearBelow (all : List ConstraintDoubleInterval) : ℚ → Bool → List ConstraintDoubleInterval → Prop
  | alt, below, [] => -90 < alt → below = true ∨ alt < 90 → ∀ i ∈ all, Away (-90) alt i
  | alt, below, i :: order => -90 < alt →
    (∀ u ∈ i.upper, u < alt → ∀ i ∈ all, Away u alt i) ∧
      ClearBelow all (i.lower.getD (-90)) (below || i.upper.any (· < alt)) order

/-- The last part is marked, if it is reached. -/
def Ends : ℚ → Bool → List ConstraintDoubleInterval → Prop
  | alt, below, [] => -90 < alt → below = true ∨ alt < 90
  | alt, below, i :: order => -90 < alt → Ends (i.lower.getD (-90)) (below || i.upper.any (· < alt)) order

theorem clear_iff (all order : List ConstraintDoubleInterval) (alt : ℚ) (below : Bool) :
    Clear all alt below order ↔ ClearBelow all alt below order ∧ Ends alt below order := by
  induction order generalizing alt below with
  | nil =>
    constructor
    · exact fun h => ⟨fun halt _ => (h halt).2, fun halt => (h halt).1⟩
    · exact fun h halt => ⟨h.2 halt, h.1 halt (h.2 halt)⟩
  | cons i order ih =>
    constructor
    · intro h
      exact ⟨fun halt => ⟨(h halt).1, ((ih _ _).mp (h halt).2).1⟩, fun halt => ((ih _ _).mp (h halt).2).2⟩
    · intro h halt
      exact ⟨(h.1 halt).1, (ih _ _).mpr ⟨(h.1 halt).2, h.2 halt⟩⟩

/-- Nothing allowed is marked. -/
def Sound (all ac : List ConstraintDoubleInterval) : Prop :=
  ∀ x, -90 < x → x ≤ 90 → (∃ v ∈ ac, Marks v x) → ∀ i ∈ all, ¬Holds i x

theorem sound_append {a b : List ConstraintDoubleInterval} :
    Sound all (a ++ b) ↔ Sound all a ∧ Sound all b := by
  constructor
  · intro h
    refine ⟨fun x hb ht hx => ?_, fun x hb ht hx => ?_⟩
    · obtain ⟨v, hv, hmarks⟩ := hx
      exact h x hb ht ⟨v, List.mem_append_left _ hv, hmarks⟩
    · obtain ⟨v, hv, hmarks⟩ := hx
      exact h x hb ht ⟨v, List.mem_append_right _ hv, hmarks⟩
  · intro h x hb ht hx
    obtain ⟨v, hv, hmarks⟩ := hx
    rcases List.mem_append.mp hv with hv | hv
    · exact h.1 x hb ht ⟨v, hv, hmarks⟩
    · exact h.2 x hb ht ⟨v, hv, hmarks⟩

theorem sound_nil : Sound all [] := fun x _ _ hx => absurd hx (by simp)

theorem sound_pair {a b : ℚ} : Sound all [⟨some a, some b⟩] ↔ ∀ i ∈ all, Away b a i := by
  constructor
  · intro h i hi
    refine away_iff.mpr fun x hb ht hlo hhi => ?_
    exact h x hb ht ⟨_, List.mem_singleton_self _, marks_pair.mpr ⟨hlo, hhi⟩⟩ i hi
  · intro h x hb ht hx i hi
    obtain ⟨v, hv, hmarks⟩ := hx
    rw [List.mem_singleton.mp hv] at hmarks
    obtain ⟨hlo, hhi⟩ := marks_pair.mp hmarks
    exact away_iff.mp (h i hi) x hb ht hlo hhi

theorem wayDown_sound (all order : List ConstraintDoubleInterval) (alt : ℚ) (below : Bool) :
    Sound all (wayDown alt below order) ↔ ClearBelow all alt below order := by
  induction order generalizing alt below with
  | nil =>
    unfold wayDown ClearBelow
    by_cases hguard : -90 < alt ∧ (below = true ∨ alt < 90)
    · rw [if_pos hguard, sound_pair]
      exact ⟨fun h _ _ => h, fun h => h hguard.1 hguard.2⟩
    · rw [if_neg hguard]
      exact iff_of_true sound_nil fun halt hb => absurd ⟨halt, hb⟩ hguard
  | cons i order ih =>
    unfold wayDown ClearBelow
    by_cases halt : -90 < alt
    · rw [if_pos halt, sound_append, ih, imp_iff_right halt]
      refine and_congr_left fun _ => ?_
      cases hu : i.upper with
      | none => exact iff_of_true sound_nil fun u hu => (by cases hu)
      | some u =>
        by_cases hlt : u < alt
        · rw [above, if_pos hlt, sound_pair]
          exact ⟨fun h u' hu' _ => Option.some.inj hu' ▸ h, fun h => h u rfl hlt⟩
        · rw [above, if_neg hlt]
          exact iff_of_true sound_nil fun u' hu' hlt' => absurd (Option.some.inj hu' ▸ hlt') hlt
    · rw [if_neg halt]
      exact iff_of_true sound_nil fun h => absurd h halt

/-- Below an interval that does not hold an altitude: not above its upper bound, not below its lower
one. -/
theorem le_lower_of_not_holds (hbottom : -90 < x) (hupper : ∀ u ∈ i.upper, x ≤ u) (h : ¬Holds i x) :
    x ≤ i.lower.getD (-90) :=
  not_lt.mp fun hlower => h ((holds_iff_lower hupper hbottom).mpr hlower)

/-- What no interval holds is marked, in whatever order they are taken. -/
theorem wayDown_complete (order : List ConstraintDoubleInterval) (alt : ℚ) (below : Bool)
    (hends : Ends alt below order) (hbottom : -90 < x) (halt : x ≤ alt)
    (h : ∀ i ∈ order, ¬Holds i x) : ∃ v ∈ wayDown alt below order, Marks v x := by
  have hdown : -90 < alt := hbottom.trans_le halt
  induction order generalizing alt below with
  | nil =>
    rw [wayDown, if_pos ⟨hdown, hends hdown⟩]
    exact ⟨_, List.mem_singleton_self _, marks_pair.mpr ⟨hbottom, halt⟩⟩
  | cons i order ih =>
    obtain ⟨hi, hrest⟩ := List.forall_mem_cons.mp h
    rw [wayDown, if_pos hdown]
    have hlater : (∀ u ∈ i.upper, x ≤ u) →
        ∃ v ∈ above alt i.upper ++ wayDown (i.lower.getD (-90)) (below || i.upper.any (· < alt)) order,
          Marks v x := by
      intro hupper
      have hlower := le_lower_of_not_holds hbottom hupper hi
      obtain ⟨v, hv, hmarks⟩ := ih _ _ (hends hdown) hlower hrest (hbottom.trans_le hlower)
      exact ⟨v, List.mem_append_right _ hv, hmarks⟩
    by_cases hupper : ∀ u ∈ i.upper, x ≤ u
    · exact hlater hupper
    · -- the altitude is above the interval, and below `alt`
      obtain ⟨u, hu, hlt⟩ : ∃ u ∈ i.upper, u < x := by simpa using hupper
      have habove : above alt i.upper = [⟨some alt, some u⟩] := by
        rw [hu]
        exact if_pos (hlt.trans_le halt)
      rw [habove]
      exact ⟨_, List.mem_append_left _ (List.mem_singleton_self _), marks_pair.mpr ⟨hlt, halt⟩⟩

/-- If the last part is not marked, nothing is, and there are altitudes below all intervals. -/
theorem not_ends (order : List ConstraintDoubleInterval) (alt : ℚ) (below : Bool)
    (h : ¬Ends alt below order) :
    below = false ∧ wayDown alt below order = [] ∧
      ∃ m, -90 < m ∧ m ≤ 90 ∧ ∀ i ∈ order, ∀ x ≤ m, ¬Holds i x := by
  induction order generalizing alt below with
  | nil =>
    obtain ⟨-, hguard⟩ := Classical.not_imp.mp h
    obtain ⟨hbelow, -⟩ := not_or.mp hguard
    rw [wayDown, if_neg fun hmarks => hguard hmarks.2]
    exact ⟨Bool.eq_false_of_not_eq_true hbelow, rfl, 90, by norm_num, le_refl _,
      fun i hi => absurd hi List.not_mem_nil⟩
  | cons i order ih =>
    obtain ⟨halt, hlater⟩ := Classical.not_imp.mp h
    obtain ⟨hbelow, hnone, m, hbottom, htop, hall⟩ := ih _ _ hlater
    obtain ⟨hbefore, hupper⟩ := Bool.or_eq_false_iff.mp hbelow
    have habove : above alt i.upper = [] := by
      cases hu : i.upper with
      | none => rfl
      | some u =>
        rw [hu] at hupper
        exact if_neg (of_decide_eq_false hupper)
    -- the loop goes on, so that the interval has a lower bound above -90
    have hlower : -90 < i.lower.getD (-90) := by
      cases order with
      | nil => exact (Classical.not_imp.mp hlater).1
      | cons next order => exact (Classical.not_imp.mp hlater).1
    refine ⟨hbefore, ?_, min m (i.lower.getD (-90)), lt_min hbottom hlower, (min_le_left _ _).trans htop, ?_⟩
    · rw [wayDown, if_pos halt, habove, hnone, List.append_nil]
    · refine List.forall_mem_cons.mpr ⟨fun x hx hholds => ?_, fun i' hi' x hx => ?_⟩
      · cases hl : i.lower with
        | none =>
          rw [hl] at hlower
          exact lt_irrefl _ hlower
        | some l =>
          rw [hl] at hx
          exact absurd (hholds.1 l hl) (not_lt.mpr (hx.trans (min_le_right _ _)))
      · exact hall i' hi' x (hx.trans (min_le_left _ _))

/-- The way down marks what no interval holds, if intervals are away where they should be and the
last part is marked. -/
theorem wayDown_exact_iff (hperm : ∀ i, i ∈ order ↔ i ∈ all) :
    (∀ x, -90 < x → x ≤ 90 → ((∃ v ∈ wayDown 90 false order, Marks v x) ↔ ∀ i ∈ all, ¬Holds i x)) ↔
      Clear all 90 false order := by
  rw [clear_iff, ← wayDown_sound]
  constructor
  · intro h
    refine ⟨fun x hb ht => (h x hb ht).mp, ?_⟩
    by_contra hends
    obtain ⟨-, hnone, m, hbottom, htop, hall⟩ := not_ends order 90 false hends
    obtain ⟨v, hv, -⟩ := (h m hbottom htop).mpr fun i hi => hall i ((hperm i).mpr hi) m (le_refl m)
    rw [hnone] at hv
    exact List.not_mem_nil hv
  · intro h x hb ht
    refine ⟨h.1 x hb ht, fun hall => ?_⟩
    exact wayDown_complete order 90 false h.2 hb ht fun i hi => hall i ((hperm i).mp hi)

/-! ## Constraints -/

/-- An interval of altitudes holds those whose quantity its interval accepts. -/
theorem holds_iff_satisfy (hbounded : Bounded q i) (hbottom : -90 < x) (htop : x ≤ 90) :
    Holds ⟨i.upper.bind q.altitude, i.lower.bind q.altitude⟩ x ↔ i.satisfy (some (q.quantity x)) = true := by
  have hlower : (∀ a ∈ i.lower.bind q.altitude, x ≤ a) ↔ ∀ l ∈ i.lower, l ≤ q.quantity x := by
    cases hl : i.lower with
    | none => simp
    | some l =>
      cases ha : q.altitude l with
      | none =>
        have hle := hbounded.1 l hl ha x hbottom htop
        simpa [ha] using hle
      | some a => simpa [ha] using (q.falls ha hbottom htop).symm
  have hupper : (∀ a ∈ i.upper.bind q.altitude, a < x) ↔ ∀ u ∈ i.upper, q.quantity x < u := by
    cases hu : i.upper with
    | none => simp
    | some u =>
      cases ha : q.altitude u with
      | none =>
        have hlt := hbounded.2 u hu ha x hbottom htop
        simpa [ha] using hlt
      | some a =>
        have hfalls := not_congr (q.falls ha hbottom htop)
        rw [not_le, not_le] at hfalls
        simpa [ha] using hfalls.symm
  have hsatisfy : i.satisfy (some (q.quantity x)) = true ↔
      (∀ u ∈ i.upper, q.quantity x < u) ∧ ∀ l ∈ i.lower, l ≤ q.quantity x := by
    unfold ConstraintDoubleInterval.satisfy
    cases i.lower with
    | none =>
      cases i.upper with
      | none => simp [between]
      | some u => simp [between]
    | some l =>
      cases i.upper with
      | none => simp [between]
      | some u => simp [between, and_comm]
  rw [hsatisfy, ← hupper, ← hlower]
  rfl

/-- The violated intervals of a constraint are exact, if its intervals leave nothing out between
them that is allowed, and only then. -/
theorem getAltitudeViolatedIntervals_exact (q : AltitudeQuantity)
    (intervals : List ConstraintDoubleInterval) (hbounded : ∀ i ∈ intervals, Bounded q i) :
    ∃ ac, getAltitudeViolatedIntervals q intervals = some ac ∧
      (Exact q intervals ac ↔ ClearConstraint q intervals) := by
  have hlength : (getAltitudeIntervals q intervals).length = intervals.length := List.length_map _
  have hturns := turns_wayDown intervals.length (getAltitudeIntervals q intervals) [] 90 hlength.le
  refine ⟨_, hturns, ?_⟩
  have hmem : ∀ i, i ∈ taken intervals.length (getAltitudeIntervals q intervals) ↔
      i ∈ getAltitudeIntervals q intervals :=
    fun i => (taken_perm _ _ hlength.le).mem_iff
  have hallowed : ∀ x, -90 < x → x ≤ 90 →
      ((∀ i ∈ getAltitudeIntervals q intervals, ¬Holds i x) ↔
        isBetween intervals (some (q.quantity x)) = false) := by
    intro x hb ht
    unfold getAltitudeIntervals isBetween
    rw [List.forall_mem_map, List.any_eq_false]
    exact forall₂_congr fun i hi => not_congr (holds_iff_satisfy (hbounded i hi) hb ht)
  unfold ClearConstraint
  rw [← wayDown_exact_iff hmem]
  exact forall₃_congr fun x hb ht => by rw [hallowed x hb ht]; rfl

/-- Two ranges of zenith distances that do not meet. -/
theorem getAltitudeViolatedIntervals_exact_zenith :
    ∃ ac, getAltitudeViolatedIntervals zenithDistance [⟨none, some 30⟩, ⟨some 40, some 60⟩] = some ac ∧
      (Exact zenithDistance [⟨none, some 30⟩, ⟨some 40, some 60⟩] ac ↔
        ClearConstraint zenithDistance [⟨none, some 30⟩, ⟨some 40, some 60⟩]) := by
  refine getAltitudeViolatedIntervals_exact zenithDistance _ fun i _ => ⟨fun l _ hl => ?_, fun u _ hu => ?_⟩
  · cases hl
  · cases hu

/-- Altitudes between 20 and 60 within those between 0 and 80: what is below 20 is said to be
violated. -/
theorem nested_violated :
    getAltitudeViolatedIntervals zenithDistance [⟨some 10, some 90⟩, ⟨some 30, some 70⟩] =
        some [⟨some 90, some 80⟩, ⟨some 20, some (-90)⟩] ∧
      ¬Exact zenithDistance [⟨some 10, some 90⟩, ⟨some 30, some 70⟩]
        [⟨some 90, some 80⟩, ⟨some 20, some (-90)⟩] := by
  refine ⟨by decide +kernel, fun h => ?_⟩
  have hmarks : Marks ⟨some 20, some (-90)⟩ 10 := marks_pair.mpr ⟨by norm_num, by norm_num⟩
  have hviolated := (h 10 (by norm_num) (by norm_num)).mp ⟨_, by simp, hmarks⟩
  exact absurd hviolated (by decide +kernel)

end Rts2.Db.Altitude
