import Mathlib.Tactic.FieldSimp
import Rts2.Teld.Counts
import Rts2.Teld.Trajectory

/-! # The height of the horizon

A horizon is a table of points sorted by azimuth. Between two of them its height is
interpolated, also between the last and the first, across north. `getHorizonHeight` gives the
two points of an azimuth before the first one in the wrong order. -/
namespace Rts2.Teld

/-! ## Heights -/

/-- A `double` after a division. -/
inductive Height where
  | num (x : ℚ)
  | inf (negative : Bool)
  | nan
  deriving DecidableEq

namespace Height

/-- `x / y`, for a difference `y`, whose zero is positive. -/
def quot (x y : ℚ) : Height :=
  if y = 0 then if x = 0 then nan else inf (x < 0) else num (x / y)

def plus (x : ℚ) : Height → Height
  | num y => num (x + y)
  | h => h

/-- `alt > height` -/
def under (h : Height) (alt : ℚ) : Bool :=
  match h with
  | num x => x < alt
  | inf negative => negative
  | nan => false

theorem quot_of_ne {y : ℚ} (x : ℚ) (hy : y ≠ 0) : quot x y = num (x / y) := if_neg hy

theorem plus_quot_zero (x y z : ℚ) : plus x (quot y 0) ≠ num z := by
  unfold quot
  split
  · split <;> simp [plus]
  · contradiction

/-- An altitude above a height that was divided. -/
theorem under_plus_quot (x y z alt : ℚ) :
    (plus x (quot y z)).under alt = if z = 0 then decide (y < 0) else decide (x + y / z < alt) := by
  unfold quot
  by_cases hz : z = 0
  · rw [if_pos hz, if_pos hz]
    by_cases hy : y = 0
    · simp [hy, plus, under]
    · simp [hy, plus, under]
  · rw [if_neg hz, if_neg hz]
    rfl

theorem under_mono {h : Height} {x y : ℚ} (hxy : x ≤ y) (hx : h.under x = true) :
    h.under y = true := by
  cases h with
  | num z => exact decide_eq_true ((of_decide_eq_true hx).trans_le hxy)
  | inf negative => exact hx
  | nan => exact hx

end Height

section
variable (rangeDegrees : ℚ → ℚ)

/-- `ObjectCheck::getHorizonHeightAz` -/
def getHorizonHeightAz (az : ℚ) (iter1 iter2 : Hrz) : Height :=
  let az1 := if iter2.az < iter1.az then iter1.az - 360 else iter1.az
  .plus iter1.alt (.quot (rangeDegrees (az - az1) * (iter2.alt - iter1.alt)) (iter2.az - az1))

/-- The loop of `getHorizonHeight`. -/
def heightFrom (az : ℚ) (first : Hrz) : Hrz → List Hrz → Height
  | iter_last, [] => getHorizonHeightAz rangeDegrees az iter_last first
  | iter_last, iter :: rest =>
    if az < iter.az then getHorizonHeightAz rangeDegrees az iter_last iter
    else heightFrom az first iter rest

/-- `ObjectCheck::getHorizonHeight` of a table. -/
def getHorizonHeight (horizon : List Hrz) (az : ℚ) : Height :=
  match horizon with
  | [] => .num 0
  | first :: rest =>
    if az < first.az then
      getHorizonHeightAz rangeDegrees az first ((first :: rest).getLast (List.cons_ne_nil _ _))
    else heightFrom rangeDegrees az first first rest

theorem aboveAz_eq (hrz iter1 iter2 : Hrz) :
    aboveAz rangeDegrees hrz iter1 iter2 =
      (getHorizonHeightAz rangeDegrees hrz.az iter1 iter2).under hrz.alt := by
  unfold aboveAz getHorizonHeightAz
  dsimp only
  rw [Height.under_plus_quot]

theorem aboveFrom_eq (hrz first iter_last : Hrz) (rest : List Hrz) :
    aboveFrom rangeDegrees hrz first iter_last rest =
      (heightFrom rangeDegrees hrz.az first iter_last rest).under hrz.alt := by
  induction rest generalizing iter_last with
  | nil => exact aboveAz_eq ..
  | cons iter rest ih =>
    unfold aboveFrom heightFrom
    split
    · exact aboveAz_eq ..
    · exact ih iter

/-- `is_good` compares with the height. -/
theorem is_good_eq (o : ObjectCheck) (hrz : Hrz) :
    o.is_good rangeDegrees hrz =
      (o.ignoreHorizon || (getHorizonHeight rangeDegrees o.horizon hrz.az).under hrz.alt) := by
  unfold ObjectCheck.is_good getHorizonHeight
  congr 1
  cases o.horizon with
  | nil => rfl
  | cons first rest =>
    dsimp only
    split
    · exact aboveAz_eq ..
    · exact aboveFrom_eq ..

end

/-! ## Tables -/

/-- The points of a horizon as `loadHorizon` sorts them. -/
structure Table where
  points : List Hrz
  sorted : points.Pairwise fun p q => p.az ≤ q.az
  circle : ∀ p ∈ points, 0 ≤ p.az ∧ p.az ≤ 360

/-- The line through two points. -/
def line (p q : Hrz) (az : ℚ) : ℚ := p.alt + (az - p.az) * (q.alt - p.alt) / (q.az - p.az)

namespace Table
variable (t : Table)

/-- The last point that is not after the azimuth; around the circle, the last of all. -/
def before (az : ℚ) : Option Hrz :=
  (t.points.filter (·.az ≤ az)).getLast? <|> t.points.getLast?.map fun p => ⟨p.az - 360, p.alt⟩

/-- The first point after the azimuth; around the circle, the first of all. -/
def after (az : ℚ) : Option Hrz :=
  t.points.find? (az < ·.az) <|> t.points.head?.map fun p => ⟨p.az + 360, p.alt⟩

/-- The height between the two neighbours; without points it is 0. -/
def profile (az : ℚ) : ℚ :=
  match t.before az, t.after az with
  | some p, some q => line p q az
  | _, _ => 0

/-- The points at north, from west to east. -/
def north : List Hrz := t.points.filter (·.az = 360) ++ t.points.filter (·.az = 0)

/-- The height is the one of the table: it is interpolated, without a division by zero, it is
a point's at the azimuth of a point and between the neighbours elsewhere, and it does not
jump at north. -/
structure Interpolated (height : ℚ → Height) : Prop where
  profile : ∀ az, 0 ≤ az → az < 360 → height az = .num (t.profile az)
  atPoint : ∀ p ∈ t.points, p.az < 360 → ∃ q ∈ t.points, q.az = p.az ∧ height p.az = .num q.alt
  between : ∀ az p q, 0 ≤ az → az < 360 → t.before az = some p → t.after az = some q →
    ∃ h, height az = .num h ∧ min p.alt q.alt ≤ h ∧ h ≤ max p.alt q.alt
  aroundNorth : ∀ ε, 0 < ε → ∃ δ, 0 < δ ∧ ∀ az, 0 ≤ az → 360 - δ < az → az < 360 →
    ∃ h h0, height az = .num h ∧ height 0 = .num h0 ∧ |h - h0| < ε

/-- Two azimuths at least; the first is north, or the first and the last point have one
altitude; and the points at north do not make a step. -/
def Closes : Prop :=
  ∀ first ∈ t.points.head?, ∀ last ∈ t.points.getLast?,
    first.az < last.az ∧ (first.az = 0 ∨ first.alt = last.alt) ∧
      ∀ p ∈ t.north.head?, ∀ q ∈ t.north.getLast?, p.alt = q.alt

end Table

/-! ## The line between two points -/

theorem line_left (p q : Hrz) : line p q p.az = p.alt := by simp [line]

theorem line_right {p q : Hrz} (h : p.az < q.az) : line p q q.az = q.alt := by
  have hne : q.az - p.az ≠ 0 := sub_ne_zero.mpr h.ne'
  simp [line, mul_div_assoc, mul_div_cancel₀ _ hne]

theorem line_between {p q : Hrz} {az : ℚ} (hp : p.az ≤ az) (hq : az < q.az) :
    min p.alt q.alt ≤ line p q az ∧ line p q az ≤ max p.alt q.alt := by
  have hw : 0 < q.az - p.az := by linarith
  obtain ⟨r, hr⟩ : ∃ r, (az - p.az) / (q.az - p.az) = r := ⟨_, rfl⟩
  have hr0 : 0 ≤ r := hr ▸ div_nonneg (by linarith) hw.le
  have hr1 : r ≤ 1 := by
    rw [← hr, div_le_one hw]
    linarith
  have hline : line p q az = p.alt + r * (q.alt - p.alt) := by
    rw [line, ← hr, div_mul_eq_mul_div]
  rw [hline]
  rcases le_total p.alt q.alt with hle | hle
  · rw [min_eq_left hle, max_eq_right hle]
    constructor <;> nlinarith
  · rw [min_eq_right hle, max_eq_left hle]
    constructor <;> nlinarith

/-- Around a point the line stays close to its height there. -/
theorem line_close (p q : Hrz) (a : ℚ) {ε : ℚ} (hε : 0 < ε) :
    ∃ δ, 0 < δ ∧ ∀ az, |az - a| < δ → |line p q az - line p q a| < ε := by
  obtain ⟨m, hm⟩ : ∃ m, (q.alt - p.alt) / (q.az - p.az) = m := ⟨_, rfl⟩
  have hm1 : 0 < |m| + 1 := by positivity
  refine ⟨ε / (|m| + 1), by positivity, fun az haz => ?_⟩
  have hdiff : line p q az - line p q a = (az - a) * m := by
    rw [← hm]
    unfold line
    ring
  rw [hdiff, abs_mul]
  rw [lt_div_iff₀ hm1] at haz
  nlinarith [abs_nonneg (az - a)]

/-- A point one turn on, or back. -/
theorem line_turn (p q : Hrz) (az : ℚ) :
    line p ⟨q.az + 360, q.alt⟩ az = line ⟨p.az - 360, p.alt⟩ q (az - 360) := by
  unfold line
  dsimp only
  rw [show az - 360 - (p.az - 360) = az - p.az by ring,
    show q.az - (p.az - 360) = q.az + 360 - p.az by ring]

/-! ## Neighbours in a sorted list -/

section
variable {l : List Hrz}

theorem le_of_getLast? (hl : l.Pairwise fun p q => p.az ≤ q.az) {p q : Hrz} (hp : p ∈ l)
    (hq : l.getLast? = some q) : p.az ≤ q.az := by
  obtain ⟨ys, rfl⟩ := List.getLast?_eq_some_iff.mp hq
  rw [List.pairwise_append] at hl
  rcases List.mem_append.mp hp with hp | hp
  · exact hl.2.2 p hp q (List.mem_singleton_self q)
  · rw [List.mem_singleton.mp hp]

theorem le_of_head? (hl : l.Pairwise fun p q => p.az ≤ q.az) {p q : Hrz} (hp : p ∈ l)
    (hq : l.head? = some q) : q.az ≤ p.az := by
  obtain ⟨ys, rfl⟩ := List.head?_eq_some_iff.mp hq
  rcases List.mem_cons.mp hp with rfl | hp
  · exact le_rfl
  · exact List.rel_of_pairwise_cons hl hp

/-- In a sorted list nothing before the azimuth comes after a point behind it. -/
theorem filter_le_of_lt {p : Hrz} {az : ℚ} (hl : (p :: l).Pairwise fun p q => p.az ≤ q.az)
    (hp : az < p.az) : (p :: l).filter (·.az ≤ az) = [] := by
  refine List.filter_eq_nil_iff.mpr fun q hq => ?_
  rcases List.mem_cons.mp hq with rfl | hq
  · simpa using hp
  · simpa using hp.trans_le (List.rel_of_pairwise_cons hl hq)

end

/-- The loop stops at the neighbours of the azimuth; the last point has the first one after
it. -/
theorem heightFrom_eq (rangeDegrees : ℚ → ℚ) (first : Hrz) {az : ℚ} {iter_last : Hrz}
    {rest : List Hrz}
    (hsorted : (iter_last :: rest).Pairwise fun p q => p.az ≤ q.az) (hle : iter_last.az ≤ az) :
    ∃ p, ((iter_last :: rest).filter (·.az ≤ az)).getLast? = some p ∧
      heightFrom rangeDegrees az first iter_last rest = getHorizonHeightAz rangeDegrees az p
        (((iter_last :: rest).find? (az < ·.az)).getD first) := by
  induction rest generalizing iter_last with
  | nil =>
    refine ⟨iter_last, by simp [hle], ?_⟩
    simp [heightFrom, not_lt.mpr hle]
  | cons iter rest ih =>
    have htail := List.Pairwise.of_cons hsorted
    rw [List.filter_cons_of_pos (by simpa using hle),
      List.find?_cons_of_neg (by simpa using hle)]
    by_cases hlt : az < iter.az
    · refine ⟨iter_last, by rw [filter_le_of_lt htail hlt]; rfl, ?_⟩
      rw [List.find?_cons_of_pos (by simpa using hlt)]
      simp [heightFrom, hlt]
    · obtain ⟨p, hp, heq⟩ := ih htail (not_lt.mp hlt)
      refine ⟨p, ?_, ?_⟩
      · rw [List.getLast?_cons, hp]
        rfl
      · rw [← heq]
        simp [heightFrom, hlt]

namespace Table
variable {t : Table} {az : ℚ} {first last : Hrz}

/-! ## Neighbours -/

/-- The neighbours of an azimuth that is not before the first one. -/
theorem before_of_le (hfirst : t.points.head? = some first) (hle : first.az ≤ az) :
    ∃ p ∈ t.points, t.before az = some p ∧ p.az ≤ az ∧
      (t.points.filter (·.az ≤ az)).getLast? = some p := by
  have hmem : first ∈ t.points.filter (·.az ≤ az) :=
    List.mem_filter.mpr ⟨List.mem_of_head? hfirst, by simpa using hle⟩
  obtain ⟨p, hp⟩ : ∃ p, (t.points.filter (·.az ≤ az)).getLast? = some p :=
    Option.isSome_iff_exists.mp (List.getLast?_isSome.mpr (List.ne_nil_of_mem hmem))
  obtain ⟨hin, hpaz⟩ := List.mem_filter.mp (List.mem_of_getLast? hp)
  exact ⟨p, hin, by simp [before, hp], of_decide_eq_true hpaz, hp⟩

theorem before_of_lt (hfirst : t.points.head? = some first)
    (hlast : t.points.getLast? = some last) (hlt : az < first.az) :
    t.before az = some ⟨last.az - 360, last.alt⟩ := by
  obtain ⟨rest, hpoints⟩ := List.head?_eq_some_iff.mp hfirst
  have hnone : t.points.filter (·.az ≤ az) = [] := by
    have hsorted := t.sorted
    rw [hpoints] at hsorted ⊢
    exact filter_le_of_lt hsorted hlt
  simp [before, hnone, hlast]

theorem after_of_lt (hfirst : t.points.head? = some first) (hlt : az < first.az) :
    t.after az = some first := by
  obtain ⟨rest, hpoints⟩ := List.head?_eq_some_iff.mp hfirst
  simp [after, hpoints, hlt]

theorem after_of_find? {q : Hrz} (h : t.points.find? (az < ·.az) = some q) :
    t.after az = some q ∧ q ∈ t.points ∧ az < q.az := by
  refine ⟨by simp [after, h], List.mem_of_find?_eq_some h, ?_⟩
  simpa using List.find?_some h

/-- After the last point comes the first, one turn on. -/
theorem after_of_none (hfirst : t.points.head? = some first)
    (h : t.points.find? (az < ·.az) = none) :
    t.after az = some ⟨first.az + 360, first.alt⟩ ∧ ∀ p ∈ t.points, p.az ≤ az := by
  refine ⟨by simp [after, h, hfirst], fun p hp => ?_⟩
  simpa using List.find?_eq_none.mp h p hp

theorem profile_eq {p q : Hrz} (hp : t.before az = some p) (hq : t.after az = some q) :
    t.profile az = line p q az := by simp [profile, hp, hq]

/-! ## What the code computes -/

section
variable {rangeDegrees : ℚ → ℚ}

/-- Not before the first point the two neighbours are taken, in the right order. -/
theorem height_of_le (rangeDegrees : ℚ → ℚ) (hfirst : t.points.head? = some first) (hle : first.az ≤ az) :
    ∃ p ∈ t.points, t.before az = some p ∧ p.az ≤ az ∧
      (t.points.filter (·.az ≤ az)).getLast? = some p ∧
      getHorizonHeight rangeDegrees t.points az =
        getHorizonHeightAz rangeDegrees az p ((t.points.find? (az < ·.az)).getD first) := by
  obtain ⟨p, hin, hbefore, hpaz, hp⟩ := before_of_le hfirst hle
  refine ⟨p, hin, hbefore, hpaz, hp, ?_⟩
  obtain ⟨rest, hpoints⟩ := List.head?_eq_some_iff.mp hfirst
  have hsorted := t.sorted
  rw [hpoints] at hsorted hp ⊢
  obtain ⟨p', hp', heq⟩ := heightFrom_eq rangeDegrees first hsorted hle
  have hpp : p' = p := Option.some.inj (hp'.symm.trans hp)
  rw [← hpp, ← heq]
  exact if_neg (not_lt.mpr hle)

variable (hdegrees : RangeDegrees rangeDegrees)
include hdegrees

theorem heightAz_of_lt {p q : Hrz} (hp0 : 0 ≤ p.az) (hp : p.az ≤ az) (hq : az < q.az)
    (h360 : az < 360) : getHorizonHeightAz rangeDegrees az p q = .num (line p q az) := by
  unfold getHorizonHeightAz line
  dsimp only
  rw [if_neg (not_lt.mpr (hp.trans hq.le)),
    hdegrees.keeps (sub_nonneg.mpr hp) (by linarith), Height.quot_of_ne _ (by linarith)]
  rfl

theorem height_between (hfirst : t.points.head? = some first) (hle : first.az ≤ az)
    (h360 : az < 360) {q : Hrz} (hq : t.points.find? (az < ·.az) = some q) :
    getHorizonHeight rangeDegrees t.points az = .num (t.profile az) := by
  obtain ⟨p, hin, hbefore, hpaz, -, heq⟩ := height_of_le rangeDegrees hfirst hle
  obtain ⟨hafter, -, hqaz⟩ := after_of_find? hq
  rw [heq, hq, profile_eq hbefore hafter]
  exact heightAz_of_lt hdegrees (t.circle p hin).1 hpaz hqaz h360

theorem height_after_last (hfirst : t.points.head? = some first)
    (hlast : t.points.getLast? = some last) (hwide : first.az < last.az) (hle : first.az ≤ az)
    (h360 : az < 360) (hnone : t.points.find? (az < ·.az) = none) :
    getHorizonHeight rangeDegrees t.points az = .num (t.profile az) := by
  obtain ⟨p, hin, hbefore, hpaz, hp, heq⟩ := height_of_le rangeDegrees hfirst hle
  obtain ⟨hafter, hall⟩ := after_of_none hfirst hnone
  have hself : t.points.filter (·.az ≤ az) = t.points :=
    List.filter_eq_self.mpr fun q hq => by simpa using hall q hq
  rw [hself, hlast, Option.some.injEq] at hp
  subst hp
  have h0 := (t.circle first (List.mem_of_head? hfirst)).1
  rw [heq, hnone, profile_eq hbefore hafter]
  unfold getHorizonHeightAz line
  dsimp only [Option.getD_none]
  rw [if_pos hwide, hdegrees.of_turn (by linarith) (by linarith),
    Height.quot_of_ne _ (by linarith)]
  simp only [Height.plus, Height.num.injEq]
  rw [show az - (last.az - 360) - 360 = az - last.az by ring,
    show first.az - (last.az - 360) = first.az + 360 - last.az by ring]

/-- Before the first point the line through the first and the last is followed away from
both. -/
theorem height_before_first (hfirst : t.points.head? = some first)
    (hlast : t.points.getLast? = some last) (hwide : first.az < last.az) (h0 : 0 ≤ az)
    (hlt : az < first.az) :
    getHorizonHeight rangeDegrees t.points az = .num (line first last (az + 360)) := by
  obtain ⟨rest, hpoints⟩ := List.head?_eq_some_iff.mp hfirst
  have hcircle := (t.circle last (List.mem_of_getLast? hlast)).2
  have hin : (first :: rest).getLast (List.cons_ne_nil _ _) = last := by
    rw [hpoints, List.getLast?_eq_some_getLast (List.cons_ne_nil _ _)] at hlast
    exact Option.some.inj hlast
  rw [hpoints]
  unfold getHorizonHeight getHorizonHeightAz line
  dsimp only
  rw [if_pos hlt, hin, if_neg (not_lt.mpr hwide.le),
    hdegrees.of_neg (by linarith) (by linarith), Height.quot_of_ne _ (by linarith)]
  rw [Height.plus, show az - first.az + 360 = az + 360 - first.az by ring]

omit hdegrees in
/-- Points of one azimuth make a division by zero. -/
theorem height_of_single (rangeDegrees : ℚ → ℚ) (az : ℚ) (hfirst : t.points.head? = some first)
    (hlast : t.points.getLast? = some last) (heq : first.az = last.az) :
    ∃ p ∈ t.points, ∃ q ∈ t.points, getHorizonHeight rangeDegrees t.points az =
      .plus p.alt (.quot (rangeDegrees (az - p.az) * (q.alt - p.alt)) 0) := by
  have hfirstin := List.mem_of_head? hfirst
  rcases lt_or_ge az first.az with hlt | hle
  · refine ⟨first, hfirstin, last, List.mem_of_getLast? hlast, ?_⟩
    obtain ⟨rest, hpoints⟩ := List.head?_eq_some_iff.mp hfirst
    have hin : (first :: rest).getLast (List.cons_ne_nil _ _) = last := by
      rw [hpoints, List.getLast?_eq_some_getLast (List.cons_ne_nil _ _)] at hlast
      exact Option.some.inj hlast
    rw [hpoints]
    unfold getHorizonHeight getHorizonHeightAz
    dsimp only
    rw [if_pos hlt, hin, heq, if_neg (lt_irrefl _), sub_self]
  · obtain ⟨p, hin, -, -, -, hheight⟩ := height_of_le rangeDegrees hfirst hle
    refine ⟨p, hin, first, hfirstin, ?_⟩
    have hone : ∀ q ∈ t.points, q.az = first.az := fun q hq =>
      le_antisymm (heq ▸ le_of_getLast? t.sorted hq hlast) (le_of_head? t.sorted hq hfirst)
    have hnone : t.points.find? (az < ·.az) = none :=
      List.find?_eq_none.mpr fun q hq => by simpa [hone q hq] using hle
    rw [hheight, hnone]
    unfold getHorizonHeightAz
    dsimp only [Option.getD_none]
    rw [hone p hin, if_neg (lt_irrefl _), sub_self]

end

end Table

end Rts2.Teld
