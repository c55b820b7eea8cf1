import Rts2.Teld.HorizonHeight

/-! # The horizon around the circle

The height that `getHorizonHeight` computes is the one of the table if the table closes: two
azimuths at least, no difference in altitude between the first and the last point unless the
first is north, and no step there. -/
namespace Rts2.Teld.Table

variable {t : Table} {first last : Hrz}

/-! ## West of north -/

/-- The neighbours have altitudes of points. -/
theorem exists_neighbours (hfirst : t.points.head? = some first) (az : ℚ) :
    ∃ p q, t.before az = some p ∧ t.after az = some q ∧
      (∃ r ∈ t.points, r.alt = p.alt) ∧ ∃ r ∈ t.points, r.alt = q.alt := by
  have hin := List.mem_of_head? hfirst
  obtain ⟨p, hp, hbefore⟩ : ∃ p, (∃ r ∈ t.points, r.alt = p.alt) ∧ t.before az = some p := by
    unfold before
    cases hfind : (t.points.filter (·.az ≤ az)).getLast? with
    | some p =>
      exact ⟨p, ⟨p, (List.mem_filter.mp (List.mem_of_getLast? hfind)).1, rfl⟩, rfl⟩
    | none =>
      obtain ⟨last, hlast⟩ : ∃ last, t.points.getLast? = some last :=
        Option.isSome_iff_exists.mp (List.getLast?_isSome.mpr (List.ne_nil_of_mem hin))
      rw [hlast]
      exact ⟨⟨last.az - 360, last.alt⟩, ⟨last, List.mem_of_getLast? hlast, rfl⟩, rfl⟩
  obtain ⟨q, hq, hafter⟩ : ∃ q, (∃ r ∈ t.points, r.alt = q.alt) ∧ t.after az = some q := by
    unfold after
    rw [hfirst]
    cases hfind : t.points.find? (az < ·.az) with
    | some q => exact ⟨q, ⟨q, List.mem_of_find?_eq_some hfind, rfl⟩, rfl⟩
    | none => exact ⟨⟨first.az + 360, first.alt⟩, ⟨first, hin, rfl⟩, rfl⟩
  exact ⟨p, q, hbefore, hafter, hp, hq⟩

/-- The last point before a full circle and the first one behind it are the neighbours of all
azimuths in between. -/
theorem west_neighbours (hfirst : t.points.head? = some first)
    (hlast : t.points.getLast? = some last) (hwide : first.az < last.az) :
    ∃ p q, (t.points.filter (·.az < 360)).getLast? = some p ∧ p.az < 360 ∧
      (t.points.find? (360 ≤ ·.az) <|> some ⟨first.az + 360, first.alt⟩) = some q ∧
      ∀ az, p.az ≤ az → az < 360 → t.profile az = line p q az := by
  have hsmall : first.az < 360 :=
    hwide.trans_le (t.circle last (List.mem_of_getLast? hlast)).2
  have hmem : first ∈ t.points.filter (·.az < 360) :=
    List.mem_filter.mpr ⟨List.mem_of_head? hfirst, by simpa using hsmall⟩
  obtain ⟨p, hp⟩ : ∃ p, (t.points.filter (·.az < 360)).getLast? = some p :=
    Option.isSome_iff_exists.mp (List.getLast?_isSome.mpr (List.ne_nil_of_mem hmem))
  have hp360 : p.az < 360 := of_decide_eq_true (List.mem_filter.mp (List.mem_of_getLast? hp)).2
  obtain ⟨q, hq⟩ : ∃ q, (t.points.find? (360 ≤ ·.az) <|>
      some (⟨first.az + 360, first.alt⟩ : Hrz)) = some q := by
    cases t.points.find? (360 ≤ ·.az) with
    | none => exact ⟨_, rfl⟩
    | some q => exact ⟨q, rfl⟩
  refine ⟨p, q, hp, hp360, hq, fun az hle hlt => ?_⟩
  have hsplit : ∀ r ∈ t.points, r.az ≤ az ↔ r.az < 360 := fun r hr => by
    refine ⟨fun h => h.trans_lt hlt, fun h => ?_⟩
    have hin : r ∈ t.points.filter (·.az < 360) := List.mem_filter.mpr ⟨hr, by simpa using h⟩
    exact (le_of_getLast? (t.sorted.filter _) hin hp).trans hle
  have hbefore : t.before az = some p := by
    have hsame : t.points.filter (·.az ≤ az) = t.points.filter (·.az < 360) :=
      List.filter_congr fun r hr => by simpa using hsplit r hr
    simp [before, hsame, hp]
  have hafter : t.after az = some q := by
    have hsame : t.points.find? (az < ·.az) = t.points.find? (360 ≤ ·.az) := by
      rw [← List.head?_filter, ← List.head?_filter]
      exact congrArg List.head? (List.filter_congr fun r hr => by
        simpa using not_congr (hsplit r hr))
    unfold after
    rw [hsame, hfirst]
    exact hq
  exact profile_eq hbefore hafter

theorem profile_zero_of_north (hfirst : t.points.head? = some first) (hzero : first.az = 0) :
    ∃ e, (t.points.filter (·.az = 0)).getLast? = some e ∧ t.profile 0 = e.alt := by
  obtain ⟨e, hin, hbefore, he0, he⟩ := before_of_le hfirst hzero.le
  have hsame : t.points.filter (·.az ≤ 0) = t.points.filter (·.az = 0) :=
    List.filter_congr fun r hr => by
      simpa using ⟨fun h => le_antisymm h (t.circle r hr).1, le_of_eq⟩
  obtain ⟨-, q, -, hq, -⟩ := exists_neighbours hfirst 0
  refine ⟨e, hsame ▸ he, ?_⟩
  have hez : e.az = 0 := le_antisymm he0 (t.circle e hin).1
  rw [profile_eq hbefore hq, ← hez, line_left]

theorem profile_zero_of_pos (hfirst : t.points.head? = some first)
    (hlast : t.points.getLast? = some last) (hpos : 0 < first.az) :
    t.profile 0 = line ⟨last.az - 360, last.alt⟩ first 0 :=
  profile_eq (before_of_lt hfirst hlast hpos) (after_of_lt hfirst hpos)

theorem no_north_of_pos (hfirst : t.points.head? = some first) (hpos : 0 < first.az) :
    t.points.filter (·.az = 0) = [] :=
  List.filter_eq_nil_iff.mpr fun r hr => by
    simpa using (hpos.trans_le (le_of_head? t.sorted hr hfirst)).ne'

/-- Over a full circle the line comes to the height at north if the points there make no
step. -/
theorem north_iff (hfirst : t.points.head? = some first)
    (hlast : t.points.getLast? = some last) {p q : Hrz}
    (hp : (t.points.filter (·.az < 360)).getLast? = some p) (hp360 : p.az < 360)
    (hq : (t.points.find? (360 ≤ ·.az) <|> some ⟨first.az + 360, first.alt⟩) = some q) :
    line p q 360 = t.profile 0 ↔
      ∀ p ∈ t.north.head?, ∀ q ∈ t.north.getLast?, p.alt = q.alt := by
  have hfull : t.points.filter (360 ≤ ·.az) = t.points.filter (·.az = 360) :=
    List.filter_congr fun r hr => by
      simpa using ⟨fun h => le_antisymm (t.circle r hr).2 h, fun h => h.ge⟩
  have hhead : (t.points.filter (·.az = 360)).head? = t.points.find? (360 ≤ ·.az) := by
    rw [← hfull, List.head?_filter]
  have hwest : t.north.head? =
      ((t.points.find? (360 ≤ ·.az)).or (t.points.filter (·.az = 0)).head?) := by
    rw [north, List.head?_append, hhead]
  have heast : t.north.getLast? = ((t.points.filter (·.az = 0)).getLast?.or
      (t.points.filter (·.az = 360)).getLast?) := by
    rw [north, List.getLast?_append]
  have h0 := (t.circle first (List.mem_of_head? hfirst)).1
  cases hfind : t.points.find? (360 ≤ ·.az) with
  | some f =>
    have hf360 : f.az = 360 := le_antisymm (t.circle f (List.mem_of_find?_eq_some hfind)).2
      (by simpa using List.find?_some hfind)
    rw [hfind] at hq hwest
    have hqf : f = q := Option.some.inj hq
    subst hqf
    have hline : line p f 360 = f.alt := by
      rw [← hf360]
      exact line_right (hf360 ▸ hp360)
    rcases h0.eq_or_lt with hzero | hpos
    · obtain ⟨e, he, hprofile⟩ := profile_zero_of_north hfirst hzero.symm
      rw [hwest, heast, he, hline, hprofile]
      simp
    · have hin := List.mem_of_find?_eq_some hfind
      have hlast360 : last.az = 360 := le_antisymm (t.circle last (List.mem_of_getLast? hlast)).2
        (hf360 ▸ le_of_getLast? t.sorted hin hlast)
      have hlastin : (t.points.filter (·.az = 360)).getLast? = some last := by
        obtain ⟨ys, hys⟩ := List.getLast?_eq_some_iff.mp hlast
        rw [hys, List.filter_append, List.filter_cons_of_pos (by simpa using hlast360)]
        simp
      have hprofile : t.profile 0 = last.alt := by
        rw [profile_zero_of_pos hfirst hlast hpos]
        have hzero : (⟨last.az - 360, last.alt⟩ : Hrz).az = 0 := by
          rw [hlast360]
          norm_num
        rw [← hzero, line_left]
      rw [hwest, heast, no_north_of_pos hfirst hpos, hlastin, hline, hprofile]
      simp
  | none =>
    rw [hfind] at hq hwest
    have hqf : (⟨first.az + 360, first.alt⟩ : Hrz) = q := Option.some.inj hq
    subst hqf
    have hnone : t.points.filter (·.az = 360) = [] := by
      rw [← List.head?_eq_none_iff, hhead, hfind]
    rcases h0.eq_or_lt with hzero | hpos
    · obtain ⟨e, he, hprofile⟩ := profile_zero_of_north hfirst hzero.symm
      have hline : line p ⟨first.az + 360, first.alt⟩ 360 = first.alt := by
        have hturn : first.az + 360 = 360 := by
          rw [← hzero, zero_add]
        have hend : line p ⟨360, first.alt⟩ 360 = first.alt := line_right hp360
        rwa [hturn]
      have hstart : (t.points.filter (·.az = 0)).head? = some first := by
        obtain ⟨rest, hrest⟩ := List.head?_eq_some_iff.mp hfirst
        rw [hrest, List.filter_cons_of_pos (by simpa using hzero.symm)]
        rfl
      rw [hwest, heast, hstart, he, hline, hprofile]
      simp
    · have hsame : t.points.filter (·.az < 360) = t.points :=
        List.filter_eq_self.mpr fun r hr => by
          simpa using List.find?_eq_none.mp hfind r hr
      rw [hsame, hlast, Option.some.injEq] at hp
      subst hp
      rw [hwest, no_north_of_pos hfirst hpos, line_turn, profile_zero_of_pos hfirst hlast hpos,
        sub_self]
      refine iff_of_true rfl fun p hp => ?_
      cases hp

/-! ## When the height is interpolated -/

theorem before_le {az : ℚ} {p : Hrz} (h0 : 0 ≤ az) (hp : t.before az = some p) : p.az ≤ az := by
  unfold before at hp
  cases hin : (t.points.filter (·.az ≤ az)).getLast? with
  | some r =>
    rw [hin] at hp
    have hrp : r = p := Option.some.inj hp
    exact hrp ▸ of_decide_eq_true (List.mem_filter.mp (List.mem_of_getLast? hin)).2
  | none =>
    rw [hin] at hp
    obtain ⟨r, hr, rfl⟩ := Option.map_eq_some_iff.mp hp
    have hcircle := (t.circle r (List.mem_of_getLast? hr)).2
    dsimp only
    linarith

theorem lt_after {az : ℚ} {q : Hrz} (h360 : az < 360) (hq : t.after az = some q) : az < q.az := by
  unfold after at hq
  cases hin : t.points.find? (az < ·.az) with
  | some r =>
    rw [hin] at hq
    have hrq : r = q := Option.some.inj hq
    have hlt : az < r.az := by simpa using List.find?_some hin
    exact hrq ▸ hlt
  | none =>
    rw [hin] at hq
    obtain ⟨r, hr, rfl⟩ := Option.map_eq_some_iff.mp hq
    have hcircle := (t.circle r (List.mem_of_head? hr)).1
    dsimp only
    linarith

/-- At the azimuth of a point the table has the altitude of the last one there. -/
theorem profile_at_point {p : Hrz} (hfirst : t.points.head? = some first) (hp : p ∈ t.points) :
    ∃ q ∈ t.points, q.az = p.az ∧ t.profile p.az = q.alt := by
  obtain ⟨q, hin, hbefore, hle, hq⟩ := before_of_le hfirst (le_of_head? t.sorted hp hfirst)
  have hmem : p ∈ t.points.filter (·.az ≤ p.az) := List.mem_filter.mpr ⟨hp, by simp⟩
  have heq : q.az = p.az := le_antisymm hle (le_of_getLast? (t.sorted.filter _) hmem hq)
  obtain ⟨-, r, -, hr, -⟩ := exists_neighbours hfirst p.az
  refine ⟨q, hin, heq, ?_⟩
  rw [profile_eq hbefore hr, ← heq, line_left]

/-- Before the first point the line that is followed meets the one of the table nowhere,
unless both points have one altitude. -/
theorem lines_ne {az : ℚ} (hwide : first.az < last.az) (hlast : last.az ≤ 360) (h0 : 0 < az)
    (hlt : az < first.az) (halt : first.alt ≠ last.alt) :
    line first last (az + 360) ≠ line ⟨last.az - 360, last.alt⟩ first az := by
  have hw : 0 < last.az - first.az := by linarith
  have hv : 0 < first.az - (last.az - 360) := by linarith
  have hu : 0 < az - (last.az - 360) := by linarith
  have hgap : line first last (az + 360) - line ⟨last.az - 360, last.alt⟩ first az =
      (az - (last.az - 360)) * (last.alt - first.alt) *
        (1 / (last.az - first.az) + 1 / (first.az - (last.az - 360))) := by
    unfold line
    dsimp only
    field_simp
    ring
  have hsum : 0 < 1 / (last.az - first.az) + 1 / (first.az - (last.az - 360)) := by positivity
  have hne : (az - (last.az - 360)) * (last.alt - first.alt) *
      (1 / (last.az - first.az) + 1 / (first.az - (last.az - 360))) ≠ 0 :=
    mul_ne_zero (mul_ne_zero hu.ne' (sub_ne_zero.mpr halt.symm)) hsum.ne'
  exact sub_ne_zero.mp (hgap ▸ hne)

section
variable {rangeDegrees : ℚ → ℚ} (hdegrees : RangeDegrees rangeDegrees)
include hdegrees

/-- A table that closes is interpolated everywhere. -/
theorem height_eq_profile (hfirst : t.points.head? = some first)
    (hlast : t.points.getLast? = some last) (hwide : first.az < last.az)
    (hsame : first.az = 0 ∨ first.alt = last.alt) {az : ℚ} (h0 : 0 ≤ az) (h360 : az < 360) :
    getHorizonHeight rangeDegrees t.points az = .num (t.profile az) := by
  rcases le_or_gt first.az az with hle | hlt
  · cases hfind : t.points.find? (az < ·.az) with
    | some q => exact height_between hdegrees hfirst hle h360 hfind
    | none => exact height_after_last hdegrees hfirst hlast hwide hle h360 hfind
  · have halt : first.alt = last.alt := hsame.resolve_left (h0.trans_lt hlt).ne'
    rw [height_before_first hdegrees hfirst hlast hwide h0 hlt,
      profile_eq (before_of_lt hfirst hlast hlt) (after_of_lt hfirst hlt)]
    simp [line, halt]

theorem wide_of_profile (hfirst : t.points.head? = some first)
    (hlast : t.points.getLast? = some last)
    (hprofile : ∀ az, 0 ≤ az → az < 360 →
      getHorizonHeight rangeDegrees t.points az = .num (t.profile az)) :
    first.az < last.az ∧ (first.az = 0 ∨ first.alt = last.alt) := by
  have hle : first.az ≤ last.az := le_of_getLast? t.sorted (List.mem_of_head? hfirst) hlast
  have hwide : first.az < last.az := by
    refine lt_of_le_of_ne hle fun heq => ?_
    obtain ⟨p, -, q, -, hheight⟩ := height_of_single rangeDegrees 0 hfirst hlast heq
    rw [hprofile 0 le_rfl (by norm_num)] at hheight
    exact Height.plus_quot_zero _ _ _ hheight.symm
  refine ⟨hwide, ?_⟩
  by_contra hno
  obtain ⟨hzero, halt⟩ := not_or.mp hno
  have hpos : 0 < first.az :=
    lt_of_le_of_ne (t.circle first (List.mem_of_head? hfirst)).1 (Ne.symm hzero)
  have h360 := (t.circle last (List.mem_of_getLast? hlast)).2
  have hhalf : first.az / 2 < first.az := by linarith
  have hcode := hprofile (first.az / 2) (by linarith) (by linarith)
  rw [height_before_first hdegrees hfirst hlast hwide (by linarith) hhalf,
    profile_eq (before_of_lt hfirst hlast hhalf) (after_of_lt hfirst hhalf),
    Height.num.injEq] at hcode
  exact lines_ne hwide h360 (by linarith) hhalf halt hcode

/-- **The horizon height.** It is the one of the table for exactly the tables that close. -/
theorem interpolated_iff (t : Table) :
    t.Interpolated (getHorizonHeight rangeDegrees t.points) ↔ t.Closes := by
  constructor
  · intro h first hfirst last hlast
    have hfirst : t.points.head? = some first := hfirst
    have hlast : t.points.getLast? = some last := hlast
    obtain ⟨hwide, hsame⟩ := wide_of_profile hdegrees hfirst hlast h.profile
    refine ⟨hwide, hsame, ?_⟩
    obtain ⟨p, q, hp, hp360, hq, hline⟩ := west_neighbours hfirst hlast hwide
    rw [← north_iff hfirst hlast hp hp360 hq]
    -- the height comes close to both
    by_contra hne
    have hgap : 0 < |line p q 360 - t.profile 0| / 2 := by
      have := abs_pos.mpr (sub_ne_zero.mpr hne)
      linarith
    obtain ⟨δ, hδ, hclose⟩ := line_close p q 360 hgap
    obtain ⟨δ', hδ', hnorth⟩ := h.aroundNorth _ hgap
    obtain ⟨az, haz, haz360⟩ := exists_between
      (max_lt (max_lt hp360 (by norm_num : (0 : ℚ) < 360))
        (max_lt (sub_lt_self 360 hδ) (sub_lt_self 360 hδ')))
    simp only [max_lt_iff] at haz
    obtain ⟨⟨hpaz, h0⟩, hδaz, hδaz'⟩ := haz
    obtain ⟨x, x0, hx, hx0, habs⟩ := hnorth az h0.le hδaz' haz360
    rw [h.profile az h0.le haz360, Height.num.injEq, hline az hpaz.le haz360] at hx
    rw [h.profile 0 le_rfl (by norm_num), Height.num.injEq] at hx0
    have hnear := hclose az (by rw [abs_sub_comm, abs_of_pos (by linarith)]; linarith)
    rw [← hx, ← hx0] at habs
    have htri := abs_sub_le (line p q 360) (line p q az) (t.profile 0)
    rw [abs_sub_comm] at hnear
    linarith
  · intro hcloses
    cases hfirst : t.points.head? with
    | none =>
      have hnil : t.points = [] := List.head?_eq_none_iff.mp hfirst
      have hprofile : ∀ az, t.profile az = 0 := fun az => by simp [profile, before, hnil]
      have hheight : ∀ az, getHorizonHeight rangeDegrees t.points az = .num 0 := fun az => by
        rw [hnil]
        rfl
      refine ⟨fun az _ _ => by rw [hheight, hprofile], fun p hp => ?_, fun az p q _ _ hp => ?_,
        fun ε hε => ⟨1, one_pos, fun az _ _ _ => ⟨0, 0, hheight az, hheight 0, by simpa using hε⟩⟩⟩
      · simp [hnil] at hp
      · simp [before, hnil] at hp
    | some first =>
      obtain ⟨last, hlast⟩ : ∃ last, t.points.getLast? = some last :=
        Option.isSome_iff_exists.mp
          (List.getLast?_isSome.mpr (List.ne_nil_of_mem (List.mem_of_head? hfirst)))
      obtain ⟨hwide, hsame, hstep⟩ := hcloses first hfirst last hlast
      have hprofile : ∀ az, 0 ≤ az → az < 360 →
          getHorizonHeight rangeDegrees t.points az = .num (t.profile az) := fun az h0 h360 =>
        height_eq_profile hdegrees hfirst hlast hwide hsame h0 h360
      refine ⟨hprofile, fun p hp hp360 => ?_, fun az p q h0 h360 hp hq => ?_, fun ε hε => ?_⟩
      · obtain ⟨q, hin, haz, halt⟩ := profile_at_point hfirst hp
        exact ⟨q, hin, haz, halt ▸ hprofile p.az (t.circle p hp).1 hp360⟩
      · exact ⟨_, hprofile az h0 h360, profile_eq hp hq ▸
          line_between (before_le h0 hp) (lt_after h360 hq)⟩
      · obtain ⟨p, q, hp, hp360, hq, hline⟩ := west_neighbours hfirst hlast hwide
        have hmeet := (north_iff hfirst hlast hp hp360 hq).mpr hstep
        obtain ⟨δ, hδ, hclose⟩ := line_close p q 360 hε
        refine ⟨min δ (360 - p.az), lt_min hδ (by linarith), fun az h0 hnear h360 => ?_⟩
        have hδaz := min_le_left δ (360 - p.az)
        have hpaz := min_le_right δ (360 - p.az)
        refine ⟨_, _, hprofile az h0 h360, hprofile 0 le_rfl (by norm_num), ?_⟩
        rw [hline az (by linarith) h360, ← hmeet]
        exact hclose az (by rw [abs_sub_comm, abs_of_pos (by linarith)]; linarith)

end

/-- A horizon that starts at north. -/
def ridge : Table where
  points := [⟨0, 10⟩, ⟨180, 20⟩]
  sorted := by simp
  circle := by simp; norm_num

theorem interpolated_ridge :
    ridge.Interpolated (getHorizonHeight wholeTurnsOff ridge.points) := by
  refine (interpolated_iff rangeDegrees_wholeTurnsOff ridge).mpr fun first hfirst last hlast => ?_
  cases hfirst
  cases hlast
  refine ⟨by norm_num, .inl rfl, fun p hp q hq => ?_⟩
  simp [north, ridge] at hp hq
  rw [← hp, ← hq]

/-- A horizon that starts in the east. -/
def eastern : Table where
  points := [⟨90, 10⟩, ⟨180, 20⟩]
  sorted := by simp; norm_num
  circle := by simp; norm_num

/-- At north the height is twice the highest altitude of the table. -/
theorem not_interpolated_eastern :
    getHorizonHeight wholeTurnsOff eastern.points 0 = .num 40 ∧
      eastern.profile 0 = 40 / 3 ∧
      ¬ eastern.Interpolated
        (getHorizonHeight wholeTurnsOff eastern.points) := by
  have hcode : getHorizonHeight wholeTurnsOff eastern.points 0 =
      .num 40 := by decide +kernel
  have hprofile : eastern.profile 0 = 40 / 3 := by decide +kernel
  refine ⟨hcode, hprofile, fun h => ?_⟩
  have h0 := h.profile 0 le_rfl (by norm_num)
  rw [hcode, hprofile, Height.num.injEq] at h0
  norm_num at h0

end Rts2.Teld.Table
