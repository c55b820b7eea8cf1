import Rts2.Teld.AroundNorth

/-! # Margins of the horizon

`is_good_with_margin` lowers the position and looks at it from both sides. It returns as soon
as the first side is good, so that one of them is enough. -/
namespace Rts2.Teld

/-- `h` is no higher than `k`. -/
def Height.NotAbove (h k : Height) : Prop := ∀ alt, k.under alt = true → h.under alt = true

def Table.check (t : Table) (ignoreHorizon : Bool) : ObjectCheck := ⟨t.points, ignoreHorizon⟩

/-! ## What is asked -/

section
variable (rangeDegrees : ℚ → ℚ) (o : ObjectCheck)

/-- The position lowered by the margin, at another azimuth. -/
def ObjectCheck.aboveAt (hrz : Hrz) (alt_margin az : ℚ) : Bool :=
  o.is_good rangeDegrees ⟨rangeDegrees az, min 90 (hrz.alt - alt_margin)⟩

/-- The horizon does not fall from `a` to `b`, or it does not rise. -/
def ObjectCheck.MonotoneBetween (a b : ℚ) : Prop :=
  let height x := getHorizonHeight rangeDegrees o.horizon (rangeDegrees x)
  (∀ x y, a ≤ x → x ≤ y → y ≤ b → (height x).NotAbove (height y)) ∨
    ∀ x y, a ≤ x → x ≤ y → y ≤ b → (height y).NotAbove (height x)

def ObjectCheck.Flat : Prop := ∀ p ∈ o.horizon, ∀ q ∈ o.horizon, p.alt = q.alt

/-- A good position is above the horizon on both sides; it is good itself where the horizon
is monotone in between; and over a flat horizon it is good with smaller margins. -/
structure ObjectCheck.KeepsMargins (hrz : Hrz) (alt_margin az_margin : ℚ) : Prop where
  bothSides : o.is_good_with_margin rangeDegrees hrz alt_margin az_margin = true →
    o.aboveAt rangeDegrees hrz alt_margin (hrz.az - az_margin) = true ∧
      o.aboveAt rangeDegrees hrz alt_margin (hrz.az + az_margin) = true
  unshifted : o.MonotoneBetween rangeDegrees (hrz.az - az_margin) (hrz.az + az_margin) →
    o.is_good_with_margin rangeDegrees hrz alt_margin az_margin = true →
      o.is_good rangeDegrees hrz = true
  antitone : o.Flat → ∀ alt_less az_less, 0 ≤ alt_less → alt_less ≤ alt_margin → 0 ≤ az_less →
    az_less ≤ az_margin → o.is_good_with_margin rangeDegrees hrz alt_margin az_margin = true →
      o.is_good_with_margin rangeDegrees hrz alt_less az_less = true

end

/-! ## When it is met -/

section
variable {rangeDegrees : ℚ → ℚ} (hdegrees : RangeDegrees rangeDegrees) {o : ObjectCheck} {hrz : Hrz}
  {alt_margin az_margin : ℚ}
include hdegrees

/-- The second side is the azimuth and the margin. -/
theorem other_side (haz : 0 ≤ hrz.az) (hmargin : 0 ≤ az_margin) :
    rangeDegrees (rangeDegrees (hrz.az - az_margin) + 2 * az_margin) =
      rangeDegrees (hrz.az + az_margin) := by
  obtain ⟨k, hk⟩ := hdegrees.turns (hrz.az - az_margin)
  obtain ⟨m, hm⟩ := hdegrees.turns (rangeDegrees (hrz.az - az_margin) + 2 * az_margin)
  obtain ⟨n, hn⟩ := hdegrees.turns (hrz.az + az_margin)
  have hfirst := hdegrees.nonneg (hrz.az - az_margin)
  have hl := hdegrees.nonneg (rangeDegrees (hrz.az - az_margin) + 2 * az_margin)
  have hl' := hdegrees.nonneg (hrz.az + az_margin)
  have hu := hdegrees.lt_circle (rangeDegrees (hrz.az - az_margin) + 2 * az_margin) (by linarith)
  have hu' := hdegrees.lt_circle (hrz.az + az_margin) (by linarith)
  refine eq_of_turns (n := k + m - n) ?_ (by linarith) (by linarith)
  rw [hm, hn, hk]
  push_cast
  ring

/-- One side is enough. -/
theorem is_good_with_margin_iff (haz : 0 ≤ hrz.az) (hmargin : 0 ≤ az_margin) :
    o.is_good_with_margin rangeDegrees hrz alt_margin az_margin = true ↔
      o.aboveAt rangeDegrees hrz alt_margin (hrz.az - az_margin) = true ∨
        o.aboveAt rangeDegrees hrz alt_margin (hrz.az + az_margin) = true := by
  have halt : (if 90 < hrz.alt - alt_margin then 90 else hrz.alt - alt_margin) =
      min 90 (hrz.alt - alt_margin) := by
    split
    · next h => exact (min_eq_left h.le).symm
    · next h => exact (min_eq_right (not_lt.mp h)).symm
  unfold ObjectCheck.is_good_with_margin ObjectCheck.aboveAt
  dsimp only
  rw [halt, other_side hdegrees haz hmargin]
  cases hignore : o.ignoreHorizon with
  | false => simp
  | true => simp [ObjectCheck.is_good, hignore]

omit hdegrees in
theorem aboveAt_mono {az alt_less : ℚ} (hless : alt_less ≤ alt_margin)
    (h : o.aboveAt rangeDegrees hrz alt_margin az = true) :
    o.aboveAt rangeDegrees hrz alt_less az = true := by
  unfold ObjectCheck.aboveAt at *
  rw [is_good_eq, Bool.or_eq_true] at *
  exact h.imp_right (Height.under_mono (min_le_min_left _ (by linarith)))

/-- The height of a flat horizon is everywhere the same. -/
theorem height_of_flat {t : Table} {ignoreHorizon : Bool} (hflat : (t.check ignoreHorizon).Flat)
    {x y : ℚ} (hx : 0 ≤ x ∧ x < 360) (hy : 0 ≤ y ∧ y < 360) :
    getHorizonHeight rangeDegrees t.points x = getHorizonHeight rangeDegrees t.points y := by
  cases hfirst : t.points.head? with
  | none =>
    rw [List.head?_eq_none_iff.mp hfirst]
    rfl
  | some first =>
    have hin := List.mem_of_head? hfirst
    obtain ⟨last, hlast⟩ : ∃ last, t.points.getLast? = some last :=
      Option.isSome_iff_exists.mp (List.getLast?_isSome.mpr (List.ne_nil_of_mem hin))
    rcases (le_of_getLast? t.sorted hin hlast).lt_or_eq with hwide | heq
    · have halt := hflat first hin last (List.mem_of_getLast? hlast)
      have hprofile : ∀ az, t.profile az = first.alt := fun az => by
        obtain ⟨p, q, hbefore, hafter, ⟨r, hr, hrp⟩, s, hs, hsq⟩ :=
          Table.exists_neighbours hfirst az
        rw [Table.profile_eq hbefore hafter, line, ← hrp, ← hsq, hflat s hs r hr, hflat r hr first hin]
        simp
      rw [Table.height_eq_profile hdegrees hfirst hlast hwide (.inr halt) hx.1 hx.2,
        Table.height_eq_profile hdegrees hfirst hlast hwide (.inr halt) hy.1 hy.2,
        hprofile x, hprofile y]
    · obtain ⟨p, hp, q, hq, hpq⟩ := Table.height_of_single rangeDegrees x hfirst hlast heq
      obtain ⟨p', hp', q', hq', hpq'⟩ := Table.height_of_single rangeDegrees y hfirst hlast heq
      rw [hpq, hpq', hflat q hq p hp, hflat q' hq' p' hp', sub_self, sub_self, mul_zero, mul_zero]
      rfl

/-- **Margins.** They are kept for exactly the positions that are good on both sides, or on
neither. -/
theorem keepsMargins_iff (t : Table) (ignoreHorizon : Bool) (haz : 0 ≤ hrz.az ∧ hrz.az < 360)
    (halt : 0 ≤ alt_margin) (hmargin : 0 ≤ az_margin) :
    (t.check ignoreHorizon).KeepsMargins rangeDegrees hrz alt_margin az_margin ↔
      (t.check ignoreHorizon).aboveAt rangeDegrees hrz alt_margin (hrz.az - az_margin) =
        (t.check ignoreHorizon).aboveAt rangeDegrees hrz alt_margin (hrz.az + az_margin) := by
  have hgood : (t.check ignoreHorizon).is_good_with_margin rangeDegrees hrz alt_margin az_margin =
      true ↔ _ := is_good_with_margin_iff hdegrees haz.1 hmargin
  constructor
  · intro h
    have hboth := h.bothSides
    rw [hgood] at hboth
    rw [Bool.eq_iff_iff]
    exact ⟨fun hl => (hboth (.inl hl)).2, fun hr => (hboth (.inr hr)).1⟩
  · intro heq
    rw [heq, or_self] at hgood
    refine ⟨fun hwith => ?_, fun hmono hwith => ?_,
      fun hflat alt_less az_less h0 hless haz0 hazless hwith => ?_⟩
    · rw [heq]
      exact ⟨hgood.mp hwith, hgood.mp hwith⟩
    · have hr := hgood.mp hwith
      have hl := heq.trans hr
      have hself : rangeDegrees hrz.az = hrz.az := hdegrees.keeps haz.1 haz.2
      unfold ObjectCheck.aboveAt at hl hr
      rw [is_good_eq, Bool.or_eq_true] at hl hr ⊢
      -- the horizon at the position is no higher than on one of the sides
      have hlow : min 90 (hrz.alt - alt_margin) ≤ hrz.alt :=
        (min_le_right _ _).trans (by linarith)
      rw [← hself]
      rcases hmono with hrise | hfall
      · exact hr.imp_right fun h => Height.under_mono hlow
          (hrise hrz.az (hrz.az + az_margin) (by linarith) (by linarith) le_rfl _ h)
      · exact hl.imp_right fun h => Height.under_mono hlow
          (hfall (hrz.az - az_margin) hrz.az le_rfl (by linarith) (by linarith) _ h)
    · have hside := aboveAt_mono hless (hgood.mp hwith)
      rw [is_good_with_margin_iff hdegrees haz.1 haz0]
      refine .inr ?_
      unfold ObjectCheck.aboveAt at hside ⊢
      rw [is_good_eq] at hside ⊢
      have hin : ∀ x, 0 ≤ x → 0 ≤ rangeDegrees x ∧ rangeDegrees x < 360 := fun x hx =>
        ⟨hdegrees.nonneg x, hdegrees.lt_circle x hx⟩
      have hsame := height_of_flat hdegrees hflat (hin (hrz.az + az_less) (by linarith))
        (hin (hrz.az + az_margin) (by linarith))
      change (_ || (getHorizonHeight rangeDegrees t.points _).under _) = true at hside ⊢
      rwa [hsame]

end

theorem keepsMargins_high :
    (Table.ridge.check false).KeepsMargins wholeTurnsOff ⟨90, 60⟩ 5 5 :=
  (keepsMargins_iff rangeDegrees_wholeTurnsOff Table.ridge false (by norm_num) (by norm_num)
    (by norm_num)).mpr (by decide +kernel)

/-- A ridge that rises to the south. -/
def slope : Table where
  points := [⟨0, 0⟩, ⟨180, 40⟩]
  sorted := by simp
  circle := by simp; norm_num

/-- Inside the ridge, but with a clear view to the north. -/
theorem not_keepsMargins_slope :
    (slope.check false).is_good_with_margin wholeTurnsOff ⟨90, 18⟩ 5 45 = true ∧
      (slope.check false).aboveAt wholeTurnsOff ⟨90, 18⟩ 5 135 = false ∧
      (slope.check false).is_good wholeTurnsOff ⟨90, 18⟩ = false ∧
      ¬ (slope.check false).KeepsMargins wholeTurnsOff ⟨90, 18⟩ 5 45 := by
  have hgood : (slope.check false).is_good_with_margin wholeTurnsOff ⟨90, 18⟩ 5 45 =
      true := by decide +kernel
  have hside : (slope.check false).aboveAt wholeTurnsOff ⟨90, 18⟩ 5 135 =
      false := by decide +kernel
  refine ⟨hgood, hside, by decide +kernel, fun h => ?_⟩
  have hboth := (h.bothSides hgood).2
  rw [show (⟨90, 18⟩ : Hrz).az + 45 = 135 by norm_num, hside] at hboth
  cases hboth

end Rts2.Teld
