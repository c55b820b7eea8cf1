import Rts2.Teld.Counts
import Rts2.Teld.Limits

/-! # Counts of 32 bits

`normalizeCountValues` with the sums of the source kept in `int32_t`. A sum that does not fit
has no meaning, and here no value. -/
namespace Rts2.Teld
open Rts2.Lib

/-! ## The source with its sums -/

/-- `if (c) old = new;` -/
def assignIf (c : Bool) (new old : Int) : Option Int := if c then int32 new else some old

/-- `while (again (tested (t))) t = next (t);`, of at most so many rounds. -/
def loop32 (tested next : Int → Int) (again : Int → Bool) : Nat → Int → Option Int
  | 0, _ => none
  | fuel + 1, t => do
    let x ← int32 (tested t)
    if again x then loop32 tested next again fuel (← int32 (next t)) else some t

def raise32 (low margin full t : Int) : Option Int :=
  loop32 (· - margin) (· + full) (· < low) ((low + margin - t).toNat + 1) t

def lower32 (high margin full t : Int) : Option Int :=
  loop32 (· + margin) (· - full) (high < ·) ((t + margin - high).toNat + 1) t

/-- `if (c) { while … }` -/
def raiseIf32 (c : Bool) (low margin full t : Int) : Option Int :=
  if c then raise32 low margin full t else some t

namespace Gem
variable (g : Gem) (sky : Sky)

def shortestMove32 (ac dc t_ac t_dc : Int) : Option (Int × Int) := do
  let diff_ac := (← int32 (ac - t_ac)).tmod g.full_ac
  let diff_dc := (← int32 (dc - t_dc)).tmod g.full_dc
  let diff_ac ← assignIf (diff_ac > g.half_ac) (diff_ac - g.full_ac) diff_ac
  let diff_ac ← assignIf (diff_dc < -g.half_ac) (diff_ac + g.full_ac) diff_ac
  let diff_dc ← assignIf (diff_dc > g.half_dc) (diff_dc - g.full_dc) diff_dc
  let diff_dc ← assignIf (diff_dc < -g.half_dc) (diff_dc + g.full_dc) diff_dc
  return (← int32 (ac - diff_ac), ← int32 (dc - diff_dc))

def intoAcLimits32 (lim : Limits) (t_ac : Int) : Option Int := do
  let t_ac ← raiseIf32 (g.telLatitude < 0) lim.acMin g.acMargin g.full_ac t_ac
  let t_ac ← lower32 lim.acMax g.acMargin g.full_ac t_ac
  raiseIf32 (0 < g.telLatitude) lim.acMin g.acMargin g.full_ac t_ac

def intoDcLimits32 (lim : Limits) (t_dc : Int) : Option Int := do
  lower32 lim.dcMax 0 g.full_dc (← raise32 lim.dcMin 0 g.full_dc t_dc)

/-- The target is on the other side of the meridian, and the tube is under the horizon. -/
def downFlip (t_ac dc t_dc : Int) (JD : ℚ) : Bool :=
  let hrz := g.counts2hrz sky t_ac dc JD
  let hrz_tar := g.counts2hrz sky t_ac t_dc JD
  hrz.alt < 0 ∧ hrz_tar.alt < 45 ∧
    ((hrz.az < 180 ∧ 180 < hrz_tar.az) ∨ (180 < hrz.az ∧ hrz_tar.az < 180))

/-- A degree before the target. -/
def before (dc t_dc : Int) : Int :=
  toCounts (if t_dc > dc then t_dc - |g.decCpd| else t_dc + |g.decCpd|)

/-- The target on the other way round. -/
def otherWay (dc t_dc : Int) : Int := if t_dc > dc then t_dc - g.full_dc else t_dc + g.full_dc

def avoidDownFlip32 (t_ac dc t_dc : Int) (JD : ℚ) : Option Int := do
  if g.downFlip sky t_ac dc t_dc JD then
    let dc_before ← int32 (g.before dc t_dc)
    if (g.counts2hrz sky t_ac dc_before JD).alt < (g.counts2hrz sky t_ac t_dc JD).alt then
      int32 (g.otherWay dc t_dc)
    else some t_dc
  else some t_dc

/-- `GEM::normalizeCountValues` with sums of 32 bits. -/
def normalizeCountValues32 (lim : Limits) (ac dc t_ac t_dc : Int) (JD : ℚ) :
    Option (Int × Int × Int) := do
  let full_ac ← int32 g.full_ac
  let full_dc ← int32 g.full_dc
  if full_ac = 0 ∨ full_dc = 0 then none
  else
    let t ← g.shortestMove32 ac dc t_ac t_dc
    let t_ac ← g.intoAcLimits32 lim t.1
    let t_dc ← g.avoidDownFlip32 sky t_ac dc (← g.intoDcLimits32 lim t.2) JD
    if lim.outsideDc t_dc then some (-1, t_ac, t_dc)
    else if lim.outsideAc t_ac then some (-1, t_ac, t_dc)
    else some (0, t_ac, t_dc)

end Gem

/-! ## The loops -/

/-- A loop that goes one way fits if its first and its last number do. -/
theorem loop32_eq_some_iff {tested next : Int → Int} {again : Int → Bool} (last : Int → Int)
    (m : Int → Nat) (hdone : ∀ t, ¬again (tested t) → last t = t)
    (hlast : ∀ t, again (tested t) → last (next t) = last t)
    (hless : ∀ t, again (tested t) → m (next t) < m t)
    (hnext : ∀ t, again (tested t) → Int32 t → Int32 (last t) → Int32 (next t))
    (htested : ∀ t, again (tested t) → Int32 (tested t) → Int32 (tested (last t)) →
      Int32 (tested (next t)))
    {fuel : Nat} {t t' : Int} (hfuel : m t < fuel) (ht : Int32 t) :
    loop32 tested next again fuel t = some t' ↔
      (Int32 (tested t) ∧ Int32 (last t) ∧ Int32 (tested (last t))) ∧ t' = last t := by
  induction fuel generalizing t with
  | zero => omega
  | succ fuel ih =>
    simp only [loop32, Option.bind_eq_bind, Option.bind_eq_some_iff, int32_eq_some]
    by_cases hagain : again (tested t) = true
    · have hm := hless t hagain
      have hrec := fun hn => ih (t := next t) (by omega) hn
      rw [hlast t hagain] at hrec
      constructor
      · rintro ⟨x, ⟨hx, rfl⟩, h⟩
        rw [if_pos hagain] at h
        obtain ⟨y, hy, h⟩ := Option.bind_eq_some_iff.mp h
        obtain ⟨hn, rfl⟩ := int32_eq_some.mp hy
        obtain ⟨⟨-, hl, hlt⟩, rfl⟩ := (hrec hn).mp h
        exact ⟨⟨hx, hl, hlt⟩, rfl⟩
      · rintro ⟨⟨hx, hl, hlt⟩, rfl⟩
        have hn := hnext t hagain ht hl
        refine ⟨_, ⟨hx, rfl⟩, ?_⟩
        rw [if_pos hagain, int32_of hn]
        exact (hrec hn).mpr ⟨⟨htested t hagain hx hlt, hl, hlt⟩, rfl⟩
    · rw [hdone t hagain]
      constructor
      · rintro ⟨x, ⟨hx, rfl⟩, h⟩
        rw [if_neg hagain] at h
        cases h
        exact ⟨⟨hx, ht, hx⟩, rfl⟩
      · rintro ⟨⟨hx, -⟩, rfl⟩
        exact ⟨_, ⟨hx, rfl⟩, if_neg hagain⟩

/-- The first count of a turn on from the lower limit, for counts under it. -/
def raised (low margin full t : Int) : Int :=
  if t - margin < low then low + margin + (t - margin - low) % full else t

/-- The last count of a turn up to the upper limit, for counts over it. -/
def lowered (high margin full t : Int) : Int :=
  if high < t + margin then high - margin - (high - margin - t) % full else t

theorem raised_step {low margin full t : Int} (hfull : 0 < full) (ht : t - margin < low) :
    t + full ≤ raised low margin full t ∧
      raised low margin full (t + full) = raised low margin full t := by
  have hmod : (t + full - margin - low) % full = (t - margin - low) % full := by
    rw [show t + full - margin - low = t - margin - low + full by ring, Int.add_emod_right]
  have hle : 0 ≤ (t - margin - low) % full := Int.emod_nonneg _ (by omega)
  unfold raised
  rw [if_pos ht]
  by_cases hagain : t + full - margin < low
  · rw [if_pos hagain, hmod]
    exact ⟨by omega, rfl⟩
  · have hin : (t - margin - low) % full = t + full - margin - low := by
      rw [← hmod, Int.emod_eq_of_lt (by omega) (by omega)]
    rw [if_neg hagain, hin]
    exact ⟨by omega, by ring⟩

theorem lowered_step {high margin full t : Int} (hfull : 0 < full) (ht : high < t + margin) :
    lowered high margin full t ≤ t - full ∧
      lowered high margin full (t - full) = lowered high margin full t := by
  have hmod : (high - margin - (t - full)) % full = (high - margin - t) % full := by
    rw [show high - margin - (t - full) = high - margin - t + full by ring, Int.add_emod_right]
  have hle : 0 ≤ (high - margin - t) % full := Int.emod_nonneg _ (by omega)
  unfold lowered
  rw [if_pos ht]
  by_cases hagain : high < t - full + margin
  · rw [if_pos hagain, hmod]
    exact ⟨by omega, rfl⟩
  · have hin : (high - margin - t) % full = high - margin - (t - full) := by
      rw [← hmod, Int.emod_eq_of_lt (by omega) (by omega)]
    rw [if_neg hagain, hin]
    exact ⟨by omega, by ring⟩

/-- The sums fit on the way up to the lower limit. -/
def Raises (low margin full t : Int) : Prop :=
  Int32 (t - margin) ∧ Int32 (raised low margin full t) ∧
    Int32 (raised low margin full t - margin)

/-- The sums fit on the way down to the upper limit. -/
def Lowers (high margin full t : Int) : Prop :=
  Int32 (t + margin) ∧ Int32 (lowered high margin full t) ∧
    Int32 (lowered high margin full t + margin)

instance Raises.decidable (low margin full t : Int) : Decidable (Raises low margin full t) :=
  inferInstanceAs (Decidable (_ ∧ _))

instance Lowers.decidable (high margin full t : Int) : Decidable (Lowers high margin full t) :=
  inferInstanceAs (Decidable (_ ∧ _))

theorem raise32_eq_some_iff {low margin full t t' : Int} (hfull : 0 < full) (ht : Int32 t) :
    raise32 low margin full t = some t' ↔
      Raises low margin full t ∧ t' = raised low margin full t := by
  refine loop32_eq_some_iff (raised low margin full)
    (fun t => (low + margin - t).toNat) ?_ ?_ ?_ ?_ ?_ (Nat.lt_succ_self _) ht
  · intro t hagain
    exact if_neg (by simpa only [decide_eq_true_eq] using hagain)
  all_goals
    intro t hagain
    rw [decide_eq_true_eq] at hagain
    obtain ⟨hle, hstep⟩ := raised_step hfull hagain
  · exact hstep
  · omega
  all_goals
    intro hfirst hlast
    unfold Int32 at *
    omega

theorem lower32_eq_some_iff {high margin full t t' : Int} (hfull : 0 < full) (ht : Int32 t) :
    lower32 high margin full t = some t' ↔
      Lowers high margin full t ∧ t' = lowered high margin full t := by
  refine loop32_eq_some_iff (lowered high margin full)
    (fun t => (t + margin - high).toNat) ?_ ?_ ?_ ?_ ?_ (Nat.lt_succ_self _) ht
  · intro t hagain
    exact if_neg (by simpa only [decide_eq_true_eq] using hagain)
  all_goals
    intro t hagain
    rw [decide_eq_true_eq] at hagain
    obtain ⟨hle, hstep⟩ := lowered_step hfull hagain
  · exact hstep
  · omega
  all_goals
    intro hfirst hlast
    unfold Int32 at *
    omega

/-! ## The nearest counts -/

theorem intCast_le_abs_iff (n : Int) (x : ℚ) : |(n : ℚ)| ≤ |x| ↔ |n| ≤ toCounts |x| := by
  rw [toCounts_of_nonneg (abs_nonneg x), Int.le_floor]
  push_cast
  rfl

/-- Half a turn and half a turn are a turn, but for a count. -/
theorem half_turn (x : ℚ) : 2 * toCounts |x * 180| ≤ toCounts |x * 360| ∧
    toCounts |x * 360| ≤ 2 * toCounts |x * 180| + 1 := by
  have htwice : |x * 360| = 2 * |x * 180| := by
    rw [abs_mul, abs_mul, abs_of_pos (by norm_num : (0 : ℚ) < 360),
      abs_of_pos (by norm_num : (0 : ℚ) < 180)]
    ring
  rw [toCounts_of_nonneg (abs_nonneg _), toCounts_of_nonneg (abs_nonneg _), htwice]
  have hl := Int.floor_le |x * 180|
  have hu := Int.lt_floor_add_one |x * 180|
  constructor
  · rw [Int.le_floor]
    push_cast
    linarith
  · have hlt : ⌊2 * |x * 180|⌋ < 2 * ⌊|x * 180|⌋ + 2 := by
      rw [Int.floor_lt]
      push_cast
      linarith
    omega

theorem assignIf_eq_some {c : Bool} {new old d : Int} :
    assignIf c new old = some d ↔ (c → Int32 new) ∧ d = if c then new else old := by
  unfold assignIf
  cases c with
  | false =>
    simp only [Bool.false_eq_true, if_false, Option.some.injEq, false_imp_iff, true_and]
    exact eq_comm
  | true =>
    simp only [if_true, int32_eq_some, true_imp_iff]
    exact and_congr_right fun _ => eq_comm

/-- A remainder over half a turn is shortened, and one that is `low` lengthened. -/
def shortWay (full half r : Int) (low : Bool) : Int :=
  if low then r + full else if half < r then r - full else r

/-- Both tests of an axis, one after the other. -/
theorem twoTests {full half r : Int} (low : Bool) (hfull : 0 < full) (h32 : Int32 full)
    (hhalf : 2 * half ≤ full ∧ full ≤ 2 * half + 1) (hr : -full < r ∧ r < full) (d : Int) :
    ((∃ e, assignIf (r > half) (r - full) r = some e ∧ assignIf low (e + full) e = some d) ∧
        |d| ≤ half) ↔
      (if low then r + full ≤ half else -half ≤ r) ∧ d = shortWay full half r low := by
  simp only [assignIf_eq_some, decide_eq_true_eq, abs_le]
  unfold shortWay Int32 at *
  cases low with
  | false =>
    simp only [Bool.false_eq_true, if_false, false_imp_iff, true_and]
    constructor
    · rintro ⟨⟨e, ⟨-, rfl⟩, rfl⟩, hd⟩
      refine ⟨?_, rfl⟩
      split at hd <;> omega
    · rintro ⟨hle, rfl⟩
      refine ⟨⟨_, ⟨fun h => by omega, rfl⟩, rfl⟩, ?_⟩
      split <;> omega
  | true =>
    simp only [if_true, true_imp_iff]
    constructor
    · rintro ⟨⟨e, ⟨-, rfl⟩, -, rfl⟩, hd⟩
      by_cases h : r > half
      · rw [if_pos h] at hd
        omega
      · rw [if_neg h] at hd ⊢
        exact ⟨hd.2, rfl⟩
    · rintro ⟨hle, rfl⟩
      refine ⟨⟨r, ⟨fun h => by omega, ?_⟩, by omega, rfl⟩, by omega⟩
      rw [if_neg (by omega)]

/-- The tests of an axis that asks for its own difference. -/
theorem ownTests {full half r : Int} (hfull : 0 < full) (h32 : Int32 full)
    (hhalf : 2 * half ≤ full ∧ full ≤ 2 * half + 1) (hr : -full < r ∧ r < full) (d : Int) :
    (∃ e, assignIf (r > half) (r - full) r = some e ∧
        assignIf (e < -half) (e + full) e = some d) ↔
      d = shortWay full half r (r < -half) := by
  simp only [assignIf_eq_some, decide_eq_true_eq]
  unfold shortWay Int32 at *
  by_cases hhigh : half < r
  · have hlow : ¬r < -half := by omega
    have hown : ¬r - full < -half := by omega
    simp only [gt_iff_lt, hhigh, hlow, if_true, decide_false, Bool.false_eq_true, if_false,
      true_imp_iff]
    constructor
    · rintro ⟨e, ⟨-, rfl⟩, -, rfl⟩
      exact if_neg hown
    · rintro rfl
      exact ⟨_, ⟨by omega, rfl⟩, fun h => absurd h hown, (if_neg hown).symm⟩
  · simp only [gt_iff_lt, hhigh, if_false, false_imp_iff, true_and]
    constructor
    · rintro ⟨e, rfl, -, rfl⟩
      simp only [decide_eq_true_eq]
    · rintro rfl
      refine ⟨r, rfl, fun h => by omega, ?_⟩
      simp only [decide_eq_true_eq]

theorem abs_shortWay {full half r : Int} (hhalf : 2 * half ≤ full ∧ full ≤ 2 * half + 1)
    (hr : -full < r ∧ r < full) : |shortWay full half r (r < -half)| ≤ half := by
  simp only [shortWay, decide_eq_true_eq, abs_le]
  split
  · omega
  · split <;> omega

namespace Gem
variable (g : Gem) (sky : Sky)

def restAc (ac t_ac : Int) : Int := (ac - t_ac).tmod g.full_ac

def restDc (dc t_dc : Int) : Int := (dc - t_dc).tmod g.full_dc

/-- The difference in declination, which the right ascension axis asks for, is low only if its
own is. -/
def Harmless (ac dc t_ac t_dc : Int) : Prop :=
  if g.restDc dc t_dc < -g.half_ac then g.restAc ac t_ac + g.full_ac ≤ g.half_ac
  else -g.half_ac ≤ g.restAc ac t_ac

def nearAc (ac dc t_ac t_dc : Int) : Int :=
  ac - shortWay g.full_ac g.half_ac (g.restAc ac t_ac) (g.restDc dc t_dc < -g.half_ac)

def nearDc (dc t_dc : Int) : Int :=
  dc - shortWay g.full_dc g.half_dc (g.restDc dc t_dc) (g.restDc dc t_dc < -g.half_dc)

/-- The counts are no more than half a turn away, and their sums fit. -/
theorem shortestMove32_iff {ac dc t_ac t_dc : Int} (hac : 0 < g.full_ac) (hdc : 0 < g.full_dc)
    (hac32 : Int32 g.full_ac) (hdc32 : Int32 g.full_dc) (n_ac n_dc : Int) :
    (g.shortestMove32 ac dc t_ac t_dc = some (n_ac, n_dc) ∧ |ac - n_ac| ≤ g.half_ac ∧
        |dc - n_dc| ≤ g.half_dc) ↔
      (Int32 (ac - t_ac) ∧ Int32 (dc - t_dc) ∧ g.Harmless ac dc t_ac t_dc ∧
        Int32 (g.nearAc ac dc t_ac t_dc) ∧ Int32 (g.nearDc dc t_dc)) ∧
        n_ac = g.nearAc ac dc t_ac t_dc ∧ n_dc = g.nearDc dc t_dc := by
  have hrac := And.intro (Int.lt_tmod_of_pos (ac - t_ac) hac) (Int.tmod_lt_of_pos (ac - t_ac) hac)
  have hrdc := And.intro (Int.lt_tmod_of_pos (dc - t_dc) hdc) (Int.tmod_lt_of_pos (dc - t_dc) hdc)
  have hwayAc := twoTests (g.restDc dc t_dc < -g.half_ac) hac hac32 (half_turn g.haCpd) hrac
  have hwayDc := ownTests hdc hdc32 (half_turn g.decCpd) hrdc
  have hnearDc := abs_shortWay (half_turn g.decCpd) hrdc
  simp only [Gem.shortestMove32, Option.bind_eq_bind, Option.bind_eq_some_iff, int32_eq_some,
    Option.pure_def, Option.some.injEq, Prod.mk.injEq]
  unfold Gem.nearAc Gem.nearDc Gem.Harmless
  constructor
  · rintro ⟨⟨_, ⟨hdiffAc, rfl⟩, _, ⟨hdiffDc, rfl⟩, e, he, d, hd, e', he', d', hd', _, ⟨hsumAc, rfl⟩,
      _, ⟨hsumDc, rfl⟩, rfl, rfl⟩, hlen, -⟩
    rw [sub_sub_cancel] at hlen
    obtain ⟨hharmless, rfl⟩ := (hwayAc d).mp ⟨⟨e, he, hd⟩, hlen⟩
    obtain rfl := (hwayDc d').mp ⟨e', he', hd'⟩
    simp only [decide_eq_true_eq] at hharmless
    exact ⟨⟨hdiffAc, hdiffDc, hharmless, hsumAc, hsumDc⟩, rfl, rfl⟩
  · rintro ⟨⟨hdiffAc, hdiffDc, hharmless, hsumAc, hsumDc⟩, rfl, rfl⟩
    obtain ⟨⟨e, he, hd⟩, hlen⟩ := (hwayAc _).mpr ⟨by simpa only [decide_eq_true_eq], rfl⟩
    obtain ⟨e', he', hd'⟩ := (hwayDc _).mpr rfl
    rw [sub_sub_cancel, sub_sub_cancel]
    exact ⟨⟨_, ⟨hdiffAc, rfl⟩, _, ⟨hdiffDc, rfl⟩, e, he, _, hd, e', he', _, hd', _, ⟨hsumAc, rfl⟩,
      _, ⟨hsumDc, rfl⟩, rfl, rfl⟩, hlen, hnearDc⟩

end Gem

/-! ## The limits -/

def raisedIf (c : Bool) (low margin full t : Int) : Int :=
  if c then raised low margin full t else t

theorem raiseIf32_eq_some_iff {c : Bool} {low margin full t t' : Int} (hfull : 0 < full)
    (ht : Int32 t) : raiseIf32 c low margin full t = some t' ↔
      (c → Raises low margin full t) ∧ t' = raisedIf c low margin full t := by
  unfold raiseIf32 raisedIf
  cases c with
  | false =>
    simp only [Bool.false_eq_true, if_false, false_imp_iff, true_and, Option.some.injEq]
    exact eq_comm
  | true =>
    simp only [if_true, true_imp_iff]
    exact raise32_eq_some_iff hfull ht

theorem int32_raisedIf {c : Bool} {low margin full t : Int} (ht : Int32 t)
    (h : c → Raises low margin full t) : Int32 (raisedIf c low margin full t) := by
  unfold raisedIf
  split
  · next hc => exact (h hc).2.1
  · exact ht

namespace Gem
variable (g : Gem) (sky : Sky)

def southAc (lim : Limits) (t : Int) : Int :=
  raisedIf (g.telLatitude < 0) lim.acMin g.acMargin g.full_ac t

def topAc (lim : Limits) (t : Int) : Int := lowered lim.acMax g.acMargin g.full_ac (g.southAc lim t)

def northAc (lim : Limits) (t : Int) : Int :=
  raisedIf (0 < g.telLatitude) lim.acMin g.acMargin g.full_ac (g.topAc lim t)

def limitedDc (lim : Limits) (t : Int) : Int :=
  lowered lim.dcMax 0 g.full_dc (raised lim.dcMin 0 g.full_dc t)

/-- The sums of the loops in right ascension fit. -/
structure RoomAc (lim : Limits) (t : Int) : Prop where
  south : g.telLatitude < 0 → Raises lim.acMin g.acMargin g.full_ac t
  top : Lowers lim.acMax g.acMargin g.full_ac (g.southAc lim t)
  north : 0 < g.telLatitude → Raises lim.acMin g.acMargin g.full_ac (g.topAc lim t)

/-- The sums of the loops in declination fit. -/
structure RoomDc (lim : Limits) (t : Int) : Prop where
  low : Raises lim.dcMin 0 g.full_dc t
  high : Lowers lim.dcMax 0 g.full_dc (raised lim.dcMin 0 g.full_dc t)

/-- The sums on the other way round fit, where it is looked for. -/
def RoomFlip (t_ac dc t_dc : Int) (JD : ℚ) : Prop :=
  g.downFlip sky t_ac dc t_dc JD → Int32 (g.before dc t_dc) ∧
    ((g.counts2hrz sky t_ac (g.before dc t_dc) JD).alt < (g.counts2hrz sky t_ac t_dc JD).alt →
      Int32 (g.otherWay dc t_dc))

variable {g}

theorem intoAcLimits32_eq_some_iff {lim : Limits} {t t' : Int} (hfull : 0 < g.full_ac)
    (ht : Int32 t) :
    g.intoAcLimits32 lim t = some t' ↔ g.RoomAc lim t ∧ t' = g.northAc lim t := by
  simp only [Gem.intoAcLimits32, Option.bind_eq_bind, Option.bind_eq_some_iff]
  constructor
  · rintro ⟨u, hu, v, hv, h⟩
    obtain ⟨hsouth, rfl⟩ := (raiseIf32_eq_some_iff hfull ht).mp hu
    obtain ⟨htop, rfl⟩ := (lower32_eq_some_iff hfull (int32_raisedIf ht hsouth)).mp hv
    obtain ⟨hnorth, rfl⟩ := (raiseIf32_eq_some_iff hfull htop.2.1).mp h
    exact ⟨⟨fun h => hsouth (decide_eq_true h), htop, fun h => hnorth (decide_eq_true h)⟩, rfl⟩
  · rintro ⟨⟨hsouth, htop, hnorth⟩, rfl⟩
    have hsouth' := fun h => hsouth (of_decide_eq_true h)
    exact ⟨_, (raiseIf32_eq_some_iff hfull ht).mpr ⟨hsouth', rfl⟩, _,
      (lower32_eq_some_iff hfull (int32_raisedIf ht hsouth')).mpr ⟨htop, rfl⟩,
      (raiseIf32_eq_some_iff hfull htop.2.1).mpr ⟨fun h => hnorth (of_decide_eq_true h), rfl⟩⟩

theorem intoDcLimits32_eq_some_iff {lim : Limits} {t t' : Int} (hfull : 0 < g.full_dc)
    (ht : Int32 t) :
    g.intoDcLimits32 lim t = some t' ↔ g.RoomDc lim t ∧ t' = g.limitedDc lim t := by
  simp only [Gem.intoDcLimits32, Option.bind_eq_bind, Option.bind_eq_some_iff]
  constructor
  · rintro ⟨u, hu, h⟩
    obtain ⟨hlow, rfl⟩ := (raise32_eq_some_iff hfull ht).mp hu
    obtain ⟨hhigh, rfl⟩ := (lower32_eq_some_iff hfull hlow.2.1).mp h
    exact ⟨⟨hlow, hhigh⟩, rfl⟩
  · rintro ⟨⟨hlow, hhigh⟩, rfl⟩
    exact ⟨_, (raise32_eq_some_iff hfull ht).mpr ⟨hlow, rfl⟩,
      (lower32_eq_some_iff hfull hlow.2.1).mpr ⟨hhigh, rfl⟩⟩

variable {sky}

/-- The way round that the counts take. -/
def flipped (g : Gem) (sky : Sky) (t_ac dc t_dc : Int) (JD : ℚ) : Int :=
  if g.downFlip sky t_ac dc t_dc JD ∧
      (g.counts2hrz sky t_ac (g.before dc t_dc) JD).alt < (g.counts2hrz sky t_ac t_dc JD).alt then
    g.otherWay dc t_dc
  else t_dc

theorem avoidDownFlip32_eq_some_iff {t_ac dc t_dc t' : Int} {JD : ℚ} :
    g.avoidDownFlip32 sky t_ac dc t_dc JD = some t' ↔
      g.RoomFlip sky t_ac dc t_dc JD ∧ t' = g.flipped sky t_ac dc t_dc JD := by
  unfold Gem.avoidDownFlip32 Gem.RoomFlip Gem.flipped
  by_cases hdown : g.downFlip sky t_ac dc t_dc JD = true
  · simp only [hdown, if_true, Option.bind_eq_bind, Option.bind_eq_some_iff, int32_eq_some,
      true_imp_iff, true_and]
    constructor
    · rintro ⟨_, ⟨hbefore, rfl⟩, h⟩
      split at h
      · next hup =>
        obtain ⟨hother, rfl⟩ := int32_eq_some.mp h
        exact ⟨⟨hbefore, fun _ => hother⟩, (if_pos hup).symm⟩
      · next hup =>
        cases h
        exact ⟨⟨hbefore, fun h => absurd h hup⟩, (if_neg hup).symm⟩
    · rintro ⟨⟨hbefore, hother⟩, rfl⟩
      refine ⟨_, ⟨hbefore, rfl⟩, ?_⟩
      split
      · next hup => exact int32_of (hother hup)
      · rfl
  · simp only [hdown, Bool.false_eq_true, if_false, Option.some.injEq, false_imp_iff, true_and,
      false_and]
    exact eq_comm

end Gem

/-! ## Numbers of any size

Sums that fit are the sums of whole numbers, so counts that the source finds are those of
`Gem.normalizeCountValues`. -/

theorem loop_of_loop32 (tested : Int → Int) (again : Int → Bool) {next : Int → Int} {fuel : Nat}
    {t t' : Int} (h : loop32 tested next again (fuel + 1) t = some t') :
    loop (fun t => again (tested t)) next fuel t = t' := by
  induction fuel generalizing t with
  | zero =>
    simp only [loop32, Option.bind_eq_bind, Option.bind_eq_some_iff, int32_eq_some] at h
    obtain ⟨x, ⟨-, rfl⟩, h⟩ := h
    split at h
    · obtain ⟨y, -, h⟩ := Option.bind_eq_some_iff.mp h
      cases h
    · exact Option.some.inj h
  | succ fuel ih =>
    rw [loop32] at h
    simp only [Option.bind_eq_bind, Option.bind_eq_some_iff, int32_eq_some] at h
    obtain ⟨x, ⟨-, rfl⟩, h⟩ := h
    simp only [loop]
    split at h
    · next hagain =>
      obtain ⟨y, hy, h⟩ := Option.bind_eq_some_iff.mp h
      obtain ⟨-, rfl⟩ := int32_eq_some.mp hy
      rw [if_pos hagain]
      exact ih h
    · next hagain =>
      rw [if_neg hagain]
      exact Option.some.inj h

theorem raiseTo_of_raise32 {low margin full t t' : Int} (h : raise32 low margin full t = some t') :
    raiseTo low margin full t = t' :=
  loop_of_loop32 (· - margin) (· < low) h

theorem lowerTo_of_lower32 {high margin full t t' : Int}
    (h : lower32 high margin full t = some t') : lowerTo high margin full t = t' :=
  loop_of_loop32 (· + margin) (high < ·) h

theorem raiseTo_of_raiseIf32 {c : Prop} [Decidable c] {low margin full t t' : Int}
    (h : raiseIf32 c low margin full t = some t') :
    (if c then raiseTo low margin full t else t) = t' := by
  unfold raiseIf32 at h
  by_cases hc : c
  · rw [if_pos (decide_eq_true hc)] at h
    rw [if_pos hc]
    exact raiseTo_of_raise32 h
  · rw [if_neg (by simpa using hc)] at h
    rw [if_neg hc]
    exact Option.some.inj h

namespace Gem
variable {g : Gem} {sky : Sky} {lim : Limits}

theorem shortestMove_of_32 {ac dc t_ac t_dc : Int} {n : Int × Int}
    (h : g.shortestMove32 ac dc t_ac t_dc = some n) : g.shortestMove ac dc t_ac t_dc = n := by
  simp only [Gem.shortestMove32, Option.bind_eq_bind, Option.bind_eq_some_iff, int32_eq_some,
    assignIf_eq_some, decide_eq_true_eq, Option.pure_def, Option.some.injEq] at h
  obtain ⟨_, ⟨-, rfl⟩, _, ⟨-, rfl⟩, _, ⟨-, rfl⟩, _, ⟨-, rfl⟩, _, ⟨-, rfl⟩, _, ⟨-, rfl⟩, _, ⟨-, rfl⟩,
    _, ⟨-, rfl⟩, rfl⟩ := h
  rfl

theorem intoAcLimits_of_32 {t t' : Int} (h : g.intoAcLimits32 lim t = some t') :
    g.intoAcLimits lim t = t' := by
  simp only [Gem.intoAcLimits32, Option.bind_eq_bind, Option.bind_eq_some_iff] at h
  obtain ⟨u, hu, v, hv, h⟩ := h
  unfold Gem.intoAcLimits
  simp only [raiseTo_of_raiseIf32 hu, lowerTo_of_lower32 hv, raiseTo_of_raiseIf32 h]

theorem intoDcLimits_of_32 {t t' : Int} (h : g.intoDcLimits32 lim t = some t') :
    g.intoDcLimits lim t = t' := by
  simp only [Gem.intoDcLimits32, Option.bind_eq_bind, Option.bind_eq_some_iff] at h
  obtain ⟨u, hu, h⟩ := h
  unfold Gem.intoDcLimits
  rw [raiseTo_of_raise32 hu, lowerTo_of_lower32 h]

theorem avoidDownFlip_eq_flipped (t_ac dc t_dc : Int) (JD : ℚ) :
    g.avoidDownFlip sky t_ac dc t_dc JD = g.flipped sky t_ac dc t_dc JD := by
  unfold Gem.avoidDownFlip Gem.flipped
  refine if_congr ?_ rfl rfl
  simp only [Gem.downFlip, Gem.before, decide_eq_true_eq, and_assoc]

/-- Counts that the source finds are those of any size. -/
theorem normalizeCountValues_of_32 {ac dc t_ac t_dc : Int} {JD : ℚ} {r : Int × Int × Int}
    (h : g.normalizeCountValues32 sky lim ac dc t_ac t_dc JD = some r) :
    g.normalizeCountValues sky lim ac dc t_ac t_dc JD = some r := by
  simp only [Gem.normalizeCountValues32, Option.bind_eq_bind, Option.bind_eq_some_iff,
    int32_eq_some] at h
  obtain ⟨_, ⟨-, rfl⟩, _, ⟨-, rfl⟩, h⟩ := h
  unfold Gem.normalizeCountValues
  split at h
  · cases h
  · next hturn =>
    simp only [Option.bind_eq_some_iff] at h
    obtain ⟨t, ht, u, hu, v, hv, w, hw, h⟩ := h
    rw [if_neg hturn]
    obtain ⟨-, rfl⟩ := avoidDownFlip32_eq_some_iff.mp hw
    simp only [shortestMove_of_32 ht, intoAcLimits_of_32 hu, intoDcLimits_of_32 hv,
      avoidDownFlip_eq_flipped]
    exact h

end Gem

/-! ## Nearest counts inside the limits -/

/-- The counts are the nearest ones, then inside the limits, whole turns away. -/
structure Normalizes (g : Gem) (sky : Sky) (lim : Limits) (ac dc t_ac t_dc : Int) (JD : ℚ) :
    Prop where
  near : ∃ n_ac n_dc, g.shortestMove32 ac dc t_ac t_dc = some (n_ac, n_dc) ∧
    |((ac - n_ac : Int) : ℚ)| ≤ |g.haCpd * 180| ∧ |((dc - n_dc : Int) : ℚ)| ≤ |g.decCpd * 180|
  ends : ∃ ret n_ac n_dc,
    g.normalizeCountValues32 sky lim ac dc t_ac t_dc JD = some (ret, n_ac, n_dc) ∧
      g.full_ac ∣ n_ac - t_ac ∧ g.full_dc ∣ n_dc - t_dc ∧
      (ret = 0 → lim.outsideAc n_ac = false ∧ lim.outsideDc n_dc = false)

/-- The sums fit, and the test of the other axis does no harm. -/
structure Room (g : Gem) (sky : Sky) (lim : Limits) (ac dc t_ac t_dc : Int) (JD : ℚ) : Prop where
  diffAc : Int32 (ac - t_ac)
  diffDc : Int32 (dc - t_dc)
  harmless : g.Harmless ac dc t_ac t_dc
  nearAc : Int32 (g.nearAc ac dc t_ac t_dc)
  nearDc : Int32 (g.nearDc dc t_dc)
  limitsAc : g.RoomAc lim (g.nearAc ac dc t_ac t_dc)
  limitsDc : g.RoomDc lim (g.nearDc dc t_dc)
  flip : g.RoomFlip sky (g.northAc lim (g.nearAc ac dc t_ac t_dc)) dc
    (g.limitedDc lim (g.nearDc dc t_dc)) JD

section
variable {g : Gem} (sky : Sky) (lim : Limits) {ac dc t_ac t_dc : Int} (JD : ℚ)

/-- The code of the counts that were found. -/
def checked (t_ac t_dc : Int) : Int × Int × Int :=
  if lim.outsideDc t_dc then (-1, t_ac, t_dc)
  else if lim.outsideAc t_ac then (-1, t_ac, t_dc)
  else (0, t_ac, t_dc)

theorem normalizeCountValues32_eq_some_iff (hac : 0 < g.full_ac) (hdc : 0 < g.full_dc)
    (hac32 : Int32 g.full_ac) (hdc32 : Int32 g.full_dc) {n_ac n_dc : Int}
    (hnear : g.shortestMove32 ac dc t_ac t_dc = some (n_ac, n_dc))
    (hn_ac : Int32 n_ac) (hn_dc : Int32 n_dc) (r : Int × Int × Int) :
    g.normalizeCountValues32 sky lim ac dc t_ac t_dc JD = some r ↔
      (g.RoomAc lim n_ac ∧ g.RoomDc lim n_dc ∧
        g.RoomFlip sky (g.northAc lim n_ac) dc (g.limitedDc lim n_dc) JD) ∧
      r = checked lim (g.northAc lim n_ac)
        (g.flipped sky (g.northAc lim n_ac) dc (g.limitedDc lim n_dc) JD) := by
  unfold Gem.normalizeCountValues32 checked
  simp only [int32_of hac32, int32_of hdc32, hnear, Option.bind_eq_bind, Option.bind_some]
  rw [if_neg (by omega)]
  simp only [Option.bind_eq_some_iff, ← apply_ite some, Option.some.injEq]
  constructor
  · rintro ⟨u, hu, v, hv, w, hw, rfl⟩
    obtain ⟨hroomAc, rfl⟩ := (Gem.intoAcLimits32_eq_some_iff hac hn_ac).mp hu
    obtain ⟨hroomDc, rfl⟩ := (Gem.intoDcLimits32_eq_some_iff hdc hn_dc).mp hv
    obtain ⟨hflip, rfl⟩ := Gem.avoidDownFlip32_eq_some_iff.mp hw
    exact ⟨⟨hroomAc, hroomDc, hflip⟩, rfl⟩
  · rintro ⟨⟨hroomAc, hroomDc, hflip⟩, rfl⟩
    exact ⟨_, (Gem.intoAcLimits32_eq_some_iff hac hn_ac).mpr ⟨hroomAc, rfl⟩, _,
      (Gem.intoDcLimits32_eq_some_iff hdc hn_dc).mpr ⟨hroomDc, rfl⟩, _,
      Gem.avoidDownFlip32_eq_some_iff.mpr ⟨hflip, rfl⟩, rfl⟩

variable {sky lim JD}

/-- **Normalised counts**: the counts are brought to the nearest turn and into the limits,
without a sum that does not fit, if and only if there is room and the misplaced test does no
harm. -/
theorem normalizes_iff (hac : 0 < g.full_ac) (hdc : 0 < g.full_dc)
    (hac32 : Int32 g.full_ac) (hdc32 : Int32 g.full_dc) :
    Normalizes g sky lim ac dc t_ac t_dc JD ↔ Room g sky lim ac dc t_ac t_dc JD := by
  constructor
  · rintro ⟨⟨n_ac, n_dc, hshort, hlen_ac, hlen_dc⟩, ret, r_ac, r_dc, hends, -⟩
    rw [intCast_le_abs_iff] at hlen_ac hlen_dc
    obtain ⟨⟨hdiffAc, hdiffDc, hharmless, hnearAc, hnearDc⟩, rfl, rfl⟩ :=
      (g.shortestMove32_iff hac hdc hac32 hdc32 n_ac n_dc).mp ⟨hshort, hlen_ac, hlen_dc⟩
    obtain ⟨⟨hroomAc, hroomDc, hflip⟩, -⟩ := (normalizeCountValues32_eq_some_iff sky lim JD hac hdc
      hac32 hdc32 hshort hnearAc hnearDc _).mp hends
    exact ⟨hdiffAc, hdiffDc, hharmless, hnearAc, hnearDc, hroomAc, hroomDc, hflip⟩
  · rintro ⟨hdiffAc, hdiffDc, hharmless, hnearAc, hnearDc, hroomAc, hroomDc, hflip⟩
    obtain ⟨hshort, hlen_ac, hlen_dc⟩ := (g.shortestMove32_iff hac hdc hac32 hdc32 _ _).mpr
      ⟨⟨hdiffAc, hdiffDc, hharmless, hnearAc, hnearDc⟩, rfl, rfl⟩
    have hends := (normalizeCountValues32_eq_some_iff sky lim JD hac hdc hac32 hdc32 hshort hnearAc
      hnearDc _).mpr ⟨⟨hroomAc, hroomDc, hflip⟩, rfl⟩
    refine ⟨⟨_, _, hshort, (intCast_le_abs_iff _ _).mpr hlen_ac,
      (intCast_le_abs_iff _ _).mpr hlen_dc⟩, ?_⟩
    have hturns := normalizeCountValues_turns g sky (Gem.normalizeCountValues_of_32 hends)
    refine ⟨_, _, _, hends, hturns.1, hturns.2, fun hzero => ?_⟩
    have hcode : checked lim (g.northAc lim (g.nearAc ac dc t_ac t_dc)) _ = (0, _, _) :=
      Prod.ext hzero rfl
    rw [hcode] at hends
    exact normalizeCountValues_inside g sky (Gem.normalizeCountValues_of_32 hends)

end

/-- A turn is 36000 counts: the target of -35000 is that of 1000. -/
theorem normalizes_hundred :
    Normalizes hundredGem sagSky ⟨-18000, 18000, -13000, 13000⟩ 1000 5000 2000 (-35000) 0 :=
  (normalizes_iff (by decide +kernel) (by decide +kernel) (by decide +kernel)
    (by decide +kernel)).mpr
    { diffAc := by decide +kernel
      diffDc := by decide +kernel
      harmless := by
        unfold Gem.Harmless
        decide +kernel
      nearAc := by decide +kernel
      nearDc := by decide +kernel
      limitsAc := ⟨by decide +kernel, by decide +kernel, by decide +kernel⟩
      limitsDc := ⟨by decide +kernel, by decide +kernel⟩
      flip := fun hdown => absurd hdown (by decide +kernel) }

/-- The declination is more than half a turn away, and the right ascension, which is there
already, goes a turn round. -/
theorem not_normalizes_hundred :
    hundredGem.shortestMove32 0 0 0 18001 = some (-36000, -17999) ∧
      hundredGem.normalizeCountValues32 sagSky ⟨-40000, 40000, -40000, 40000⟩ 0 0 0 18001 0 =
        some (0, -36000, -17999) ∧
      ¬ Normalizes hundredGem sagSky ⟨-40000, 40000, -40000, 40000⟩ 0 0 0 18001 0 := by
  have hshort : hundredGem.shortestMove32 0 0 0 18001 = some (-36000, -17999) := by decide +kernel
  refine ⟨hshort, by decide +kernel, fun h => ?_⟩
  obtain ⟨n_ac, n_dc, hnear, hac, -⟩ := h.near
  rw [hshort] at hnear
  obtain ⟨rfl, rfl⟩ := Prod.mk.inj (Option.some.inj hnear)
  exact absurd hac (by decide +kernel)

end Rts2.Teld
