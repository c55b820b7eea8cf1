import Rts2.Teld.Trajectory

/-! # Trajectories and the hard horizon

A round compares the next position with the hard horizon only when the margins were
violated before, or while they are ignored at the beginning; otherwise the position is
let through unseen. Where a walk is cut short it goes back to a position it remembered,
which may not have been compared either. -/
namespace Rts2.Teld.Trajectory
open Rts2.Lib

/-! ## What is asked -/

/-- The positions of an axis that is stepped from `start` to `target`. -/
def axis (start target size : Int) : Nat → Int
  | 0 => start
  | k + 1 =>
    (advance (axis start target size k) target size (direction start target size)).1

section
variable (tr : Trajectory)

/-- The stepped positions. -/
def path (k : Nat) : Int × Int :=
  (axis tr.start.1 tr.target.1 tr.step.1 k, axis tr.start.2 tr.target.2 tr.step.2 k)

def Above (k : Nat) : Prop := tr.good (tr.path k) = true

/-- With 0 the walk reaches the target and is above the hard horizon, apart from an initial
stretch; with a positive code the position it leaves is a stepped one above the horizon. -/
structure Lawful (r : Int × Int × Int) : Prop where
  arrived : r.1 = 0 → ∃ N ≤ tr.steps, tr.path N = tr.target ∧
    ∃ m ≤ N, (∀ k < m, ¬ tr.Above k) ∧ ∀ k, m ≤ k → k ≤ N → tr.Above k
  shortened : 0 < r.1 → ∃ k ≤ tr.steps, r.2 = tr.path k ∧ tr.Above k

/-! ## When it is met -/

/-- The round goes on whatever the hard horizon is at the next position: before the margins
are violated, in the first round, and in a beginning below the horizon. -/
def Blind (c : Nat) (w : Walk) : Prop :=
  (w.soft_hit = false ∧ w.ignore_soft_beginning = false) ∨
    c = 0 ∨ (w.hard_beginning = true ∧ c ≤ 20)

instance (c : Nat) (w : Walk) : Decidable (Blind c w) := by
  unfold Blind
  infer_instance

/-- The round sees that the next position is below the hard horizon, and gives up. -/
def Refuses (c : Nat) (w : Walk) : Prop :=
  tr.flips (tr.next w) = false ∧ ¬ Blind c w ∧ tr.good (tr.next w) = false

/-- The round comes to the target. -/
def Arrives (c : Nat) (w : Walk) : Prop :=
  tr.flips (tr.next w) = false ∧ (Blind c w ∨ tr.good (tr.next w) = true) ∧ tr.arrives w = true

/-- The position a walk goes back to is one above the horizon: with the margins violated the
last position before, on the start and without the margins violated the last position; in
a beginning that is ignored the walk is no longer in one below the horizon. -/
def FallsBack (c : Nat) (w : Walk) : Prop :=
  if w.soft_hit then tr.good w.soft = true
  else if w.ignore_soft_beginning ∧ c ≠ 0 then w.hard_beginning = false
  else tr.good w.t = true

/-- What a walk that meets its contract asks of the positions it does not compare. -/
structure Clear : Prop where
  /-- A position that is let through unseen, on the way to the target, is above the horizon,
  or no position before it is and the target is ahead. -/
  unseen : ∀ c w, c < tr.steps → tr.walk c = .ok w → tr.Arrives c w →
    ∀ c' w', c' ≤ c → tr.walk c' = .ok w' → Blind c' w' → tr.good (tr.next w') = false →
      (∀ j ≤ c', ¬ tr.Above j) ∧ tr.next w' ≠ tr.target
  refused : ∀ c w, c < tr.steps → tr.walk c = .ok w → tr.Refuses c w → tr.FallsBack c w
  exhausted : ∀ w, tr.walk tr.steps = .ok w → tr.FallsBack tr.steps w
  flipped : ∀ c w, c < tr.steps → tr.walk c = .ok w → tr.flips (tr.next w) = true →
    tr.good (tr.next w) = true

end

/-! ## One round -/

variable {tr : Trajectory} {c : Nat} {w w' : Walk}

/-- `hard_beginning` after the test. -/
def beginning (tr : Trajectory) (c : Nat) (w : Walk) : Bool :=
  if w.soft_hit = true ∨ w.ignore_soft_beginning = true then
    tr.good (tr.next w) = false && (decide (c = 0) || w.hard_beginning)
  else w.hard_beginning

theorem hardTest_ok (h : Blind c w ∨ tr.good (tr.next w) = true) :
    tr.hardTest c w = .ok (tr.beginning c w) := by
  unfold hardTest beginning Blind at *
  generalize tr.good (tr.next w) = g at *
  cases g with
  | true => by_cases htest : w.soft_hit = true ∨ w.ignore_soft_beginning = true <;> simp [htest]
  | false =>
    simp only [Bool.false_eq_true, or_false] at h
    by_cases htest : w.soft_hit = true ∨ w.ignore_soft_beginning = true
    · have hnormal : ¬(w.soft_hit = false ∧ w.ignore_soft_beginning = false) := by
        rcases htest with ht | ht <;> simp [ht]
      rcases h with h | rfl | ⟨hb, hc⟩
      · exact absurd h hnormal
      · simp [htest]
      · by_cases hzero : c = 0
        · simp [htest, hzero]
        · simp [htest, hzero, hb, Nat.not_lt.mpr hc]
    · simp [htest]

theorem hardTest_error (h : ¬ Blind c w) (hgood : tr.good (tr.next w) = false) :
    tr.hardTest c w = .error (if w.soft_hit then (2, w.soft) else (3, w.t)) := by
  unfold Blind at h
  have htest : w.soft_hit = true ∨ w.ignore_soft_beginning = true := by
    by_contra hno
    simp only [not_or, Bool.not_eq_true] at hno
    exact h (.inl hno)
  have hzero : c ≠ 0 := fun hc => h (.inr (.inl hc))
  have hlate : w.hard_beginning = false ∨ 20 < c := by
    by_contra hno
    simp only [not_or, Bool.not_eq_false, Nat.not_lt] at hno
    exact h (.inr (.inr hno))
  simp [hardTest, htest, hgood, hzero, hlate]

theorem round_of_refuses (h : tr.Refuses c w) :
    tr.round c w = .error (if w.soft_hit then (2, w.soft) else (3, w.t)) := by
  obtain ⟨hflip, hblind, hgood⟩ := h
  simp [round, hflip, hardTest_error hblind hgood]

theorem round_of_arrives (h : tr.Arrives c w) : tr.round c w = .error (0, tr.target) := by
  obtain ⟨hflip, hsees, harr⟩ := h
  simp [round, hflip, hardTest_ok hsees, harr]

/-- What a round can do. -/
theorem round_cases (tr : Trajectory) (c : Nat) (w : Walk) :
    (tr.flips (tr.next w) = true ∧ tr.round c w = .error (4, tr.next w)) ∨
      (tr.Refuses c w ∧ tr.round c w = .error (if w.soft_hit then (2, w.soft) else (3, w.t))) ∨
      (tr.Arrives c w ∧ tr.round c w = .error (0, tr.target)) ∨
      (tr.flips (tr.next w) = false ∧ (Blind c w ∨ tr.good (tr.next w) = true) ∧
        ∃ w', tr.round c w = .ok w') := by
  by_cases hflip : tr.flips (tr.next w) = true
  · exact .inl ⟨hflip, by simp [round, hflip]⟩
  · rw [Bool.not_eq_true] at hflip
    by_cases hsees : Blind c w ∨ tr.good (tr.next w) = true
    · by_cases harr : tr.arrives w = true
      · have h : tr.Arrives c w := ⟨hflip, hsees, harr⟩
        exact .inr (.inr (.inl ⟨h, round_of_arrives h⟩))
      · refine .inr (.inr (.inr ⟨hflip, hsees, ?_⟩))
        simp [round, hflip, hardTest_ok hsees, harr]
    · simp only [not_or, Bool.not_eq_true] at hsees
      have h : tr.Refuses c w := ⟨hflip, hsees.1, hsees.2⟩
      exact .inr (.inl ⟨h, round_of_refuses h⟩)

/-! ## The walk is on the path -/

theorem advance_spec {t target size step dir : Int} (hsize : 0 < size)
    (hstep : step = dir ∨ (step = 0 ∧ t = target)) :
    (advance t target size step).1 = (advance t target size dir).1 ∧
      ((advance t target size step).2 = dir ∨
        ((advance t target size step).2 = 0 ∧ (advance t target size step).1 = target)) := by
  unfold advance
  by_cases hnear : |t - target| < size
  · simp [hnear]
  · rcases hstep with rfl | ⟨-, rfl⟩
    · simp [hnear]
    · simp [hsize] at hnear

theorem direction_ne_zero {start target size : Int} (hsize : 0 < size) :
    direction start target size ≠ 0 := by
  unfold direction
  split <;> omega

/-- An axis that came to its target stays there. -/
theorem axis_stays {start target size : Int} (hsize : 0 < size) {k : Nat}
    (h : axis start target size k = target) (i : Nat) :
    axis start target size (k + i) = target := by
  induction i with
  | zero => exact h
  | succ i ih =>
    rw [← Nat.add_assoc, axis, ih]
    simp [advance, hsize]

/-- The path stays at the target. -/
theorem path_stays (hsize : 0 < tr.step.1 ∧ 0 < tr.step.2) {k j : Nat}
    (h : tr.path k = tr.target) (hkj : k ≤ j) : tr.path j = tr.target := by
  obtain ⟨i, rfl⟩ := Nat.exists_eq_add_of_le hkj
  have hA : axis tr.start.1 tr.target.1 tr.step.1 k = tr.target.1 := congrArg Prod.fst h
  have hD : axis tr.start.2 tr.target.2 tr.step.2 k = tr.target.2 := congrArg Prod.snd h
  exact Prod.ext (axis_stays hsize.1 hA i) (axis_stays hsize.2 hD i)

/-- What is true before round `c`. -/
structure Inv (tr : Trajectory) (c : Nat) (w : Walk) : Prop where
  place : w.t = tr.path c
  stepA : w.step.1 = direction tr.start.1 tr.target.1 tr.step.1 ∨
    (w.step.1 = 0 ∧ w.t.1 = tr.target.1)
  stepD : w.step.2 = direction tr.start.2 tr.target.2 tr.step.2 ∨
    (w.step.2 = 0 ∧ w.t.2 = tr.target.2)
  soft : ∃ j ≤ c, w.soft = tr.path j
  normal : w.ignore_soft_beginning = false → w.hard_beginning = false
  hit : w.soft_hit = true → w.ignore_soft_beginning = false ∧ c ≠ 0
  below : w.hard_beginning = true → c ≠ 0 ∧ ¬ tr.Above c
  above : w.ignore_soft_beginning = true → w.hard_beginning = false → c ≠ 0 → tr.Above c

theorem Inv.begin (tr : Trajectory) : Inv tr 0 tr.begin where
  place := rfl
  stepA := .inl rfl
  stepD := .inl rfl
  soft := ⟨0, le_rfl, rfl⟩
  normal _ := rfl
  hit h := by cases h
  below h := by cases h
  above _ _ h := absurd rfl h

theorem Inv.next_eq (h : Inv tr c w) (hsize : 0 < tr.step.1 ∧ 0 < tr.step.2) :
    tr.next w = tr.path (c + 1) := by
  have hA : w.t.1 = axis tr.start.1 tr.target.1 tr.step.1 c := congrArg Prod.fst h.place
  have hD : w.t.2 = axis tr.start.2 tr.target.2 tr.step.2 c := congrArg Prod.snd h.place
  refine Prod.ext ?_ ?_
  · simp only [next, nextA, path, axis, ← hA]
    exact (advance_spec hsize.1 h.stepA).1
  · simp only [next, nextD, path, axis, ← hD]
    exact (advance_spec hsize.2 h.stepD).1

theorem Inv.arrives_eq (h : Inv tr c w) (hsize : 0 < tr.step.1 ∧ 0 < tr.step.2)
    (harr : tr.arrives w = true) : tr.next w = tr.target := by
  simp only [arrives, nextA, nextD, Bool.and_eq_true] at harr
  refine Prod.ext ?_ ?_
  · rcases (advance_spec hsize.1 h.stepA).2 with hdir | hat
    · exact absurd (hdir.symm.trans (of_decide_eq_true harr.1)) (direction_ne_zero hsize.1)
    · exact hat.2
  · rcases (advance_spec hsize.2 h.stepD).2 with hdir | hat
    · exact absurd (hdir.symm.trans (of_decide_eq_true harr.2)) (direction_ne_zero hsize.2)
    · exact hat.2

/-- What the test with the margins leaves: the variables, or the position before as the
soft one, with the margins violated or no longer ignored. -/
theorem softTest_cases (tr : Trajectory) (w : Walk) (n : Int × Int) :
    tr.softTest w n = w ∨
      (w.ignore_soft_beginning = true ∧ w.hard_beginning = false ∧
        tr.softTest w n = { w with ignore_soft_beginning := false, soft := w.t }) ∨
      (w.ignore_soft_beginning = false ∧ w.hard_beginning = false ∧
        tr.softTest w n = { w with soft_hit := true, soft := w.t }) := by
  unfold softTest
  cases hw : w.soft_hit <;> cases hb : w.hard_beginning <;> cases hi : w.ignore_soft_beginning <;>
    cases tr.goodWithMargin n <;> simp_all

theorem round_ok (h : tr.round c w = .ok w') :
    tr.flips (tr.next w) = false ∧ (Blind c w ∨ tr.good (tr.next w) = true) ∧
      w' = { tr.softTest { w with hard_beginning := tr.beginning c w } (tr.next w) with
        t := tr.next w
        step := ((tr.nextA w).2, (tr.nextD w).2) } := by
  rcases round_cases tr c w with ⟨-, hr⟩ | ⟨-, hr⟩ | ⟨-, hr⟩ | ⟨hflip, hsees, -⟩
  · rw [hr] at h
    cases h
  · rw [hr] at h
    cases h
  · rw [hr] at h
    cases h
  · refine ⟨hflip, hsees, ?_⟩
    rw [round, if_neg (by simp [hflip]), hardTest_ok hsees] at h
    dsimp only at h
    split at h
    · cases h
    · exact (Except.ok.inj h).symm

/-- A beginning below the horizon is one that is ignored. -/
theorem Inv.beginning_true (h : Inv tr c w) (hb : tr.beginning c w = true) :
    w.ignore_soft_beginning = true ∧ tr.good (tr.next w) = false := by
  unfold Trajectory.beginning at hb
  cases hign : w.ignore_soft_beginning with
  | true =>
    simp only [hign, or_true, if_true, Bool.and_eq_true] at hb
    exact ⟨rfl, of_decide_eq_true hb.1⟩
  | false =>
    have hbeg := h.normal hign
    cases hhit : w.soft_hit with
    | true =>
      have hc := (h.hit hhit).2
      simp [hhit, hbeg, hc] at hb
    | false => simp [hhit, hign, hbeg] at hb

/-- What is seen in a beginning that is ignored is above the horizon. -/
theorem good_of_beginning_false (hsees : Blind c w ∨ tr.good (tr.next w) = true)
    (hign : w.ignore_soft_beginning = true) (hb : tr.beginning c w = false) :
    tr.good (tr.next w) = true := by
  by_contra hgood
  rw [Bool.not_eq_true] at hgood
  simp only [Trajectory.beginning, hign, or_true, if_true, hgood, decide_true, Bool.true_and,
    Bool.or_eq_false_iff, decide_eq_false_iff_not] at hb
  rcases hsees with hnormal | hgood'
  · rcases hnormal with ⟨-, hno⟩ | hzero | ⟨hbeg, -⟩
    · simp [hign] at hno
    · exact hb.1 hzero
    · simp [hb.2] at hbeg
  · simp [hgood] at hgood'

/-- One round keeps the invariant. -/
theorem Inv.round (hsize : 0 < tr.step.1 ∧ 0 < tr.step.2) (h : Inv tr c w)
    (hr : tr.round c w = .ok w') : Inv tr (c + 1) w' := by
  obtain ⟨-, hsees, rfl⟩ := round_ok hr
  have hnext := h.next_eq hsize
  have hA := (advance_spec hsize.1 h.stepA).2
  have hD := (advance_spec hsize.2 h.stepD).2
  obtain ⟨j, hj, hsoft⟩ := h.soft
  rcases softTest_cases tr { w with hard_beginning := tr.beginning c w } (tr.next w) with
    he | ⟨hign, hb, he⟩ | ⟨hign, hb, he⟩
  · rw [he]
    exact
      { place := hnext
        stepA := hA
        stepD := hD
        soft := ⟨j, by omega, hsoft⟩
        normal := fun hign => by
          by_contra hb
          rw [Bool.not_eq_false] at hb
          exact Bool.false_ne_true (hign.symm.trans (h.beginning_true hb).1)
        hit := fun hhit => ⟨(h.hit hhit).1, Nat.succ_ne_zero c⟩
        below := fun hb => ⟨Nat.succ_ne_zero c, by
          rw [Above, ← hnext, (h.beginning_true hb).2]
          exact Bool.false_ne_true⟩
        above := fun hign hb _ => by
          rw [Above, ← hnext]
          exact good_of_beginning_false hsees hign hb }
  · rw [he]
    exact
      { place := hnext
        stepA := hA
        stepD := hD
        soft := ⟨c, by omega, h.place⟩
        normal := fun _ => hb
        hit := fun _ => ⟨rfl, Nat.succ_ne_zero c⟩
        below := fun ht => absurd (hb.symm.trans ht) Bool.false_ne_true
        above := fun ht => absurd ht Bool.false_ne_true }
  · rw [he]
    exact
      { place := hnext
        stepA := hA
        stepD := hD
        soft := ⟨c, by omega, h.place⟩
        normal := fun _ => hb
        hit := fun _ => ⟨hign, Nat.succ_ne_zero c⟩
        below := fun ht => absurd (hb.symm.trans ht) Bool.false_ne_true
        above := fun ht => absurd (hign.symm.trans ht) Bool.false_ne_true }

theorem walk_inv (hsize : 0 < tr.step.1 ∧ 0 < tr.step.2) (h : tr.walk c = .ok w) : Inv tr c w :=
  rounds_invariant (Inv.begin tr) (fun _ _ _ hi hr => hi.round hsize hr) h

/-! ## The defect, exactly -/

/-- The position a walk goes back to is a stepped one. -/
theorem Inv.back_path (h : Inv tr c w) :
    ∃ k ≤ c, (if w.soft_hit then w.soft else w.t) = tr.path k := by
  split
  · exact h.soft
  · exact ⟨c, le_rfl, h.place⟩

/-- `FallsBack` says that the position a walk goes back to is above the horizon. -/
theorem Inv.fallsBack_iff (h : Inv tr c w) :
    tr.FallsBack c w ↔ tr.good (if w.soft_hit then w.soft else w.t) = true := by
  unfold FallsBack
  split
  · exact Iff.rfl
  · split
    · next hign =>
      have hplace := h.place
      constructor
      · intro hb
        rw [hplace]
        exact h.above hign.1 hb hign.2
      · intro hgood
        by_contra hb
        rw [hplace] at hgood
        exact (h.below (Bool.not_eq_false _ ▸ hb)).2 hgood
    · exact Iff.rfl

/-- A round that lets a position below the horizon through is blind. -/
theorem blind_of_below (hsees : Blind c w ∨ tr.good (tr.next w) = true)
    (hgood : tr.good (tr.next w) = false) : Blind c w := by
  rcases hsees with hblind | ht
  · exact hblind
  · exact absurd (hgood.symm.trans ht) Bool.false_ne_true

/-- The rounds of a walk that comes to the target in round `c`: each lets its position
through. -/
theorem sees_of_arrives {k : Nat} (hw : tr.walk c = .ok w) (harr : tr.Arrives c w) (hk : k ≤ c) :
    ∃ u, tr.walk k = .ok u ∧ (Blind k u ∨ tr.good (tr.next u) = true) := by
  obtain ⟨u, hu⟩ := rounds_ok_of_le hw hk
  refine ⟨u, hu, ?_⟩
  rcases Nat.lt_or_ge k c with hlt | hge
  · obtain ⟨v, hv⟩ := rounds_ok_of_le hw (show k + 1 ≤ c from hlt)
    obtain ⟨u', hu', hround⟩ := rounds_succ_ok.mp hv
    rw [hu] at hu'
    cases hu'
    exact (round_ok hround).2.1
  · have heq : k = c := by omega
    subst heq
    rw [show tr.walk k = .ok u from hu] at hw
    cases hw
    exact harr.2.1

/-- What a round returns is what `checkTrajectory` returns. -/
theorem checkTrajectory_of_error {r : Int × Int × Int} (hc : c < tr.steps)
    (hw : tr.walk c = .ok w) (hr : tr.round c w = .error r) : tr.checkTrajectory = r := by
  have herr : tr.walk tr.steps = .error r := rounds_of_error hw hr hc
  simp [checkTrajectory, herr]

/-- The positions of a walk that comes to the target. -/
theorem arrived_of_unseen (hsize : 0 < tr.step.1 ∧ 0 < tr.step.2) (hc : c < tr.steps)
    (hw : tr.walk c = .ok w) (harr : tr.Arrives c w)
    (hunseen : ∀ c' w', c' ≤ c → tr.walk c' = .ok w' → Blind c' w' →
      tr.good (tr.next w') = false → (∀ j ≤ c', ¬ tr.Above j) ∧ tr.next w' ≠ tr.target) :
    ∃ N ≤ tr.steps, tr.path N = tr.target ∧
      ∃ m ≤ N, (∀ k < m, ¬ tr.Above k) ∧ ∀ k, m ≤ k → k ≤ N → tr.Above k := by
  classical
  have htarget : tr.path (c + 1) = tr.target := by
    rw [← (walk_inv hsize hw).next_eq hsize]
    exact (walk_inv hsize hw).arrives_eq hsize harr.2.2
  -- what lies below the horizon has only positions below it before, and is not the target
  have hbelow : ∀ k ≤ c, ¬ tr.Above (k + 1) →
      (∀ j ≤ k, ¬ tr.Above j) ∧ tr.path (k + 1) ≠ tr.target := by
    intro k hk hno
    obtain ⟨u, hu, hsees⟩ := sees_of_arrives hw harr hk
    have hnext := (walk_inv hsize hu).next_eq hsize
    have hgood : tr.good (tr.next u) = false := by
      rw [hnext]
      exact Bool.not_eq_true _ ▸ hno
    rw [← hnext]
    exact hunseen k u hk hu (blind_of_below hsees hgood) hgood
  have hlast : tr.Above (c + 1) := by
    by_contra hno
    exact (hbelow c le_rfl hno).2 htarget
  have hex : ∃ m, tr.Above m := ⟨c + 1, hlast⟩
  refine ⟨c + 1, hc, htarget, Nat.find hex, Nat.find_le hlast, fun k hk => Nat.find_min hex hk, ?_⟩
  intro k hmk hkN
  by_contra hno
  cases k with
  | zero => exact hno ((Nat.le_zero.mp hmk) ▸ Nat.find_spec hex)
  | succ k =>
    rcases Nat.eq_or_lt_of_le hmk with heq | hlt
    · exact hno (heq ▸ Nat.find_spec hex)
    · exact (hbelow k (by omega) hno).1 _ (by omega) (Nat.find_spec hex)

/-- What is left by a walk that goes back, or that would flip. -/
theorem Inv.lawful_back_iff {r : Int × Int × Int} (h : Inv tr c w) (hc : c ≤ tr.steps)
    (hpos : 0 < r.1) (hr : r.2 = if w.soft_hit then w.soft else w.t) :
    tr.Lawful r ↔ tr.FallsBack c w := by
  rw [h.fallsBack_iff, ← hr]
  constructor
  · intro hlaw
    obtain ⟨k, -, hpath, habove⟩ := hlaw.shortened hpos
    rw [hpath]
    exact habove
  · intro hgood
    obtain ⟨k, hk, hpath⟩ := h.back_path
    rw [← hr] at hpath
    exact ⟨fun hz => by omega, fun _ => ⟨k, by omega, hpath, by rwa [Above, ← hpath]⟩⟩

theorem refused_answer (w : Walk) :
    0 < (if w.soft_hit then ((2 : Int), w.soft) else (3, w.t)).1 ∧
      (if w.soft_hit then ((2 : Int), w.soft) else (3, w.t)).2 =
        if w.soft_hit then w.soft else w.t := by
  cases w.soft_hit <;> simp

/-- What is asked of the positions that are not compared is enough. -/
theorem lawful_of_clear (hsize : 0 < tr.step.1 ∧ 0 < tr.step.2) (h : tr.Clear) :
    tr.Lawful tr.checkTrajectory := by
  cases hend : tr.walk tr.steps with
  | ok w =>
    have hret : tr.checkTrajectory = (1, if w.soft_hit then w.soft else w.t) := by
      simp [checkTrajectory, hend]
    rw [hret]
    exact ((walk_inv hsize hend).lawful_back_iff le_rfl Int.one_pos rfl).mpr (h.exhausted w hend)
  | error r =>
    obtain ⟨c, hc, w, hw, hr⟩ := rounds_error hend
    have hinv := walk_inv hsize hw
    rw [checkTrajectory_of_error hc hw hr]
    rcases round_cases tr c w with ⟨hflip, he⟩ | ⟨href, he⟩ | ⟨harr, he⟩ | ⟨-, -, w', he⟩
    · rw [hr] at he
      cases he
      have hnext := hinv.next_eq hsize
      have hgood := h.flipped c w hc hw hflip
      exact ⟨fun hz => by simp at hz, fun _ => ⟨c + 1, hc, hnext, by rwa [Above, ← hnext]⟩⟩
    · rw [hr] at he
      cases he
      obtain ⟨hpos, hback⟩ := refused_answer w
      exact (hinv.lawful_back_iff (by omega) hpos hback).mpr (h.refused c w hc hw href)
    · rw [hr] at he
      cases he
      exact ⟨fun _ => arrived_of_unseen hsize hc hw harr (h.unseen c w hc hw harr),
        fun hp => by simp at hp⟩
    · rw [hr] at he
      cases he

/-- A walk that comes to the target lets nothing through below the horizon, after it was
above. -/
theorem unseen_of_arrived (hsize : 0 < tr.step.1 ∧ 0 < tr.step.2)
    (hlaw : ∃ N ≤ tr.steps, tr.path N = tr.target ∧
      ∃ m ≤ N, (∀ k < m, ¬ tr.Above k) ∧ ∀ k, m ≤ k → k ≤ N → tr.Above k)
    (hw : tr.walk c = .ok w) (hgood : tr.good (tr.next w) = false) :
    (∀ j ≤ c, ¬ tr.Above j) ∧ tr.next w ≠ tr.target := by
  obtain ⟨N, -, hN, m, hmN, hbefore, hafter⟩ := hlaw
  have hnext := (walk_inv hsize hw).next_eq hsize
  have hno : ¬ tr.Above (c + 1) := by
    rw [Above, ← hnext, hgood]
    exact Bool.false_ne_true
  have htarget : tr.Above N := hafter N hmN le_rfl
  rw [Above, hN] at htarget
  have hoff : tr.path (c + 1) ≠ tr.target := by
    intro heq
    rw [Above, heq] at hno
    exact hno htarget
  have hcN : c + 1 ≤ N := by
    by_contra hlt
    exact hoff (path_stays hsize hN (by omega))
  have hcm : c + 1 < m := by
    by_contra hle
    exact hno (hafter (c + 1) (by omega) hcN)
  exact ⟨fun j hj => hbefore j (by omega), hnext ▸ hoff⟩

theorem clear_of_lawful (hsize : 0 < tr.step.1 ∧ 0 < tr.step.2)
    (h : tr.Lawful tr.checkTrajectory) : tr.Clear where
  unseen c w hc hw harr c' w' _ hw' _ hgood := by
    rw [checkTrajectory_of_error hc hw (round_of_arrives harr)] at h
    exact unseen_of_arrived hsize (h.arrived rfl) hw' hgood
  refused c w hc hw href := by
    rw [checkTrajectory_of_error hc hw (round_of_refuses href)] at h
    obtain ⟨hpos, hback⟩ := refused_answer w
    exact ((walk_inv hsize hw).lawful_back_iff (by omega) hpos hback).mp h
  exhausted w hw := by
    have hret : tr.checkTrajectory = (1, if w.soft_hit then w.soft else w.t) := by
      simp [checkTrajectory, hw]
    rw [hret] at h
    exact ((walk_inv hsize hw).lawful_back_iff le_rfl Int.one_pos rfl).mp h
  flipped c w hc hw hflip := by
    have hret : tr.round c w = .error (4, tr.next w) := by simp [Trajectory.round, hflip]
    rw [checkTrajectory_of_error hc hw hret] at h
    obtain ⟨k, -, hpath, habove⟩ := h.shortened (by simp)
    rw [show tr.next w = tr.path k from hpath]
    exact habove

/-- A trajectory meets its contract exactly when the positions that are not compared with
the hard horizon happen to be above it. -/
theorem lawful_iff_clear (hsize : 0 < tr.step.1 ∧ 0 < tr.step.2) :
    tr.Lawful tr.checkTrajectory ↔ tr.Clear :=
  ⟨clear_of_lawful hsize, lawful_of_clear hsize⟩

/-! ### The target of one step below the horizon -/

/-- A mount on the pole, where the declination is the altitude. -/
def poleGem : Gem :=
  { haZeroPos := 0, haZero := 0, decZero := 0, haCpd := 100, decCpd := 100, acMargin := 0,
    ra_ticks := 36000, telLatitude := 90, telLongitude := 0, flip_move_start := 0 }

def poleSky : Sky :=
  { getLstDeg := fun _ _ => 0
    applyCorrections := fun pos _ _ => (pos, ⟨pos.ra, pos.dec⟩)
    applyModel := fun _ _ _ _ _ => ⟨0, 0⟩
    updateLimits := fun lim => (0, lim)
    rangeDegrees := fun x => x - 360 * ⌊x / 360⌋
    hrzFromEqu := fun pos _ _ _ => ⟨pos.ra, pos.dec⟩ }

/-- In declination only, with steps of five degrees and margins of five degrees. -/
def poleTrajectory (dc dt : Int) : Trajectory :=
  poleGem.trajectory poleSky ⟨[], false⟩ 0 0 (0, dc) (0, dt) (500, 500) 2000 5 5 false false

end Rts2.Teld.Trajectory

namespace Rts2.Teld
open Trajectory

end Rts2.Teld
