import Mathlib.Algebra.Ring.Int.Defs
import Mathlib.Data.Prod.Lex
import Mathlib.Order.BooleanAlgebra.Basic
import Mathlib.Order.WithBot
import Rts2.Lib.WeakOrder

/-! # Comparisons of targets

The functions by which the queues of a selector are sorted. Numbers are those of any linear order; a
duration can be no number, or infinite. -/
namespace Rts2.Plan.TargetSort
open Lib.WeakOrder

/-- `getSatisfiedDuration`: the time the constraints are violated, nothing when they are violated at the
start, infinity when they are never. -/
inductive Duration (K : Type*) where
  | nan
  | finite (v : K)
  | inf

/-- What a comparison asks of a target, at its date. -/
structure Target (K : Type*) where
  hourAngle : K
  alt : K
  isAboveHorizon : Bool
  priority : K
  satisfiedDuration : Duration K

variable {K : Type*} [LinearOrder K]

/-- `sortWestEast::doSort` -/
def sortWestEast (tar1 tar2 : Target K) : Bool :=
  if tar1.isAboveHorizon ≠ tar2.isAboveHorizon then tar1.isAboveHorizon
  else decide (tar2.hourAngle < tar1.hourAngle)

/-- `sortByMeridianPriority::doSort` -/
def sortByMeridianPriority [Zero K] (tar1 tar2 : Target K) : Bool :=
  if tar1.hourAngle < 0 ∧ tar2.hourAngle < 0 then decide (tar2.alt < tar1.alt)
  else if tar1.priority = tar2.priority then sortWestEast tar1 tar2
  else decide (tar2.priority < tar1.priority)

/-- `sortByOutOfLimits::doSort` -/
def sortByOutOfLimits (tar1 tar2 : Target K) : Bool :=
  match tar1.satisfiedDuration, tar2.satisfiedDuration with
  | .nan, .nan => sortWestEast tar1 tar2
  | .inf, .inf => sortWestEast tar1 tar2
  | .nan, _ => false
  | _, .inf => false
  | _, .nan => true
  | .inf, _ => true
  | .finite v1, .finite v2 => decide (v1 < v2)

/-- What `std::list::sort` needs of a comparison of the targets of a set. -/
def Sorts (targets : Set (Target K)) (doSort : Target K → Target K → Bool) : Prop :=
  IsStrictWeakOrder targets fun tar1 tar2 => doSort tar1 tar2 = true

/-! ## By priority at the meridian -/

/-- By priority, and those above the horizon first. -/
def rank (tar : Target K) : K ×ₗ Bool := toLex (tar.priority, tar.isAboveHorizon)

/-- By rank, and from west to east. -/
def key (tar : Target K) : (K ×ₗ Bool) ×ₗ K := toLex (rank tar, tar.hourAngle)

theorem rank_lt {a b : Target K} : rank a < rank b ↔
    a.priority < b.priority ∨ a.priority = b.priority ∧ a.isAboveHorizon < b.isAboveHorizon :=
  Prod.Lex.toLex_lt_toLex

theorem key_lt {a b : Target K} : key a < key b ↔
    rank a < rank b ∨ rank a = rank b ∧ a.hourAngle < b.hourAngle :=
  Prod.Lex.toLex_lt_toLex

omit [LinearOrder K] in
theorem rank_eq {a b : Target K} : rank a = rank b ↔
    a.priority = b.priority ∧ a.isAboveHorizon = b.isAboveHorizon :=
  toLex.injective.eq_iff.trans Prod.ext_iff

/-- From west to east. -/
theorem sortWestEast_iff {a b : Target K} : sortWestEast a b = true ↔
    b.isAboveHorizon < a.isAboveHorizon ∨
      a.isAboveHorizon = b.isAboveHorizon ∧ b.hourAngle < a.hourAngle := by
  unfold sortWestEast
  by_cases habove : a.isAboveHorizon = b.isAboveHorizon
  · rw [if_neg (not_not.mpr habove), decide_eq_true_iff, habove]
    simp
  · rw [if_pos habove]
    cases ha : a.isAboveHorizon with
    | false =>
      rw [ha] at habove
      exact iff_of_false Bool.false_ne_true fun h => h.elim not_lt_bot fun h => habove h.1
    | true =>
      rw [ha] at habove
      have hb : b.isAboveHorizon = false := Bool.eq_false_of_not_eq_true fun h => habove h.symm
      exact iff_of_true rfl (.inl (hb ▸ Bool.false_lt_true))

section
variable [Zero K]

/-- The target has not passed the meridian. -/
def East (tar : Target K) : Prop := tar.hourAngle < 0

/-- Of two targets before the meridian the one of higher rank is the higher one, where a target behind the
meridian comes between them. -/
def Meets (targets : Set (Target K)) : Prop :=
  ∀ e1 ∈ targets, ∀ e2 ∈ targets, ∀ w ∈ targets, East e1 → East e2 → ¬ East w →
    rank w < rank e1 → rank e2 ≤ rank w → e2.alt < e1.alt

/-- Two targets that have not passed the meridian are compared by their altitudes, others by rank and from
west to east. -/
theorem sortByMeridianPriority_iff {a b : Target K} : sortByMeridianPriority a b = true ↔
    Switched East (fun a b => b.alt < a.alt) (fun a b => key b < key a) a b := by
  unfold sortByMeridianPriority
  by_cases hboth : a.hourAngle < 0 ∧ b.hourAngle < 0
  · rw [if_pos hboth, decide_eq_true_iff]
    have hq : Switched East (fun a b => b.alt < a.alt) (fun a b => key b < key a) a b ↔ b.alt < a.alt :=
      switched_both hboth.1 hboth.2
    exact hq.symm
  · rw [if_neg hboth]
    refine Iff.trans ?_ (switched_not hboth).symm
    rw [key_lt, rank_lt, rank_eq]
    by_cases hpriority : a.priority = b.priority
    · rw [if_pos hpriority, sortWestEast_iff, hpriority]
      simp only [lt_irrefl, false_or, true_and]
      rw [eq_comm (a := a.isAboveHorizon)]
    · rw [if_neg hpriority, decide_eq_true_iff]
      constructor
      · exact fun h => .inl (.inl h)
      · rintro ((h | ⟨h, -⟩) | ⟨⟨h, -⟩, -⟩)
        · exact h
        · exact absurd h.symm hpriority
        · exact absurd h.symm hpriority

/-- A target behind the meridian comes before one of its rank that is not. -/
theorem key_lt_rank {e w : Target K} (he : East e) (hw : ¬ East w) :
    (key w < key e ↔ rank w < rank e) ∧ (key e < key w ↔ rank e ≤ rank w) := by
  have hless : e.hourAngle < w.hourAngle := he.trans_le (not_lt.mp hw)
  constructor
  · rw [key_lt]
    constructor
    · rintro (h | ⟨-, h⟩)
      · exact h
      · exact absurd h hless.asymm
    · exact .inl
  · rw [key_lt, le_iff_lt_or_eq]
    constructor
    · exact Or.imp_right And.left
    · exact Or.imp_right fun h => ⟨h, hless⟩

/-- The targets of a set can be sorted if and only if none behind the meridian comes between two before it
that are ordered the other way. -/
theorem sortByMeridianPriority_sorts_iff (targets : Set (Target K)) :
    Sorts targets sortByMeridianPriority ↔ Meets targets := by
  have hq : IsStrictWeakOrder targets fun a b => b.1.alt < a.1.alt := of_key_desc fun a : targets => a.1.alt
  have hr : IsStrictWeakOrder targets fun a b => key b.1 < key a.1 := of_key_desc fun a : targets => key a.1
  have hapart (a w : targets) (ha : East a.1) (hw : ¬ East w.1) : key w.1 < key a.1 ∨ key a.1 < key w.1 :=
    (lt_or_ge (rank w.1) (rank a.1)).imp (key_lt_rank ha hw).1.mpr (key_lt_rank ha hw).2.mpr
  have hswitched : Sorts targets sortByMeridianPriority ↔ IsStrictWeakOrder targets
      (Switched (fun a => East a.1) (fun a b => b.1.alt < a.1.alt) fun a b => key b.1 < key a.1) := by
    have hsame : (fun a b : targets => sortByMeridianPriority a.1 b.1 = true) =
        Switched (fun a : targets => East a.1) (fun a b => b.1.alt < a.1.alt) fun a b => key b.1 < key a.1 :=
      funext fun a => funext fun b => propext sortByMeridianPriority_iff
    unfold Sorts
    rw [hsame]
  rw [hswitched, switched_iff hq hr hapart]
  constructor
  · intro h e1 he1 e2 he2 w hw heast1 heast2 hwest hlt hle
    exact h ⟨e1, he1⟩ ⟨e2, he2⟩ ⟨w, hw⟩ heast1 heast2 hwest ((key_lt_rank heast1 hwest).1.mpr hlt)
      ((key_lt_rank heast2 hwest).2.mpr hle)
  · intro h e1 e2 w heast1 heast2 hwest hlt hgt
    exact h e1.1 e1.2 e2.1 e2.2 w.1 w.2 heast1 heast2 hwest ((key_lt_rank heast1 hwest).1.mp hlt)
      ((key_lt_rank heast2 hwest).2.mp hgt)

end

/-- The lower of two targets in the east has the higher priority, and one in the west comes between. -/
theorem sortByMeridianPriority_turned : ¬ Sorts {⟨-1, 10, true, 3, .nan⟩, ⟨1, 45, true, 2, .nan⟩,
    (⟨-1, 50, true, 1, .nan⟩ : Target ℤ)} sortByMeridianPriority := by
  intro h
  have htrans := h.trans ⟨⟨-1, 10, true, 3, .nan⟩, .inl rfl⟩ ⟨⟨1, 45, true, 2, .nan⟩, .inr (.inl rfl)⟩
    ⟨⟨-1, 50, true, 1, .nan⟩, .inr (.inr rfl)⟩ rfl rfl
  exact Bool.false_ne_true htrans

/-! ## By the time they set -/

/-- The order that is documented: by the time the constraints are violated, then those that never are, then
those that are not visible. -/
structure Documented (targets : Set (Target K)) : Prop where
  earlier : ∀ a ∈ targets, ∀ b ∈ targets, ∀ v w, a.satisfiedDuration = .finite v →
    b.satisfiedDuration = .finite w → v < w → sortByOutOfLimits a b = true
  always : ∀ a ∈ targets, ∀ b ∈ targets, ∀ v, a.satisfiedDuration = .finite v →
    b.satisfiedDuration = .inf → sortByOutOfLimits a b = true
  invisible : ∀ a ∈ targets, ∀ b ∈ targets, a.satisfiedDuration ≠ .nan →
    b.satisfiedDuration = .nan → sortByOutOfLimits a b = true

/-- By the kind of the duration, its value, and from west to east where it has none. -/
def outKey (tar : Target K) : ℕ ×ₗ WithBot K ×ₗ Boolᵒᵈ ×ₗ (WithBot K)ᵒᵈ :=
  match tar.satisfiedDuration with
  | .inf => toLex (0, toLex (⊥, toLex (.toDual tar.isAboveHorizon, .toDual tar.hourAngle)))
  | .finite v => toLex (1, toLex (v, toLex (.toDual false, .toDual ⊥)))
  | .nan => toLex (2, toLex (⊥, toLex (.toDual tar.isAboveHorizon, .toDual tar.hourAngle)))

theorem sortByOutOfLimits_iff {a b : Target K} :
    sortByOutOfLimits a b = true ↔ outKey a < outKey b := by
  have hwest (n : ℕ) : (toLex (n, toLex ((⊥ : WithBot K),
        toLex (OrderDual.toDual a.isAboveHorizon, OrderDual.toDual (a.hourAngle : WithBot K)))) <
      toLex (n, toLex ((⊥ : WithBot K),
        toLex (OrderDual.toDual b.isAboveHorizon, OrderDual.toDual (b.hourAngle : WithBot K))))) ↔
      sortWestEast a b = true := by
    rw [sortWestEast_iff]
    simp [Prod.Lex.toLex_lt_toLex]
  unfold sortByOutOfLimits outKey
  cases ha : a.satisfiedDuration with
  | nan =>
    cases hb : b.satisfiedDuration with
    | nan => exact (hwest 2).symm
    | finite w => simp [Prod.Lex.toLex_lt_toLex]
    | inf => simp [Prod.Lex.toLex_lt_toLex]
  | finite v =>
    cases hb : b.satisfiedDuration with
    | nan => simp [Prod.Lex.toLex_lt_toLex]
    | finite w => simp [Prod.Lex.toLex_lt_toLex]
    | inf => simp [Prod.Lex.toLex_lt_toLex]
  | inf =>
    cases hb : b.satisfiedDuration with
    | nan => simp [Prod.Lex.toLex_lt_toLex]
    | finite w => simp [Prod.Lex.toLex_lt_toLex]
    | inf => exact (hwest 0).symm

/-- Any targets can be sorted. -/
theorem sortByOutOfLimits_sorts (targets : Set (Target K)) : Sorts targets sortByOutOfLimits := by
  have hsame : (fun a b : targets => sortByOutOfLimits a.1 b.1 = true) =
      fun a b : targets => outKey a.1 < outKey b.1 :=
    funext fun a => funext fun b => propext sortByOutOfLimits_iff
  unfold Sorts
  rw [hsame]
  exact of_key fun a : targets => outKey a.1

/-- The targets can be sorted and the order is the documented one if and only if none that leaves its limits
is there with one that never does. -/
theorem sortByOutOfLimits_documented_iff (targets : Set (Target K)) :
    Sorts targets sortByOutOfLimits ∧ Documented targets ↔
      ∀ a ∈ targets, ∀ b ∈ targets, ∀ v, a.satisfiedDuration = .finite v →
        b.satisfiedDuration ≠ .inf := by
  constructor
  · rintro ⟨-, h⟩ a ha b hb v hv hinf
    have hbefore := h.always a ha b hb v hv hinf
    unfold sortByOutOfLimits at hbefore
    rw [hv, hinf] at hbefore
    cases hbefore
  · intro h
    refine ⟨sortByOutOfLimits_sorts targets, ?_, ?_, ?_⟩
    · intro a _ b _ v w hv hw hlt
      unfold sortByOutOfLimits
      rw [hv, hw]
      exact decide_eq_true hlt
    · intro a ha b hb v hv hinf
      exact absurd hinf (h a ha b hb v hv)
    · intro a _ b _ hvisible hnan
      unfold sortByOutOfLimits
      rw [hnan]
      cases ha : a.satisfiedDuration with
      | nan => exact absurd ha hvisible
      | finite v => rfl
      | inf => rfl

/-- A target that never leaves its limits comes before one that does. -/
theorem sortByOutOfLimits_first : ¬ (Sorts {⟨-1, 45, true, 1, .finite 100⟩,
      (⟨-1, 45, true, 1, .inf⟩ : Target ℤ)} sortByOutOfLimits ∧
    Documented {⟨-1, 45, true, 1, .finite 100⟩, (⟨-1, 45, true, 1, .inf⟩ : Target ℤ)}) := by
  rintro ⟨-, h⟩
  have hbefore := h.always ⟨-1, 45, true, 1, .finite 100⟩ (.inl rfl) ⟨-1, 45, true, 1, .inf⟩
    (.inr rfl) 100 rfl rfl
  exact Bool.false_ne_true hbefore

end Rts2.Plan.TargetSort
