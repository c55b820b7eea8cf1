import Mathlib.Data.Finset.Card
import Mathlib.Data.Fintype.EquivFin
import Mathlib.Data.List.FinRange
import Mathlib.Data.List.Lex
import Mathlib.Order.WellFounded
import Rts2.Lib.Layers

/-! # Ranks of schedules

The scheduler compares schedules by the constraints they violate and by several objectives at once.
`calculateNSGARanks` sorts a population into fronts: it counts who dominates a schedule, and takes
off the counts front by front. It looks for the end of this in an array with one place for every
schedule. -/
namespace Rts2.Sched
open Rts2.Lib

/-! ## Dominance -/

/-- `objFunc`. -/
inductive ObjFunc where
  | visibility
  | altitude
  | account
  | distance
  | diversityTarget
  | diversityObservations
  | single
  deriving DecidableEq, Repr

/-- `constraintFunc`. -/
inductive ConstraintFunc where
  | visibility
  | scheduleTime
  | unobservedTickets
  | obsNum
  deriving DecidableEq, Repr

/-- What the functions of schedules give. Objectives are values that are ordered; a `double` that is
NaN is left out. -/
structure Merits (σ K : Type*) where
  getConstraintFunction : σ → ConstraintFunc → Nat
  getObjectiveFunction : σ → ObjFunc → K

/-- `objectives`, as the constructor of `Rts2SchedBag` fills it. -/
def objectives : List ObjFunc := [.altitude, .account, .diversityTarget, .diversityObservations]

/-- `constraints`, as the constructor of `Rts2SchedBag` fills it. -/
def constraints : List ConstraintFunc := [.visibility, .scheduleTime, .unobservedTickets, .obsNum]

section Dominance
variable {σ K : Type*} [LinearOrder K] (m : Merits σ K) (sched1 sched2 : σ)

/-- The loop of `dominatesNSGA` over the constraints, from `dom1` and `dom2` on: it returns, or
leaves both. -/
def constraintLoop : List ConstraintFunc → Bool × Bool → Int ⊕ (Bool × Bool)
  | [], dom => .inr dom
  | c :: cs, dom =>
    let cons1 := m.getConstraintFunction sched1 c
    let cons2 := m.getConstraintFunction sched2 c
    if cons1 = 0 ∧ 0 < cons2 then .inl (-1)
    else if 0 < cons1 ∧ cons2 = 0 then .inl 1
    else if 0 < cons1 ∧ 0 < cons2 then
      if cons1 < cons2 then constraintLoop cs (true, dom.2)
      else if cons2 < cons1 then constraintLoop cs (dom.1, true)
      else constraintLoop cs dom
    else constraintLoop cs dom

/-- The loop over the objectives. -/
def objectiveLoop : List ObjFunc → Bool × Bool → Bool × Bool
  | [], dom => dom
  | o :: os, dom =>
    let obj1 := m.getObjectiveFunction sched1 o
    let obj2 := m.getObjectiveFunction sched2 o
    if obj2 < obj1 then objectiveLoop os (true, dom.2)
    else if obj1 < obj2 then objectiveLoop os (dom.1, true)
    else objectiveLoop os dom

/-- `Rts2SchedBag::dominatesNSGA`: -1 if the first schedule dominates, 1 if the second does. -/
def dominatesNSGA : Int :=
  match constraintLoop m sched1 sched2 constraints (false, false) with
  | .inl ret => ret
  | .inr dom =>
    let dom := objectiveLoop m sched1 sched2 objectives dom
    if dom.1 && !dom.2 then -1
    else if !dom.1 && dom.2 then 1
    else 0

/-- Which constraints are violated. -/
def violated (cs : List ConstraintFunc) (s : σ) : List Bool :=
  cs.map fun c => decide (0 < m.getConstraintFunction s c)

/-- Better in something: a constraint is violated less, or an objective is higher. -/
def Better : Prop :=
  (∃ c ∈ constraints, m.getConstraintFunction sched1 c < m.getConstraintFunction sched2 c) ∨
    ∃ o ∈ objectives, m.getObjectiveFunction sched2 o < m.getObjectiveFunction sched1 o

/-- What dominance means: at the first constraint that one schedule alone violates, this is the
other; if there is none, the first is better in something and worse in nothing. -/
def Dominates : Prop :=
  violated m constraints sched1 < violated m constraints sched2 ∨
    violated m constraints sched1 = violated m constraints sched2 ∧
      Better m sched1 sched2 ∧ ¬ Better m sched2 sched1

variable {m sched1 sched2}

omit [LinearOrder K] in
theorem constraintLoop_eq (cs : List ConstraintFunc) (dom : Bool × Bool) :
    constraintLoop m sched1 sched2 cs dom =
      if violated m cs sched1 < violated m cs sched2 then .inl (-1)
      else if violated m cs sched2 < violated m cs sched1 then .inl 1
      else .inr
        (dom.1 || cs.any fun c =>
            decide (m.getConstraintFunction sched1 c < m.getConstraintFunction sched2 c),
          dom.2 || cs.any fun c =>
            decide (m.getConstraintFunction sched2 c < m.getConstraintFunction sched1 c)) := by
  induction cs generalizing dom with
  | nil =>
    have hnot : ¬ ([] : List Bool) < [] := lt_irrefl _
    simp only [constraintLoop, violated, List.map_nil, if_neg hnot, List.any_nil, Bool.or_false]
  | cons c cs ih =>
    have hcons : ∀ a b : σ, violated m (c :: cs) a < violated m (c :: cs) b ↔
        decide (0 < m.getConstraintFunction a c) < decide (0 < m.getConstraintFunction b c) ∨
          decide (0 < m.getConstraintFunction a c) = decide (0 < m.getConstraintFunction b c) ∧
            violated m cs a < violated m cs b := fun a b => List.cons_lt_cons_iff
    simp only [hcons, constraintLoop, List.any_cons]
    rcases Nat.eq_zero_or_pos (m.getConstraintFunction sched1 c) with h1 | h1 <;>
      rcases Nat.eq_zero_or_pos (m.getConstraintFunction sched2 c) with h2 | h2
    · simp [h1, h2, ih]
    · simp [h1, h2]
    · simp [h1, h2, h1.ne']
    · rcases Nat.lt_trichotomy (m.getConstraintFunction sched1 c)
        (m.getConstraintFunction sched2 c) with hlt | heq | hlt
      · simp [h1, h2, h1.ne', h2.ne', hlt, hlt.not_gt, ih]
      · simp [h2, h2.ne', heq, ih]
      · simp [h1, h2, h1.ne', h2.ne', hlt, hlt.not_gt, ih]

theorem objectiveLoop_eq (os : List ObjFunc) (dom : Bool × Bool) :
    objectiveLoop m sched1 sched2 os dom =
      (dom.1 || os.any fun o =>
          decide (m.getObjectiveFunction sched2 o < m.getObjectiveFunction sched1 o),
        dom.2 || os.any fun o =>
          decide (m.getObjectiveFunction sched1 o < m.getObjectiveFunction sched2 o)) := by
  induction os generalizing dom with
  | nil => simp only [objectiveLoop, List.any_nil, Bool.or_false]
  | cons o os ih =>
    simp only [objectiveLoop, List.any_cons]
    rcases lt_trichotomy (m.getObjectiveFunction sched1 o)
      (m.getObjectiveFunction sched2 o) with hlt | heq | hlt
    · simp [hlt, hlt.not_gt, ih]
    · simp [heq, ih]
    · simp [hlt, hlt.not_gt, ih]

instance : Decidable (Better m sched1 sched2) :=
  inferInstanceAs (Decidable (_ ∨ _))

theorem dominatesNSGA_eq : dominatesNSGA m sched1 sched2 =
    if violated m constraints sched1 < violated m constraints sched2 then -1
    else if violated m constraints sched2 < violated m constraints sched1 then 1
    else if Better m sched1 sched2 ∧ ¬ Better m sched2 sched1 then -1
    else if ¬ Better m sched1 sched2 ∧ Better m sched2 sched1 then 1
    else 0 := by
  have hbetter : ∀ s1 s2 : σ, Better m s1 s2 ↔
      ((constraints.any fun c =>
          decide (m.getConstraintFunction s1 c < m.getConstraintFunction s2 c)) ||
        objectives.any fun o =>
          decide (m.getObjectiveFunction s2 o < m.getObjectiveFunction s1 o)) = true := by
    intro s1 s2
    simp only [Better, Bool.or_eq_true, List.any_eq_true, decide_eq_true_eq]
  simp only [dominatesNSGA, constraintLoop_eq, objectiveLoop_eq, Bool.false_or]
  by_cases h12 : violated m constraints sched1 < violated m constraints sched2
  · simp only [h12, if_true]
  · by_cases h21 : violated m constraints sched2 < violated m constraints sched1
    · simp only [h12, h21, if_true, if_false]
    · simp only [h12, h21, if_false, hbetter, Bool.and_eq_true, Bool.not_eq_true', Bool.not_eq_true]

theorem dominatesNSGA_eq_neg_one : dominatesNSGA m sched1 sched2 = -1 ↔ Dominates m sched1 sched2 := by
  rw [dominatesNSGA_eq, Dominates]
  rcases lt_trichotomy (violated m constraints sched1) (violated m constraints sched2) with h | h | h
  · simp [h]
  · simp only [h, lt_irrefl, if_false, false_or, true_and]
    by_cases hb : Better m sched1 sched2 <;> by_cases hb' : Better m sched2 sched1 <;> simp [hb, hb']
  · simp [h, h.not_gt, h.ne']

theorem dominatesNSGA_eq_one : dominatesNSGA m sched1 sched2 = 1 ↔ Dominates m sched2 sched1 := by
  rw [dominatesNSGA_eq, Dominates]
  rcases lt_trichotomy (violated m constraints sched1) (violated m constraints sched2) with h | h | h
  · simp [h, h.not_gt, h.ne']
  · simp only [h, lt_irrefl, if_false, false_or, true_and]
    by_cases hb : Better m sched1 sched2 <;> by_cases hb' : Better m sched2 sched1 <;> simp [hb, hb']
  · simp [h, h.not_gt]

theorem Dominates.irrefl (s : σ) : ¬ Dominates m s s := by
  rintro (h | ⟨-, h, h'⟩)
  · exact lt_irrefl _ h
  · exact h' h

/-- Not better in anything. -/
theorem not_better_iff : ¬ Better m sched1 sched2 ↔
    (∀ c ∈ constraints, m.getConstraintFunction sched2 c ≤ m.getConstraintFunction sched1 c) ∧
      ∀ o ∈ objectives, m.getObjectiveFunction sched1 o ≤ m.getObjectiveFunction sched2 o := by
  simp only [Better, not_or, not_exists, not_and, not_lt]

theorem Dominates.trans {s1 s2 s3 : σ} (h12 : Dominates m s1 s2) (h23 : Dominates m s2 s3) :
    Dominates m s1 s3 := by
  rcases h12 with h12 | ⟨h12, hb12, hn21⟩ <;> rcases h23 with h23 | ⟨h23, hb23, hn32⟩
  · exact .inl (h12.trans h23)
  · exact .inl (h23 ▸ h12)
  · exact .inl (h12 ▸ h23)
  · obtain ⟨hc12, ho12⟩ := not_better_iff.mp hn21
    obtain ⟨hc23, ho23⟩ := not_better_iff.mp hn32
    refine .inr ⟨h12.trans h23, ?_, not_better_iff.mpr ⟨fun c hc => ?_, fun o ho => ?_⟩⟩
    · rcases hb12 with ⟨c, hc, hlt⟩ | ⟨o, ho, hlt⟩
      · exact .inl ⟨c, hc, hlt.trans_le (hc23 c hc)⟩
      · exact .inr ⟨o, ho, (ho23 o ho).trans_lt hlt⟩
    · exact (hc12 c hc).trans (hc23 c hc)
    · exact (ho23 o ho).trans (ho12 o ho)

end Dominance

/-! ## Fronts -/

/-- An element of `domStruct`: who a schedule dominates, and by how many it is dominated. -/
structure DomStruct (n : ℕ) where
  dominates : List (Fin n)
  dominated : ℤ

/-- What is noted of `q`. -/
def DomStruct.compare {n : ℕ} (d : DomStruct n) (q : Fin n) (dom : ℤ) : DomStruct n :=
  if dom = -1 then { d with dominates := d.dominates ++ [q] }
  else if dom = 1 then { d with dominated := d.dominated + 1 }
  else d

/-- The counters, the ranks that are set, and the front that is being filled. -/
structure Round (n : ℕ) where
  dominated : Fin n → ℤ
  rank : Fin n → Option ℕ
  next : List (Fin n)

/-- One dominator of `q` is done. -/
def Round.decrement {n : ℕ} (i : ℕ) (s : Round n) (q : Fin n) : Round n :=
  let dominated := Function.update s.dominated q (s.dominated q - 1)
  if dominated q = 0 then ⟨dominated, Function.update s.rank q (some (i + 1)), s.next ++ [q]⟩
  else { s with dominated := dominated }

/-- What `calculateNSGARanks` leaves: the ranks, and `NSGAfronts`, of which `NSGAfrontsSize` has the
lengths. -/
structure Ranking (n : ℕ) where
  rank : Fin n → Option ℕ
  fronts : List (List (Fin n))

/-- The loop over the fronts. There are `left` fronts from `fronts[i]` to the end of the array; at its
end the loop reads outside. -/
def rankLoop {n : ℕ} (dominates : Fin n → List (Fin n)) :
    ℕ → ℕ → Round n → List (List (Fin n)) → Option (Ranking n)
  | 0, _, _, _ => none
  | left + 1, i, s, fronts =>
    if s.next.isEmpty then some ⟨s.rank, fronts⟩
    else
      let s' := s.next.foldl (fun s p => (dominates p).foldl (Round.decrement i) s)
        { s with next := [] }
      rankLoop dominates left (i + 1) s' (fronts ++ [s'.next])

section Ranks
variable {σ K : Type*} [LinearOrder K] (m : Merits σ K) (pop : List σ)

/-- `domStruct[p]`, once all are compared with `p`. -/
def domStruct (p : Fin pop.length) : DomStruct pop.length :=
  (List.finRange pop.length).foldl
    (fun d q => if p = q then d else d.compare q (dominatesNSGA m (pop.get p) (pop.get q))) ⟨[], 0⟩

/-- The first front. -/
def firstRound : Round pop.length where
  dominated p := (domStruct m pop p).dominated
  rank p := if (domStruct m pop p).dominated = 0 then some 0 else none
  next := (List.finRange pop.length).filter fun p => (domStruct m pop p).dominated = 0

/-- `Rts2SchedBag::calculateNSGARanks`, of the schedules by their places; `none` when it reads outside
of the fronts. -/
def calculateNSGARanks : Option (Ranking pop.length) :=
  rankLoop (fun p => (domStruct m pop p).dominates) pop.length 0 (firstRound m pop)
    [(firstRound m pop).next]

/-- The schedule at a place dominates the one at another. -/
def Before (p q : Fin pop.length) : Prop := Dominates m (pop.get p) (pop.get q)

instance : DecidableRel (Before m pop) := fun _ _ =>
  decidable_of_iff _ dominatesNSGA_eq_neg_one

theorem before_wellFounded : WellFounded (Before m pop) := by
  have htrans : IsTrans (Fin pop.length) (Before m pop) := ⟨fun _ _ _ hab hbc => hab.trans hbc⟩
  have hirrefl : Std.Irrefl (Before m pop) := ⟨fun p => Dominates.irrefl (pop.get p)⟩
  exact Finite.wellFounded_of_trans_of_irrefl _

variable {m pop}

theorem compare_foldl (p : Fin pop.length) (qs : List (Fin pop.length)) :
    qs.foldl (fun d q => if p = q then d
        else d.compare q (dominatesNSGA m (pop.get p) (pop.get q))) ⟨[], 0⟩ =
      (⟨qs.filter fun q => Before m pop p q, (qs.filter fun q => Before m pop q p).length⟩ :
        DomStruct pop.length) := by
  induction qs using List.reverseRecOn with
  | nil => rfl
  | append_singleton qs q ih =>
    rw [List.foldl_append, ih, List.foldl_cons, List.foldl_nil, List.filter_append,
      List.filter_append, List.length_append]
    by_cases hpq : p = q
    · subst hpq
      have hself : ¬ Before m pop p p := Dominates.irrefl _
      simp [hself]
    · have hasymm : Before m pop p q → ¬ Before m pop q p := fun h h' =>
        Dominates.irrefl _ (h.trans h')
      rw [if_neg hpq, DomStruct.compare]
      by_cases h12 : Before m pop p q
      · rw [if_pos (dominatesNSGA_eq_neg_one.mpr h12)]
        simp [h12, hasymm h12]
      · rw [if_neg fun h => h12 (dominatesNSGA_eq_neg_one.mp h)]
        by_cases h21 : Before m pop q p
        · rw [if_pos (dominatesNSGA_eq_one.mpr h21)]
          simp [h12, h21]
        · rw [if_neg fun h => h21 (dominatesNSGA_eq_one.mp h)]
          simp [h12, h21]

theorem mem_dominates {p q : Fin pop.length} :
    q ∈ (domStruct m pop p).dominates ↔ Before m pop p q := by
  rw [domStruct, compare_foldl, List.mem_filter, decide_eq_true_eq]
  exact and_iff_right (List.mem_finRange q)

theorem dominates_nodup (p : Fin pop.length) : (domStruct m pop p).dominates.Nodup := by
  rw [domStruct, compare_foldl]
  exact (List.nodup_finRange _).filter _

theorem dominated_eq (rank : Fin pop.length → ℕ) (q : Fin pop.length) :
    (domStruct m pop q).dominated = pending (Before m pop) rank 0 q := by
  have hset : (Finset.univ.filter fun p => Before m pop p q ∧ 0 ≤ rank p) =
      ((List.finRange pop.length).filter fun p => Before m pop p q).toFinset := by
    ext p
    simp only [Finset.mem_filter, Finset.mem_univ, Nat.zero_le, and_true, true_and,
      List.mem_toFinset, List.mem_filter, List.mem_finRange, decide_eq_true_eq]
  rw [domStruct, compare_foldl, pending, hset,
    List.toFinset_card_of_nodup ((List.nodup_finRange _).filter _)]

theorem decrement_foldl {n : ℕ} (i : ℕ) (s : Round n) (targets : List (Fin n)) :
    let out := targets.foldl countDown (s.dominated, s.next)
    (targets.foldl (Round.decrement i) s).dominated = out.1 ∧
      (targets.foldl (Round.decrement i) s).next = out.2 ∧
      (s.next = [] → ∀ q, (targets.foldl (Round.decrement i) s).rank q =
        if q ∈ out.2 then some (i + 1) else s.rank q) := by
  induction targets using List.reverseRecOn with
  | nil => exact ⟨rfl, rfl, fun h q => by simp [h]⟩
  | append_singleton targets t ih =>
    obtain ⟨hdominated, hnext, hrank⟩ := ih
    simp only [List.foldl_append, List.foldl_cons, List.foldl_nil]
    rw [Round.decrement, countDown]
    simp only [hdominated, Function.update_self]
    split
    · refine ⟨rfl, by rw [hnext], fun hnil q => ?_⟩
      by_cases hq : q = t
      · simp [hq]
      · simp [hq, hrank hnil]
    · exact ⟨rfl, hnext, hrank⟩

/-- Where the loop is when it comes to a front. -/
structure RankedTo {n : ℕ} (r : Fin n → Fin n → Prop) [DecidableRel r] (rank : Fin n → ℕ) (i : ℕ)
    (s : Round n) (fronts : List (List (Fin n))) : Prop where
  dominated : ∀ q, s.dominated q = pending r rank i q
  ranked : ∀ q, s.rank q = if rank q ≤ i then some (rank q) else none
  front : s.next.Nodup ∧ ∀ q, q ∈ s.next ↔ rank q = i
  length : fronts.length = i + 1
  fronts : ∀ k layer, fronts[k]? = some layer → layer.Nodup ∧ ∀ q, q ∈ layer ↔ rank q = k

theorem RankedTo.next {n : ℕ} {r : Fin n → Fin n → Prop} [DecidableRel r] {rank : Fin n → ℕ}
    (hr : IsRank r rank) {targets : Fin n → List (Fin n)} (hmem : ∀ p q, q ∈ targets p ↔ r p q)
    (hnodup : ∀ p, (targets p).Nodup) {i : ℕ} {s : Round n} {fronts : List (List (Fin n))}
    (h : RankedTo r rank i s fronts) :
    let s' := s.next.foldl (fun s p => (targets p).foldl (Round.decrement i) s) { s with next := [] }
    RankedTo r rank (i + 1) s' (fronts ++ [s'.next]) := by
  intro s'
  have hs' : s' = (s.next.flatMap targets).foldl (Round.decrement i) { s with next := [] } :=
    List.foldl_flatMap.symm
  obtain ⟨hdominated, hnext, hrank⟩ :=
    decrement_foldl i { s with next := [] } (s.next.flatMap targets)
  have hc : s.dominated = pending r rank i := funext h.dominated
  obtain ⟨hpend, hout, hlayer⟩ := hr.peel hmem hnodup h.front.1 h.front.2
  rw [← hs'] at hdominated hnext hrank
  simp only [hc] at hdominated hnext hrank
  have hfront : s'.next.Nodup ∧ ∀ q, q ∈ s'.next ↔ rank q = i + 1 := by
    rw [hnext]
    exact ⟨hout, hlayer⟩
  refine ⟨fun q => by rw [hdominated]; exact hpend q, fun q => ?_, hfront, ?_, fun k layer hk => ?_⟩
  · rw [hrank trivial, h.ranked]
    simp only [hlayer]
    rcases Nat.lt_trichotomy (rank q) (i + 1) with hlt | heq | hgt
    · rw [if_neg hlt.ne, if_pos (by omega), if_pos hlt.le]
    · rw [if_pos heq, if_pos heq.le, heq]
    · rw [if_neg hgt.ne', if_neg (by omega), if_neg (by omega)]
  · rw [List.length_append, h.length, List.length_singleton]
  · rcases Nat.lt_or_ge k (i + 1) with hlt | hge
    · rw [List.getElem?_append_left (by rw [h.length]; exact hlt)] at hk
      exact h.fronts k layer hk
    · rw [List.getElem?_append_right (by rw [h.length]; exact hge), h.length] at hk
      obtain ⟨hlt, heq⟩ := List.getElem?_eq_some_iff.mp hk
      rw [List.length_singleton] at hlt
      obtain rfl : k = i + 1 := by omega
      simp only [Nat.sub_self, List.getElem_cons_zero] at heq
      exact heq ▸ hfront

theorem rankLoop_spec {n : ℕ} {r : Fin n → Fin n → Prop} [DecidableRel r] {rank : Fin n → ℕ}
    (hr : IsRank r rank) {targets : Fin n → List (Fin n)}
    (hmem : ∀ p q, q ∈ targets p ↔ r p q) (hnodup : ∀ p, (targets p).Nodup) (left : ℕ) {i : ℕ}
    {s : Round n} {fronts : List (List (Fin n))} (h : RankedTo r rank i s fronts) :
    (rankLoop targets left i s fronts = none ↔ ∀ k, i ≤ k → k < i + left → ∃ q, rank q = k) ∧
      ∀ ranking, rankLoop targets left i s fronts = some ranking →
        ∃ j s', RankedTo r rank j s' ranking.fronts ∧ s'.next = [] ∧ ranking.rank = s'.rank := by
  induction left generalizing i s fronts with
  | zero =>
    refine ⟨iff_of_true rfl fun k hk hlt => ?_, fun ranking hsome => ?_⟩
    · omega
    · cases hsome
  | succ left ih =>
    rw [rankLoop]
    split
    · next hempty =>
      have hnil : s.next = [] := List.isEmpty_iff.mp hempty
      refine ⟨iff_of_false (by simp) fun hall => ?_, fun ranking hsome => ?_⟩
      · obtain ⟨q, hq⟩ := hall i (Nat.le_refl i) (by omega)
        rw [← h.front.2, hnil] at hq
        cases hq
      · obtain rfl := Option.some.inj hsome
        exact ⟨i, s, h, hnil, rfl⟩
    · next hne =>
      obtain ⟨hnone, hsome⟩ := ih (h.next hr hmem hnodup)
      refine ⟨hnone.trans ⟨fun hall k hk hlt => ?_, fun hall k hk hlt => ?_⟩, hsome⟩
      · rcases Nat.eq_or_lt_of_le hk with rfl | hik
        · obtain ⟨q, hq⟩ := List.exists_mem_of_ne_nil s.next fun hnil => hne (by simp [hnil])
          exact ⟨q, (h.front.2 q).mp hq⟩
        · exact hall k hik (by omega)
      · exact hall k (by omega) (by omega)

theorem firstRound_rankedTo {rank : Fin pop.length → ℕ} (hr : IsRank (Before m pop) rank) :
    RankedTo (Before m pop) rank 0 (firstRound m pop) [(firstRound m pop).next] := by
  have hzero : ∀ q, (domStruct m pop q).dominated = 0 ↔ rank q = 0 := by
    intro q
    rw [dominated_eq rank, hr.pending_eq_zero_iff, Nat.le_zero]
  have hfront : (firstRound m pop).next.Nodup ∧ ∀ q, q ∈ (firstRound m pop).next ↔ rank q = 0 := by
    refine ⟨(List.nodup_finRange _).filter _, fun q => ?_⟩
    rw [firstRound, List.mem_filter, decide_eq_true_eq, hzero]
    exact and_iff_right (List.mem_finRange q)
  refine ⟨dominated_eq rank, fun q => ?_, hfront, rfl, fun k layer hk => ?_⟩
  · simp only [firstRound, hzero, Nat.le_zero]
    split
    · next hq => rw [hq]
    · rfl
  · obtain ⟨hlt, rfl⟩ := List.getElem?_eq_some_iff.mp hk
    obtain rfl : k = 0 := by simpa using hlt
    exact hfront

/-- The ranks are set, and the fronts filled, as the layers of dominance are. The end of the fronts
is missed exactly when of any two schedules one dominates the other. -/
theorem calculateNSGARanks_spec {rank : Fin pop.length → ℕ} (hr : IsRank (Before m pop) rank) :
    (calculateNSGARanks m pop = none ↔ ∀ p q, p ≠ q → Before m pop p q ∨ Before m pop q p) ∧
      ∀ ranking, calculateNSGARanks m pop = some ranking →
        (∀ q, ranking.rank q = some (rank q)) ∧
          (∀ q, rank q + 1 < ranking.fronts.length) ∧
          ∀ k layer, ranking.fronts[k]? = some layer →
            layer.Nodup ∧ ∀ q, q ∈ layer ↔ rank q = k := by
  have htrans : ∀ a b c, Before m pop a b → Before m pop b c → Before m pop a c :=
    fun _ _ _ hab hbc => hab.trans hbc
  obtain ⟨hnone, hsome⟩ := rankLoop_spec hr (fun p q => mem_dominates (p := p) (q := q))
    dominates_nodup pop.length (firstRound_rankedTo hr)
  have hcard := hr.forall_lt_card_iff htrans
  rw [Fintype.card_fin, hr.injective_iff htrans] at hcard
  refine ⟨hnone.trans ?_, fun ranking h => ?_⟩
  · rw [← hcard]
    exact forall_congr' fun k => ⟨fun h hk => h (Nat.zero_le k) (by omega), fun h _ hk => h (by omega)⟩
  · obtain ⟨j, s, hto, hnil, hrank⟩ := hsome ranking h
    have hbelow : ∀ q, rank q < j := by
      intro q
      have hmiss : ∀ p, rank p ≠ j := fun p hp => by
        have := (hto.front.2 p).mpr hp
        rw [hnil] at this
        cases this
      by_contra hge
      obtain ⟨p, -, hp⟩ := hr.below htrans (Nat.lt_of_le_of_ne (Nat.not_lt.mp hge) (hmiss q).symm)
      exact hmiss p hp
    refine ⟨fun q => ?_, fun q => ?_, hto.fronts⟩
    · rw [hrank, hto.ranked, if_pos (hbelow q).le]
    · rw [hto.length]
      have := hbelow q
      omega

end Ranks

end Rts2.Sched
