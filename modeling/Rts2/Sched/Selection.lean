import Mathlib.Data.List.Perm.Basic
import Mathlib.Data.List.Sort
import Rts2.Lib.Doubles
import Rts2.Lib.WeakOrder
import Rts2.Sched.Ranks

/-! # Selection of schedules

A step of NSGA-II keeps `popSize` schedules: it takes front after front, and of the front that does not
fit any more those that are the least crowded. What is not kept is deleted. Sums and quotients of
objectives are not rounded. -/
namespace Rts2.Sched
open Rts2.Lib

/-! ## Sorting -/

/-- What `std::sort` needs of a comparison, on the elements that are sorted. -/
def WeakOn {σ : Type*} (lt : σ → σ → Bool) (l : List σ) : Prop :=
  IsStrictWeakOrder { x // x ∈ l } fun a b => lt a b = true

/-- `std::sort`: in which order it leaves equal elements is not said. -/
structure StdSort (σ : Type*) where
  sort : (σ → σ → Bool) → List σ → List σ
  perm : ∀ lt l, WeakOn lt l → (sort lt l).Perm l
  sorted : ∀ lt l, WeakOn lt l → (sort lt l).Pairwise fun a b => lt b a = false

theorem weakOn_key {σ K : Type*} [LinearOrder K] (key : σ → K) (l : List σ) :
    WeakOn (fun a b => decide (key b < key a)) l := by
  simp only [WeakOn, decide_eq_true_eq]
  exact WeakOrder.of_key_desc fun a : { x // x ∈ l } => key a

/-- Sorting by insertion, as `std::sort` does with a few elements. -/
def insertionSort {σ : Type*} : StdSort σ where
  sort lt l := l.insertionSort fun a b => lt b a = false
  perm lt l _ := List.perm_insertionSort _ l
  sorted lt l hweak := by
    have htotal : Std.Total fun a b : { x // x ∈ l } => lt b a = false :=
      ⟨fun a b => or_iff_not_imp_left.mpr fun h =>
        Bool.eq_false_iff.mpr (WeakOrder.asymm_of hweak (Bool.not_eq_false _ ▸ h))⟩
    have htrans : IsTrans { x // x ∈ l } fun a b => lt b a = false :=
      ⟨fun a b c hab hbc => Bool.eq_false_iff.mpr fun hca =>
        (WeakOrder.negTrans_of hweak c b a hca).elim (Bool.eq_false_iff.mp hbc)
          (Bool.eq_false_iff.mp hab)⟩
    have hsorted := List.pairwise_insertionSort (fun a b : { x // x ∈ l } => lt b a = false) l.attach
    have hmap := List.map_insertionSort (fun a b : { x // x ∈ l } => lt b a = false)
      (fun a b => lt b a = false) Subtype.val l.attach fun _ _ _ _ => Iff.rfl
    rw [List.attach_map_subtype_val] at hmap
    exact hmap ▸ List.pairwise_map.mpr hsorted

/-! ## Crowding -/

/-- `finite`. -/
def finite : Double → Bool
  | .fin _ => true
  | _ => false

/-- `x / y` -/
def quotient (x y : ℚ) : Double :=
  if y = 0 then if x = 0 then .nan else .inf (x < 0) else .fin (x / y)

section Crowding
variable {σ : Type*} [DecidableEq σ] (std : StdSort σ) (m : Merits σ ℚ)

/-- The loop over the schedules between the two ends of a front; `f1` and `f2` are the values of the
schedule before and of this one. -/
def crowdingLoop (value : σ → ℚ) (range : ℚ) : ℚ → ℚ → List σ → (σ → Double) → σ → Double
  | f1, f2, sched :: next :: rest, distance =>
    let f3 := value next
    let distance' :=
      if finite (distance sched) then
        Function.update distance sched (distance sched + quotient (f1 - f3) range)
      else distance
    crowdingLoop value range f2 f3 (next :: rest) distance'
  | _, _, _, distance => distance

/-- The round of `calculateNSGACrowdingDistance` for an objective: it sorts the front, sets the
distances of both ends to infinity, and adds to the others. -/
def crowdObjective (s : List σ × (σ → Double)) (objective : ObjFunc) : List σ × (σ → Double) :=
  let value := fun sched => m.getObjectiveFunction sched objective
  let front := std.sort (fun a b => value b < value a) s.1
  match front with
  | begSched :: second :: rest =>
    let endSched := rest.getLastD second
    let distance :=
      Function.update (Function.update s.2 begSched (.inf false)) endSched (.inf false)
    (front, crowdingLoop value (value begSched - value endSched) (value begSched) (value second)
      (second :: rest) distance)
  | _ => (front, s.2)

/-- `Rts2SchedBag::calculateNSGACrowdingDistance`. -/
def calculateNSGACrowdingDistance (front : List σ) (distance : σ → Double) :
    List σ × (σ → Double) :=
  if front.length ≤ 2 then
    (front, fun sched => if sched ∈ front then .inf false else distance sched)
  else
    objectives.foldl (crowdObjective std m)
      (front, fun sched => if sched ∈ front then .fin 0 else distance sched)

/-- `crowdingComp`. -/
def crowdingComp (distance : σ → Double) (sched1 sched2 : σ) : Bool :=
  distance sched2 < distance sched1

/-! ## Survivors -/

/-- What `doNSGAIIStep` has when a front is taken: `new_pop`, what it deleted, and the ranks and
distances of the schedules. -/
structure Picked (σ : Type*) where
  newPop : List σ
  deleted : List σ
  rank : σ → ℕ
  distance : σ → Double

/-- The loop of `doNSGAIIStep` over the fronts. -/
def pick (popSize : ℕ) : List (List σ) → Picked σ → Picked σ
  | [], s => s
  | f :: fronts, s =>
    let crowded := calculateNSGACrowdingDistance std m f s.distance
    if crowded.1.length < popSize - s.newPop.length then
      pick popSize fronts { s with newPop := s.newPop ++ crowded.1, distance := crowded.2 }
    else
      let front := std.sort (crowdingComp crowded.2) crowded.1
      let missing := popSize - s.newPop.length
      { s with
        newPop := s.newPop ++ front.take missing
        deleted := s.deleted ++ front.drop missing ++ fronts.flatten
        distance := crowded.2 }

/-- What `setNSGARank` left in the schedules. -/
def setNSGARanks {pop : List σ} (ranking : Ranking pop.length) (rank : σ → ℕ) : σ → ℕ :=
  (List.finRange pop.length).foldl (fun rank p =>
    match ranking.rank p with
    | some k => Function.update rank (pop.get p) k
    | none => rank) rank

/-- The first half of `Rts2SchedBag::doNSGAIIStep`, until the bag has the schedules of `new_pop`.
`none` when it reads outside of the fronts, or pushes places of `new_pop` that were never filled. -/
def survivors (popSize : ℕ) (pop : List σ) (rank : σ → ℕ) (distance : σ → Double) :
    Option (Picked σ) :=
  match calculateNSGARanks m pop with
  | none => none
  | some ranking =>
    let s := pick std m popSize (ranking.fronts.map fun f => f.map pop.get)
      ⟨[], [], setNSGARanks ranking rank, distance⟩
    if s.newPop.length < popSize then none else some s

/-! ## Distances -/

variable {value : σ → ℚ} {range : ℚ}

theorem crowdingLoop_of_not_finite (f1 f2 : ℚ) (l : List σ) (distance : σ → Double) (x : σ)
    (hx : finite (distance x) = false) :
    crowdingLoop value range f1 f2 l distance x = distance x := by
  induction l generalizing f1 f2 distance with
  | nil => rfl
  | cons sched rest ih =>
    cases rest with
    | nil => rfl
    | cons next rest =>
      have hkeep : (if finite (distance sched) then
          Function.update distance sched (distance sched + quotient (f1 - value next) range)
          else distance) x = distance x := by
        split
        · next hsched =>
          have hne : x ≠ sched := fun heq => by rw [heq, hsched] at hx; cases hx
          rw [Function.update_of_ne hne]
        · rfl
      rw [crowdingLoop, ih _ _ _ (hkeep ▸ hx), hkeep]

/-- What is added keeps distances finite, unless the values of the whole front are equal. -/
theorem crowdingLoop_finite (hrange : range ≠ 0) (f1 f2 : ℚ) (l : List σ) (distance : σ → Double)
    (x : σ) (hx : finite (distance x) = true) :
    finite (crowdingLoop value range f1 f2 l distance x) = true := by
  induction l generalizing f1 f2 distance with
  | nil => exact hx
  | cons sched rest ih =>
    cases rest with
    | nil => exact hx
    | cons next rest =>
      rw [crowdingLoop]
      refine ih _ _ _ ?_
      split
      · next hsched =>
        by_cases heq : x = sched
        · subst heq
          rw [Function.update_self, quotient, if_neg hrange]
          cases hd : distance x with
          | fin d => rfl
          | nan => rw [hd] at hx; cases hx
          | inf neg => rw [hd] at hx; cases hx
        · rw [Function.update_of_ne heq]
          exact hx
      · exact hx

/-- Then what is added is no number, as `0 / 0` is none. -/
theorem crowdingLoop_nan {v : ℚ} (l : List σ) (hvalue : ∀ x ∈ l, value x = v)
    (distance : σ → Double) {last : σ} (hlast : l.getLast? = some last)
    (hend : finite (distance last) = false) (x : σ) (hx : x ∈ l)
    (hfin : finite (distance x) = true) : crowdingLoop value 0 v v l distance x = .nan := by
  induction l generalizing distance with
  | nil => cases hx
  | cons sched rest ih =>
    cases rest with
    | nil =>
      obtain rfl := List.mem_singleton.mp hx
      obtain rfl : x = last := by simpa using hlast
      rw [hfin] at hend
      cases hend
    | cons next rest =>
      have hv : value next = v := hvalue next (by simp)
      have hlast' : (next :: rest).getLast? = some last := by
        rw [← hlast, List.getLast?_cons_cons]
      have hzero : quotient (v - v) 0 = .nan := by
        rw [quotient, if_pos rfl, if_pos (sub_self v)]
      rw [crowdingLoop, hv, hzero]
      by_cases hsched : finite (distance sched) = true
      · rw [if_pos hsched]
        have hnan : distance sched + .nan = (.nan : Double) := by
          cases hd : distance sched with
          | fin d => rfl
          | nan => rfl
          | inf neg => rfl
        by_cases heq : x = sched
        · subst heq
          rw [crowdingLoop_of_not_finite _ _ _ _ x (by rw [Function.update_self, hnan]; rfl),
            Function.update_self, hnan]
        · refine ih (fun y hy => hvalue y (List.mem_cons_of_mem _ hy)) _ hlast' ?_
            ((List.mem_cons.mp hx).resolve_left heq) ?_
          · by_cases hl : last = sched
            · rw [hl, Function.update_self, hnan]
              rfl
            · rw [Function.update_of_ne hl]
              exact hend
          · rw [Function.update_of_ne heq]
            exact hfin
      · rw [if_neg hsched]
        have hne : x ≠ sched := fun heq => hsched (heq ▸ hfin)
        exact ih (fun y hy => hvalue y (List.mem_cons_of_mem _ hy)) _ hlast' hend
          ((List.mem_cons.mp hx).resolve_left hne) hfin

/-- The distances in a front: all are numbers, or none is finite. -/
def Crowded (front : List σ) (distance : σ → Double) : Prop :=
  (∀ x ∈ front, distance x = .inf false ∨ finite (distance x) = true) ∨
    ∀ x ∈ front, distance x = .inf false ∨ distance x = .nan

theorem setEnd_crowded {front : List σ} {distance : σ → Double} (h : Crowded front distance)
    (sched : σ) : Crowded front (Function.update distance sched (.inf false)) := by
  have hset : ∀ {P : Double → Prop}, (∀ x ∈ front, distance x = .inf false ∨ P (distance x)) →
      ∀ x ∈ front, Function.update distance sched (.inf false) x = .inf false ∨
        P (Function.update distance sched (.inf false) x) := by
    intro P h x hx
    by_cases heq : x = sched
    · exact .inl (by rw [heq, Function.update_self])
    · rw [Function.update_of_ne heq]
      exact h x hx
  exact h.imp (hset (P := (finite · = true))) (hset (P := (· = .nan)))

omit [DecidableEq σ] in
theorem getLast?_cons_eq (second : σ) (rest : List σ) :
    (second :: rest).getLast? = some (rest.getLastD second) := by
  rw [List.getLast?_cons, List.getLastD_eq_getLast?]

omit [DecidableEq σ] in
/-- In a sorted front no value is over the first and none under the last one. -/
theorem sorted_bounds {begSched second : σ} {rest : List σ}
    (hsorted : (begSched :: second :: rest).Pairwise fun a b => decide (value a < value b) = false) :
    ∀ x ∈ begSched :: second :: rest,
      value (rest.getLastD second) ≤ value x ∧ value x ≤ value begSched := by
  have hpairs : (begSched :: second :: rest).Pairwise fun a b => value b ≤ value a :=
    hsorted.imp fun h => not_lt.mp (decide_eq_false_iff_not.mp h)
  obtain ⟨hbeg, htail⟩ := List.pairwise_cons.mp hpairs
  have hlast : ∀ x ∈ second :: rest, value (rest.getLastD second) ≤ value x := by
    clear hpairs hbeg hsorted
    induction rest generalizing second with
    | nil =>
      intro x hx
      rw [List.mem_singleton.mp hx]
      exact le_refl _
    | cons next rest ih =>
      obtain ⟨hsecond, hrest⟩ := List.pairwise_cons.mp htail
      intro x hx
      rw [List.getLastD_cons]
      rcases List.mem_cons.mp hx with rfl | hx
      · exact (ih hrest next List.mem_cons_self).trans (hsecond next List.mem_cons_self)
      · exact ih hrest x hx
  intro x hx
  rcases List.mem_cons.mp hx with rfl | hx
  · exact ⟨(hlast second List.mem_cons_self).trans (hbeg second List.mem_cons_self), le_refl _⟩
  · exact ⟨hlast x hx, hbeg x hx⟩

/-- The distances after the two ends were set and the others added to. -/
theorem crowd_between {begSched second : σ} {rest : List σ} {distance : σ → Double}
    (hbounds : ∀ x ∈ begSched :: second :: rest,
      value (rest.getLastD second) ≤ value x ∧ value x ≤ value begSched)
    (h : Crowded (begSched :: second :: rest) distance) :
    Crowded (begSched :: second :: rest)
      (crowdingLoop value (value begSched - value (rest.getLastD second)) (value begSched)
        (value second) (second :: rest) (Function.update
          (Function.update distance begSched (.inf false)) (rest.getLastD second) (.inf false))) := by
  have hends := setEnd_crowded (setEnd_crowded h begSched) (rest.getLastD second)
  have hbegSched : Function.update (Function.update distance begSched (.inf false))
      (rest.getLastD second) (.inf false) begSched = .inf false := by
    by_cases heq : begSched = rest.getLastD second
    · rw [← heq, Function.update_self]
    · rw [Function.update_of_ne heq, Function.update_self]
  generalize hd : Function.update (Function.update distance begSched (.inf false))
    (rest.getLastD second) (.inf false) = d at hends hbegSched ⊢
  rcases hends with hfin | hnan
  · by_cases hrange : value begSched - value (rest.getLastD second) = 0
    · have hequal : ∀ x ∈ begSched :: second :: rest, value x = value begSched := fun x hx =>
        le_antisymm (hbounds x hx).2 ((sub_eq_zero.mp hrange).le.trans (hbounds x hx).1)
      rw [hrange, hequal second (by simp)]
      refine .inr fun x hx => ?_
      rcases hfin x hx with hinf | hx'
      · rw [crowdingLoop_of_not_finite _ _ _ _ x (by rw [hinf]; rfl)]
        exact .inl hinf
      · have hne : x ≠ begSched := fun heq => by rw [heq, hbegSched] at hx'; cases hx'
        refine .inr (crowdingLoop_nan (second :: rest)
          (fun y hy => hequal y (List.mem_cons_of_mem _ hy)) d (getLast?_cons_eq second rest) ?_ x
          ((List.mem_cons.mp hx).resolve_left hne) hx')
        rw [← hd, Function.update_self]
        rfl
    · refine .inl fun x hx => ?_
      rcases hfin x hx with hinf | hx'
      · rw [crowdingLoop_of_not_finite _ _ _ _ x (by rw [hinf]; rfl)]
        exact .inl hinf
      · exact .inr (crowdingLoop_finite hrange _ _ _ _ x hx')
  · refine .inr fun x hx => ?_
    rw [crowdingLoop_of_not_finite _ _ _ _ x (by rcases hnan x hx with h | h <;> rw [h] <;> rfl)]
    exact hnan x hx

omit [DecidableEq σ] in
theorem Crowded.perm {front front' : List σ} {distance : σ → Double} (h : Crowded front distance)
    (hperm : front'.Perm front) : Crowded front' distance :=
  h.imp (fun h x hx => h x (hperm.mem_iff.mp hx)) fun h x hx => h x (hperm.mem_iff.mp hx)

theorem crowdObjective_spec (objective : ObjFunc) {front : List σ} {distance : σ → Double}
    (h : Crowded front distance) :
    (crowdObjective std m (front, distance) objective).1.Perm front ∧
      Crowded front (crowdObjective std m (front, distance) objective).2 := by
  have hweak := weakOn_key (fun sched => m.getObjectiveFunction sched objective) front
  have hperm := std.perm _ front hweak
  have hsorted := std.sorted _ front hweak
  rw [crowdObjective]
  generalize std.sort (fun a b => decide (m.getObjectiveFunction b objective <
    m.getObjectiveFunction a objective)) front = sorted at hperm hsorted
  cases sorted with
  | nil => exact ⟨hperm, h⟩
  | cons begSched tail =>
    cases tail with
    | nil => exact ⟨hperm, h⟩
    | cons second rest =>
      exact ⟨hperm, (crowd_between (sorted_bounds hsorted) (h.perm hperm)).perm hperm.symm⟩

theorem crowd_foldl (os : List ObjFunc) {front sorted : List σ} {distance : σ → Double}
    (hperm : sorted.Perm front) (h : Crowded front distance) :
    (os.foldl (crowdObjective std m) (sorted, distance)).1.Perm front ∧
      Crowded front (os.foldl (crowdObjective std m) (sorted, distance)).2 := by
  induction os generalizing sorted distance with
  | nil => exact ⟨hperm, h⟩
  | cons o os ih =>
    obtain ⟨hperm', h'⟩ := crowdObjective_spec std m o (h.perm hperm)
    exact ih (hperm'.trans hperm) (h'.perm hperm.symm)

theorem calculateNSGACrowdingDistance_spec (front : List σ) (distance : σ → Double) :
    (calculateNSGACrowdingDistance std m front distance).1.Perm front ∧
      Crowded front (calculateNSGACrowdingDistance std m front distance).2 := by
  rw [calculateNSGACrowdingDistance]
  split
  · refine ⟨List.Perm.refl front, .inr fun x hx => .inl ?_⟩
    simp only [hx, if_true]
  · refine crowd_foldl std m objectives (List.Perm.refl front) (.inl fun x hx => .inr ?_)
    simp only [hx, if_true, finite]

theorem isNan_of_number {x : Double} (hx : x = .inf false ∨ finite x = true) : x.isNan = false := by
  cases x with
  | nan => rcases hx with hx | hx <;> cases hx
  | fin a => rfl
  | inf neg => rfl

/-- What is no NaN is apart from one of two that are apart. -/
theorem number_negTrans {x y z : Double} (hy : y.isNan = false) (hzx : z < x) : y < x ∨ z < y := by
  cases y with
  | nan => cases hy
  | inf neg => cases neg <;> cases x <;> cases z <;> simp_all [Double.not_lt_nan, Double.not_nan_lt]
  | fin b =>
    cases x with
    | nan => exact absurd hzx Double.not_lt_nan
    | inf neg => cases neg <;> cases z <;> simp_all [Double.not_nan_lt]
    | fin a =>
      cases z with
      | nan => exact absurd hzx Double.not_nan_lt
      | inf neg => exact .inr hzx
      | fin c =>
        simp only [Double.fin_lt_fin] at hzx ⊢
        exact (lt_or_ge b a).imp_right hzx.trans_le

omit [DecidableEq σ] in
/-- The distances of a front can be sorted by. -/
theorem Crowded.weakOn {front : List σ} {distance : σ → Double} (h : Crowded front distance) :
    WeakOn (crowdingComp distance) front := by
  simp only [WeakOn, crowdingComp, decide_eq_true_eq]
  refine WeakOrder.of_negTrans (fun a b hab hba => Double.lt_irrefl (Double.lt_trans hab hba))
    fun a b c hac => ?_
  rcases h with h | h
  · exact number_negTrans (isNan_of_number (h b b.2)) hac
  · rcases h c c.2 with hc | hc <;> rw [hc] at hac
    · rcases h a a.2 with ha | ha <;> rw [ha] at hac
      · exact absurd (Double.inf_lt_inf.mp hac).1 Bool.false_ne_true
      · exact absurd hac Double.not_lt_nan
    · exact absurd hac Double.not_nan_lt

/-! ## What survives -/

theorem pick_spec (popSize : ℕ) {rank : σ → ℕ} {i : ℕ} {fronts : List (List σ)} {s : Picked σ}
    (hfronts : ∀ k f, fronts[k]? = some f → ∀ x ∈ f, rank x = i + k)
    (hdeleted : s.deleted = []) (hlen : s.newPop.length ≤ popSize)
    (hbefore : ∀ a ∈ s.newPop, rank a < i) :
    ((pick std m popSize fronts s).newPop ++ (pick std m popSize fronts s).deleted).Perm
        (s.newPop ++ fronts.flatten) ∧
      (pick std m popSize fronts s).newPop.length =
        min popSize (s.newPop.length + fronts.flatten.length) ∧
      (pick std m popSize fronts s).rank = s.rank ∧
      ∀ a ∈ (pick std m popSize fronts s).newPop, ∀ b ∈ (pick std m popSize fronts s).deleted,
        rank a < rank b ∨ rank a = rank b ∧
          ¬ (pick std m popSize fronts s).distance a < (pick std m popSize fronts s).distance b := by
  induction fronts generalizing i s with
  | nil =>
    simp only [pick, hdeleted, List.flatten_nil, List.length_nil, List.not_mem_nil, false_implies,
      implies_true, and_true, Nat.add_zero]
    exact ⟨List.Perm.refl _, (Nat.min_eq_right hlen).symm⟩
  | cons f fronts ih =>
    obtain ⟨hperm, hcrowded⟩ := calculateNSGACrowdingDistance_spec std m f s.distance
    have hf : ∀ x ∈ f, rank x = i := fun x hx => hfronts 0 f rfl x hx
    have hlater : ∀ k g, fronts[k]? = some g → ∀ x ∈ g, rank x = i + 1 + k := by
      intro k g hg x hx
      rw [hfronts (k + 1) g hg x hx]
      omega
    rw [pick]
    split
    · next hfits =>
      rw [hperm.length_eq] at hfits
      have hnew : (s.newPop ++ (calculateNSGACrowdingDistance std m f s.distance).1).length =
          s.newPop.length + f.length := by rw [List.length_append, hperm.length_eq]
      obtain ⟨hp, hl, hr, hd⟩ := @ih (i + 1) { s with
          newPop := s.newPop ++ (calculateNSGACrowdingDistance std m f s.distance).1
          distance := (calculateNSGACrowdingDistance std m f s.distance).2 }
        hlater hdeleted (by simp only [hnew]; omega) (by
          intro a ha
          rcases List.mem_append.mp ha with ha | ha
          · exact Nat.lt_succ_of_lt (hbefore a ha)
          · have := hf a (hperm.mem_iff.mp ha)
            omega)
      refine ⟨hp.trans ?_, ?_, hr, hd⟩
      · rw [List.flatten_cons, ← List.append_assoc]
        exact (hperm.append_left s.newPop).append_right fronts.flatten
      · rw [hl, List.flatten_cons, hnew, List.length_append, Nat.add_assoc]
    · next hfull =>
      rw [hperm.length_eq] at hfull
      have hweak := (hcrowded.perm hperm).weakOn
      have hsort := (std.perm _ _ hweak).trans hperm
      have hsorted := std.sorted _ _ hweak
      generalize std.sort (crowdingComp (calculateNSGACrowdingDistance std m f s.distance).2)
        (calculateNSGACrowdingDistance std m f s.distance).1 = front at hsort hsorted
      have hfront : ∀ x ∈ front, rank x = i := fun x hx => hf x (hsort.mem_iff.mp hx)
      have htaken : (front.take (popSize - s.newPop.length)).length = popSize - s.newPop.length := by
        rw [List.length_take, hsort.length_eq]
        omega
      simp only [hdeleted, List.nil_append]
      refine ⟨?_, ?_, trivial, fun a ha b hb => ?_⟩
      · rw [List.append_assoc, List.flatten_cons, ← List.append_assoc (front.take _),
          List.take_append_drop]
        exact (hsort.append_right fronts.flatten).append_left s.newPop
      · rw [List.length_append, htaken, List.flatten_cons, List.length_append]
        omega
      · rcases List.mem_append.mp ha with ha | ha
        · left
          have hlt := hbefore a ha
          rcases List.mem_append.mp hb with hb | hb
          · have := hfront b (List.mem_of_mem_drop hb)
            omega
          · obtain ⟨g, hg, hbg⟩ := List.mem_flatten.mp hb
            obtain ⟨k, hk⟩ := List.getElem?_of_mem hg
            have := hlater k g hk b hbg
            omega
        · have hai := hfront a (List.mem_of_mem_take ha)
          rcases List.mem_append.mp hb with hb | hb
          · refine .inr ⟨by rw [hai, hfront b (List.mem_of_mem_drop hb)], ?_⟩
            rw [← List.take_append_drop (popSize - s.newPop.length) front,
              List.pairwise_append] at hsorted
            exact decide_eq_false_iff_not.mp (hsorted.2.2 a ha b hb)
          · left
            obtain ⟨g, hg, hbg⟩ := List.mem_flatten.mp hb
            obtain ⟨k, hk⟩ := List.getElem?_of_mem hg
            have := hlater k g hk b hbg
            omega

omit [DecidableEq σ] in
/-- What is in the fronts is what is in the bag. -/
theorem fronts_perm {pop : List σ} {rank : Fin pop.length → ℕ} {fronts : List (List (Fin pop.length))}
    (hlt : ∀ q, rank q < fronts.length)
    (hfronts : ∀ k layer, fronts[k]? = some layer → layer.Nodup ∧ ∀ q, q ∈ layer ↔ rank q = k) :
    ((fronts.map fun f => f.map pop.get).flatten).Perm pop := by
  have hnodup : fronts.flatten.Nodup := by
    rw [List.nodup_flatten]
    refine ⟨fun layer hlayer => ?_, ?_⟩
    · obtain ⟨k, hk⟩ := List.getElem?_of_mem hlayer
      exact (hfronts k layer hk).1
    · rw [List.pairwise_iff_getElem]
      intro i j hi hj hij q hqi hqj
      have hri := ((hfronts i _ (List.getElem?_eq_getElem hi)).2 q).mp hqi
      have hrj := ((hfronts j _ (List.getElem?_eq_getElem hj)).2 q).mp hqj
      omega
  have hmem : ∀ q, q ∈ fronts.flatten ↔ q ∈ List.finRange pop.length := by
    intro q
    refine iff_of_true (List.mem_flatten.mpr ⟨_, List.getElem_mem (hlt q), ?_⟩) (List.mem_finRange q)
    exact ((hfronts _ _ (List.getElem?_eq_getElem (hlt q))).2 q).mpr rfl
  have hperm := (List.perm_ext_iff_of_nodup hnodup (List.nodup_finRange _)).mpr hmem
  have hget := hperm.map pop.get
  rw [List.map_get_finRange] at hget
  rw [← List.map_flatten]
  exact hget

theorem setNSGARanks_get {pop : List σ} (hnodup : pop.Nodup) {ranking : Ranking pop.length}
    {rank : Fin pop.length → ℕ} (hrank : ∀ q, ranking.rank q = some (rank q)) (old : σ → ℕ)
    (q : Fin pop.length) : setNSGARanks ranking old (pop.get q) = rank q := by
  have hfold : ∀ l : List (Fin pop.length), (q ∈ l → (l.foldl (fun rank p =>
      match ranking.rank p with
      | some k => Function.update rank (pop.get p) k
      | none => rank) old) (pop.get q) = rank q) := by
    intro l
    induction l using List.reverseRecOn with
    | nil =>
      intro hq
      cases hq
    | append_singleton l p ih =>
      intro hq
      rw [List.foldl_append, List.foldl_cons, List.foldl_nil]
      simp only [hrank p]
      by_cases hqp : q = p
      · rw [hqp, Function.update_self]
      · rw [Function.update_of_ne fun heq => hqp (hnodup.injective_get heq)]
        exact ih ((List.mem_append.mp hq).resolve_right (by simpa using hqp))
  exact hfold _ (List.mem_finRange q)

theorem survivors_spec (std : StdSort σ) (m : Merits σ ℚ) (popSize : ℕ) {pop : List σ}
    (hnodup : pop.Nodup) (rank : σ → ℕ) (distance : σ → Double) :
    (survivors std m popSize pop rank distance = none ↔ pop.length < popSize ∨
        ∀ a ∈ pop, ∀ b ∈ pop, a ≠ b → Dominates m a b ∨ Dominates m b a) ∧
      ∀ s, survivors std m popSize pop rank distance = some s →
        s.newPop.length = popSize ∧ (s.newPop ++ s.deleted).Perm pop ∧
        ∀ a ∈ s.newPop, ∀ b ∈ s.deleted, ¬ Dominates m b a ∧
          (s.rank a < s.rank b ∨ s.rank a = s.rank b ∧ ¬ s.distance a < s.distance b) := by
  have hr := layer_isRank (before_wellFounded m pop)
  obtain ⟨hnone, hsome⟩ := calculateNSGARanks_spec hr
  have hchain : (∀ p q, p ≠ q → Before m pop p q ∨ Before m pop q p) ↔
      ∀ a ∈ pop, ∀ b ∈ pop, a ≠ b → Dominates m a b ∨ Dominates m b a := by
    constructor
    · intro h a ha b hb hne
      obtain ⟨p, rfl⟩ := List.mem_iff_get.mp ha
      obtain ⟨q, rfl⟩ := List.mem_iff_get.mp hb
      exact h p q fun heq => hne (by rw [heq])
    · intro h p q hne
      exact h _ (List.get_mem pop p) _ (List.get_mem pop q) fun heq => hne (hnodup.injective_get heq)
  rw [← hchain, ← hnone, survivors]
  cases hranks : calculateNSGARanks m pop with
  | none => exact ⟨iff_of_true rfl (.inr rfl), fun s h => by cases h⟩
  | some ranking =>
    obtain ⟨hrank, hlt, hfronts⟩ := hsome ranking hranks
    have hget := setNSGARanks_get hnodup hrank rank
    have hperm := fronts_perm (fun q => Nat.lt_of_succ_lt (hlt q)) hfronts
    have hlayers : ∀ k f, (ranking.fronts.map fun f => f.map pop.get)[k]? = some f → ∀ x ∈ f,
        setNSGARanks ranking rank x = 0 + k := by
      intro k f hf x hx
      rw [List.getElem?_map] at hf
      obtain ⟨layer, hlayer, rfl⟩ := Option.map_eq_some_iff.mp hf
      obtain ⟨q, hq, rfl⟩ := List.mem_map.mp hx
      rw [hget, ((hfronts k layer hlayer).2 q).mp hq, Nat.zero_add]
    obtain ⟨hp, hl, hrk, hbetter⟩ := pick_spec std m popSize
      (s := ⟨[], [], setNSGARanks ranking rank, distance⟩) hlayers rfl (Nat.zero_le _)
      fun a ha => by cases ha
    simp only [List.nil_append, List.length_nil, Nat.zero_add] at hp hl
    rw [hperm.length_eq] at hl
    simp only [ite_eq_left_iff, reduceCtorEq, imp_false, not_not, or_false, hl,
      Option.ite_none_left_eq_some, Option.some_inj]
    refine ⟨by omega, ?_⟩
    rintro s ⟨hlen, rfl⟩
    refine ⟨by omega, hp.trans hperm, fun a ha b hb => ⟨fun hdom => ?_, ?_⟩⟩
    · have ha' := (hp.trans hperm).mem_iff.mp (List.mem_append_left _ ha)
      have hb' := (hp.trans hperm).mem_iff.mp (List.mem_append_right _ hb)
      obtain ⟨p, rfl⟩ := List.mem_iff_get.mp ha'
      obtain ⟨q, rfl⟩ := List.mem_iff_get.mp hb'
      have hlt' := hr.lt q p hdom
      rcases hbetter _ ha _ hb with h | ⟨h, -⟩ <;> rw [hget, hget] at h <;> omega
    · rw [hrk]
      exact hbetter a ha b hb

end Crowding

end Rts2.Sched
