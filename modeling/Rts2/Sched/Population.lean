import Mathlib.Data.List.GetD
import Rts2.Sched.Selection

/-! # Generations of schedules

A step of NSGA-II keeps `popSize` of the schedules in the bag, deletes the others, and fills the bag up
with children of those that are kept. Schedules are known by their addresses. -/
namespace Rts2.Sched
open Rts2.Lib

/-- `RAND_MAX`. -/
def RAND_MAX : ℕ := 2147483647

/-- What `random` returns. -/
abbrev Draw := Fin (RAND_MAX + 1)

/-- `randomNumber`. -/
def randomNumber (min max : ℕ) (draw : Draw) : ℕ := min + (max - min) * draw / RAND_MAX

/-- What `random` returns in a step, by where it is called. -/
structure Draws where
  first : ℕ → Draw
  second : ℕ → Draw
  tie : ℕ → Draw
  crossPoint : ℕ → Draw
  mutated : ℕ → Draw
  gene : ℕ → Draw

/-- What is known of schedules: their merits, the child of two parents and a crossing point, and what
`mutate` makes of one. -/
structure Genetics (C : Type) where
  merits : Merits C ℚ
  child : C → C → ℕ → C
  mutate : C → Draw → C
  minObsDuration : ℕ
  maxCrossPoint : ℕ

/-- `Rts2SchedBag`: the schedules in it, and what their addresses hold. `fresh` is the next address;
`deleted` lists what `delete` was called with. -/
structure SchedBag (C : Type) where
  content : ℕ → C
  rank : ℕ → ℕ
  distance : ℕ → Double
  schedules : List ℕ
  fresh : ℕ
  deleted : List ℕ

section Step
variable {C : Type} (g : Genetics C)

/-- What the functions of schedules give at an address. -/
def SchedBag.merits (b : SchedBag C) : Merits ℕ ℚ where
  getConstraintFunction s := g.merits.getConstraintFunction (b.content s)
  getObjectiveFunction s := g.merits.getObjectiveFunction (b.content s)

/-- `new Rts2Schedule`, pushed to the bag. -/
def SchedBag.push (b : SchedBag C) (c : C) : SchedBag C where
  content := Function.update b.content b.fresh c
  rank := Function.update b.rank b.fresh 2147483647
  distance := Function.update b.distance b.fresh (.fin 0)
  schedules := b.schedules ++ [b.fresh]
  fresh := b.fresh + 1
  deleted := b.deleted

/-- `Rts2SchedBag::cross`. -/
def SchedBag.cross (b : SchedBag C) (parent1 parent2 : ℕ) (draw : Draw) : SchedBag C :=
  let crossPoint := randomNumber g.minObsDuration g.maxCrossPoint draw
  (b.push (g.child (b.content parent1) (b.content parent2) crossPoint)).push
    (g.child (b.content parent2) (b.content parent1) crossPoint)

/-- `Rts2SchedBag::tournamentNSGA`. -/
def SchedBag.tournamentNSGA (b : SchedBag C) (sched1 sched2 : ℕ) (draw : Draw) : ℕ :=
  if b.rank sched1 < b.rank sched2 then sched1
  else if b.distance sched2 < b.distance sched1 then sched1
  else if 50 < randomNumber 0 100 draw then sched1 else sched2

/-- The exchanges in an array of indices: each place with a drawn one from it on. -/
def shuffle (popSize : ℕ) (draw : ℕ → Draw) : List ℕ :=
  (List.range popSize).foldl (fun a i =>
    let rand := randomNumber i (popSize - 1) (draw i)
    let temp := a.getD rand 0
    (a.set rand (a.getD i 0)).set i temp) (List.range popSize)

/-- `tournamentNSGA (new_pop[a[i]], new_pop[a[i + 1]])`; `none` when it reads outside. -/
def SchedBag.contest (b : SchedBag C) (newPop a : List ℕ) (draw : Draw) (i : ℕ) : Option ℕ := do
  let x ← a[i]?
  let y ← a[i + 1]?
  let sched1 ← newPop[x]?
  let sched2 ← newPop[y]?
  some (b.tournamentNSGA sched1 sched2 draw)

/-- Two tournaments, and a crossing of the winners. -/
def SchedBag.crossWinners (b : SchedBag C) (newPop a : List ℕ) (tie : ℕ → Draw) (crossPoint : Draw)
    (i : ℕ) : Option (SchedBag C) := do
  let parent1 ← b.contest newPop a (tie i) i
  let parent2 ← b.contest newPop a (tie (i + 1)) (i + 2)
  some (b.cross g parent1 parent2 crossPoint)

/-- The round of the tournaments at `i`. -/
def SchedBag.crossRound (b : SchedBag C) (popSize : ℕ) (newPop : List ℕ) (draws : Draws) (i : ℕ) :
    Option (SchedBag C) := do
  let b ← b.crossWinners g newPop (shuffle popSize draws.first) draws.tie (draws.crossPoint i) i
  b.crossWinners g newPop (shuffle popSize draws.second) (fun k => draws.tie (popSize + k))
    (draws.crossPoint (i + 1)) i

/-- `mutate ((*this)[..])`. -/
def SchedBag.mutateAt (b : SchedBag C) (place : ℕ) (draw : Draw) : Option (SchedBag C) := do
  let s ← b.schedules[place]?
  some { b with content := Function.update b.content s (g.mutate (b.content s) draw) }

/-- The bag when `new_pop` is put back. -/
def SchedBag.keep (b : SchedBag C) (s : Picked ℕ) : SchedBag C :=
  { b with
    rank := s.rank
    distance := s.distance
    schedules := s.newPop
    deleted := b.deleted ++ s.deleted }

/-- `Rts2SchedBag::doNSGAIIStep`; `none` when it reads outside of an array. -/
def SchedBag.doNSGAIIStep (std : StdSort ℕ) (popSize mutationNum : ℕ) (b : SchedBag C)
    (draws : Draws) : Option (SchedBag C) := do
  let s ← survivors std (b.merits g) popSize b.schedules b.rank b.distance
  let b ← ((List.range ((popSize + 3) / 4)).map (4 * ·)).foldlM
    (fun b i => b.crossRound g popSize s.newPop draws i) (b.keep s)
  (List.range mutationNum).foldlM (fun b k =>
    b.mutateAt g (randomNumber popSize (popSize * 2 - 1) (draws.mutated k)) (draws.gene k)) b

/-- The bag after `constructSchedules`, with the contents of the schedules. -/
def constructSchedules (contents : List C) (default : C) : SchedBag C :=
  contents.foldl SchedBag.push ⟨fun _ => default, fun _ => 0, fun _ => .nan, [], 0, []⟩

/-! ## Draws -/

theorem randomNumber_bounds {min max : ℕ} (h : min ≤ max) (draw : Draw) :
    min ≤ randomNumber min max draw ∧ randomNumber min max draw ≤ max := by
  have hle : (max - min) * draw / RAND_MAX ≤ max - min := by
    refine Nat.div_le_of_le_mul ?_
    rw [Nat.mul_comm RAND_MAX]
    exact Nat.mul_le_mul_left _ (Nat.le_of_lt_succ draw.2)
  refine ⟨Nat.le_add_right _ _, ?_⟩
  have hsum := Nat.add_le_add_left hle min
  rwa [Nat.add_sub_cancel' h] at hsum

theorem exchange_perm {a : List ℕ} {i j : ℕ} (hi : i < a.length) (hj : j < a.length) :
    ((a.set j (a.getD i 0)).set i (a.getD j 0)).Perm a := by
  rw [List.getD_eq_getElem _ _ hi, List.getD_eq_getElem _ _ hj]
  exact List.set_set_perm hj hi

theorem shuffle_perm (popSize : ℕ) (draw : ℕ → Draw) :
    (shuffle popSize draw).Perm (List.range popSize) := by
  have hfold : ∀ l : List ℕ, (∀ i ∈ l, i < popSize) → (l.foldl (fun a i =>
      let rand := randomNumber i (popSize - 1) (draw i)
      let temp := a.getD rand 0
      (a.set rand (a.getD i 0)).set i temp) (List.range popSize)).Perm (List.range popSize) := by
    intro l
    induction l using List.reverseRecOn with
    | nil => exact fun _ => List.Perm.refl _
    | append_singleton l i ih =>
      intro hl
      have hperm := ih fun j hj => hl j (List.mem_append_left _ hj)
      have hi : i < popSize := hl i (by simp)
      have hrand := (randomNumber_bounds (show i ≤ popSize - 1 by omega) (draw i)).2
      rw [List.foldl_append, List.foldl_cons, List.foldl_nil]
      have hlen := hperm.length_eq
      rw [List.length_range] at hlen
      exact (exchange_perm (by omega) (by omega)).trans hperm
  exact hfold _ fun i hi => List.mem_range.mp hi

/-! ## Crossing -/

/-- The schedule at an address is as it was. -/
def Same (b b' : SchedBag C) (s : ℕ) : Prop :=
  b'.content s = b.content s ∧ b'.rank s = b.rank s ∧ b'.distance s = b.distance s

/-- What pushing `k` new schedules does. -/
structure Grown (b b' : SchedBag C) (k : ℕ) : Prop where
  schedules : b'.schedules = b.schedules ++ List.range' b.fresh k
  fresh : b'.fresh = b.fresh + k
  deleted : b'.deleted = b.deleted
  same : ∀ s < b.fresh, Same b b' s

theorem Grown.refl (b : SchedBag C) : Grown b b 0 :=
  ⟨by rw [List.range'_zero, List.append_nil], rfl, rfl, fun _ _ => ⟨rfl, rfl, rfl⟩⟩

theorem Grown.trans {b b' b'' : SchedBag C} {k j : ℕ} (h : Grown b b' k) (h' : Grown b' b'' j) :
    Grown b b'' (k + j) where
  schedules := by
    rw [h'.schedules, h.schedules, h.fresh, List.append_assoc, List.range'_append_1]
  fresh := by rw [h'.fresh, h.fresh, Nat.add_assoc]
  deleted := h'.deleted.trans h.deleted
  same s hs := by
    obtain ⟨hcontent, hrank, hdistance⟩ := h.same s hs
    obtain ⟨hcontent', hrank', hdistance'⟩ := h'.same s (by rw [h.fresh]; omega)
    exact ⟨hcontent'.trans hcontent, hrank'.trans hrank, hdistance'.trans hdistance⟩

theorem push_grown (b : SchedBag C) (c : C) : Grown b (b.push c) 1 where
  schedules := rfl
  fresh := rfl
  deleted := rfl
  same s hs :=
    have hne : s ≠ b.fresh := Nat.ne_of_lt hs
    ⟨Function.update_of_ne hne _ _, Function.update_of_ne hne _ _, Function.update_of_ne hne _ _⟩

theorem contest_eq_none {b : SchedBag C} {newPop a : List ℕ} {draw : Draw} {i : ℕ}
    (hi : a.length ≤ i + 1) : b.contest newPop a draw i = none := by
  rw [SchedBag.contest, List.getElem?_eq_none hi]
  cases a[i]? <;> rfl

theorem contest_isSome (b : SchedBag C) {newPop a : List ℕ} (draw : Draw) {i : ℕ}
    (ha : ∀ x ∈ a, x < newPop.length) (hi : i + 1 < a.length) :
    ∃ s, b.contest newPop a draw i = some s := by
  have hx := ha _ (List.getElem_mem (Nat.lt_of_succ_lt hi))
  have hy := ha _ (List.getElem_mem hi)
  rw [SchedBag.contest, List.getElem?_eq_getElem hi, List.getElem?_eq_getElem (Nat.lt_of_succ_lt hi)]
  simp only [Option.bind_eq_bind, Option.bind_some, List.getElem?_eq_getElem hx,
    List.getElem?_eq_getElem hy]
  exact ⟨_, rfl⟩

theorem crossWinners_eq_none {b : SchedBag C} {newPop a : List ℕ} {tie : ℕ → Draw}
    {crossPoint : Draw} {i : ℕ} (hi : a.length ≤ i + 3) :
    b.crossWinners g newPop a tie crossPoint i = none := by
  rw [SchedBag.crossWinners, contest_eq_none (i := i + 2) hi]
  cases b.contest newPop a (tie i) i <;> rfl

theorem crossWinners_grown (b : SchedBag C) {newPop a : List ℕ} (tie : ℕ → Draw)
    (crossPoint : Draw) {i : ℕ} (ha : ∀ x ∈ a, x < newPop.length) (hi : i + 3 < a.length) :
    ∃ b', b.crossWinners g newPop a tie crossPoint i = some b' ∧ Grown b b' 2 := by
  obtain ⟨parent1, h1⟩ := contest_isSome b (tie i) ha (show i + 1 < a.length by omega)
  obtain ⟨parent2, h2⟩ := contest_isSome b (tie (i + 1)) (i := i + 2) ha hi
  refine ⟨_, by rw [SchedBag.crossWinners, h1, h2]; rfl, ?_⟩
  exact (push_grown b _).trans (push_grown _ _)

theorem crossRounds_grown {popSize : ℕ} {newPop : List ℕ} (hlen : newPop.length = popSize)
    (draws : Draws) (is : List ℕ) (his : ∀ i ∈ is, i + 3 < popSize) (b : SchedBag C) :
    ∃ b', is.foldlM (fun b i => b.crossRound g popSize newPop draws i) b = some b' ∧
      Grown b b' (4 * is.length) := by
  have hshuffle : ∀ draw, (∀ x ∈ shuffle popSize draw, x < newPop.length) ∧
      (shuffle popSize draw).length = popSize := by
    intro draw
    have hperm := shuffle_perm popSize draw
    refine ⟨fun x hx => ?_, by rw [hperm.length_eq, List.length_range]⟩
    rw [hlen]
    exact List.mem_range.mp (hperm.mem_iff.mp hx)
  induction is generalizing b with
  | nil => exact ⟨b, rfl, Grown.refl b⟩
  | cons i is ih =>
    have hi := his i List.mem_cons_self
    obtain ⟨h1, h1'⟩ := hshuffle draws.first
    obtain ⟨h2, h2'⟩ := hshuffle draws.second
    obtain ⟨b1, hb1, hg1⟩ := crossWinners_grown g b draws.tie (draws.crossPoint i) h1 (by rw [h1']; exact hi)
    obtain ⟨b2, hb2, hg2⟩ := crossWinners_grown g b1
      (fun k => draws.tie (popSize + k)) (draws.crossPoint (i + 1)) h2 (by rw [h2']; exact hi)
    obtain ⟨b', hb', hg'⟩ := ih (fun j hj => his j (List.mem_cons_of_mem _ hj)) b2
    refine ⟨b', ?_, ?_⟩
    · rw [List.foldlM_cons, SchedBag.crossRound, hb1]
      simp only [Option.bind_eq_bind, Option.bind_some, hb2]
      exact hb'
    · have hsum : 2 + 2 + 4 * is.length = 4 * (i :: is).length := by
        rw [List.length_cons]
        omega
      exact hsum ▸ (hg1.trans hg2).trans hg'

theorem crossRounds_eq_none {popSize : ℕ} {newPop : List ℕ} (draws : Draws) (is : List ℕ)
    (his : ∃ i ∈ is, popSize ≤ i + 3) (b : SchedBag C) :
    is.foldlM (fun b i => b.crossRound g popSize newPop draws i) b = none := by
  obtain ⟨i, hi, hout⟩ := his
  induction is generalizing b with
  | nil => cases hi
  | cons j is ih =>
    rw [List.foldlM_cons]
    rcases List.mem_cons.mp hi with rfl | hi
    · have hlen : (shuffle popSize draws.first).length ≤ i + 3 := by
        rw [(shuffle_perm popSize draws.first).length_eq, List.length_range]
        exact hout
      rw [SchedBag.crossRound, crossWinners_eq_none g hlen]
      rfl
    · cases b.crossRound g popSize newPop draws j with
      | none => rfl
      | some b' => exact ih b' hi

/-! ## Mutations -/

theorem mutations_spec (popSize : ℕ) (places : ℕ → ℕ) (genes : ℕ → Draw) (ks : List ℕ)
    (b : SchedBag C) (hplaces : ∀ k, popSize ≤ places k ∧ places k < b.schedules.length) :
    ∃ b', ks.foldlM (fun b k => b.mutateAt g (places k) (genes k)) b = some b' ∧
      b'.schedules = b.schedules ∧ b'.fresh = b.fresh ∧ b'.deleted = b.deleted ∧
      b'.rank = b.rank ∧ b'.distance = b.distance ∧
      ∀ s, s ∉ b.schedules.drop popSize → b'.content s = b.content s := by
  induction ks generalizing b with
  | nil => exact ⟨b, rfl, rfl, rfl, rfl, rfl, rfl, fun _ _ => rfl⟩
  | cons k ks ih =>
    obtain ⟨hge, hlt⟩ := hplaces k
    have hmem : b.schedules[places k] ∈ b.schedules.drop popSize := by
      rw [List.mem_drop_iff_getElem]
      exact ⟨places k - popSize, by omega, by simp only [Nat.add_sub_cancel' hge]⟩
    obtain ⟨b', hb', hs, hf, hd, hr, hdist, hc⟩ := ih { b with
      content := Function.update b.content b.schedules[places k]
        (g.mutate (b.content b.schedules[places k]) (genes k)) } hplaces
    refine ⟨b', ?_, hs, hf, hd, hr, hdist, fun s hs => ?_⟩
    · rw [List.foldlM_cons, SchedBag.mutateAt, List.getElem?_eq_getElem hlt]
      exact hb'
    · have hne : s ≠ b.schedules[places k] := fun heq => hs (by rw [heq]; exact hmem)
      rw [hc s hs]
      exact Function.update_of_ne hne _ _

/-! ## Generations -/

@[simp] theorem keep_schedules (b : SchedBag C) (s : Picked ℕ) : (b.keep s).schedules = s.newPop := rfl

@[simp] theorem keep_fresh (b : SchedBag C) (s : Picked ℕ) : (b.keep s).fresh = b.fresh := rfl

/-- Every schedule that was made is in the bag, or was deleted, and this once. -/
def SchedBag.Owned (b : SchedBag C) : Prop :=
  (b.schedules ++ b.deleted).Perm (List.range b.fresh)

/-- Of any two schedules in the bag one dominates the other. -/
def SchedBag.Chain (b : SchedBag C) : Prop :=
  ∀ s ∈ b.schedules, ∀ t ∈ b.schedules, s ≠ t →
    Dominates (b.merits g) s t ∨ Dominates (b.merits g) t s

/-- What a step keeps of the schedules that were there: they are as they were, what dominates one of
them is kept with it, and what is deleted has a higher rank, or this rank and no greater distance. -/
structure Kept (b b' : SchedBag C) : Prop where
  content : ∀ s ∈ b'.schedules, s < b.fresh → b'.content s = b.content s
  dominators : ∀ s ∈ b'.schedules, s < b.fresh → s ∈ b.schedules ∧
    ∀ t ∈ b.schedules, Dominates (b.merits g) t s → t ∈ b'.schedules
  least : ∀ s ∈ b'.schedules, s < b.fresh → ∀ t ∈ b.schedules, t ∉ b'.schedules →
    b'.rank s < b'.rank t ∨ b'.rank s = b'.rank t ∧ ¬ b'.distance s < b'.distance t

/-- The survivors and the children, and what was deleted before and now, are all there is. -/
theorem generation_perm {newPop gone schedules deleted : List ℕ} {fresh : ℕ}
    (hperm : (newPop ++ gone).Perm schedules)
    (hb : (schedules ++ deleted).Perm (List.range fresh)) (popSize : ℕ) :
    (newPop ++ List.range' fresh popSize ++ (deleted ++ gone)).Perm
      (List.range (fresh + popSize)) := by
  refine List.perm_iff_count.mpr fun a => ?_
  have hcount := hperm.count_eq a
  have hall := hb.count_eq a
  rw [List.range_add, ← List.range'_eq_map_range]
  simp only [List.count_append] at hcount hall ⊢
  omega

theorem step_spec (std : StdSort ℕ) {popSize : ℕ} (mutationNum : ℕ) (hpos : 0 < popSize) {b : SchedBag C}
    (hb : b.Owned) (hsize : popSize ≤ b.schedules.length) (draws : Draws) :
    (b.doNSGAIIStep g std popSize mutationNum draws = none ↔ ¬ 4 ∣ popSize ∨ b.Chain g) ∧
      ∀ b', b.doNSGAIIStep g std popSize mutationNum draws = some b' →
        b'.Owned ∧ b'.schedules.length = 2 * popSize ∧ b'.fresh = b.fresh + popSize ∧
          Kept g b b' := by
  have hnodup : (b.schedules ++ b.deleted).Nodup := hb.nodup_iff.mpr List.nodup_range
  obtain ⟨hnone, hsome⟩ := survivors_spec std (b.merits g) popSize
    (List.nodup_append.mp hnodup).1 b.rank b.distance
  cases hs : survivors std (b.merits g) popSize b.schedules b.rank b.distance with
  | none =>
    have hchain := (hnone.mp hs).resolve_left (by omega)
    have hstep : b.doNSGAIIStep g std popSize mutationNum draws = none := by
      rw [SchedBag.doNSGAIIStep, hs]
      rfl
    exact ⟨iff_of_true hstep (.inr hchain), fun b' h => by rw [hstep] at h; cases h⟩
  | some s =>
    have hchain : ¬ b.Chain g := fun h => by
      have := hnone.mpr (.inr h)
      rw [hs] at this
      cases this
    obtain ⟨hlen, hperm, hbetter⟩ := hsome s hs
    have hdef : b.doNSGAIIStep g std popSize mutationNum draws =
        (((List.range ((popSize + 3) / 4)).map (4 * ·)).foldlM
          (fun (b : SchedBag C) i => b.crossRound g popSize s.newPop draws i) (b.keep s)).bind
            fun b => (List.range mutationNum).foldlM (fun (b : SchedBag C) k => b.mutateAt g
              (randomNumber popSize (popSize * 2 - 1) (draws.mutated k)) (draws.gene k)) b := by
      rw [SchedBag.doNSGAIIStep, hs]
      rfl
    by_cases hfour : 4 ∣ popSize
    · have his : ∀ i ∈ (List.range ((popSize + 3) / 4)).map (4 * ·), i + 3 < popSize := by
        intro i hi
        obtain ⟨k, hk, rfl⟩ := List.mem_map.mp hi
        have := List.mem_range.mp hk
        omega
      obtain ⟨b1, hb1, hg⟩ := crossRounds_grown g hlen draws _ his (b.keep s)
      have hsum : 4 * ((List.range ((popSize + 3) / 4)).map (4 * ·)).length = popSize := by
        rw [List.length_map, List.length_range]
        omega
      rw [hsum] at hg
      have hb1len : b1.schedules.length = 2 * popSize := by
        rw [hg.schedules, List.length_append, List.length_range', SchedBag.keep, hlen]
        omega
      obtain ⟨b2, hb2, hs2, hf2, hd2, hr2, hdist2, hc2⟩ := mutations_spec g popSize
        (fun k => randomNumber popSize (popSize * 2 - 1) (draws.mutated k)) draws.gene
        (List.range mutationNum) b1 fun k => by
          have := randomNumber_bounds (show popSize ≤ popSize * 2 - 1 by omega) (draws.mutated k)
          omega
      have hstep : b.doNSGAIIStep g std popSize mutationNum draws = some b2 := by
        rw [hdef, hb1]
        exact hb2
      have hold : ∀ x ∈ b2.schedules, x < b.fresh → x ∈ s.newPop := by
        intro x hx hlt
        rw [hs2, hg.schedules] at hx
        rcases List.mem_append.mp hx with hx | hx
        · exact hx
        · exact absurd (List.left_le_of_mem_range' hx) (Nat.not_le.mpr hlt)
      have hgone : ∀ t ∈ b.schedules, t ∉ b2.schedules → t ∈ s.deleted := by
        intro t ht hout
        refine (List.mem_append.mp (hperm.mem_iff.mpr ht)).resolve_left fun hnew => hout ?_
        rw [hs2, hg.schedules]
        exact List.mem_append_left _ hnew
      have hlive : ∀ t ∈ b.schedules, t < b.fresh := fun t ht =>
        List.mem_range.mp (hb.mem_iff.mp (List.mem_append_left _ ht))
      refine ⟨iff_of_false (fun h => by rw [hstep] at h; cases h)
        (not_or.mpr ⟨not_not.mpr hfour, hchain⟩), fun b' hb' => ?_⟩
      obtain rfl : b2 = b' := Option.some.inj (hstep.symm.trans hb')
      refine ⟨?_, by rw [hs2, hb1len], by rw [hf2, hg.fresh, keep_fresh], ⟨?_, ?_, ?_⟩⟩
      · rw [SchedBag.Owned, hs2, hg.schedules, hd2, hg.deleted, hf2, hg.fresh]
        exact generation_perm hperm hb popSize
      · intro x hx hlt
        have hdrop : x ∉ b1.schedules.drop popSize := by
          rw [hg.schedules, keep_schedules, List.drop_left' hlen]
          exact fun hmem => absurd (List.left_le_of_mem_range' hmem) (Nat.not_le.mpr hlt)
        rw [hc2 x hdrop]
        exact (hg.same x hlt).1
      · intro x hx hlt
        have hnew := hold x hx hlt
        refine ⟨hperm.mem_iff.mp (List.mem_append_left _ hnew), fun t ht hdom => ?_⟩
        by_contra hout
        exact (hbetter x hnew t (hgone t ht hout)).1 hdom
      · intro x hx hlt t ht hout
        obtain ⟨-, hrank, hdistance⟩ := hg.same x hlt
        obtain ⟨-, hrank', hdistance'⟩ := hg.same t (hlive t ht)
        rw [hr2, hdist2, hrank, hrank', hdistance, hdistance']
        exact (hbetter x (hold x hx hlt) t (hgone t ht hout)).2
    · have his : ∃ i ∈ (List.range ((popSize + 3) / 4)).map (4 * ·), popSize ≤ i + 3 :=
        ⟨4 * (popSize / 4), List.mem_map.mpr ⟨popSize / 4, List.mem_range.mpr (by omega), rfl⟩,
          by omega⟩
      have hstep : b.doNSGAIIStep g std popSize mutationNum draws = none := by
        rw [hdef, crossRounds_eq_none g draws _ his]
        rfl
      exact ⟨iff_of_true hstep (.inl hfour), fun b' h => by rw [hstep] at h; cases h⟩

theorem constructSchedules_spec (contents : List C) (default : C) :
    (constructSchedules contents default).schedules = List.range contents.length ∧
      (constructSchedules contents default).fresh = contents.length ∧
      (constructSchedules contents default).deleted = [] := by
  induction contents using List.reverseRecOn with
  | nil => exact ⟨rfl, rfl, rfl⟩
  | append_singleton contents c ih =>
    obtain ⟨hs, hf, hd⟩ := ih
    rw [constructSchedules] at hs hf hd ⊢
    rw [List.foldl_append, List.foldl_cons, List.foldl_nil, List.length_append, List.length_singleton,
      List.range_succ]
    exact ⟨by rw [SchedBag.push, hs, hf], by rw [SchedBag.push, hf], hd⟩

theorem step_of_empty (std : StdSort ℕ) (popSize mutationNum : ℕ) {b : SchedBag C}
    (hb : b.schedules = []) (draws : Draws) :
    b.doNSGAIIStep g std popSize mutationNum draws = none ∧ b.Chain g := by
  have hnodup : b.schedules.Nodup := hb ▸ List.nodup_nil
  have hchain : b.Chain g := fun s hs => by
    rw [hb] at hs
    cases hs
  have hnone := (survivors_spec std (b.merits g) popSize hnodup b.rank b.distance).1.mpr (.inr hchain)
  refine ⟨?_, hchain⟩
  rw [SchedBag.doNSGAIIStep, hnone]
  rfl

/-- How the bag is after some steps. -/
structure Generation (popSize k : ℕ) (b : SchedBag C) : Prop where
  owned : b.Owned
  fresh : b.fresh = popSize * (k + 1)
  size : b.schedules.length = popSize * min 2 (k + 1)

theorem Generation.step (std : StdSort ℕ) {popSize : ℕ} (mutationNum : ℕ) {k : ℕ} {b : SchedBag C}
    (h : Generation popSize k b) (draws : Draws) :
    (b.doNSGAIIStep g std popSize mutationNum draws = none ↔ ¬ 4 ∣ popSize ∨ b.Chain g) ∧
      ∀ b', b.doNSGAIIStep g std popSize mutationNum draws = some b' →
        Generation popSize (k + 1) b' ∧ Kept g b b' := by
  rcases Nat.eq_zero_or_pos popSize with rfl | hpos
  · have hempty : b.schedules = [] := List.length_eq_zero_iff.mp (by rw [h.size, Nat.zero_mul])
    obtain ⟨hstep, hchain⟩ := step_of_empty g std 0 mutationNum hempty draws
    exact ⟨iff_of_true hstep (.inr hchain), fun b' h' => by rw [hstep] at h'; cases h'⟩
  · have hsize : popSize ≤ b.schedules.length := by
      rw [h.size]
      exact Nat.le_mul_of_pos_right _ (by omega)
    obtain ⟨hnone, hsome⟩ := step_spec g std mutationNum hpos h.owned hsize draws
    refine ⟨hnone, fun b' hb' => ?_⟩
    obtain ⟨howned, hlen, hfresh, hkept⟩ := hsome b' hb'
    refine ⟨⟨howned, ?_, ?_⟩, hkept⟩
    · rw [hfresh, h.fresh, ← Nat.mul_succ]
    · rw [hlen, show min 2 (k + 1 + 1) = 2 by omega, Nat.mul_comm]

theorem generation_run (std : StdSort ℕ) (mutationNum : ℕ) (contents : List C) (default : C)
    (steps : List Draws) {b : SchedBag C}
    (hrun : steps.foldlM (fun (b : SchedBag C) draws =>
      b.doNSGAIIStep g std contents.length mutationNum draws) (constructSchedules contents default) =
        some b) : Generation contents.length steps.length b := by
  induction steps using List.reverseRecOn generalizing b with
  | nil =>
    obtain ⟨hs, hf, hd⟩ := constructSchedules_spec contents default
    obtain rfl := Option.some.inj hrun
    refine ⟨?_, by rw [hf, List.length_nil, Nat.mul_one], by rw [hs, List.length_range]; exact (Nat.mul_one _).symm⟩
    rw [SchedBag.Owned, hs, hd, hf, List.append_nil]
  | append_singleton steps draws ih =>
    rw [List.foldlM_append] at hrun
    obtain ⟨b', hb', hstep⟩ := Option.bind_eq_some_iff.mp hrun
    rw [List.foldlM_cons] at hstep
    obtain ⟨b'', hb'', hend⟩ := Option.bind_eq_some_iff.mp hstep
    obtain rfl := Option.some.inj hend
    rw [List.length_append, List.length_singleton]
    exact (((ih hb').step g std mutationNum draws).2 b'' hb'').1

end Step

/-- Schedules that are two numbers, of which only the first two objectives know. -/
def pairs : Genetics (ℚ × ℚ) where
  merits :=
    { getConstraintFunction := fun _ _ => 0
      getObjectiveFunction := fun s o =>
        match o with
        | .altitude => s.1
        | .account => s.2
        | _ => 0 }
  child s1 s2 _ := (s1.1, s2.2)
  mutate s _ := s
  minObsDuration := 10
  maxCrossPoint := 1000

/-- Draws that are all zero. -/
def zeroDraws : Draws := ⟨fun _ => 0, fun _ => 0, fun _ => 0, fun _ => 0, fun _ => 0, fun _ => 0⟩

end Rts2.Sched
