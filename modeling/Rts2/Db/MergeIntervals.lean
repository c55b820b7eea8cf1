import Rts2.Db.SatisfiedIntervals
import Rts2.Lib.Rounding
import Rts2.Lib.While

/-! # The two cursors of `mergeIntervals`

For each interval of `master` a cursor runs over `add`. `findFirst` takes the beginning of
the interval as a double, so that an interval that ends before may not be passed over. -/
namespace Rts2.Db.Cursor
open Rts2.Lib

/-- `findFirst`: the cursor goes to an interval that does not end before `t`. -/
def findFirst (t : Int) (si : Intervals) : Intervals := si.dropWhile fun i => toDouble i.2 < t

/-- The body of `while (addi != add.end () && addi->first < mi->second)`, with its
condition; the cursor and `ret` go on, or the loop ends. -/
def mergeTurn (mi : Int × Int) : Intervals × Intervals → Intervals × Intervals ⊕ Intervals
  | ([], ret) => .inr ret
  | (addi :: add, ret) =>
    if addi.1 < mi.2 then
      match findFirst (toDouble mi.1) (addi :: add) with
      | [] => .inr ret
      | addi :: add =>
        -- intervals have empty intersection
        if mi.2 < addi.1 then .inl (addi :: add, ret)
        else .inl (add, ret ++ [(max mi.1 addi.1, min mi.2 addi.2)])
    else .inr ret

/-- `mergeIntervals`, when each inner loop ends within so many turns. -/
def mergeIntervals (fuel : Nat) (master add ret : Intervals) : Option Intervals :=
  if add.length = 0 ∨ master.length = 0 then some []
  else master.foldlM (fun ret mi => turns (mergeTurn mi) fuel (add, ret)) ret

variable {mi addi next : Int × Int} {master add rest ret out : Intervals} {fuel : Nat}

/-! ## Turns of the loop -/

theorem mergeTurn_past (h : mi.2 ≤ addi.1) : mergeTurn mi (addi :: add, ret) = .inr ret := by
  simp only [mergeTurn, if_neg (not_lt.mpr h)]

theorem mergeTurn_none (hgo : addi.1 < mi.2) (h : findFirst (toDouble mi.1) (addi :: add) = []) :
    mergeTurn mi (addi :: add, ret) = .inr ret := by
  simp only [mergeTurn, if_pos hgo, h]

theorem mergeTurn_continue (hgo : addi.1 < mi.2)
    (h : findFirst (toDouble mi.1) (addi :: add) = next :: rest) (hpast : mi.2 < next.1) :
    mergeTurn mi (addi :: add, ret) = .inl (next :: rest, ret) := by
  simp only [mergeTurn, if_pos hgo, h, if_pos hpast]

theorem mergeTurn_piece (hgo : addi.1 < mi.2)
    (h : findFirst (toDouble mi.1) (addi :: add) = next :: rest) (hmeets : next.1 ≤ mi.2) :
    mergeTurn mi (addi :: add, ret) =
      .inl (rest, ret ++ [(max mi.1 next.1, min mi.2 next.2)]) := by
  simp only [mergeTurn, if_pos hgo, h, if_neg (not_lt.mpr hmeets)]

/-! ## When the doubles tell -/

/-- No interval of `add` that ends before one of `master` begins ends there when both
times are doubles. -/
def Separated (master add : Intervals) : Prop :=
  ∀ mi ∈ master, ∀ addi ∈ add, addi.2 < mi.1 → toDouble addi.2 < toDouble mi.1

/-- Times of 53 bits are doubles. -/
theorem separated_of_small (hmaster : ∀ mi ∈ master, mi.1.natAbs < 2 ^ 53)
    (hadd : ∀ addi ∈ add, addi.2.natAbs < 2 ^ 53) : Separated master add := by
  intro mi hmi addi haddi hends
  rwa [toDouble_eq (hmaster mi hmi), toDouble_eq (hadd addi haddi)]

/-- `mergeInterval` looks for an interval first, too. -/
theorem mergeInterval_findFirst (mi : Int × Int) (add : Intervals) :
    mergeInterval mi false add =
      mergeInterval mi false (add.dropWhile fun addi => addi.2 < mi.1) := by
  induction add with
  | nil => rfl
  | cons addi add ih =>
    by_cases hends : addi.2 < mi.1
    · rw [List.dropWhile_cons_of_pos (by simpa using hends), ← ih]
      simp only [mergeInterval, Bool.false_eq_true, false_and, if_false, if_pos hends]
    · rw [List.dropWhile_cons_of_neg (by simpa using hends)]

theorem findFirst_eq (h : ∀ addi ∈ add, addi.2 < mi.1 → toDouble addi.2 < toDouble mi.1) :
    findFirst (toDouble mi.1) add = add.dropWhile fun addi => addi.2 < mi.1 := by
  induction add with
  | nil => rfl
  | cons addi add ih =>
    obtain ⟨haddi, hadd⟩ := List.forall_mem_cons.mp h
    by_cases hends : addi.2 < mi.1
    · rw [List.dropWhile_cons_of_pos (by simpa using hends), ← ih hadd]
      exact List.dropWhile_cons_of_pos (by simpa using haddi hends)
    · have hstays : ¬toDouble addi.2 < toDouble mi.1 := not_lt.mpr (toDouble_mono (not_lt.mp hends))
      rw [List.dropWhile_cons_of_neg (by simpa using hends)]
      exact List.dropWhile_cons_of_neg (by simpa using hstays)

/-- The cursor finds the pieces `mergeInterval` has. -/
theorem turns_mergeTurn (h : ∀ addi ∈ add, addi.2 < mi.1 → toDouble addi.2 < toDouble mi.1)
    (hfuel : add.length + 2 ≤ fuel) :
    turns (mergeTurn mi) fuel (add, ret) = some (ret ++ mergeInterval mi true add) := by
  induction fuel generalizing add ret with
  | zero => omega
  | succ fuel ih =>
    cases add with
    | nil =>
      have hend : mergeTurn mi ([], ret) = .inr ret := rfl
      rw [turns_inr hend, mergeInterval, List.append_nil]
    | cons addi add =>
      by_cases hgo : addi.1 < mi.2
      · have hfind := findFirst_eq h
        have hsub := List.dropWhile_subset (l := addi :: add) fun addi => addi.2 < mi.1
        have hlen := (List.dropWhile_sublist (l := addi :: add) fun addi => addi.2 < mi.1).length_le
        have hpieces : mergeInterval mi true (addi :: add) = mergeInterval mi false (addi :: add) := by
          simp only [mergeInterval, not_le.mpr hgo, and_false, if_false]
        rw [hpieces, mergeInterval_findFirst]
        cases hcut : (addi :: add).dropWhile fun addi => addi.2 < mi.1 with
        | nil =>
          rw [turns_inr (mergeTurn_none hgo (hfind.trans hcut)), mergeInterval, List.append_nil]
        | cons next rest =>
          rw [hcut] at hsub hlen
          have hends : ¬next.2 < mi.1 := by
            have hhead := List.head?_dropWhile_not (fun addi : Int × Int => addi.2 < mi.1) (addi :: add)
            rw [hcut] at hhead
            simpa using hhead
          by_cases hpast : mi.2 < next.1
          · -- `continue`, and the condition of the loop fails
            obtain ⟨fuel, rfl⟩ : ∃ k, fuel = k + 1 := ⟨fuel - 1, by simp at hfuel; omega⟩
            rw [turns_inl (mergeTurn_continue hgo (hfind.trans hcut) hpast),
              turns_inr (mergeTurn_past hpast.le)]
            simp [mergeInterval, hends, hpast]
          · have hrest : ∀ addi ∈ rest, addi.2 < mi.1 → toDouble addi.2 < toDouble mi.1 :=
              fun addi haddi => h addi (hsub (List.mem_cons_of_mem next haddi))
            have hless : rest.length + 2 ≤ fuel := by
              simp only [List.length_cons] at hlen hfuel
              omega
            rw [turns_inl (mergeTurn_piece hgo (hfind.trans hcut) (not_lt.mp hpast)),
              ih hrest hless]
            simp [mergeInterval, hends, hpast]
      · rw [turns_inr (mergeTurn_past (not_lt.mp hgo))]
        simp [mergeInterval, not_lt.mp hgo]

/-! ## When they do not -/

/-- The loop ends at the end of `add`, or behind the interval; else it goes on from the interval
that was found, with the piece of it in `ret`, if it has one. -/
theorem mergeTurn_cases (mi : Int × Int) (add ret : Intervals) :
    mergeTurn mi (add, ret) = .inr ret ∧
        (∀ addi ∈ add.head?, addi.1 < mi.2 → findFirst (toDouble mi.1) add = []) ∨
      ∃ next rest, findFirst (toDouble mi.1) add = next :: rest ∧
        (mi.2 < next.1 ∧ mergeTurn mi (add, ret) = .inl (next :: rest, ret) ∨
          next.1 ≤ mi.2 ∧ mergeTurn mi (add, ret) =
            .inl (rest, ret ++ [(max mi.1 next.1, min mi.2 next.2)])) := by
  cases add with
  | nil => exact .inl ⟨rfl, fun _ _ _ => rfl⟩
  | cons addi add =>
    rcases lt_or_ge addi.1 mi.2 with hgo | hpast
    · cases hfind : findFirst (toDouble mi.1) (addi :: add) with
      | nil => exact .inl ⟨mergeTurn_none hgo hfind, fun _ _ _ => rfl⟩
      | cons next rest =>
        refine .inr ⟨next, rest, rfl, ?_⟩
        rcases lt_or_ge mi.2 next.1 with hpast | hmeets
        · exact .inl ⟨hpast, mergeTurn_continue hgo hfind hpast⟩
        · exact .inr ⟨hmeets, mergeTurn_piece hgo hfind hmeets⟩
    · refine .inl ⟨mergeTurn_past hpast, fun first hfirst hgo => ?_⟩
      cases hfirst
      exact absurd hpast (not_le.mpr hgo)

theorem mergeTurn_inl {rest' ret' : Intervals} (h : mergeTurn mi (add, ret) = .inl (rest', ret')) :
    ∃ next rest, findFirst (toDouble mi.1) add = next :: rest ∧
      (mi.2 < next.1 ∧ rest' = next :: rest ∧ ret' = ret ∨
        next.1 ≤ mi.2 ∧ rest' = rest ∧ ret' = ret ++ [(max mi.1 next.1, min mi.2 next.2)]) := by
  rcases mergeTurn_cases mi add ret with
    ⟨hend, -⟩ | ⟨next, rest, hfind, ⟨hpast, hturn⟩ | ⟨hmeets, hturn⟩⟩
  · rw [hend] at h
    cases h
  · rw [hturn] at h
    cases h
    exact ⟨next, rest, hfind, .inl ⟨hpast, rfl, rfl⟩⟩
  · rw [hturn] at h
    cases h
    exact ⟨next, _, hfind, .inr ⟨hmeets, rfl, rfl⟩⟩

theorem mergeTurn_inr (h : mergeTurn mi (add, ret) = .inr out) :
    out = ret ∧ ∀ addi ∈ add.head?, addi.1 < mi.2 → findFirst (toDouble mi.1) add = [] := by
  rcases mergeTurn_cases mi add ret with ⟨hend, hnone⟩ | ⟨_, _, -, ⟨-, hturn⟩ | ⟨-, hturn⟩⟩
  · rw [hend] at h
    cases h
    exact ⟨rfl, hnone⟩
  · rw [hturn] at h
    cases h
  · rw [hturn] at h
    cases h

theorem subset_of_inl {s s' : Intervals × Intervals} (h : mergeTurn mi s = .inl s') : s.2 ⊆ s'.2 := by
  obtain ⟨_, _, -, ⟨-, -, hret⟩ | ⟨-, -, hret⟩⟩ := mergeTurn_inl h
  · rw [hret]
    exact List.Subset.refl _
  · rw [hret]
    exact List.subset_append_left ..

/-- What is in `ret` stays there. -/
theorem subset_of_turns (h : turns (mergeTurn mi) fuel (add, ret) = some out) : ret ⊆ out := by
  have hstep : ∀ s s' : Intervals × Intervals, ret ⊆ s.2 → mergeTurn mi s = .inl s' → ret ⊆ s'.2 :=
    fun s s' hsub hturn => List.Subset.trans hsub (subset_of_inl hturn)
  obtain ⟨s, hsub, hend⟩ := Leaves.invariant ⟨fuel, h⟩ (List.Subset.refl ret) hstep
  rwa [(mergeTurn_inr hend).1]

/-- `findFirst` does not pass over an interval that does not end before as a double. -/
theorem mem_findFirst {bad : Int × Int} {t : Int} (hbad : bad ∈ add) (hstays : ¬toDouble bad.2 < t) :
    bad ∈ findFirst t add := by
  induction add with
  | nil => exact hbad
  | cons addi add ih =>
    by_cases hends : toDouble addi.2 < t
    · have hcut : findFirst t (addi :: add) = findFirst t add :=
        List.dropWhile_cons_of_pos (by simpa using hends)
      rw [hcut]
      refine ih ((List.mem_cons.mp hbad).resolve_left fun heq => ?_)
      exact hstays (heq ▸ hends)
    · have hcut : findFirst t (addi :: add) = addi :: add :=
        List.dropWhile_cons_of_neg (by simpa using hends)
      rwa [hcut]

/-- An interval that ends before, and is not passed over, leaves a piece that ends before it
begins. -/
theorem turned_piece {bad : Int × Int} (hadd : Ordered add) (hmi : mi.1 ≤ mi.2)
    (hbad : bad ∈ add) (hends : bad.2 < mi.1) (hstays : ¬toDouble bad.2 < toDouble mi.1)
    (h : turns (mergeTurn mi) fuel (add, ret) = some out) : ∃ j ∈ out, j.2 < j.1 := by
  -- the interval is in front of the cursor, or its piece is in `ret`
  let I : Intervals × Intervals → Prop := fun s =>
    (Ordered s.1 ∧ bad ∈ s.1) ∨ ∃ j ∈ s.2, j.2 < j.1
  have hstep : ∀ s s', I s → mergeTurn mi s = .inl s' → I s' := by
    intro s s' hs hturn
    rcases hs with ⟨hordered, hmem⟩ | ⟨j, hj, hturned⟩
    · obtain ⟨next, rest, hfind, hcase⟩ := mergeTurn_inl hturn
      have hcut : (findFirst (toDouble mi.1) s.1).Sublist s.1 := List.dropWhile_sublist _
      have hmem' := mem_findFirst hmem hstays
      rw [hfind] at hcut hmem'
      have hordered' := hordered.sublist hcut
      rcases hcase with ⟨-, hrest, -⟩ | ⟨-, hrest, hret⟩
      · exact .inl ⟨hrest ▸ hordered', hrest ▸ hmem'⟩
      · rcases List.mem_cons.mp hmem' with rfl | hlater
        · refine .inr ⟨_, hret ▸ List.mem_append_right _ (List.mem_singleton_self _), ?_⟩
          calc min mi.2 bad.2 ≤ bad.2 := min_le_right ..
            _ < mi.1 := hends
            _ ≤ max mi.1 bad.1 := le_max_left ..
        · exact .inl ⟨hrest ▸ (ordered_cons.mp hordered').2.2, hrest ▸ hlater⟩
    · exact .inr ⟨j, subset_of_inl hturn hj, hturned⟩
  obtain ⟨s, hs, hend⟩ := Leaves.invariant ⟨fuel, h⟩ (.inl ⟨hadd, hbad⟩) hstep
  obtain ⟨hout, hnone⟩ := mergeTurn_inr hend
  rcases hs with ⟨hordered, hmem⟩ | hpiece
  · obtain ⟨first, rest, hs⟩ := List.exists_cons_of_ne_nil (List.ne_nil_of_mem hmem)
    have hbegins : first.1 < mi.2 := by
      rw [hs, ordered_cons] at hordered
      rw [hs] at hmem
      have hle : first.1 ≤ bad.2 := by
        rcases List.mem_cons.mp hmem with rfl | hlater
        · exact hordered.1
        · exact hordered.1.trans ((hordered.2.1 bad hlater).trans (hordered.2.2.1 bad hlater))
      exact (hle.trans_lt hends).trans_le hmi
    have hfound := mem_findFirst hmem hstays
    rw [hnone first (by rw [hs]; rfl) hbegins] at hfound
    cases hfound
  · rwa [hout]

/-! ## The merge -/

/-- The merge ends, with an ordered list of the points that are in both lists. -/
def Intersects (master add : Intervals) : Prop :=
  ∃ fuel ret, mergeIntervals fuel master add [] = some ret ∧ Ordered ret ∧
    ∀ x, Covers ret x ↔ Covers master x ∧ Covers add x

/-- The cursors find what `mergeIntervals` has, as long as the doubles tell the times apart. -/
theorem mergeIntervals_eq (h : Separated master add) (hfuel : add.length + 2 ≤ fuel) :
    mergeIntervals fuel master add [] = some (Db.mergeIntervals master add) := by
  have hloop : ∀ (master : Intervals) ret, Separated master add →
      master.foldlM (fun ret mi => turns (mergeTurn mi) fuel (add, ret)) ret =
        some (ret ++ master.flatMap fun mi => mergeInterval mi true add) := by
    intro master
    induction master with
    | nil =>
      intro ret _
      simp
    | cons mi master ih =>
      intro ret h
      obtain ⟨hmi, hrest⟩ := List.forall_mem_cons.mp h
      rw [List.foldlM_cons, turns_mergeTurn hmi hfuel]
      show master.foldlM _ (ret ++ mergeInterval mi true add) = _
      rw [ih _ hrest, List.flatMap_cons, List.append_assoc]
  unfold mergeIntervals Db.mergeIntervals
  split
  · rfl
  · exact hloop master [] h

/-- A piece that is turned is in what the merge returns. -/
theorem turned_merge {bad : Int × Int} (hmaster : Ordered master) (hadd : Ordered add)
    (hmi : mi ∈ master) (hbad : bad ∈ add) (hends : bad.2 < mi.1)
    (hstays : ¬toDouble bad.2 < toDouble mi.1)
    (h : mergeIntervals fuel master add [] = some out) : ∃ j ∈ out, j.2 < j.1 := by
  have hloop : ∀ (master : Intervals) ret out, Ordered master → (mi ∈ master ∨ ∃ j ∈ ret, j.2 < j.1) →
      master.foldlM (fun ret mi => turns (mergeTurn mi) fuel (add, ret)) ret = some out →
      ∃ j ∈ out, j.2 < j.1 := by
    intro master
    induction master with
    | nil =>
      rintro ret out - (hmem | hpiece) hout
      · cases hmem
      · cases hout
        exact hpiece
    | cons first master ih =>
      intro ret out hordered hcase hout
      rw [List.foldlM_cons] at hout
      obtain ⟨ret', hret, hrest⟩ := Option.bind_eq_some_iff.mp hout
      refine ih ret' out (ordered_cons.mp hordered).2.2 ?_ hrest
      rcases hcase with hmem | ⟨j, hj, hturned⟩
      · rcases List.mem_cons.mp hmem with rfl | hlater
        · exact .inr (turned_piece hadd (ordered_cons.mp hordered).1 hbad hends hstays hret)
        · exact .inl hlater
      · exact .inr ⟨j, subset_of_turns hret hj, hturned⟩
  unfold mergeIntervals at h
  rw [if_neg] at h
  · exact hloop master [] out hmaster (.inl hmi) h
  · rw [List.length_eq_zero_iff, List.length_eq_zero_iff]
    rintro (rfl | rfl)
    · cases hbad
    · cases hmi

/-- Two ordered lists are merged to their intersection exactly when the doubles tell each end
of `add` that is before a beginning of `master` from it. -/
theorem mergeIntervals_intersects (hmaster : Ordered master) (hadd : Ordered add) :
    Intersects master add ↔ Separated master add := by
  constructor
  · rintro ⟨fuel, ret, hret, hordered, -⟩ mi hmi addi haddi hends
    by_contra hstays
    obtain ⟨j, hj, hturned⟩ := turned_merge hmaster hadd hmi haddi hends hstays hret
    exact absurd (hordered.1 j hj) (not_le.mpr hturned)
  · intro h
    exact ⟨add.length + 2, _, mergeIntervals_eq h (Nat.le_refl _),
      mergeIntervals_ordered hmaster hadd, fun x => mergeIntervals_covers hadd⟩

/-- The intervals of an hour, the second one half an hour later. -/
theorem mergeIntervals_intersects_hours :
    Ordered [((0 : Int), (3600 : Int)), (7200, 10800)] ∧ Ordered [((1800 : Int), (9000 : Int))] ∧
      Intersects [(0, 3600), (7200, 10800)] [(1800, 9000)] :=
  have hmaster : Ordered [((0 : Int), (3600 : Int)), (7200, 10800)] := by decide
  have hadd : Ordered [((1800 : Int), (9000 : Int))] := by decide
  ⟨hmaster, hadd, (mergeIntervals_intersects hmaster hadd).mpr
    (separated_of_small (by decide) (by decide))⟩

/-- The interval that ends one second before is not passed over, where doubles count by
twos. -/
theorem turned_interval :
    ¬Intersects [(9007199254740993, 9007199254741000)] [(9007199254740000, 9007199254740992)] := by
  rintro ⟨fuel, ret, hret, hordered, -⟩
  have hstays : ¬toDouble 9007199254740992 < toDouble 9007199254740993 := by decide +kernel
  obtain ⟨j, hj, hturned⟩ := turned_merge (by decide) (by decide) (List.mem_singleton_self _)
    (List.mem_singleton_self _) (by decide) hstays hret
  exact absurd (hordered.1 j hj) (not_le.mpr hturned)

end Rts2.Db.Cursor
