import Mathlib.Algebra.Group.Int.Defs
import Mathlib.Data.Finset.Card
import Mathlib.Data.Finset.Range
import Rts2.Plan.FrontRead
import Rts2.Plan.QueueLife

/-! # Moving an entry

`moveIndex` looks for the new place before it takes the entry out, and corrects for that where the one
number is greater than the other. The numbers count from the front or from the end. -/
namespace Rts2.Plan.MoveIndex
open Que (splice findIndex newPlace)

/-- The ids are those `nextQid` returns: numbers of an `int`, none of them twice. -/
structure Numbered (entries : List QueuedTarget) : Prop where
  nodup : (entries.map QueuedTarget.qid).Nodup
  given : ∀ e ∈ entries, 0 < e.qid ∧ e.qid < 2 ^ 31

theorem Numbered.length_lt {entries : List QueuedTarget} (h : Numbered entries) :
    entries.length < 2 ^ 31 := by
  have hnodup : (0 :: entries.map QueuedTarget.qid).Nodup := by
    refine List.nodup_cons.mpr ⟨fun hzero => ?_, h.nodup⟩
    obtain ⟨e, he, hqid⟩ := List.mem_map.mp hzero
    exact absurd (h.given e he).1 (by omega)
  have hsub : (0 :: entries.map QueuedTarget.qid).toFinset ⊆ Finset.range (2 ^ 31) := by
    intro qid hqid
    refine Finset.mem_range.mpr ?_
    rcases List.mem_cons.mp (List.mem_toFinset.mp hqid) with rfl | hqid
    · exact Nat.two_pow_pos 31
    · obtain ⟨e, he, rfl⟩ := List.mem_map.mp hqid
      exact (h.given e he).2
  have hcard := Finset.card_le_card hsub
  rw [List.toFinset_card_of_nodup hnodup, List.length_cons, List.length_map, Finset.card_range] at hcard
  exact hcard

/-! ## Splicing -/

section
variable {α : Type*} {l : List α} {x : α} {a b : ℕ}

theorem insertIdx_at (l l' : List α) (x : α) : (l ++ l').insertIdx l.length x = l ++ x :: l' := by
  induction l with
  | nil => rfl
  | cons y l ih => exact congrArg (y :: ·) ih

theorem insertIdx_ne (hx : x ∉ l) (hb : b ≤ l.length) (hab : a < b) :
    l.insertIdx a x ≠ l.insertIdx b x := by
  intro heq
  have ha : (l.insertIdx a x)[a]? = some x := by
    rw [List.getElem?_insertIdx_self, if_pos (by omega)]
  rw [heq, List.getElem?_insertIdx_of_lt hab] at ha
  exact hx (List.mem_of_getElem? ha)

/-- Where an element goes in tells where it stands. -/
theorem insertIdx_inj (hx : x ∉ l) (ha : a ≤ l.length) (hb : b ≤ l.length) :
    l.insertIdx a x = l.insertIdx b x ↔ a = b := by
  refine ⟨fun heq => ?_, fun h => h ▸ rfl⟩
  rcases Nat.lt_trichotomy a b with hlt | heq' | hgt
  · exact absurd heq (insertIdx_ne hx hb hlt)
  · exact heq'
  · exact absurd heq.symm (insertIdx_ne hx ha hgt)

end

/-- An entry that goes before place `j` comes to that place, or to the one before it. -/
theorem splice_eq {l : List QueuedTarget} {i j : ℕ} (hi : i < l.length) (hj : j ≤ l.length) :
    splice i j l = (l.eraseIdx i).insertIdx (if i < j then j - 1 else j) l[i] := by
  have hlength : ((l.take j).eraseIdx i).length = if i < j then j - 1 else j := by
    have htake : (l.take j).length = j := List.length_take_of_le hj
    split_ifs with hij
    · rw [List.length_eraseIdx_of_lt (by omega), htake]
    · rw [List.eraseIdx_of_length_le (by omega), htake]
  unfold splice
  rw [List.getElem?_eq_getElem hi, ← splice_rest j hi, ← hlength, insertIdx_at]

/-! ## The function -/

section
variable (w : World)

theorem updateVals_queue (s : QueState) : (Que.updateVals w s).2.queue = s.queue := by
  show (if s.queue.simul then _ else _ : Que Unit) s |>.2.queue = _
  split
  · rfl
  · show ((if w.dbFails s.pool.asked = true then throw .error else pure () : Que Unit) _).2.queue = _
    split <;> rfl

/-- What a program answers in the end is not in the state. -/
theorem answer_state {α : Type} (x : Que Unit) (a : α) (s : QueState) :
    ((do
      x
      return a : Que α) s).2 = (x s).2 := by
  show (ExceptT.bindCont (fun _ => (pure a : Que α)) (x s).1 (x s).2).2 = (x s).2
  cases (x s).1 with
  | error e => rfl
  | ok u => rfl

/-- An index that names no entry is an error. -/
theorem moveIndex_none {s : QueState} {index : ℤ} (newindex : ℤ)
    (h : findIndex s.queue.entries.length index = s.queue.entries.length) :
    Que.moveIndex w index newindex s = (.ok (-1), s) := by
  show (if findIndex s.queue.entries.length index = s.queue.entries.length then pure (-1) else _ :
    Que ℤ) s = _
  rw [if_pos h]
  rfl

theorem moveIndex_queue {s : QueState} {index : ℤ} (newindex : ℤ)
    (h : findIndex s.queue.entries.length index ≠ s.queue.entries.length) :
    (Que.moveIndex w index newindex s).2.queue = { s.queue with
      entries := splice (findIndex s.queue.entries.length index)
        (findIndex s.queue.entries.length (newPlace index newindex)) s.queue.entries } := by
  have hrun : Que.moveIndex w index newindex s = (do
      Que.updateVals w
      return 0 : Que ℤ) { s with queue := { s.queue with
        entries := splice (findIndex s.queue.entries.length index)
          (findIndex s.queue.entries.length (newPlace index newindex)) s.queue.entries } } := by
    show (if findIndex s.queue.entries.length index = s.queue.entries.length then pure (-1) else _ :
      Que ℤ) s = _
    rw [if_neg h]
    rfl
  rw [hrun]
  exact (congrArg QueState.queue (answer_state _ _ _)).trans (updateVals_queue w _)

end

/-! ## The places -/

/-- The place an index designates in a queue of so many entries; the end is the last place. -/
def designated (size : ℕ) (index : ℤ) : ℕ := min (findIndex size index) (size - 1)

/-- The entry that `index` names comes to the place `newindex` designates, and the others keep their order.
Where it names none, there is an error and nothing has changed. -/
def Moves (w : World) (s : QueState) (index newindex : ℤ) : Prop :=
  let entries := s.queue.entries
  let i := findIndex entries.length index
  match entries[i]? with
  | none => Que.moveIndex w index newindex s = (.ok (-1), s)
  | some e => (Que.moveIndex w index newindex s).2.queue =
      { s.queue with entries := (entries.eraseIdx i).insertIdx (designated entries.length newindex) e }

/-- The new place lies on the side of the entry that the numbers say, and `newindex + 1` designates the place
after it. -/
def SameSide (size : ℕ) (index newindex : ℤ) : Prop :=
  if index < newindex then
    newindex ≠ -1 ∧ newindex ≠ 2 ^ 31 - 1 ∧ findIndex size index ≤ findIndex size newindex
  else findIndex size newindex ≤ findIndex size index ∨ findIndex size newindex = size

/-- From the front, at most to the end, or from the end, at most to the front. -/
theorem findIndex_cases (size : ℕ) (index : ℤ) :
    0 ≤ index ∧ (findIndex size index : ℤ) = min index size ∨
      index < 0 ∧ (findIndex size index : ℤ) = max 0 (size + index + 1) := by
  unfold findIndex
  by_cases hneg : index < 0
  · rw [if_pos hneg]
    exact .inr ⟨hneg, by omega⟩
  · rw [if_neg hneg]
    exact .inl ⟨by omega, by omega⟩

theorem newPlace_next {index newindex : ℤ} (h : index < newindex) (hl : -2 ^ 31 ≤ newindex)
    (hu : newindex < 2 ^ 31 - 1) : newPlace index newindex = newindex + 1 :=
  (if_pos h).trans (Int.bmod_eq_of_le (by omega) (by omega))

/-- After the greatest `int` comes the least one. -/
theorem newPlace_wraps {index newindex : ℤ} (h : index < newindex) (hmax : newindex = 2 ^ 31 - 1) :
    newPlace index newindex = -2 ^ 31 := by
  subst hmax
  exact if_pos h

theorem place_iff {size : ℕ} {index newindex : ℤ} (hsize : size < 2 ^ 31)
    (hi : findIndex size index < size) (hl : -2 ^ 31 ≤ newindex) (hu : newindex < 2 ^ 31) :
    (if findIndex size index < findIndex size (newPlace index newindex) then
        findIndex size (newPlace index newindex) - 1
      else findIndex size (newPlace index newindex)) = designated size newindex ↔
      size = 1 ∨ SameSide size index newindex := by
  have hindex := findIndex_cases size index
  have hnewindex := findIndex_cases size newindex
  have hplace := findIndex_cases size (newPlace index newindex)
  unfold SameSide designated
  by_cases hlt : index < newindex
  · rw [if_pos hlt]
    by_cases hmax : newindex = 2 ^ 31 - 1
    · rw [newPlace_wraps hlt hmax] at hplace ⊢
      split_ifs <;> omega
    · rw [newPlace_next hlt hl (by omega)] at hplace ⊢
      split_ifs <;> omega
  · have hsame : newPlace index newindex = newindex := if_neg hlt
    rw [if_neg hlt, hsame]
    split_ifs <;> omega

theorem Numbered.getElem_notMem {entries : List QueuedTarget} (h : Numbered entries) {i : ℕ}
    (hi : i < entries.length) : entries[i] ∉ entries.eraseIdx i := by
  intro hmem
  have hperm : (entries[i] :: entries.eraseIdx i).Perm entries := List.getElem_cons_eraseIdx_perm hi
  have hnodup : (entries[i] :: entries.eraseIdx i).Nodup := hperm.nodup_iff.mpr (List.Nodup.of_map _ h.nodup)
  exact (List.nodup_cons.mp hnodup).1 hmem

theorem withEntries_inj {q : ExecutorQueue} {l l' : List QueuedTarget} :
    ({ q with entries := l } : ExecutorQueue) = { q with entries := l' } ↔ l = l' :=
  ⟨fun h => congrArg ExecutorQueue.entries h, fun h => h ▸ rfl⟩

/-- **Moving an entry.** It is done as the numbers say where the first names no entry, where there is only
one, and where the new place lies on the side the numbers say. -/
theorem moveIndex_moves_iff (w : World) (s : QueState) (h : Numbered s.queue.entries)
    (index newindex : Int32) :
    Moves w s index.toInt newindex.toInt ↔
      findIndex s.queue.entries.length index.toInt = s.queue.entries.length ∨
        s.queue.entries.length = 1 ∨
        SameSide s.queue.entries.length index.toInt newindex.toInt := by
  unfold Moves
  dsimp only
  by_cases hnone : findIndex s.queue.entries.length index.toInt = s.queue.entries.length
  · have hget : s.queue.entries[findIndex s.queue.entries.length index.toInt]? = none :=
      List.getElem?_eq_none (by omega)
    rw [hget]
    exact iff_of_true (moveIndex_none w newindex.toInt hnone) (.inl hnone)
  · have hi : findIndex s.queue.entries.length index.toInt < s.queue.entries.length :=
      Nat.lt_of_le_of_ne (findIndex_le _ _) hnone
    have hplace := place_iff h.length_lt hi (Int32.le_toInt newindex) (Int32.toInt_lt newindex)
    have hj := findIndex_le s.queue.entries.length (newPlace index.toInt newindex.toInt)
    have hrest := List.length_eraseIdx_of_lt hi
    rw [List.getElem?_eq_getElem hi]
    dsimp only
    rw [moveIndex_queue w newindex.toInt hnone, withEntries_inj, splice_eq hi hj,
      insertIdx_inj (h.getElem_notMem hi), hplace]
    · exact (or_iff_right hnone).symm
    · rw [hrest]
      split_ifs <;> omega
    · rw [hrest]
      exact Nat.min_le_right _ _

/-- A queue of two entries. -/
def two : QueState := ⟨Pool.new, { ExecutorQueue.new with entries := [nowEntry 1 1 'O' 1, nowEntry 2 2 'O' 2] }⟩

/-- To the end of the queue. -/
theorem moveIndex_moves_two : Moves World.quiet two (0 : Int32).toInt (-1 : Int32).toInt := by
  have hnumbered : Numbered two.queue.entries := ⟨by decide, by decide⟩
  exact (moveIndex_moves_iff World.quiet two hnumbered 0 (-1)).mpr (.inr (.inr (.inr rfl)))

/-- The last place, counted from the end: the entry that stands before it stays where it is. -/
theorem moveIndex_stays : ¬ Moves World.quiet two 0 (-2) := by
  intro h
  have hids : [1, 2] = [2, 1] :=
    congrArg (fun q : ExecutorQueue => q.entries.map QueuedTarget.qid) h
  cases hids

end Rts2.Plan.MoveIndex
