import Mathlib.Data.List.Forall2
import Rts2.Lib.Doubles
import Rts2.Plan.TargetQueue

/-! # The arrays of repetitions

An operator writes the values `rep_n` and `rep_separation` of a queue as whole arrays.
`valueChanged` puts their elements into the entries, and `updateVals` publishes the arrays
again from the entries. The sums of durations and the names of the targets are left out. -/
namespace Rts2.Plan.RepArrays
open Rts2.Lib

/-- The columns of an entry of the queue; `rep_separation` is a `float`. -/
structure Entry where
  tarId : Int
  qid : Nat
  planId : Int
  tStart : Double
  tEnd : Double
  repN : Int
  repSeparation : Double
  hard : Bool
  queueOrder : Nat
  deriving DecidableEq

/-- The arrays of a queue that may be written. -/
structure Values where
  ids : List Int
  qids : List Nat
  startTimes : List Double
  endTimes : List Double
  planIds : List Int
  hard : List Bool
  repN : List Int
  repSeparation : List Double

/-! ## `valueChanged` and `updateVals` -/

section
variable {V : Type} (toFloat : Double → Double) (dbFails : Nat → Bool)

/-- `if (qe_iter->rep_separation != *v_iter)` of `rep_n`, the entry that is written then -/
def changeRepN (e : Entry) (v : Int) : Option Entry :=
  if e.repSeparation.eq (toFloat (.fin v)) then none else some { e with repN := v }

/-- The same of `rep_separation` -/
def changeRepSeparation (e : Entry) (v : Double) : Option Entry :=
  if e.repSeparation.eq v then none else some { e with repSeparation := toFloat v }

/-- A loop of `valueChanged`, after `n` statements of the database: an entry that changes is
written to it, and the loop ends where the database fails. -/
def writeArray (change : Entry → V → Option Entry) : Nat → List Entry → List V →
    Option (Nat × List Entry)
  | n, e :: es, v :: vs =>
    match change e v with
    | none => (writeArray change n es vs).map fun r => (r.1, e :: r.2)
    | some e' =>
      if dbFails n then none
      else (writeArray change (n + 1) es vs).map fun r => (r.1, e' :: r.2)
  | n, es, _ => some (n, es)

/-- The entries get their places. -/
def numbered (es : List Entry) : List Entry :=
  es.mapIdx fun order e => { e with queueOrder := order }

def publish (es : List Entry) : Values where
  ids := es.map (·.tarId)
  qids := es.map (·.qid)
  startTimes := es.map (·.tStart)
  endTimes := es.map (·.tEnd)
  planIds := es.map (·.planId)
  hard := es.map (·.hard)
  repN := es.map (·.repN)
  repSeparation := es.map (·.repSeparation)

/-- `updateVals`, with a statement for every entry and one for the queue -/
def updateVals (n : Nat) (es : List Entry) : Option (List Entry × Values) :=
  if (List.range (es.length + 1)).any fun k => dbFails (n + k) then none
  else some (numbered es, publish (numbered es))

end

/-! ## What is written -/

section
variable {V : Type} {change : Entry → V → Option Entry} {put : Entry → V → Entry}
  {es es' : List Entry} {vs : List V} {n n' : Nat} {dbFails : Nat → Bool}

/-- Both at once, up to the end of the shorter list. -/
def pointwise (f : Entry → V → Entry) (es : List Entry) (vs : List V) : List Entry :=
  List.zipWith f es vs ++ es.drop vs.length

/-- What is written when the database does not fail. -/
theorem writeArray_eq (h : writeArray dbFails change n es vs = some (n', es')) :
    es' = pointwise (fun e v => (change e v).getD e) es vs := by
  induction es generalizing n vs es' with
  | nil =>
    cases h
    cases vs <;> rfl
  | cons e es ih =>
    cases vs with
    | nil =>
      cases h
      rfl
    | cons v vs =>
      unfold writeArray at h
      cases hchange : change e v with
      | none =>
        rw [hchange] at h
        obtain ⟨r, hr, heq⟩ := Option.map_eq_some_iff.mp h
        cases heq
        have hrest : r.2 = _ := ih hr
        simp [pointwise, hchange, hrest]
      | some e' =>
        simp only [hchange] at h
        split at h
        · cases h
        · obtain ⟨r, hr, heq⟩ := Option.map_eq_some_iff.mp h
          cases heq
          have hrest : r.2 = _ := ih hr
          simp [pointwise, hchange, hrest]

theorem writeArray_ends (change : Entry → V → Option Entry) (n : Nat) (es : List Entry)
    (vs : List V) : ∃ r, writeArray (fun _ => false) change n es vs = some r := by
  induction es generalizing n vs with
  | nil => exact ⟨(n, []), by cases vs <;> rfl⟩
  | cons e es ih =>
    cases vs with
    | nil => exact ⟨_, rfl⟩
    | cons v vs =>
      unfold writeArray
      cases change e v with
      | none =>
        obtain ⟨r, hr⟩ := ih n vs
        exact ⟨(r.1, e :: r.2), by simp only [hr, Option.map_some]⟩
      | some e' =>
        obtain ⟨r, hr⟩ := ih (n + 1) vs
        exact ⟨(r.1, e' :: r.2), by simp only [hr, Option.map_some, Bool.false_eq_true, if_false]⟩

/-- Whenever the array was written, each entry has its element and is as before otherwise, and
`updateVals` publishes the array. -/
def Written (change : Entry → V → Option Entry) (put : Entry → V → Entry) (array : Values → List V)
    (es : List Entry) (vs : List V) : Prop :=
  ∀ dbFails n n' es', writeArray dbFails change n es vs = some (n', es') →
    es' = pointwise put es vs ∧
      ∀ es'' values, updateVals dbFails n' es' = some (es'', values) → array values = vs

theorem updateVals_eq {es'' : List Entry} {values : Values}
    (h : updateVals dbFails n es = some (es'', values)) : values = publish (numbered es) := by
  unfold updateVals at h
  split at h
  · cases h
  · cases h
    rfl

theorem updateVals_ends (n : Nat) (es : List Entry) :
    updateVals (fun _ => false) n es = some (numbered es, publish (numbered es)) := by
  unfold updateVals
  rw [if_neg]
  simp

/-- What the columns keep, the numbers of the places apart, is published as it is. -/
theorem map_numbered {f : Entry → V} (hf : ∀ e order, f { e with queueOrder := order } = f e)
    (es : List Entry) : (numbered es).map f = es.map f := by
  refine List.ext_getElem (by simp [numbered]) fun i _ _ => ?_
  simp only [numbered, List.getElem_map, List.getElem_mapIdx, hf]

/-- The elements an entry has after the loop, one by one. -/
theorem pointwise_eq_iff {f : Entry → V → Entry} (column : Entry → V)
    (hput : ∀ e v, column (put e v) = v) :
    (pointwise f es vs = pointwise put es vs ∧ (pointwise put es vs).map column = vs) ↔
      List.Forall₂ (fun e v => f e v = put e v) es vs := by
  induction es generalizing vs with
  | nil => cases vs <;> simp [pointwise]
  | cons e es ih =>
    cases vs with
    | nil => simp [pointwise]
    | cons v vs =>
      rw [List.forall₂_cons, ← ih]
      simp only [pointwise, List.zipWith_cons_cons, List.length_cons, List.drop_succ_cons,
        List.cons_append, List.cons.injEq, List.map_cons, hput, true_and]
      exact and_assoc

/-- An array is written when every entry has an element and takes it as it is. -/
theorem written_iff {array : Values → List V} (column : Entry → V)
    (hput : ∀ e v, column (put e v) = v)
    (hcolumn : ∀ e order, column { e with queueOrder := order } = column e)
    (harray : ∀ es, array (publish es) = es.map column) :
    Written change put array es vs ↔
      List.Forall₂ (fun e v => (change e v).getD e = put e v) es vs := by
  rw [← pointwise_eq_iff column hput]
  constructor
  · intro h
    obtain ⟨r, hr⟩ := writeArray_ends change 0 es vs
    obtain ⟨hes, hvalues⟩ := h _ 0 r.1 r.2 hr
    have hpublished := hvalues _ _ (updateVals_ends r.1 r.2)
    rw [harray, map_numbered hcolumn, hes] at hpublished
    exact ⟨(writeArray_eq hr).symm.trans hes, hpublished⟩
  · rintro ⟨hes, hpublished⟩ dbFails n n' es' hwrite
    have hes' := (writeArray_eq hwrite).trans hes
    refine ⟨hes', fun es'' values hvals => ?_⟩
    rw [updateVals_eq hvals, harray, map_numbered hcolumn, hes']
    exact hpublished

end

/-! ## Whole seconds -/

/-- A time or separation in whole seconds, `none` for NaN. -/
def seconds (t : Option Int) : Double := t.elim .nan fun t => .fin t

/-- The columns of an entry whose times are whole seconds. -/
def columns (e : QueuedTarget) : Entry where
  tarId := e.target.tarId
  qid := e.qid
  planId := e.planId
  tStart := seconds e.tStart
  tEnd := seconds e.tEnd
  repN := e.repN
  repSeparation := seconds e.repSeparation
  hard := e.hard
  queueOrder := 0

theorem seconds_eq (t : Option Int) (n : Int) :
    (seconds t).eq (.fin n) = decide (t = some n) := by
  cases t with
  | none => rfl
  | some t => simp [seconds, Double.eq]

/-- What `Que.setRepN` does to the entries. -/
theorem columns_setRepN (l : List QueuedTarget) (ns : List Int) :
    (List.zipWith (fun e n => if e.repSeparation ≠ some n then { e with repN := n } else e) l ns ++
      l.drop ns.length).map columns =
      pointwise (fun e n => (changeRepN id e n).getD e) (l.map columns) ns := by
  have hentry : ∀ (e : QueuedTarget) (n : Int),
      columns (if e.repSeparation ≠ some n then { e with repN := n } else e) =
        (changeRepN id (columns e) n).getD (columns e) := by
    intro e n
    have hsep : (columns e).repSeparation.eq (id (.fin n)) = decide (e.repSeparation = some n) :=
      seconds_eq e.repSeparation n
    unfold changeRepN
    rw [hsep]
    by_cases h : e.repSeparation = some n
    · simp [h]
    · simp [h, columns]
  rw [List.map_append, List.map_zipWith, pointwise, List.zipWith_map_left, List.map_drop]
  simp only [hentry]

/-! ## The two arrays -/

section
variable (toFloat : Double → Double)

/-- Every entry is given its number of repetitions, and no other change. -/
def RepNWritten (es : List Entry) (vs : List Int) : Prop :=
  Written (changeRepN toFloat) (fun e v => { e with repN := v }) (·.repN) es vs

def RepSeparationWritten (es : List Entry) (vs : List Double) : Prop :=
  Written (changeRepSeparation toFloat) (fun e v => { e with repSeparation := v }) (·.repSeparation)
    es vs

theorem changeRepN_iff (e : Entry) (v : Int) :
    (changeRepN toFloat e v).getD e = { e with repN := v } ↔
      e.repN = v ∨ e.repSeparation.eq (toFloat (.fin v)) = false := by
  unfold changeRepN
  cases hsep : e.repSeparation.eq (toFloat (.fin v)) with
  | false => simp
  | true =>
    simp only [if_true, Option.getD_none, Bool.true_eq_false, or_false]
    constructor
    · intro h
      exact congrArg Entry.repN h
    · intro h
      rw [← h]

theorem changeRepSeparation_iff (e : Entry) (v : Double) :
    (changeRepSeparation toFloat e v).getD e = { e with repSeparation := v } ↔
      e.repSeparation.eq v = true ∨ toFloat v = v := by
  unfold changeRepSeparation
  cases hsep : e.repSeparation.eq v with
  | false =>
    simp only [Bool.false_eq_true, if_false, Option.getD_some, false_or]
    constructor
    · intro h
      exact congrArg Entry.repSeparation h
    · intro h
      rw [h]
  | true =>
    have hsame : e.repSeparation = v := Double.eq_of_eq hsep
    refine iff_of_true ?_ (.inl rfl)
    simp only [if_true, Option.getD_none, ← hsame]

/-- The arrays are written exactly when they have an element for each entry, and, for `rep_n`,
no new number is the separation of its entry, for `rep_separation`, each element is a
`float`. -/
theorem arrays_written_iff (es : List Entry) (ns : List Int) (vs : List Double) :
    (RepNWritten toFloat es ns ↔ List.Forall₂ (fun e n =>
      e.repN = n ∨ e.repSeparation.eq (toFloat (.fin n)) = false) es ns) ∧
    (RepSeparationWritten toFloat es vs ↔ List.Forall₂ (fun e v =>
      e.repSeparation.eq v = true ∨ toFloat v = v) es vs) := by
  constructor
  · simp only [← changeRepN_iff]
    exact written_iff (·.repN) (fun _ _ => rfl) (fun _ _ => rfl) fun _ => rfl
  · simp only [← changeRepSeparation_iff]
    exact written_iff (·.repSeparation) (fun _ _ => rfl) (fun _ _ => rfl) fun _ => rfl

end

/-- An entry that is repeated every five seconds is not repeated five times. -/
theorem five_times :
    ¬RepNWritten id [⟨1000, 1, -1, .nan, .nan, 1, .fin 5, false, 0⟩] [5] := by
  intro h
  have hes := (h (fun _ => false) 0 0 [⟨1000, 1, -1, .nan, .nan, 1, .fin 5, false, 0⟩] rfl).1
  have hrep : (1 : Int) = 5 := congrArg (fun es => (es.map Entry.repN).headD 5) hes
  exact absurd hrep (by decide)

end Rts2.Plan.RepArrays
