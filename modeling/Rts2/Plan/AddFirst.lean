import Mathlib.Data.List.InsertIdx
import Rts2.Lib.Doubles
import Rts2.Plan.TargetQueue

/-! # The first possible place

`addFirst` walks along a queue with the time at which the observations before would be over,
and puts a target where it can be observed. A target found no place for goes to the end, by
`addTarget`. An exception of the script or of a constraint leaves the queue as it is. -/
namespace Rts2.Plan.AddFirst
open Rts2.Lib

/-- `QueuedTarget`, what `addFirst` sets of it. -/
structure QueuedTarget (T : Type) where
  target : T
  qid : Nat
  tStart : Double
  tEnd : Double
  repN : Int
  repSeparation : Double
  planId : Int
  hard : Bool
  deriving DecidableEq

/-- `first_ordering_t` -/
inductive FirstOrdering where
  | none
  | ha
  | setfirst
  deriving DecidableEq, Repr

/-- What the walk asks: the length of the scripts of a target, until when its constraints are
satisfied between two times, with the number of entries passed by then, and its hour angle
at a time. -/
structure Sky (T : Type) where
  maximalScriptDuration : T → Double
  satisfiedDuration : Nat → T → Double → Double → Double → Double
  hourAngle : T → Double → Double

/-- What the database answers: the next queue id, and whether it stores the new entry and, in
two calls of `updateVals`, the queue. -/
structure Db where
  nextQid : Option Nat
  createFails : Bool
  updateFails : Bool
  updateAgainFails : Bool

/-- The arguments of `addFirst` that are for the entry. -/
structure Args where
  tStart : Double
  tEnd : Double
  repN : Int
  repSeparation : Double
  planId : Int
  hard : Bool
  deriving DecidableEq

variable {T : Type}

/-! ## `addFirst` -/

section
variable (sky : Sky T) (fo : FirstOrdering) (nt : T) (db : Db)

/-- `QueuedTarget::QueuedTarget` -/
def newEntry (target : T) (tStart tEnd : Double) (repN : Int) (repSeparation : Double) (planId : Int)
    (hard : Bool) : Option (QueuedTarget T) :=
  match db.nextQid with
  | none => none
  | some qid =>
    if db.createFails then none
    else some ⟨target, qid, tStart, tEnd, repN, repSeparation, planId, hard⟩

/-- The length of the scripts, or a minute. -/
def scriptLength : Double :=
  let tl := sky.maximalScriptDuration nt
  if tl < .fin 0 || tl.eq (.fin 0) then .fin 60 else tl

/-- The target would go behind the entry. -/
def skips (i : Nat) (now tl finish satDuration : Double) (e : QueuedTarget T) : Bool :=
  match fo with
  | .ha => sky.hourAngle nt now < sky.hourAngle e.target now
  | .setfirst => sky.satisfiedDuration i e.target now finish tl < satDuration
  | .none => false

/-- The loop: at each entry whether it is skipped, and until when the target is satisfied. -/
def visits (tl : Double) : Nat → Double → List (QueuedTarget T) → List (Bool × Double)
  | _, _, [] => []
  | i, now, e :: rest =>
    let finish := (if e.tStart.isNan then now else e.tStart) + tl
    let satDuration := sky.satisfiedDuration i nt now finish tl
    (skips sky fo nt i now tl finish satDuration e, satDuration) :: visits tl (i + 1) finish rest

/-- `skip == false && (std::isinf (satDuration) || satDuration)` -/
def inserts (visit : Bool × Double) : Bool :=
  !visit.1 && (visit.2.isInf || visit.2.toBool)

/-- The time the walk starts at -/
def startTime (nStart : Double) (args : Args) : Double :=
  if args.tStart.isNan then nStart else args.tStart

/-- `addTarget`, with its `updateVals` -/
def addTarget (l : List (QueuedTarget T)) (args : Args) (index : Int) :
    Option (List (QueuedTarget T)) :=
  match newEntry db nt args.tStart args.tEnd args.repN args.repSeparation args.planId args.hard with
  | none => none
  | some qt =>
    if db.updateFails then none else some (l.insertIdx (Que.findIndex l.length index) qt)

/-- `ExecutorQueue::addFirst`; an `SqlError` is `none`. An entry that is inserted gets `plan_id`
and `hard` where the constructor takes the repetitions, and no plan. -/
def addFirst (nStart : Double) (args : Args) (l : List (QueuedTarget T)) :
    Option (List (QueuedTarget T)) :=
  match (visits sky fo nt (scriptLength sky nt) 0 (startTime nStart args) l).findIdx? inserts with
  | some i =>
    match newEntry db nt args.tStart args.tEnd args.planId (.fin (if args.hard then 1 else 0)) (-1)
      false with
    | none => none
    | some qt => if db.updateFails then none else some (l.insertIdx i qt)
  | none =>
    match addTarget nt db l args (-1) with
    | none => none
    | some l => if db.updateAgainFails then none else some l

end

/-! ## What it is asked for -/

section
variable {sky : Sky T} {fo : FirstOrdering} {nt : T} {db : Db} {nStart : Double} {args : Args}
  {l l' : List (QueuedTarget T)} {vs : List (Bool × Double)}

/-- The target is satisfied at an entry that is not skipped. -/
def possible (visit : Bool × Double) : Bool := !visit.1 && !visit.2.isNan

/-- The entry is for the target, with the arguments as they are. -/
def Carries (nt : T) (args : Args) (qt : QueuedTarget T) : Prop :=
  qt.target = nt ∧
    Args.mk qt.tStart qt.tEnd qt.repN qt.repSeparation qt.planId qt.hard = args

/-- Whenever `addFirst` returns, it has added one entry with the arguments, at the first place
that is possible or the end. -/
def Adds (sky : Sky T) (fo : FirstOrdering) (nt : T) (nStart : Double) (args : Args)
    (l : List (QueuedTarget T)) : Prop :=
  ∀ db l', addFirst sky fo nt db nStart args l = some l' →
    ∃ qt, Carries nt args qt ∧
      l' = l.insertIdx
        ((visits sky fo nt (scriptLength sky nt) 0 (startTime nStart args) l).findIdx possible) qt

/-- The arguments are those an entry has that is inserted. -/
def Args.Plain (args : Args) : Prop :=
  args.repN = -1 ∧ args.repSeparation = .fin 0 ∧ args.planId = -1 ∧ args.hard = false

instance (args : Args) : Decidable args.Plain :=
  inferInstanceAs (Decidable (_ ∧ _ ∧ _ ∧ _))

/-- At the first entry that is not skipped the target is satisfied, and until another time
than 0, and the arguments are plain; or every entry is skipped. -/
def Sound (args : Args) (vs : List (Bool × Double)) : Prop :=
  ∀ visit ∈ vs.find? fun visit => !visit.1,
    visit.2.isNan = false ∧ visit.2 ≠ .fin 0 ∧ args.Plain

/-! ## Places -/

theorem visits_length (tl : Double) (i : Nat) (now : Double) (l : List (QueuedTarget T)) :
    (visits sky fo nt tl i now l).length = l.length := by
  induction l generalizing i now with
  | nil => rfl
  | cons e rest ih => simp [visits, ih]

theorem inserts_eq (visit : Bool × Double) : inserts visit = (!visit.1 && visit.2 ≠ .fin 0) := by
  obtain ⟨skip, d⟩ := visit
  cases d <;> simp [inserts, Double.isInf, Double.toBool]

/-- The first entry that is not skipped decides whether the place is the first possible one. -/
theorem findIdx_eq_iff (vs : List (Bool × Double)) :
    vs.findIdx inserts = vs.findIdx possible ↔
      ∀ visit ∈ vs.find? fun visit => !visit.1, visit.2.isNan = false ∧ visit.2 ≠ .fin 0 := by
  induction vs with
  | nil => simp
  | cons visit vs ih =>
    obtain ⟨skip, d⟩ := visit
    rw [List.findIdx_cons, List.findIdx_cons, inserts_eq]
    cases skip with
    | true => simpa [possible] using ih
    | false =>
      by_cases hnan : d.isNan = true
      · have hzero : d ≠ .fin 0 := by
          rintro rfl
          cases hnan
        simp [possible, hnan, hzero]
      · by_cases hzero : d = .fin 0
        · simp [possible, hzero]
        · simp [possible, hnan, hzero]

/-- A target that is new in the queue tells where it was put. -/
theorem insertIdx_new {i j : Nat} {x y : QueuedTarget T} (hi : i ≤ l.length) (hj : j ≤ l.length)
    (hnew : ∀ e ∈ l, e.target ≠ nt) (hx : x.target = nt) (hy : y.target = nt)
    (h : l.insertIdx i x = l.insertIdx j y) : i = j ∧ x = y := by
  induction l generalizing i j with
  | nil =>
    obtain rfl : i = 0 := Nat.le_zero.mp hi
    obtain rfl : j = 0 := Nat.le_zero.mp hj
    exact ⟨rfl, (List.cons.inj h).1⟩
  | cons a l ih =>
    obtain ⟨ha, hl⟩ := List.forall_mem_cons.mp hnew
    cases i with
    | zero =>
      cases j with
      | zero => exact ⟨rfl, (List.cons.inj h).1⟩
      | succ j => exact absurd ((congrArg _ (List.cons.inj h).1).symm.trans hx) ha
    | succ i =>
      cases j with
      | zero => exact absurd ((congrArg _ (List.cons.inj h).1).trans hy) ha
      | succ j =>
        obtain ⟨hij, hxy⟩ := ih (Nat.le_of_succ_le_succ hi) (Nat.le_of_succ_le_succ hj) hl
          (List.cons.inj h).2
        exact ⟨congrArg (· + 1) hij, hxy⟩

/-! ## The entry that is added -/

theorem newEntry_eq {target : T} {tStart tEnd : Double} {repN : Int} {repSeparation : Double}
    {planId : Int} {hard : Bool} {qt : QueuedTarget T}
    (h : newEntry db target tStart tEnd repN repSeparation planId hard = some qt) :
    ∃ qid, qt = ⟨target, qid, tStart, tEnd, repN, repSeparation, planId, hard⟩ := by
  unfold newEntry at h
  split at h
  · cases h
  · split at h
    · cases h
    · exact ⟨_, (Option.some.inj h).symm⟩

/-- An entry that is inserted carries its arguments when they are plain. -/
theorem carries_inserted (args : Args) (qid : Nat) :
    Carries nt args ⟨nt, qid, args.tStart, args.tEnd, args.planId,
      .fin (if args.hard then 1 else 0), -1, false⟩ ↔ args.Plain := by
  obtain ⟨tStart, tEnd, repN, repSeparation, planId, hard⟩ := args
  simp only [Carries, Args.Plain, Args.mk.injEq, true_and]
  constructor
  · intro hcond
    obtain ⟨hrep, hsep, rfl, rfl⟩ := hcond
    exact ⟨hrep.symm, hsep.symm, rfl, rfl⟩
  · intro hcond
    obtain ⟨rfl, rfl, rfl, rfl⟩ := hcond
    exact ⟨rfl, rfl, rfl, rfl⟩

theorem addFirst_inserts {i : Nat}
    (hfind : (visits sky fo nt (scriptLength sky nt) 0 (startTime nStart args) l).findIdx? inserts =
      some i) (h : addFirst sky fo nt db nStart args l = some l') :
    ∃ qid, l' = l.insertIdx i ⟨nt, qid, args.tStart, args.tEnd, args.planId,
      .fin (if args.hard then 1 else 0), -1, false⟩ := by
  unfold addFirst at h
  rw [hfind] at h
  cases hentry : newEntry db nt args.tStart args.tEnd args.planId
      (.fin (if args.hard then 1 else 0)) (-1) false with
  | none =>
    simp only [hentry] at h
    cases h
  | some qt =>
    simp only [hentry] at h
    obtain ⟨qid, hqt⟩ := newEntry_eq hentry
    split at h
    · cases h
    · exact ⟨qid, hqt ▸ (Option.some.inj h).symm⟩

theorem addTarget_returns (h : addTarget nt db l args (-1) = some l') :
    ∃ qid, l' = l.insertIdx l.length ⟨nt, qid, args.tStart, args.tEnd, args.repN, args.repSeparation,
      args.planId, args.hard⟩ := by
  unfold addTarget at h
  cases hentry : newEntry db nt args.tStart args.tEnd args.repN args.repSeparation args.planId
      args.hard with
  | none =>
    simp only [hentry] at h
    cases h
  | some qt =>
    simp only [hentry] at h
    obtain ⟨qid, hqt⟩ := newEntry_eq hentry
    split at h
    · cases h
    · exact ⟨qid, hqt ▸ (Option.some.inj h).symm⟩

theorem addFirst_appends
    (hfind : (visits sky fo nt (scriptLength sky nt) 0 (startTime nStart args) l).findIdx? inserts =
      none) (h : addFirst sky fo nt db nStart args l = some l') :
    ∃ qid, l' = l.insertIdx l.length ⟨nt, qid, args.tStart, args.tEnd, args.repN, args.repSeparation,
      args.planId, args.hard⟩ := by
  unfold addFirst at h
  rw [hfind] at h
  cases htarget : addTarget nt db l args (-1) with
  | none =>
    simp only [htarget] at h
    cases h
  | some l'' =>
    simp only [htarget] at h
    split at h
    · cases h
    · exact Option.some.inj h ▸ addTarget_returns htarget

/-- What `addFirst` adds when it returns: one entry, where the walk ends. -/
theorem addFirst_returns
    (hvs : visits sky fo nt (scriptLength sky nt) 0 (startTime nStart args) l = vs)
    (h : addFirst sky fo nt db nStart args l = some l') :
    ∃ qt, qt.target = nt ∧ l' = l.insertIdx (vs.findIdx inserts) qt ∧
      (Carries nt args qt ↔ ∀ visit ∈ vs, inserts visit = true → args.Plain) := by
  cases hfind : vs.findIdx? inserts with
  | some i =>
    obtain ⟨qid, hl'⟩ := addFirst_inserts (hvs ▸ hfind) h
    obtain ⟨hi, hidx⟩ := List.findIdx?_eq_some_iff_findIdx_eq.mp hfind
    refine ⟨_, rfl, hidx ▸ hl', ?_⟩
    rw [carries_inserted]
    have hfound := List.findIdx_getElem (w := hidx ▸ hi)
    exact ⟨fun hplain _ _ _ => hplain, fun hall => hall _ (List.getElem_mem _) hfound⟩
  | none =>
    obtain ⟨qid, hl'⟩ := addFirst_appends (hvs ▸ hfind) h
    have hidx : vs.findIdx inserts = l.length := by
      rw [List.findIdx?_eq_none_iff_findIdx_eq.mp hfind, ← hvs, visits_length]
    refine ⟨_, rfl, hidx ▸ hl', ?_⟩
    refine iff_of_true ⟨rfl, rfl⟩ fun visit hvisit hins => ?_
    rw [List.findIdx?_eq_none_iff.mp hfind visit hvisit] at hins
    cases hins

/-- With a database that answers, `addFirst` returns. -/
theorem addFirst_ends (sky : Sky T) (fo : FirstOrdering) (nt : T) (nStart : Double) (args : Args)
    (l : List (QueuedTarget T)) :
    ∃ l', addFirst sky fo nt ⟨some 1, false, false, false⟩ nStart args l = some l' := by
  unfold addFirst addTarget newEntry
  split
  · exact ⟨_, rfl⟩
  · exact ⟨_, rfl⟩

/-- `addFirst` adds what it is asked for, in the first possible place, exactly when every entry
is skipped, or the first one that is not has a target that is satisfied there and the arguments
are plain. -/
theorem addFirst_adds_iff (hnew : ∀ e ∈ l, e.target ≠ nt) :
    Adds sky fo nt nStart args l ↔
      Sound args (visits sky fo nt (scriptLength sky nt) 0 (startTime nStart args) l) := by
  generalize hvs : visits sky fo nt (scriptLength sky nt) 0 (startTime nStart args) l = vs
  have hlen : vs.length = l.length := by rw [← hvs, visits_length]
  have hbound : ∀ p : Bool × Double → Bool, vs.findIdx p ≤ l.length := fun p =>
    hlen ▸ List.findIdx_le_length
  have hfirst : ∀ visit ∈ vs, inserts visit = true → ∃ first, vs.find? (fun v => !v.1) = some first := by
    intro visit hvisit hins
    rw [inserts_eq, Bool.and_eq_true] at hins
    exact Option.isSome_iff_exists.mp (List.find?_isSome.mpr ⟨visit, hvisit, hins.1⟩)
  constructor
  · intro h
    obtain ⟨l', hl'⟩ := addFirst_ends sky fo nt nStart args l
    obtain ⟨qt, hqt, hplace⟩ := h _ l' hl'
    obtain ⟨qt', htarget, hplace', hplain⟩ := addFirst_returns hvs hl'
    rw [hvs] at hplace
    obtain ⟨hidx, rfl⟩ := insertIdx_new (hbound _) (hbound _) hnew htarget hqt.1
      (hplace'.symm.trans hplace)
    intro visit hvisit
    obtain ⟨hnan, hzero⟩ := (findIdx_eq_iff vs).mp hidx visit hvisit
    refine ⟨hnan, hzero, hplain.mp hqt visit (List.mem_of_find?_eq_some hvisit) ?_⟩
    have hunskipped : (!visit.1) = true := by
      have hfound := List.find?_some (p := fun v : Bool × Double => !v.1) hvisit
      exact hfound
    rw [inserts_eq, Bool.and_eq_true]
    exact ⟨hunskipped, by simpa using hzero⟩
  · intro h db l' hl'
    obtain ⟨qt, htarget, hplace, hplain⟩ := addFirst_returns hvs hl'
    have hidx := (findIdx_eq_iff vs).mpr fun visit hvisit =>
      ⟨(h visit hvisit).1, (h visit hvisit).2.1⟩
    refine ⟨qt, hplain.mpr fun visit hvisit hins => ?_, ?_⟩
    · obtain ⟨first, hfound⟩ := hfirst visit hvisit hins
      exact (h first hfound).2.2
    · rw [hvs, ← hidx]
      exact hplace

/-- Targets that can be observed for ever, and take a minute. -/
def clear : Sky Nat where
  maximalScriptDuration _ := .fin 60
  satisfiedDuration _ _ _ _ _ := .inf false
  hourAngle _ _ := .fin 0

/-- The entry of target 1. -/
def first : QueuedTarget Nat := ⟨1, 1, .nan, .nan, -1, .nan, -1, false⟩

/-- A target for which no arguments are given but a separation of no time is put to the front. -/
theorem addFirst_adds_plain :
    (∀ e ∈ [first], e.target ≠ 2) ∧
      Adds clear .none 2 (.fin 0) ⟨.nan, .nan, -1, .fin 0, -1, false⟩ [first] :=
  have hnew : ∀ e ∈ [first], e.target ≠ 2 := List.forall_mem_singleton.mpr (by decide)
  ⟨hnew, (addFirst_adds_iff hnew).mpr fun visit hvisit => by
    cases hvisit
    exact ⟨rfl, nofun, rfl, rfl, rfl, rfl⟩⟩

/-- A target of plan 7 that is put to the front is repeated seven times, for no plan. -/
theorem plan_seven_first :
    ¬Adds clear .none 2 (.fin 0) ⟨.nan, .nan, -1, .nan, 7, true⟩ [first] := by
  intro h
  obtain ⟨qt, hqt, hplace⟩ := h ⟨some 2, false, false, false⟩
    [⟨2, 2, .nan, .nan, 7, .fin 1, -1, false⟩, first] rfl
  have hhead : (⟨2, 2, .nan, .nan, 7, .fin 1, -1, false⟩ : QueuedTarget Nat) = qt :=
    (List.cons.inj hplace).1
  have hplan : (-1 : Int) = 7 := by
    rw [← hhead] at hqt
    exact congrArg Args.planId hqt.2
  exact absurd hplan (by decide)

end
end Rts2.Plan.AddFirst
