import Mathlib.Algebra.Group.Nat.Defs
import Mathlib.Data.List.Basic
import Rts2.Lib.Triple

/-! # Queues of targets

`TargetQueue` and `ExecutorQueue`: what the executor and the selector do with
the targets they queue. A `Target` object is created by `createTarget`, handed
around by pointer, and deleted in several places; `Pool` keeps count of that.
Doubles are whole numbers here, and `none` is NaN. -/
namespace Rts2.Plan
open Rts2.Lib

/-- A pointer to a `Target`, with the attributes of the object it points to.
Address 0 is `NULL`. -/
structure Target where
  addr : Nat
  tarId : Int
  type : Char
  deriving DecidableEq, Repr

namespace Target

def null : Target := ⟨0, 0, ' '⟩

def typeDark : Char := 'd'
def typeFlat : Char := 'f'
def typeGrb : Char := 'G'
def typeAuger : Char := 'A'

end Target

/-- Pointers are equal when their addresses are. -/
def PointsTo (p : Option Target) (t : Target) : Prop :=
  p.map Target.addr = some t.addr

instance (p : Option Target) (t : Target) : Decidable (PointsTo p t) :=
  inferInstanceAs (Decidable (_ = _))

/-- `QueuedTarget`, with the columns of its `QueueEntry`. -/
structure QueuedTarget where
  target : Target
  qid : Nat
  planId : Int
  tStart : Option Int
  tEnd : Option Int
  repN : Int
  repSeparation : Option Int
  hard : Bool
  unobservableReported : Bool
  deriving DecidableEq, Repr

/-- `QueuedTarget (const QueuedTarget &, Target *)`. -/
def QueuedTarget.withTarget (qt : QueuedTarget) (target : Target) : QueuedTarget :=
  { qt with target := target, unobservableReported := false }

/-- One repetition less, the next one after the separation. -/
def QueuedTarget.repeated (qt : QueuedTarget) (now : Int) : QueuedTarget :=
  { qt with
    repN := qt.repN - 1
    tStart := match qt.repSeparation with
      | some separation => some (now + separation)
      | none => qt.tStart }

def QueuedTarget.notExpired (qt : QueuedTarget) (now : Int) : Bool :=
  qt.tStart.all (· ≤ now) && qt.tEnd.all (now < ·)

/-- The queue modes. -/
inductive QueueType where
  | fifo
  | circular
  | highest
  | westeast
  | westeastMeridian
  | outOfLimits
  deriving DecidableEq, Repr

/-- The values of a queue an operator may set. -/
structure QueueValues where
  queueType : QueueType
  skipBelowHorizon : Bool
  testConstraints : Bool
  removeAfterExecution : Bool
  blockUntilVisible : Bool
  checkTargetLength : Bool
  queueEnabled : Bool
  queueWindow : Option Int
  deriving DecidableEq, Repr

def QueueValues.default : QueueValues where
  queueType := .fifo
  skipBelowHorizon := true
  testConstraints := true
  removeAfterExecution := true
  blockUntilVisible := false
  checkTargetLength := true
  queueEnabled := true
  queueWindow := none

/-- `ExecutorQueue`. A `SimulQueueTargets` is one with `simul`, which has no
records in the database and no values to send. -/
structure ExecutorQueue where
  entries : List QueuedTarget
  currentTarget : Option Target
  values : QueueValues
  timerAdded : Option Int
  simul : Bool
  deriving DecidableEq, Repr

def ExecutorQueue.new : ExecutorQueue where
  entries := []
  currentTarget := none
  values := .default
  timerAdded := none
  simul := false

/-! ## Objects -/

/-- `Executor::currentTarget` and the deleted objects, after one of the two has
changed. -/
structure Moment where
  currentTarget : Option Target
  deleted : List Nat
  deriving DecidableEq, Repr

/-- The current target has not been deleted and nothing has been deleted
twice. -/
def Moment.Sound (m : Moment) : Prop :=
  (∀ t, m.currentTarget = some t → t.addr ∉ m.deleted) ∧ m.deleted.Nodup

instance (m : Moment) : Decidable m.Sound :=
  inferInstanceAs (Decidable ((∀ t, m.currentTarget = some t → _) ∧ _))

/-- What a record keeps of the places where a target is deleted unasked. -/
inductive Check where
  /-- `beforeChange` deletes the target of the front entry. -/
  | requeue (front : Target) (currentTarget : Option Target)
  /-- The record of an entry could not be removed, so the entry stays in the
  queue after its target was deleted. -/
  | recordStays
  /-- Whoever created a target deletes it after an error, `taken` when it is the
  current target or in the queue by then. -/
  | dropNew (taken : Bool)
  deriving DecidableEq, Repr

def Check.Ok : Check → Prop
  | .requeue front currentTarget => ¬ PointsTo currentTarget front
  | .recordStays => False
  | .dropNew taken => taken = false

instance (c : Check) : Decidable c.Ok := by
  cases c <;> unfold Check.Ok <;> infer_instance

/-- The `Target` objects of a process. `currentTarget` is the member of
`Executor`, and `NULL` in a selector. -/
structure Pool where
  created : Nat
  deleted : List Nat
  currentTarget : Option Target
  asked : Nat
  moments : List Moment
  checks : List Check
  deriving DecidableEq, Repr

def Pool.new : Pool where
  created := 1
  deleted := []
  currentTarget := none
  asked := 0
  moments := []
  checks := []

def Pool.observe (p : Pool) : Pool :=
  { p with moments := ⟨p.currentTarget, p.deleted⟩ :: p.moments }

/-- `delete`, of a pointer that may be `NULL`. -/
def Pool.delete (p : Pool) (t : Target) : Pool :=
  if t.addr = 0 then p else { p with deleted := t.addr :: p.deleted }.observe

def Pool.setCurrent (p : Pool) (t : Option Target) : Pool :=
  { p with currentTarget := t }.observe

def Pool.check (p : Pool) (c : Check) : Pool :=
  { p with checks := c :: p.checks }

def Pool.Checked (p : Pool) : Prop := ∀ c ∈ p.checks, c.Ok

instance (p : Pool) : Decidable p.Checked :=
  inferInstanceAs (Decidable (∀ c ∈ p.checks, c.Ok))

/-- What a queue finds when it looks at its targets: whether an entry is above
the horizon, its constraints tested or not, how long its script is, if that can
be told, and whether an observation has started. -/
structure Sky where
  aboveHorizon : Bool → QueuedTarget → Bool
  scriptLength : Target → Option Int
  observationStarted : Target → Bool

/-- What the queues find outside, each question with the number of questions
asked before it: the database, the sky and the observations. Sorting by
altitude, hour angle or time limits puts the entries in some order. -/
structure World where
  createTarget : Nat → Int → Option Char
  nextQid : Nat → Option Nat
  dbFails : Nat → Bool
  sky : Nat → Sky
  firstPosition : Nat → List QueuedTarget → Target → Option Nat
  order : Nat → List QueuedTarget → List QueuedTarget
  order_perm : ∀ n l, (order n l).Perm l

/-- A world in which everything is there, can be observed and takes a minute. -/
def World.quiet : World where
  createTarget := fun _ _ => some 'O'
  nextQid := fun n => some n
  dbFails := fun _ => false
  sky := fun _ =>
    { aboveHorizon := fun _ _ => true
      scriptLength := fun _ => some 60
      observationStarted := fun _ => false }
  firstPosition := fun _ _ _ => none
  order := fun _ l => l
  order_perm := fun _ l => List.Perm.refl l

/-- How an operation ends early: by an `rts2core::Error`, or by `front ()` of an
empty queue, which has no defined end. -/
inductive Fault where
  | error
  | emptyFront
  deriving DecidableEq, Repr

structure QueState where
  pool : Pool
  queue : ExecutorQueue
  deriving DecidableEq, Repr

abbrev Que := Prog QueState Fault

namespace Que

def ask {α : Type} (question : Nat → α) : Que α := do
  let s ← get
  modify fun s => { s with pool := { s.pool with asked := s.pool.asked + 1 } }
  return question s.pool.asked

def modifyEntries (f : List QueuedTarget → List QueuedTarget) : Que Unit :=
  modify fun s => { s with queue := { s.queue with entries := f s.queue.entries } }

def setCurrentTarget (ct : Option Target) : Que Unit :=
  modify fun s => { s with queue := { s.queue with currentTarget := ct } }

def delete (t : Target) : Que Unit :=
  modify fun s => { s with pool := s.pool.delete t }

def check (c : Check) : Que Unit :=
  modify fun s => { s with pool := s.pool.check c }

section Queue
variable (w : World)

/-- `createTarget`. A target that is not in the database, or a database that
does not answer, is an error. -/
def createTarget (tarId : Int) : Que Target := do
  match ← ask (w.createTarget · tarId) with
  | none => throw .error
  | some type =>
    let s ← get
    modify fun s => { s with pool := { s.pool with created := s.pool.created + 1 } }
    return ⟨s.pool.created, tarId, type⟩

/-- A statement that writes to the database. -/
def dbWrite : Que Unit := do
  if ← ask w.dbFails then throw .error

/-- `QueueEntry::remove`, of an entry whose target is `gone`: deleted, or
`NULL`. -/
def removeRecord (gone : Bool) : Que Unit := do
  if ← ask w.dbFails then
    if gone then check .recordStays
    throw .error

def updateVals : Que Unit := do
  if (← get).queue.simul then return ()
  dbWrite w

/-- `QueuedTarget::QueuedTarget`. -/
def newEntry (target : Target) (tStart tEnd : Option Int) (repN : Int)
    (repSeparation : Option Int) (planId : Int) (hard : Bool) : Que QueuedTarget := do
  match ← ask w.nextQid with
  | none => throw .error
  | some qid =>
    dbWrite w
    return {
      target := target
      qid := qid
      planId := planId
      tStart := tStart
      tEnd := tEnd
      repN := repN
      repSeparation := repSeparation
      hard := hard
      unobservableReported := false }

/-! ## Removing an entry -/

/-- `if (iter->target != currentTarget) delete iter->target; else currentTarget = NULL;` -/
def release (t : Target) : Que Unit := do
  if PointsTo (← get).queue.currentTarget t then setCurrentTarget none else delete t

/-- `removeEntry` of the entry at a place; the iterator then stands at the entry
after it. -/
def removeEntry (i : Nat) : Que Unit := do
  let s ← get
  match s.queue.entries[i]? with
  | none => pure ()
  | some e =>
    release e.target
    unless s.queue.simul do removeRecord w (¬ PointsTo s.queue.currentTarget e.target)
    modifyEntries (·.eraseIdx i)

/-- The place `findIndex` finds, the length of the queue for its end. -/
def findIndex (size : Nat) (index : Int) : Nat :=
  if index < 0 then size - (-index - 1).toNat else min index.toNat size

/-- The entry goes the way it goes in `removeEntry`; -1 when there is none. -/
def removeIndex (index : Int) : Que Int := do
  let size := (← get).queue.entries.length
  let i := findIndex size index
  if i = size then return -1
  removeEntry w i
  updateVals w
  return 0

/-- The loop of `clearNext`, from the entry at place `i` on. -/
def clearFrom : Nat → List QueuedTarget → Que Unit
  | _, [] => pure ()
  | i, e :: rest => do
    if PointsTo (← get).queue.currentTarget e.target then
      modifyEntries (·.modify i fun e => { e with target := Target.null })
    else delete e.target
    removeRecord w true
    clearFrom (i + 1) rest

def clearNext : Que Unit := do
  clearFrom w 0 (← get).queue.entries
  modifyEntries fun _ => []
  updateVals w

/-- `~ExecutorQueue`. -/
def destroy : Que Unit := do
  setCurrentTarget none
  (← get).queue.entries.forM fun e => delete e.target
  modifyEntries fun _ => []

/-! ## Filters -/

/-- The time is set and in the past. -/
def past (time : Option Int) (now : Int) : Bool :=
  time.any (· ≤ now)

/-- `removeEntry` of the first `n` entries. -/
def removeFirst : Nat → Que Unit
  | 0 => pure ()
  | n + 1 => do
    removeEntry w 0
    removeFirst n

/-- The FIFO loop of `filterExpired`, with `n` entries before the iterator: all
of them go when the entry there has its start or end in the past. -/
def expireBefore (now : Int) : Nat → List QueuedTarget → Que Unit
  | _, [] => pure ()
  | n, e :: rest => do
    if past e.tStart now || past e.tEnd now then
      removeFirst w n
      expireBefore now 1 rest
    else expireBefore now (n + 1) rest

/-- The second loop of `filterExpired`, with the iterator at place `i`. -/
def expire (sky : Sky) (now : Int) : Nat → List QueuedTarget → Que Unit
  | _, [] => pure ()
  | i, e :: rest => do
    let values := (← get).queue.values
    if past e.tEnd now || (sky.observationStarted e.target && values.removeAfterExecution) then
      removeEntry w i
      expire sky now i rest
    else expire sky now (i + 1) rest

def filterExpired (sky : Sky) (now : Int) : Que Unit := do
  if (← get).queue.values.queueType = .fifo then
    expireBefore w now 0 (← get).queue.entries
  expire w sky now 0 (← get).queue.entries

/-- The entry can be observed now, in the time there is. -/
def observable (sky : Sky) (values : QueueValues) (maxLength : Option Int)
    (removeObserved : Bool) (e : QueuedTarget) : Bool :=
  (match maxLength with
    | none => true
    | some length =>
      (!values.removeAfterExecution && !removeObserved) ||
        (sky.scriptLength e.target).any (· < length)) &&
    sky.aboveHorizon values.testConstraints e

/-- In a circular queue an entry whose start is still to come goes to the back. -/
def shiftCircular (values : QueueValues) (now : Int) (e : QueuedTarget) : Bool :=
  values.queueType = .circular && e.tStart.any (now < ·)

/-- An entry that cannot be observed leaves the queue for good. -/
def leaves (sky : Sky) (values : QueueValues) (now : Int) (e : QueuedTarget) : Bool :=
  if values.skipBelowHorizon || shiftCircular values now e then
    values.queueType ≠ .circular && (e.tStart.isSome || e.tEnd.isSome) &&
      sky.observationStarted e.target
  else true

/-- The loop of `filterUnobservable`. Its iterator stays at the front: an entry
that does not end the loop is taken out, for good or to `skipped`. -/
def filterUnobservable (sky : Sky) (now : Int) (maxLength : Option Int) (removeObserved : Bool) :
    List QueuedTarget → List QueuedTarget → Que (List QueuedTarget)
  | [], skipped => return skipped
  | e :: rest, skipped => do
    let values := (← get).queue.values
    if !shiftCircular values now e && observable sky values maxLength removeObserved e then
      if maxLength.isNone then
        modifyEntries (·.modifyHead fun e => { e with unobservableReported := false })
      return skipped
    if leaves sky values now e then
      removeRecord w false
      modifyEntries List.tail
      filterUnobservable sky now maxLength removeObserved rest skipped
    else
      modifyEntries List.tail
      filterUnobservable sky now maxLength removeObserved rest
        (skipped ++ [{ e with unobservableReported := true }])

/-- Returns whether the front target can be observed, and its start time. -/
def filter (now : Int) (maxLength : Option Int) (removeObserved : Bool) :
    Que (Bool × Option Int) := do
  let sky ← ask w.sky
  filterExpired w sky now
  if (← get).queue.values.blockUntilVisible then return (true, none)
  let skipped ← filterUnobservable w sky now maxLength removeObserved (← get).queue.entries []
  match (← get).queue.entries with
  | [] =>
    modifyEntries (skipped ++ ·)
    updateVals w
    return (false, none)
  | front :: rest =>
    if front.tStart.all (· ≤ now) then
      modifyEntries fun _ => front :: (skipped ++ rest)
      updateVals w
      return (true, front.tStart)
    else
      modifyEntries (skipped ++ ·)
      updateVals w
      return (false, front.tStart)

/-! ## Changing the front -/

def sortQueue : Que Unit := do
  match (← get).queue.values.queueType with
  | .fifo | .circular => pure ()
  | _ =>
    let order ← ask w.order
    modifyEntries order

/-- The front entry goes to the back, with a new target. -/
def requeue : Que Unit := do
  match (← get).queue.entries with
  | [] => pure ()
  | front :: _ =>
    let nt ← createTarget w front.target.tarId
    modifyEntries (· ++ [front.withTarget nt])
    check (.requeue front.target (← get).pool.currentTarget)
    delete front.target
    modifyEntries List.tail

def beforeChange (now : Int) : Que Unit := do
  sortQueue w
  match (← get).queue.entries with
  | [] => pure ()
  | front :: _ =>
    if (← get).queue.values.queueType = .circular then
      if 0 < front.repN then modifyEntries (·.modifyHead (·.repeated now))
      requeue w
    else if 1 < front.repN then
      modifyEntries (·.modifyHead (·.repeated now))
      requeue w
  discard (filter w now none true)

/-! ## Adding and moving -/

def addFront (nt : Target) (tStart tEnd : Option Int) : Que Nat := do
  let qt ← newEntry w nt tStart tEnd (-1) none (-1) false
  modifyEntries (qt :: ·)
  updateVals w
  return qt.qid

def addTarget (nt : Target) (tStart tEnd : Option Int) (index repN : Int)
    (repSeparation : Option Int) (planId : Int) (hard : Bool) : Que Nat := do
  let qt ← newEntry w nt tStart tEnd repN repSeparation planId hard
  modifyEntries fun l => l.insertIdx (findIndex l.length index) qt
  updateVals w
  return qt.qid

/-- The entry of the first possible place gets `planId` and `hard` where
`QueuedTarget` takes the repetitions and the separation. -/
def addFirst (nt : Target) (tStart tEnd : Option Int) (repN : Int)
    (repSeparation : Option Int) (planId : Int) (hard : Bool) : Que Unit := do
  match ← ask (w.firstPosition · (← get).queue.entries nt) with
  | some i =>
    let qt ← newEntry w nt tStart tEnd planId (some (if hard then 1 else 0)) (-1) false
    modifyEntries fun l => l.insertIdx (min i l.length) qt
    updateVals w
  | none =>
    discard (addTarget w nt tStart tEnd (-1) repN repSeparation planId hard)
    updateVals w

/-- `splice`: the entry at place `i` goes before the one at place `j`. -/
def splice (i j : Nat) (l : List QueuedTarget) : List QueuedTarget :=
  match l[i]? with
  | none => l
  | some e => (l.take j).eraseIdx i ++ e :: (if j ≤ i then (l.drop j).eraseIdx (i - j) else l.drop j)

/-- The index `moveIndex` looks for the new place with; `newindex + 1` is an `int`. -/
def newPlace (index newindex : Int) : Int :=
  if index < newindex then Int.bmod (newindex + 1) (2 ^ 32) else newindex

def moveIndex (index newindex : Int) : Que Int := do
  let size := (← get).queue.entries.length
  let i := findIndex size index
  if i = size then return -1
  modifyEntries (splice i (findIndex size (newPlace index newindex)))
  updateVals w
  return 0

def updateIndexTimes (index : Int) (tStart tEnd : Option Int) : Que Int := do
  let size := (← get).queue.entries.length
  let i := findIndex size index
  if i = size then return -1
  modifyEntries (·.modify i fun e => { e with tStart := tStart, tEnd := tEnd })
  updateVals w
  return 0

/-- `valueChanged` of `rep_n`, which compares the new numbers with the
separations. -/
def setRepN (repN : List Int) : Que Unit := do
  modifyEntries fun l =>
    List.zipWith (fun e n => if e.repSeparation ≠ some n then { e with repN := n } else e) l repN ++
      l.drop repN.length
  dbWrite w

/-- `valueChanged` of `rep_separation`. -/
def setRepSeparation (separation : List (Option Int)) : Que Unit := do
  modifyEntries fun l =>
    List.zipWith (fun e n => { e with repSeparation := n }) l separation ++ l.drop separation.length
  dbWrite w

/-- A target on a queueing command; `none` is a group that cannot be read. -/
structure Request where
  tarId : Int
  tStart : Option Int
  tEnd : Option Int
  nrep : Int
  separation : Option Int
  deriving DecidableEq, Repr

/-- Returns how many groups failed. -/
def queueFromConn (index : Int) (tryFirstPossible : Bool) : List (Option Request) → Que Nat
  | [] => return 0
  | none :: rest => do
    let failed ← queueFromConn index tryFirstPossible rest
    return failed + 1
  | some r :: rest => do
    let nt ← createTarget w r.tarId
    if tryFirstPossible then
      addFirst w nt r.tStart r.tEnd r.nrep r.separation (-1) false
    else
      discard (addTarget w nt r.tStart r.tEnd index r.nrep r.separation (-1) false)
    queueFromConn index tryFirstPossible rest

/-- A group of `queue_qids`. -/
structure QidRequest where
  qid : Int
  tarId : Int
  tStart : Option Int
  tEnd : Option Int
  deriving DecidableEq, Repr

/-- The entry with the given queue id, and the iterator after it, when there is
one: its times are set and it is put to place `k`. -/
def placeQid (k : Nat) (r : QidRequest) : Que (Option Nat) := do
  match (← get).queue.entries.findIdx? fun e => (e.qid : Int) = r.qid with
  | none => return none
  | some m =>
    modifyEntries fun l =>
      splice m k (l.modify m fun e => { e with tStart := r.tStart, tEnd := r.tEnd })
    return some (if m < k then k else k + 1)

/-- The first loop of `queueFromConnQids`, with the iterator at place `k`: the
number of failures and the ids to be kept. -/
def placeQids : Nat → List (Option QidRequest) → Que (Nat × List Nat)
  | _, [] => return (0, [])
  | k, none :: rest => do
    let (failed, known) ← placeQids k rest
    return (failed + 1, known)
  | k, some r :: rest => do
    let nt ← createTarget w r.tarId
    if r.qid = -1 then
      let qt ← newEntry w nt r.tStart r.tEnd (-1) none (-1) false
      modifyEntries fun l => l.insertIdx (min k l.length) qt
      let (failed, known) ← placeQids (k + 1) rest
      return (failed, qt.qid :: known)
    else
      match ← placeQid k r with
      | none =>
        let (failed, known) ← placeQids k rest
        return (failed + 1, known)
      | some k' =>
        let (failed, known) ← placeQids k' rest
        return (failed, r.qid.toNat :: known)

/-- The second loop, with the iterator at place `i`. The targets of the entries
it takes out stay. -/
def dropUnknown (known : List Nat) : Nat → List QueuedTarget → Que Unit
  | _, [] => pure ()
  | i, e :: rest => do
    if 0 < e.qid ∧ e.qid ∉ known then
      removeRecord w false
      modifyEntries (·.eraseIdx i)
      dropUnknown known i rest
    else dropUnknown known (i + 1) rest

def queueFromConnQids (requests : List (Option QidRequest)) : Que Nat := do
  let (failed, known) ← placeQids w 0 requests
  dropUnknown w known 0 (← get).queue.entries
  return failed

/-! ## Selecting -/

def front : Que QueuedTarget := do
  match (← get).queue.entries with
  | [] => throw .emptyFront
  | front :: _ => return front

/-- What `selectNextObservation` hands out: plan, queue and target id, and
whether the entry interrupts. -/
structure Selection where
  pid : Int
  qid : Nat
  hard : Bool
  tarId : Int
  deriving DecidableEq, Repr

def selection (e : QueuedTarget) (hard : Bool) : Selection :=
  ⟨e.planId, e.qid, hard, e.target.tarId⟩

/-- The front entry can be observed: it is selected if it fits. -/
def selectFront (sky : Sky) (nextLength : Option Int) : Que (Option Selection) := do
  let e ← front
  match nextLength with
  | none => return some (selection e false)
  | some length =>
    match sky.scriptLength e.target with
    | none => throw .error
    | some tl =>
      if tl < length || !(← get).queue.values.checkTargetLength then
        if e.tStart.isNone then return some (selection e false)
        modifyEntries (·.modifyHead fun e => { e with hard := false })
        return some (selection e e.hard)
      else return none

/-- Nothing can be observed: a timer is set for the start or the end of the front
entry. -/
def addTimer (now : Int) (tStart : Option Int) : Que Unit := do
  let queue := (← get).queue
  let new (t : Option Int) : Bool := t.any (now < ·) && t ≠ queue.timerAdded
  if new tStart then
    modify fun s => { s with queue := { s.queue with timerAdded := tStart } }
  else
    let tEnd := (← front).tEnd
    if new tEnd then modify fun s => { s with queue := { s.queue with timerAdded := tEnd } }

/-- `visible && front ().notExpired (now)`. -/
def frontReady (visible : Bool) (now : Int) : Que Bool := do
  if visible then return (← front).notExpired now
  return false

/-- The selection, and the `next_time` passed by reference. -/
def selectNextObservation (now : Int) (nextTime nextLength : Option Int)
    (removeObserved : Bool) : Que (Option Selection × Option Int) := do
  let queue := (← get).queue
  if queue.values.queueEnabled = false || queue.entries.isEmpty then return (none, nextTime)
  let (visible, tStart) ← filter w (now + 60) nextLength removeObserved
  if ← frontReady visible (now + 60) then
    return (← selectFront (← ask w.sky) nextLength, nextTime)
  addTimer (now + 60) tStart
  if tStart.isSome && nextTime.all fun t => tStart.any (· < t) then
    return (none, tStart.map (· + queue.values.queueWindow.getD 0))
  return (none, nextTime)

/-- `now` and `now_once` of the selector: the target goes to the front, and the
answer is whether it is still there. -/
def queueNow (now tarId : Int) (once : Bool) : Que (Option Bool) := do
  if once && (← get).queue.entries.any (·.target.tarId = tarId) then return none
  let tar ← createTarget w tarId
  discard (addFront w tar none none)
  discard (filter w now none true)
  return some ((← front).target.addr = tar.addr)

/-! ## Filling a new queue -/

/-- `load`, of the rows of `queues_targets`. -/
def load : List QueuedTarget → Que Unit
  | [] => updateVals w
  | row :: rows => do
    dbWrite w
    let nt ← createTarget w row.target.tarId
    modifyEntries (· ++ [{ row with target := nt, hard := false }])
    load rows

/-- `SimulQueueTargets::SimulQueueTargets`. -/
def copyEntries : List QueuedTarget → Que Unit
  | [] => pure ()
  | e :: rest => do
    let nt ← createTarget w e.target.tarId
    modifyEntries (· ++ [e.withTarget nt])
    copyEntries rest

/-- `SimulQueueTargets::clearNext`. -/
def clearSimul : List QueuedTarget → Que Unit
  | [] => pure ()
  | e :: rest => do
    delete e.target
    modifyEntries List.tail
    clearSimul rest

end Queue
end Que
end Rts2.Plan
