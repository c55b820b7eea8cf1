import Rts2.Plan.Selector
import Rts2.Status

/-! # Commands and observations of the selector

`SelectorDev::commandAuthorized` edits the queues, `updateNext` tells the
executor what to observe next and is told what it started to observe. -/
namespace Rts2.Plan
open Rts2.Lib

/-- `CommandExecNext`, `CommandExecNextPlan` and `CommandExecNow`. -/
inductive ExecCommand where
  | next (tarId : Int)
  | nextPlan (planId : Int)
  | now (tarId : Int)
  deriving DecidableEq, Repr

/-- The values `current_target` to `current_end`. -/
structure Current where
  target : Int
  obs : Int
  queue : Nat
  qid : Int
  planId : Int
  start : Option Int
  finish : Option Int
  deriving DecidableEq, Repr

/-- `SelectorDev`. Queues are numbered from 1 in `lastQueue`, where 0 is the
automatic selection; `sent` are the commands for the executor. It is `halted`
once the front of an empty queue was read. -/
structure SelectorDev extends Selector where
  lastQueue : Nat
  nextId : Int
  nextQid : Int
  nextPlanId : Int
  nextStarted : Bool
  interrupt : Bool
  queueSelectUntil : Option Int
  current : Current
  lastAutoId : Int
  selFailureReported : Bool
  sent : List ExecCommand
  halted : Bool
  deriving DecidableEq, Repr

def SelectorDev.new (queues : Nat) : SelectorDev where
  toSelector := Selector.new queues
  lastQueue := 0
  nextId := 0
  nextQid := 0
  nextPlanId := 0
  nextStarted := false
  interrupt := false
  queueSelectUntil := none
  current := ⟨0, 0, 0, 0, 0, none, none⟩
  lastAutoId := -2
  selFailureReported := false
  sent := []
  halted := false

/-- What the selector finds while it serves one event: the time, the state of
the observatory, the values set by the operator, and what `Selector::selectNext`
and `getTargetBonus` answer. -/
structure Occasion where
  now : Int
  masterState : Status
  ignoreDay : Bool
  queueOnly : Bool
  selEnabled : Bool
  executor : Bool
  selectUntil : Option Int
  autoId : Int
  autoBonus : Int
  deriving DecidableEq, Repr

/-- `getMasterState () == SERVERD_NIGHT`. -/
def Occasion.night (o : Occasion) : Bool :=
  o.masterState &&& (Status.serverdStatusMask ||| Status.serverdOnoffMask) = Status.serverdNight

/-- It is night, or the day is ignored. -/
def Occasion.observing (o : Occasion) : Bool := o.night || o.ignoreDay

/-- The queue the last selection came from, if its front entry is for the target
that is observed. -/
def SelectorDev.observed (s : SelectorDev) (tarId : Int) :
    Option (Nat × ExecutorQueue × QueuedTarget) :=
  if s.lastQueue = 0 then none
  else
    match s.queues[s.lastQueue - 1]? with
    | none => none
    | some q =>
      match q.entries with
      | [] => none
      | front :: _ =>
        if front.target.tarId = tarId then some (s.lastQueue - 1, q, front) else none

/-- The commands that edit a queue. `queue`, `queue_at`, `queue_nrep` and
`queue_at_nrep` have the index -1, `insert` one of its own. -/
inductive QueueEdit where
  | queue (index : Int) (requests : List (Option Que.Request))
  | queueQids (requests : List (Option Que.QidRequest))
  | remove (index : Int)
  | move (index newindex : Int)
  | updateTimes (index : Int) (tStart tEnd : Option Int)
  | clear
  deriving DecidableEq, Repr

/-- Whether the command is refused. -/
def QueueEdit.serve (w : World) : QueueEdit → Que Bool
  | .queue index requests => do
    let failed ← Que.queueFromConn w index false requests
    return failed ≠ 0
  | .queueQids requests => do
    let failed ← Que.queueFromConnQids w requests
    return failed ≠ 0
  | .remove index => do
    let ret ← Que.removeIndex w index
    return ret ≠ 0
  | .move index newindex => do
    let ret ← Que.moveIndex w index newindex
    return ret ≠ 0
  | .updateTimes index tStart tEnd => do
    let ret ← Que.updateIndexTimes w index tStart tEnd
    return ret ≠ 0
  | .clear => do
    Que.clearNext w
    return false

abbrev Dev := Prog SelectorDev Fault

namespace Dev

/-- An operation of the queue `q`, the one with the index `i`. -/
def onQueue {α : Type} (i : Nat) (q : ExecutorQueue) (x : Que α) : Dev α :=
  zoom (fun s => ⟨s.pool, q⟩) (fun r s => { s with pool := r.pool, queues := s.queues.set i r.queue }) x

/-- `catch (rts2core::Error &)`. -/
def catchError {α : Type} (x handler : Dev α) : Dev α :=
  tryCatch x fun
    | .error => handler
    | .emptyFront => throw .emptyFront

section Functions
variable (w : World) (o : Occasion)

/-- The queue with the number `q` gave the next target. -/
def choose (q : Nat) (n : Que.Selection) : Dev Unit :=
  modify fun s => { s with
    lastQueue := q
    nextStarted := if s.nextId ≠ n.tarId || s.nextQid ≠ n.qid then false else s.nextStarted
    nextQid := n.qid
    nextPlanId := n.pid
    interrupt := n.hard }

/-- The time left to the next queue's target. -/
def shorten (nextTime nextLength : Option Int) : Option Int :=
  match nextTime, nextLength with
  | some t, some l => if o.now < t && t - o.now < l then some (t - o.now) else some l
  | _, _ => nextLength

/-- The loop of `selectNext` over the queues, with `i` of them behind. -/
def selectFrom : Nat → List ExecutorQueue → Option Int → Option Int → Bool → Dev (Option Int)
  | _, [], _, _, _ => return none
  | i, q :: rest, nextTime, nextLength, removeObserved => do
    let (selected, nextTime) ←
      onQueue i q (Que.selectNextObservation w o.now nextTime nextLength removeObserved)
    match selected.filter (0 ≤ ·.tarId) with
    | some n =>
      choose (i + 1) n
      return some n.tarId
    | none =>
      modify fun s => { s with queueSelectUntil := nextTime }
      selectFrom (i + 1) rest nextTime (shorten o nextTime nextLength)
        (removeObserved && nextTime.isNone)

/-- No queue has a target: the automatic selection, unless only queues may give
one. -/
def selectAutomatic : Dev Int := do
  if o.queueOnly && o.night then return -1
  modify fun s => { s with
    interrupt := if o.autoId ≠ s.lastAutoId then false else s.interrupt
    lastAutoId := o.autoId
    nextQid := -1
    nextPlanId := -1 }
  return o.autoId

def selectNext : Dev Int :=
  catchError (do
    modify fun s => { s with queueSelectUntil := none }
    let queues := (← get).queues
    if o.observing && !queues.isEmpty && (o.autoId < 0 || o.autoBonus < 1000 || o.queueOnly) then
      match ← selectFrom w o 0 queues none (o.selectUntil.map (· - o.now)) true with
      | some id => return id
      | none =>
        modify fun s => { s with lastQueue := 0 }
        selectAutomatic o
    else selectAutomatic o) (return -1)

/-- The first part of `updateNext`, when an observation has started. -/
def startObservation (tarId obsId : Int) : Dev Unit := do
  modify fun s => { s with interrupt := false }
  match (← get).observed tarId with
  | some (i, q, front) =>
    modify fun s => { s with
      current := { s.current with
        qid := front.qid, planId := front.planId, start := front.tStart, finish := front.tEnd }
      nextStarted := true }
    onQueue i q (Que.beforeChange w o.now)
    modify fun s => { s with
      current := { s.current with target := tarId, obs := obsId, queue := s.lastQueue } }
  | none => modify fun s => { s with current := ⟨tarId, obsId, 0, -1, -1, none, none⟩ }

/-- The command for the executor, once a target has been selected. -/
def tellExecutor : Dev Unit :=
  modify fun s =>
    if s.interrupt then { s with sent := s.sent ++ [.now s.nextId], interrupt := false }
    else if 0 < s.nextPlanId then { s with sent := s.sent ++ [.nextPlan s.nextPlanId] }
    else { s with sent := s.sent ++ [.next s.nextId] }

/-- `updateNext`; `started` are the target and the observation that has
started. -/
def updateNext (started : Option (Int × Int)) : Dev Int := do
  match started with
  | some (tarId, obsId) => startObservation w o tarId obsId
  | none => pure ()
  let nid ← selectNext w o
  modify fun s => { s with selFailureReported := nid < 0, nextId := nid }
  if 0 < nid then
    if o.executor && o.selEnabled then tellExecutor
    return 0
  else return -1

/-- After the queue with the index `i` was edited. -/
def afterQueueChange (i : Nat) : Dev Unit := do
  match (← get).queues[i]? with
  | none => pure ()
  | some q =>
    if o.observing then
      onQueue i q (Que.beforeChange w o.now)
      discard (updateNext w o none)
    else
      onQueue i q do
        Que.sortQueue w
        Que.updateVals w

/-- The editing commands of `commandAuthorized`. -/
def editQueue (i : Nat) (e : QueueEdit) : Dev Int := do
  match (← get).queues[i]? with
  | none => return -2
  | some q =>
    if e = .clear then
      discard (onQueue i q (e.serve w))
      return 0
    else
      catchError (do
        if ← onQueue i q (e.serve w) then return -2
        else
          afterQueueChange w o i
          return 0) (return -2)

end Functions
end Dev

/-- An editing command for a queue, the message that an observation has started,
or a timer or command after which `updateNext` is called. -/
inductive SelectorEvent where
  | edit (queue : Nat) (edit : QueueEdit)
  | observation (tarId obsId : Int)
  | next
  deriving DecidableEq, Repr

structure SelectorInput where
  occasion : Occasion
  event : SelectorEvent
  deriving DecidableEq, Repr

namespace SelectorDev
variable (w : World)

def serve (i : SelectorInput) : Dev Int :=
  match i.event with
  | .edit queue e => Dev.editQueue w i.occasion queue e
  | .observation tarId obsId => Dev.updateNext w i.occasion (some (tarId, obsId))
  | .next => Dev.updateNext w i.occasion none

/-- The selector goes on after an error. -/
def step (s : SelectorDev) (i : SelectorInput) : SelectorDev :=
  if s.halted then s
  else
    match serve w i s with
    | (.error .emptyFront, s') => { s' with halted := true }
    | (_, s') => s'

end SelectorDev
end Rts2.Plan
