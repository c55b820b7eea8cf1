import Rts2.Plan.TargetQueue

/-! # The queues of the selector

`SelectorDev` and the simulation of its queues. A command, a message or a timer
of the selector is one operation of a queue, or a sequence of them with
`updateNext` at its end; they are calls here, and every sequence of calls is a
run. -/
namespace Rts2.Plan
open Rts2.Lib

/-- `rts2db::Plan`, as loaded from the database. -/
structure DbPlan where
  planId : Int
  tarId : Int
  planStart : Option Int
  planEnd : Option Int
  deriving DecidableEq, Repr

namespace Que
section Plans
variable (w : World)

/-- `~Plan` deletes the target of the plan, whoever has it by then. -/
def dropPlan (t : Target) : Que Unit := do
  let s ← get
  check (.dropNew (PointsTo s.pool.currentTarget t ∨
    t.addr ∈ s.queue.entries.map (·.target.addr)))
  delete t

/-- The target of a plan goes into the queue, and the plan forgets it. -/
def addPlan (plan : DbPlan) (index repN : Int) : Que Unit := do
  let nt ← createTarget w plan.tarId
  tryCatch (discard (addTarget w nt plan.planStart plan.planEnd index repN none (-1) false))
    fun e => do
      dropPlan nt
      throw e

/-- `queuePlan`, of the plans in the time asked for. The plan goes where
`addTarget` takes the index. -/
def queuePlan (plans : List DbPlan) : Que Unit := do
  clearNext w
  updateSkip
  plans.forM fun plan => addPlan w plan plan.planId (-1)
where
  updateSkip : Que Unit :=
    modify fun s =>
      { s with queue := { s.queue with values := { s.queue.values with skipBelowHorizon := true } } }

/-- Here it goes where `addTarget` takes the repetitions. -/
def queuePlanId (plan : DbPlan) : Que Unit :=
  addPlan w plan (-1) plan.planId

end Plans
end Que

/-- What the selector does to one of its queues. -/
inductive QueueCall where
  | addFront (tarId : Int) (tStart tEnd : Option Int)
  | queue (index : Int) (tryFirstPossible : Bool) (requests : List (Option Que.Request))
  | queueQids (requests : List (Option Que.QidRequest))
  | queuePlan (plans : List DbPlan)
  | queuePlanId (plan : DbPlan)
  | clear
  | remove (index : Int)
  | move (index newindex : Int)
  | updateTimes (index : Int) (tStart tEnd : Option Int)
  | queueNow (now tarId : Int) (once : Bool)
  | beforeChange (now : Int)
  | sortQueue
  | selectNext (now : Int) (nextTime nextLength : Option Int) (removeObserved : Bool)
  | setValues (values : QueueValues)
  | setRepN (repN : List Int)
  | setRepSeparation (separation : List (Option Int))
  deriving DecidableEq, Repr

def QueueCall.serve (w : World) : QueueCall → Que Unit
  | .addFront tarId tStart tEnd => do
    let tar ← Que.createTarget w tarId
    discard (Que.addFront w tar tStart tEnd)
  | .queue index tryFirstPossible requests =>
    discard (Que.queueFromConn w index tryFirstPossible requests)
  | .queueQids requests => discard (Que.queueFromConnQids w requests)
  | .queuePlan plans => Que.queuePlan w plans
  | .queuePlanId plan => Que.queuePlanId w plan
  | .clear => Que.clearNext w
  | .remove index => discard (Que.removeIndex w index)
  | .move index newindex => discard (Que.moveIndex w index newindex)
  | .updateTimes index tStart tEnd => discard (Que.updateIndexTimes w index tStart tEnd)
  | .queueNow now tarId once => discard (Que.queueNow w now tarId once)
  | .beforeChange now => Que.beforeChange w now
  | .sortQueue => do
    Que.sortQueue w
    Que.updateVals w
  | .selectNext now nextTime nextLength removeObserved =>
    discard (Que.selectNextObservation w now nextTime nextLength removeObserved)
  | .setValues values => modify fun s => { s with queue := { s.queue with values := values } }
  | .setRepN repN => Que.setRepN w repN
  | .setRepSeparation separation => Que.setRepSeparation w separation

/-- The queues of `SelectorDev`, the queue the simulation fills, and the copies
it takes the targets from. -/
structure Selector where
  pool : Pool
  queues : List ExecutorQueue
  simulQueue : ExecutorQueue
  sqs : List ExecutorQueue
  deriving DecidableEq, Repr

/-- The queues are loaded when the selector starts. -/
def Selector.new (queues : Nat) : Selector where
  pool := Pool.new
  queues := List.replicate queues ExecutorQueue.new
  simulQueue := ExecutorQueue.new
  sqs := []

inductive Place where
  | queue (i : Nat)
  | simulQueue
  | sqs (i : Nat)
  deriving DecidableEq, Repr

def Selector.queueAt (s : Selector) : Place → Option ExecutorQueue
  | .queue i => s.queues[i]?
  | .simulQueue => some s.simulQueue
  | .sqs i => s.sqs[i]?

def Selector.setAt (s : Selector) (q : ExecutorQueue) : Place → Selector
  | .queue i => { s with queues := s.queues.set i q }
  | .simulQueue => { s with simulQueue := q }
  | .sqs i => { s with sqs := s.sqs.set i q }

inductive SelectorCall where
  | call (i : Nat) (call : QueueCall)
  | load (i : Nat) (rows : List QueuedTarget)
  | simulate
  | simulFilter (i : Nat) (t : Int)
  | simulSelected (i : Nat) (tarId fr t : Int)
  | simulFinished
  deriving DecidableEq, Repr

abbrev Sel := Prog Selector Fault

namespace Sel

/-- An operation of the queue at a place, if there is one. -/
def onQueue (p : Place) (x : Que Unit) : Sel Unit := do
  match (← get).queueAt p with
  | none => pure ()
  | some q =>
    zoom (fun s => ⟨s.pool, q⟩) (fun r s => { s.setAt r.queue p with pool := r.pool }) x

/-- A copy of a queue for the simulation. Where a target cannot be created, the
copy is gone and its targets are left. -/
def copyQueue (w : World) (eq : ExecutorQueue) : Sel Unit := do
  let empty := { eq with entries := [], currentTarget := none, simul := true }
  let sq ← zoom (fun s => ⟨s.pool, empty⟩) (fun r s => { s with pool := r.pool }) do
    Que.copyEntries w eq.entries
    return (← get).queue
  modify fun s => { s with sqs := s.sqs ++ [sq] }

/-- `SimulQueue::start`. -/
def simulate (w : World) : Sel Unit := do
  modify fun s => { s with sqs := [] }
  (← get).queues.forM fun eq => copyQueue w eq
  onQueue .simulQueue (Que.modifyEntries fun _ => [])

/-- `SimulQueue::step`, once a target of a copy has been selected from `fr` to
`t`. The arguments for `hard` and `persistent` come one place too early. -/
def simulSelected (w : World) (i : Nat) (tarId fr t : Int) : Sel Unit := do
  onQueue .simulQueue do
    let tar ← Que.createTarget w tarId
    discard (Que.addTarget w tar (some fr) (some t) (-1) (-1) (some 0) 0 false)
  onQueue (.sqs i) (Que.beforeChange w t)

/-- The end of the simulation. -/
def simulFinished (w : World) : Sel Unit := do
  (List.range (← get).sqs.length).forM fun i =>
    onQueue (.sqs i) do
      Que.clearSimul (← get).queue.entries
  onQueue .simulQueue (Que.updateVals w)

def serve (w : World) : SelectorCall → Sel Unit
  | .call i call => onQueue (.queue i) (call.serve w)
  | .load i rows => onQueue (.queue i) (Que.load w rows)
  | .simulate => simulate w
  | .simulFilter i t => onQueue (.sqs i) (discard (Que.filter w t none true))
  | .simulSelected i tarId fr t => simulSelected w i tarId fr t
  | .simulFinished => simulFinished w

/-- A run of the selector goes on after an error. -/
def run (w : World) (calls : List SelectorCall) : Sel Unit :=
  calls.forM fun call => tryCatch (serve w call) fun
    | .error => pure ()
    | .emptyFront => throw .emptyFront

/-- `~SelectorDev`. The copies do not own their targets. -/
def destroy : Sel Unit := do
  onQueue .simulQueue Que.destroy
  (List.range (← get).queues.length).forM fun i => onQueue (.queue i) Que.destroy

end Sel
end Rts2.Plan
