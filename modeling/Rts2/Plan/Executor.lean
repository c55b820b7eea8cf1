import Rts2.Plan.TargetQueue
import Rts2.Status

/-! # The executor

`Executor` holds the current target and one queue of the next ones. Commands,
the state of the central daemon and the events of the devices make it switch
between them. Whatever it posts reaches the devices, and they may come back with
an event before the call that posted has gone on. -/
namespace Rts2.Plan
open Rts2.Lib

/-- `Executor`, with the values that decide what it does. `currentTarget` is in
the pool, the queue is the one named `next`. -/
structure Executor extends QueState where
  targetsQue : List Target
  masterState : Status
  execEnd : Bool
  enabled : Bool
  autoLoop : Bool
  defaultAutoLoop : Bool
  nextNight : Bool
  flatsDone : Bool
  ignoreDay : Bool
  selectorNext : Bool
  doDarks : Int
  currentPlanId : Int
  deriving DecidableEq, Repr

def Executor.new (masterState : Status) : Executor where
  pool := Pool.new
  queue := ExecutorQueue.new
  targetsQue := []
  masterState := masterState
  execEnd := false
  enabled := true
  autoLoop := true
  defaultAutoLoop := true
  nextNight := false
  flatsDone := false
  ignoreDay := false
  selectorNext := true
  doDarks := 2
  currentPlanId := -1

/-- What the executor is called for. -/
inductive Call where
  | grb (grbId : Int)
  | shower
  | now (tarId : Int) (single : Bool)
  | queue (tarIds : List (Option Int))
  | queueAt (requests : List (Option (Int × Option Int × Option Int)))
  | next (tarId : Int) (fromSelector : Bool)
  | nextPlan (planId : Int) (fromSelector : Bool)
  | skip
  | endCommand
  | stop
  | clear
  | disable
  | setNextId (nextId : Int)
  | setQueueValues (values : QueueValues)
  | setValues (enabled autoLoop defaultAutoLoop flatsDone ignoreDay selectorNext : Bool)
      (doDarks : Int)
  | changeMasterState (newState : Status)
  | scriptEnded
  | lastReadout
  | moveFailed (killed : Bool)
  | event
  deriving DecidableEq, Repr

/-- What the executor finds outside. A handler of an event it posts may call
back, `handlers` says how. -/
structure ExecWorld extends World where
  now : Nat → Int
  isContinues : Nat → Target → Int
  endObservation : Nat → Target → Int → Option Int
  scriptCount : Nat → Int
  planTarget : Nat → Int → Option Int
  grbdValidity : Nat → Int
  checkConstraints : Nat → Target → Bool
  grbAboveHorizon : Nat → Target → Bool
  targetEnabled : Nat → Target → Bool
  sameGrb : Nat → Target → Target → Bool
  compareSepLimit : Nat → Target → Target → Int
  compareMinSep : Nat → Target → Target → Int
  handlers : Nat → List Call

def ExecWorld.quiet : ExecWorld where
  toWorld := World.quiet
  now := fun n => n
  isContinues := fun _ _ => 0
  endObservation := fun _ _ _ => some 0
  scriptCount := fun _ => 0
  planTarget := fun _ planId => some planId
  grbdValidity := fun _ => 1
  checkConstraints := fun _ _ => true
  grbAboveHorizon := fun _ _ => true
  targetEnabled := fun _ _ => true
  sameGrb := fun _ _ _ => false
  compareSepLimit := fun _ _ _ => 0
  compareMinSep := fun _ _ _ => 0
  handlers := fun _ => []

abbrev Exec := Prog Executor Fault

namespace Exec

/-- An operation of the active queue. -/
def onQueue {α : Type} (x : Que α) : Exec α :=
  zoom Executor.toQueState (fun q s => { s with toQueState := q }) x

def ask {α : Type} (question : Nat → α) : Exec α :=
  onQueue (Que.ask question)

def setCurrent (t : Option Target) : Exec Unit :=
  onQueue (modify fun s => { s with pool := s.pool.setCurrent t })

def delete (t : Target) : Exec Unit :=
  onQueue (Que.delete t)

/-- `catch (rts2core::Error &)`. -/
def catchError {α : Type} (x handler : Exec α) : Exec α :=
  tryCatch x fun
    | .error => handler
    | .emptyFront => throw .emptyFront

section Functions
variable (w : ExecWorld) (post : Exec Unit)

def createTarget (tarId : Int) : Exec Target :=
  onQueue (Que.createTarget w.toWorld tarId)

/-- `Target::endObservation`. -/
def endObservation (t : Target) (nextId : Int) : Exec Int := do
  match ← ask (w.endObservation · t nextId) with
  | none => throw .error
  | some ret => return ret

/-- `Target::postprocess` returns 0, so no target is deleted here. -/
def processTarget (inTarget : Target) : Exec Unit := do
  if inTarget.type = Target.typeFlat then modify fun s => { s with flatsDone := true }
  modify fun s => { s with targetsQue := s.targetsQue ++ [inTarget] }

def clearNextTargets : Exec Unit := do
  let s ← get
  onQueue (Que.setCurrentTarget s.pool.currentTarget)
  onQueue (Que.clearNext w.toWorld)
  modify fun s => { s with autoLoop := s.defaultAutoLoop }

/-- The observation of the current target, if any, is over. -/
def endCurrent : Exec Unit := do
  match (← get).pool.currentTarget with
  | none => pure ()
  | some ct =>
    discard (endObservation w ct (-1))
    processTarget ct

/-- A target whose conditions have changed is queued anew. -/
def requeueContinues : Exec Unit := do
  match (← get).pool.currentTarget with
  | none => pure ()
  | some ct =>
    let continues ← ask (w.isContinues · ct)
    let front := (← get).queue.entries.head?
    if continues = 2 ∧ front.all (·.target.tarId = ct.tarId) then
      let nt ← createTarget w ct.tarId
      discard (onQueue (Que.addFront w.toWorld nt none none))

/-- Without auto loop an observation that has started is not executed again. -/
def dropStarted : Exec Unit := do
  match (← get).pool.currentTarget with
  | none => pure ()
  | some ct =>
    if (← ask w.sky).observationStarted ct ∧ (← get).autoLoop = false then
      setCurrent none
      modify fun s => { s with currentPlanId := -1 }

def doSwitch : Exec Unit := do
  let s ← get
  onQueue (Que.setCurrentTarget s.pool.currentTarget)
  let now ← ask w.now
  onQueue (Que.beforeChange w.toWorld now)
  requeueContinues w
  dropStarted w
  modify fun s => { s with autoLoop := s.defaultAutoLoop }
  let s ← get
  match s.queue.entries with
  | [] => pure ()
  | front :: _ =>
    match s.pool.currentTarget with
    | some ct =>
      let ret ← endObservation w ct front.target.tarId
      unless ret = 1 ∧ front.target.tarId = ct.tarId do
        processTarget ct
        setCurrent (some front.target)
    | none => setCurrent (some front.target)
    modify fun s => { s with currentPlanId := front.planId }
  if (← get).pool.currentTarget.isSome then post

/-- The end of an observation that nothing follows. -/
def endAll : Exec Unit := do
  endCurrent w
  setCurrent none
  clearNextTargets w

/-- Whether the state of the central daemon lets the target change. -/
def mayObserve (s : Executor) : Bool :=
  if s.ignoreDay then true
  else if s.masterState ∈ [Status.serverdEvening, Status.serverdDusk, Status.serverdNight,
      Status.serverdDawn] then true
  else if s.masterState ∈ [Status.serverdDusk ||| Status.serverdStandby,
      Status.serverdNight ||| Status.serverdStandby,
      Status.serverdDawn ||| Status.serverdStandby] then
    -- darks only
    s.pool.currentTarget.isNone && s.queue.entries.head?.any (·.target.tarId = 1)
  else false

def switchTarget : Exec Int := do
  let s ← get
  if s.enabled = false then
    clearNextTargets w
    return -1
  if s.execEnd ∨ (s.autoLoop = false ∧ s.queue.entries = []) then
    modify fun s => { s with execEnd := false }
    if s.autoLoop then post
    endAll w
    return 0
  if mayObserve s then
    doSwitch w post
    return 0
  endAll w
  return -1

def stop : Exec Unit := do
  modify fun s => { s with flatsDone := false }
  clearNextTargets w
  -- EVENT_KILL_ALL and EVENT_STOP_OBSERVATION
  post
  post
  if (← ask w.scriptCount) = 0 then discard (switchTarget w post)

/-- `setNow (Target *, int)`. -/
def setNowTarget (newTarget : Target) (planId : Int) : Exec Int := do
  endCurrent w
  setCurrent (some newTarget)
  modify fun s => { s with currentPlanId := planId }
  clearNextTargets w
  post
  return 0

/-- `currentTarget && currentTarget->getTargetType () == type`. -/
def currentIs (s : Executor) (type : Char) : Bool :=
  s.pool.currentTarget.any (·.type = type)

/-- `queueTarget` once its target has been created. The plan goes where
`addTarget` takes the repetitions. -/
def queueCreated (nt : Target) (tStart tEnd : Option Int) (planId : Int) : Exec Int := do
  let s ← get
  if nt.type = Target.typeDark ∧ s.doDarks = 0 then
    if currentIs s Target.typeFlat = false then stop w post
    delete nt
    return 0
  if currentIs s Target.typeFlat ∧ nt.type ≠ Target.typeFlat ∧
      s.masterState ∈ [Status.serverdNight, Status.serverdMorning] then
    return ← setNowTarget w post nt planId
  if s.masterState ∈ [Status.serverdDusk, Status.serverdDawn] ∧ nt.type = Target.typeFlat ∧
      currentIs s Target.typeFlat = false then
    return ← setNowTarget w post nt planId
  -- kill darks during nights
  if s.nextNight ∧ s.masterState = Status.serverdNight ∧ currentIs s Target.typeDark ∧
      nt.type ≠ Target.typeDark then
    discard (setNowTarget w post nt planId)
    modify fun s => { s with nextNight := false }
  discard (onQueue (Que.addTarget w.toWorld nt tStart tEnd (-1) planId none (-1) false))
  if (← get).pool.currentTarget.isNone then
    return if (← switchTarget w post) = 0 then 0 else -2
  return 0

def queueTarget (tarId : Int) (tStart tEnd : Option Int) (planId : Int) : Exec Int :=
  catchError (do
    let nt ← createTarget w tarId
    queueCreated w post nt tStart tEnd planId) (return -2)

/-- The front of the queue is the wanted one, and no flats are in the way. -/
def askedForSame (s : Executor) (same : QueuedTarget → Bool) : Bool :=
  s.queue.entries.head?.any same && !currentIs s Target.typeFlat

def setNext (nextId : Int) : Exec Int := do
  let s ← get
  if askedForSame s (·.target.tarId = nextId) then return 0
  if s.queue.entries ≠ [] then clearNextTargets w
  queueTarget w post nextId none none (-1)

/-- The plan has a target of its own, which goes with it. -/
def setNextPlan (nextPlanId : Int) : Exec Int := do
  let s ← get
  if askedForSame s (·.planId = nextPlanId) then return 0
  if s.queue.entries ≠ [] then clearNextTargets w
  match ← ask (w.planTarget · nextPlanId) with
  | none => throw .error
  | some tarId =>
    let planTarget ← createTarget w tarId
    let ret ← queueTarget w post planTarget.tarId none none nextPlanId
    delete planTarget
    return ret

/-- `setNow (int, int)`. -/
def setNow (nextId planId : Int) : Exec Int := do
  if (← get).pool.currentTarget.isNone then return ← setNext w post nextId
  catchError (do
    let newTarget ← createTarget w nextId
    setNowTarget w post newTarget planId) (return -2)

/-- `delete grbTarget` in the handler of `setGrb`, whoever has the target by
then. -/
def dropNew (t : Target) : Exec Unit := do
  let s ← get
  onQueue (Que.check (.dropNew (PointsTo s.pool.currentTarget t ∨
    t.addr ∈ s.queue.entries.map (·.target.addr))))
  delete t

/-- `setGrb` once its target has been created. -/
def grbCreated (grbTarget : Target) : Exec Int := do
  if (← ask (w.checkConstraints · grbTarget)) = false then
    delete grbTarget
    return -2
  if (← ask (w.grbAboveHorizon · grbTarget)) = false then
    delete grbTarget
    return -2
  if (← ask (w.targetEnabled · grbTarget)) = false then
    delete grbTarget
    return 0
  match (← get).pool.currentTarget with
  | none => setNowTarget w post grbTarget (-1)
  | some ct =>
    if ct.type = Target.typeGrb ∧ grbTarget.type = Target.typeGrb ∧
        (← ask (w.sameGrb · grbTarget ct)) then
      delete grbTarget
      return 0
    if (← ask (w.compareSepLimit · grbTarget ct)) = 0 then
      return ← setNowTarget w post grbTarget (-1)
    if (← ask (w.compareMinSep · grbTarget ct)) = 1 then
      delete grbTarget
      return 0
    clearNextTargets w
    discard (onQueue (Que.addTarget w.toWorld grbTarget none none (-1) (-1) none (-1) false))
    return 0

def setGrb (grbId : Int) : Exec Int := do
  if (← get).masterState ∉ [Status.serverdNight, Status.serverdDusk, Status.serverdDawn] then
    return -2
  if (← ask w.grbdValidity) = 0 then return 0
  match ← catchError (do return some (← createTarget w grbId)) (return none) with
  | none => return -2
  | some grbTarget =>
    catchError (grbCreated w post grbTarget) do
      dropNew grbTarget
      return -2

/-- `TARGET_SHOWER`. -/
def targetShower : Int := 12

def setShower : Exec Int := do
  let s ← get
  if s.masterState ≠ Status.serverdNight ∨ currentIs s Target.typeAuger then return -2
  setNow w post targetShower (-1)

/-- Skips the current target for the next one. -/
def skip : Exec Int := do
  match (← get).queue.entries with
  | [] => return -2
  | front :: _ =>
    if front.target.tarId < 0 then return -2
    setNow w post front.target.tarId front.planId

/-! ## Calls -/

/-- `setNow` of the next target, where the current one is of a type that has to
go. -/
def replaceCurrent (type : Char) : Exec Unit := do
  let s ← get
  match s.queue.entries with
  | [] => pure ()
  | front :: _ =>
    if currentIs s type then discard (setNow w post front.target.tarId front.planId)

/-- A free executor with targets in the queue takes the first. -/
def startQueue : Exec Unit := do
  modify fun s => { s with execEnd := false }
  let s ← get
  if s.pool.currentTarget.isNone ∧ s.queue.entries ≠ [] then discard (switchTarget w post)

/-- Darks are taken in standby, if they can be created. -/
def queueDarks : Exec Unit :=
  catchError (do
    let dark ← createTarget w 1
    discard (onQueue (Que.addFront w.toWorld dark none none))
    if (← get).pool.currentTarget.isNone then discard (switchTarget w post))
    (modify fun s => { s with doDarks := 1 })

def nightStarts : Exec Unit := do
  modify fun s => { s with flatsDone := false, nextNight := true }
  replaceCurrent w post Target.typeDark

def morningStarts : Exec Unit := do
  modify fun s => { s with selectorNext := true }
  replaceCurrent w post Target.typeFlat

def standbyStarts : Exec Unit := do
  stop w post
  if (← get).doDarks = 2 then queueDarks w post

/-- The case of a night goes on with those of the morning and the twilights. -/
def changeMasterState (newState : Status) : Exec Unit := do
  let state := newState &&& (Status.serverdStatusMask ||| Status.serverdOnoffMask)
  modify fun s => { s with masterState := state }
  if (← get).ignoreDay then return ()
  modify fun s => { s with nextNight := false }
  if state = Status.serverdNight then
    nightStarts w post
    morningStarts w post
    startQueue w post
  else if state = Status.serverdMorning then
    morningStarts w post
    startQueue w post
  else if state ∈ [Status.serverdEvening, Status.serverdDawn, Status.serverdDusk] then
    startQueue w post
  else if state ∈ [Status.serverdDawn ||| Status.serverdStandby,
      Status.serverdNight ||| Status.serverdStandby,
      Status.serverdDusk ||| Status.serverdStandby] then
    standbyStarts w post
  else stop w post

/-- `updateScriptCount`, and the switch when no script is running. -/
def switchIfDone : Exec Unit := do
  if (← ask w.scriptCount) = 0 then discard (switchTarget w post)

/-- `next` and `next_plan`: the selector may be told to wait. -/
def fromNext (fromSelector : Bool) (setNext : Exec Int) : Exec Int := do
  if fromSelector && !(← get).selectorNext then return -2
  modify fun s => { s with selectorNext := true }
  setNext

/-- `commandAuthorized`, `setValue`, `changeMasterState` and `postEvent`. -/
def serve : Call → Exec Unit
  | .grb grbId => discard (setGrb w post grbId)
  | .shower => discard (setShower w post)
  | .now tarId single => do
    unless single do modify fun s => { s with selectorNext := true }
    discard (setNow w post tarId (-1))
  | .queue tarIds => tarIds.forM fun
    | none => pure ()
    | some tarId => discard (queueTarget w post tarId none none (-1))
  | .queueAt requests => requests.forM fun
    | none => pure ()
    | some (tarId, tStart, tEnd) => discard (queueTarget w post tarId tStart tEnd (-1))
  | .next tarId fromSelector => discard (fromNext fromSelector (setNext w post tarId))
  | .nextPlan planId fromSelector => discard (fromNext fromSelector (setNextPlan w post planId))
  | .skip => discard (skip w post)
  | .endCommand => modify fun s => { s with execEnd := true }
  | .stop => do
    modify fun s => { s with selectorNext := false, execEnd := true }
    stop w post
  | .clear => clearNextTargets w
  | .disable => do
    stop w post
    modify fun s => { s with enabled := false }
  | .setNextId nextId => discard (setNext w post nextId)
  | .setQueueValues values =>
    onQueue (modify fun s => { s with queue := { s.queue with values := values } })
  | .setValues enabled autoLoop defaultAutoLoop flatsDone ignoreDay selectorNext doDarks =>
    modify fun s => { s with
      enabled := enabled
      autoLoop := autoLoop
      defaultAutoLoop := defaultAutoLoop
      flatsDone := flatsDone
      ignoreDay := ignoreDay
      selectorNext := selectorNext
      doDarks := doDarks }
  | .changeMasterState newState => changeMasterState w post newState
  | .scriptEnded => do
    switchIfDone w post
    post
  | .lastReadout => do
    switchIfDone w post
    post
  | .moveFailed killed => do
    unless killed do
      -- EVENT_STOP_OBSERVATION, EVENT_CLEAR_WAIT
      post
      post
      switchIfDone w post
    post
  | .event => post

end Functions

/-- What posting an event does: the handlers call back, and their calls post
again, `depth` times over. -/
def post (w : ExecWorld) : Nat → Exec Unit
  | 0 => pure ()
  | depth + 1 => do
    let calls ← ask w.handlers
    calls.forM (serve w (post w depth))

/-- A run of the executor. An error that nobody catches ends it. -/
def run (w : ExecWorld) (depth : Nat) (calls : List Call) : Exec Unit :=
  calls.forM (serve w (post w depth))

/-- `~Executor`. The member is gone with the executor, which deletes what it
points to. -/
def destroy (w : ExecWorld) (depth : Nat) : Exec Unit := do
  post w depth
  let currentTarget := (← get).pool.currentTarget
  setCurrent none
  match currentTarget with
  | none => pure ()
  | some ct => delete ct
  onQueue (Que.setCurrentTarget currentTarget)
  onQueue (Que.clearNext w.toWorld)
  onQueue Que.destroy
end Exec
end Rts2.Plan
