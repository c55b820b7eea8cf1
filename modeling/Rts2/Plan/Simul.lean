import Rts2.Db.SatisfiedDuration
import Rts2.Lib.Run
import Rts2.Lib.Triple

/-! # The simulation of the queues

`SimulQueue::step` selects the next target from copies of the queues and puts it, with the
times it takes, into the queue of the simulation. Times come from the entries, from the
scripts and from the constraints of a target: they may be NaN or infinite. -/
namespace Rts2.Plan.Simul
open Rts2.Lib Rts2.Db

variable {α ω π β : Type}

/-- A `QueuedTarget` of a simulated queue. -/
structure Entry (α : Type) where
  target : α
  tarId : Int
  tStart : Double
  tEnd : Double

/-- An entry of the queue of the simulation. -/
structure Observation where
  tarId : Int
  tStart : Double
  tEnd : Double

/-- What the simulation asks of the queues, by their numbers, of the targets and of the
database, all of which may throw and keep a state `ω` of their own. -/
structure Services (α ω π : Type) where
  libnova : Libnova
  queueEnabled : Nat → ω → Bool
  removeAfterExecution : Nat → ω → Bool
  filter : Nat → Double → Prog (List (Entry α) × ω) Unit Unit
  getPosition : α → ℚ → Prog ω Unit π
  /-- For each camera, unless `rts2core::Error` is thrown. -/
  getExpectedDuration : α → π → ω → Option (List Double)
  isAboveHorizon : Nat → Entry α → ℚ → Prog ω Unit Bool
  satisfy : α → Prog ω Unit (ℚ → Bool)
  satisfied : α → ω → Satisfied
  setSatisfied : α → Satisfied → ω → ω
  createTarget : Int → Prog ω Unit Unit
  createEntry : Prog ω Unit Unit
  startObservation : α → Prog ω Unit Unit
  beforeChange : Nat → Double → Prog (List (Entry α) × ω) Unit Unit
  updateVals : Prog ω Unit Unit

/-- `SimulQueue` -/
structure Simulation (α ω π : Type) where
  sqs : List (List (Entry α))
  fr : Double
  t : Double
  currentp : π
  observations : List Observation
  world : ω

/-- Why a call does not return: an exception, which nothing around the call catches, or what
C++ leaves undefined, the conversion of an infinite time and a loop without an end. -/
inductive Failure where
  | thrown
  | undefined

abbrev Sim (α ω π β : Type) := Prog (Simulation α ω π) Failure β

/-- What is asked of the world. -/
def ask (x : Prog ω Unit β) : Sim α ω π β := fun s =>
  match x s.world with
  | (.ok b, w) => (.ok b, { s with world := w })
  | (.error _, w) => (.error .thrown, { s with world := w })

/-- What is done to a queue. -/
def onQueue (q : Nat) (x : Prog (List (Entry α) × ω) Unit β) : Sim α ω π β := fun s =>
  match x (s.sqs.getD q [], s.world) with
  | (.ok b, sq, w) => (.ok b, { s with sqs := s.sqs.set q sq, world := w })
  | (.error _, sq, w) => (.error .thrown, { s with sqs := s.sqs.set q sq, world := w })

/-- A value that C++ may leave undefined. -/
def defined : Option β → Sim α ω π β
  | some b => pure b
  | none => throw .undefined

/-- A time that is converted to a `time_t`. -/
def finite : Double → Option ℚ
  | .fin x => some x
  | _ => none

/-- `QueuedTarget::notExpired` -/
def notExpired (e : Entry α) (now : Double) : Bool :=
  (e.tStart.isNan || e.tStart ≤ now) && (e.tEnd.isNan || now < e.tEnd)

/-- `getMaximalScriptDuration`, of the durations for the cameras. -/
def maximalScriptDuration (durations : List Double) : Double :=
  durations.foldl (fun md d => if md < d then d else md) (.fin 0)

section
variable (S : Services α ω π)

/-- `TargetQueue::getMaximalDuration` -/
def getMaximalDuration (target : α) (currentp : π) (w : ω) : Double :=
  match S.getExpectedDuration target currentp w with
  | some durations => maximalScriptDuration durations
  | none => .nan

/-- `Target::getSatisfiedDuration`, with what the target keeps. -/
def getSatisfiedDuration (target : α) (fromT toT length step : Double) : Sim α ω π Double := do
  let fromT ← defined (finite fromT)
  let toT ← defined (finite toT)
  let length ← defined (finite length)
  let step ← defined (finite step)
  let satisfy ← ask (S.satisfy target)
  let c := S.satisfied target (← get).world
  let (r, c) ← defined (c.getSatisfiedDuration S.libnova satisfy fromT toT length step)
  modify fun s => { s with world := S.setSatisfied target c s.world }
  return r.toDouble

/-- What `selectNextSimulation` returns and writes; `nextp` only with a target. -/
structure Selection (π : Type) where
  nId : Int
  eEnd : Double
  nextp : Option π

/-- The end of the observation of a target that can be observed. -/
def selectedEnd (q : Nat) (front : Entry α) (fromT toT md : Double) : Sim α ω π Double := do
  if S.removeAfterExecution q (← get).world then
    return fromT + md
  else if !front.tEnd.isNan then
    return front.tEnd
  else
    let eEnd ← getSatisfiedDuration S front.target fromT toT md (.fin 60)
    return if eEnd.isNan then toT else eEnd

/-- `ExecutorQueue::selectNextSimulation` -/
def selectNextSimulation (q : Nat) (fromT toT eEnd : Double) : Sim α ω π (Selection π) := do
  let s ← get
  if S.queueEnabled q s.world = false then
    return ⟨-1, eEnd, none⟩
  match s.sqs.getD q [] with
  | [] => return ⟨-1, eEnd, none⟩
  | front :: _ =>
    let tn ← defined (finite fromT)
    let jd := S.libnova.julian (toTimet tn)
    let nextp ← ask (S.getPosition front.target jd)
    let md := getMaximalDuration S front.target s.currentp (← get).world
    let above ← ask (S.isAboveHorizon q front jd)
    if above && notExpired front fromT && fromT + md < toT then
      let eEnd ← selectedEnd S q front fromT toT md
      return ⟨front.tarId, eEnd, some nextp⟩
    else
      return ⟨-1, front.tStart, none⟩

/-- The start of the first target of the queues above, where it is due before the end. -/
def cutEnd (upper : List (List (Entry α))) (t eEnd : Double) : Double :=
  ((upper.filterMap List.head?).find? fun e =>
    !e.tStart.isNan && e.tStart < eEnd && t < e.tStart).elim eEnd Entry.tStart

/-- A target is added to the simulation. -/
def simulate (q : Nat) (selection : Selection π) : Sim α ω π Unit := do
  modify fun s => { s with t := selection.eEnd }
  ask (S.createTarget selection.nId)
  ask S.createEntry
  modify fun s => { s with observations := s.observations ++ [⟨selection.nId, s.fr, s.t⟩] }
  ask S.updateVals
  match (← get).sqs.getD q [] with
  | [] => throw .undefined
  | front :: _ => ask (S.startObservation front.target)
  onQueue q (S.beforeChange q (← get).t)
  modify fun s => { s with currentp := selection.nextp.getD s.currentp }

/-- The loop over the queues: whether a target was found, and the end. -/
def stepQueues (toT : ℚ) : List Nat → Double → Double → Sim α ω π (Bool × Double)
  | [], _, eEnd => return (false, eEnd)
  | q :: queues, tTo, eEnd => do
    let t := (← get).t
    onQueue q (S.filter q t)
    let selection ← selectNextSimulation S q t tTo eEnd
    if 0 < selection.nId then
      let eEnd := cutEnd ((← get).sqs.take q) t selection.eEnd
      simulate S q { selection with eEnd := eEnd }
      return (true, eEnd)
    else
      let eEnd := selection.eEnd
      stepQueues toT queues (if !eEnd.isNan && eEnd < .fin toT then eEnd else tTo) eEnd

/-- What a call reports: the progress, negative without a target, or 2. -/
inductive Report where
  | progress (p : Double)
  | completed

/-- `SimulQueue::step` -/
def step (fromT toT : ℚ) : Sim α ω π Report := do
  let s ← get
  if s.t < .fin toT then
    let (found, eEnd) ← stepQueues S toT (List.range s.sqs.length) (.fin toT) .nan
    modify fun s =>
      let t := if found && !eEnd.isNan && s.t < eEnd then eEnd else s.t + .fin 60
      { s with t := t, fr := t }
    let t := (← get).t
    return .progress
      (if found then (t - .fin fromT).divPos (toT - fromT) else (.fin fromT - t).divPos (toT - fromT))
  else
    modify fun s => { s with sqs := s.sqs.map fun _ => [] }
    ask S.updateVals
    return .completed

end

/-- `SimulQueue::start` -/
def start (fromT : ℚ) (sqs : List (List (Entry α))) (currentp : π) (world : ω) : Simulation α ω π where
  sqs := sqs
  fr := .fin fromT
  t := .fin fromT
  currentp := currentp
  observations := []
  world := world

end Rts2.Plan.Simul
