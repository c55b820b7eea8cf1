import Rts2.Lib.Run

/-! # Image processor

`changeRunning` and `deleteConnection` call each other, and both call the reprocessing of
a directory, which calls `changeRunning` again. The processor is a machine with a stack
of calls: an input answers what the call on the top asks for, whether `init` of a process
succeeds, the result of a finished job or the files of a directory, or it is an event when
no call is in progress. -/
namespace Rts2.Plan.Imgproc
open Rts2.Lib

/-- `astrometry_stat_t` -/
inductive AstrometryStat where
  | NOT_ASTROMETRY
  | TRASH
  | GET
  | DARK
  | BAD
  | FLAT
  | OBS
  deriving DecidableEq

/-- A `ConnProcess`, with `getProcessArguments`. -/
structure ConnProcess where
  id : Nat
  processArguments : String
  deriving DecidableEq

structure Counters where
  goodImages : Nat
  trashImages : Nat
  badImages : Nat
  darkImages : Nat
  flatImages : Nat
  numObs : Nat
  deriving DecidableEq

/-- The `switch` of `deleteConnection`. -/
def Counters.inc (c : Counters) : AstrometryStat → Counters
  | .GET => { c with goodImages := c.goodImages + 1 }
  | .NOT_ASTROMETRY => { c with trashImages := c.trashImages + 1 }
  | .TRASH => { c with trashImages := c.trashImages + 1 }
  | .BAD => { c with badImages := c.badImages + 1 }
  | .FLAT => { c with flatImages := c.flatImages + 1 }
  | .DARK => { c with darkImages := c.darkImages + 1 }
  | .OBS => { c with numObs := c.numObs + 1 }

/-- A call in progress, at the place where it goes on. -/
inductive Frame where
  | changeRunning (newImage : ConnProcess) (slot : Int)
  /-- `changeRunning`, after it deleted a process that did not start. -/
  | notStarted (slot : Int)
  | deleteConnection (conn : ConnProcess)
  /-- `deleteConnection`, after it started the next process. -/
  | nextStarted (slot : Int)
  | queNextFromGlob
  /-- The loop of `queNextFromGlob`. -/
  | globLoop
  /-- The loop of `queNextFromGlob`, after it queued an image. -/
  | globQueued
  | checkNotProcessed
  /-- The loop of `checkNotProcessed`. -/
  | fillSlots (i : Nat)
  deriving DecidableEq

inductive Event where
  | que_image (path : String)
  | only_process (path : String)
  | do_image (path : String)
  /-- `que_obs`; the script for observations may not be executable. -/
  | que_obs (executable : Bool) (target : String)
  | reprocess
  | stop_reprocess
  | setImageGlob (glob : String)
  /-- A process ended, and its connection is deleted. -/
  | ended (conn : ConnProcess)
  | idle
  /-- `changeMasterState`, to a state of the night that is on or to another one. -/
  | changeMasterState (night : Bool)
  /-- `reloadConfig` that ends early, or with `imageglob` and `num_proc`. -/
  | reloadConfig (config : Option (String × Int))
  deriving DecidableEq

/-- What a step may ask for. -/
structure Input where
  event : Event
  starts : Bool
  astrometryStat : AstrometryStat
  glob : Option (List String)

/-- The processor. `submitted`, `finished` and `processes` are the jobs that were submitted,
those that were counted and the processes that run; `outside` is set once a slot outside
the array is used. -/
structure ImageProc where
  imagesQue : List ConnProcess
  runningImage : Option (List (Option ConnProcess))
  numProc : Int
  sendStop : Bool
  image_glob : String
  imageGlob : List String
  globPos : Nat
  reprocessingPossible : Bool
  counters : Counters
  stack : List Frame
  submitted : List ConnProcess
  finished : List (ConnProcess × AstrometryStat)
  processes : List ConnProcess
  outside : Bool
  deriving DecidableEq

def ImageProc.start : ImageProc where
  imagesQue := []
  runningImage := none
  numProc := 0
  sendStop := false
  image_glob := ""
  imageGlob := []
  globPos := 0
  reprocessingPossible := false
  counters := ⟨0, 0, 0, 0, 0, 0⟩
  stack := []
  submitted := []
  finished := []
  processes := []
  outside := false

namespace ImageProc
variable (s : ImageProc)

/-! ## Slots -/

def slots : List (Option ConnProcess) := s.runningImage.getD []

/-- `runningImage[slot]`; what is outside the array is read as `NULL`. -/
def slotAt (slot : Int) : Option ConnProcess :=
  if 0 ≤ slot then s.slots[slot.toNat]?.join else none

/-- A slot is used. -/
def touch (slot : Int) : ImageProc :=
  { s with outside := s.outside || !(decide (0 ≤ slot) && decide (slot < s.slots.length)) }

/-- All slots below `numProc` are used. -/
def touchAll : ImageProc :=
  { s with outside := s.outside || decide (s.slots.length < s.numProc) }

/-- `runningImage[slot] = image;` -/
def setSlot (slot : Int) (image : Option ConnProcess) : ImageProc :=
  { s.touch slot with
    runningImage :=
      if 0 ≤ slot then s.runningImage.map (·.set slot.toNat image) else s.runningImage }

/-- The slot of the array below `numProc` that holds this. -/
def findSlot (image : Option ConnProcess) : Option Nat :=
  (List.range s.numProc.toNat).find? fun i => s.slotAt i = image

/-- `getFreeSlot`, which stops at the first free slot. -/
def getFreeSlot : Int := (s.findSlot none).elim (-1) (↑)

/-- The slots `getFreeSlot` has read. -/
def touchFree : ImageProc := if 0 ≤ s.getFreeSlot then s.touch s.getFreeSlot else s.touchAll

/-! ## Calls -/

def call (frames : List Frame) : ImageProc := { s with stack := frames ++ s.stack }

/-- A new process object for a path. -/
def newProcess (path : String) : ConnProcess := ⟨s.submitted.length, path⟩

def submit (path : String) : ImageProc :=
  { s with submitted := s.newProcess path :: s.submitted }

/-- `que`; `infoAll` counts the processes that run. -/
def que (newProc : ConnProcess) (frames : List Frame) : ImageProc :=
  let s := s.touchFree.touchAll
  if s.getFreeSlot < 0 then { s with imagesQue := newProc :: s.imagesQue }.call frames
  else s.call (.changeRunning newProc s.getFreeSlot :: frames)

/-- `queImage` -/
def queImage (path : String) (frames : List Frame) : ImageProc :=
  (s.submit path).que (s.newProcess path) frames

/-- `doImage` -/
def doImage (path : String) : ImageProc :=
  let slot := if s.getFreeSlot < 0 then s.numProc - 1 else s.getFreeSlot
  (s.submit path).touchFree.touchAll.call [.changeRunning (s.newProcess path) slot]

/-- `changeRunning`, up to the deletion of a process that does not start. A process that was
stopped continues, any other one is forked. -/
def changeRunning (newImage : ConnProcess) (slot : Int) (starts : Bool) : ImageProc :=
  let s := s.touch slot
  if (s.slotAt slot).isSome ∧ s.sendStop = false then
    { s with imagesQue := newImage :: s.imagesQue }.touchAll
  else
    let s := { s with imagesQue := (s.slotAt slot).toList ++ s.imagesQue }.setSlot slot newImage
    if starts = false then s.call [.deleteConnection newImage, .notStarted slot]
    else if newImage ∈ s.processes then s.touchAll
    else { s with processes := newImage :: s.processes }.touchAll

/-- The rest of `changeRunning`, when the process did not start. -/
def notStarted (slot : Int) : ImageProc :=
  let s := (s.setSlot slot none).touchAll
  if s.reprocessingPossible then s.call [.checkNotProcessed] else s

/-- The job of a slot is counted, and leaves the slot. -/
def finish (slot : Int) (conn : ConnProcess) (stat : AstrometryStat) : ImageProc :=
  { s with
    imagesQue := s.imagesQue.filter (· ≠ conn)
    counters := s.counters.inc stat
    finished := (conn, stat) :: s.finished }.touchAll.setSlot slot none

/-- The first job that waits is run in the slot. -/
def startNext (slot : Int) : ImageProc :=
  match s.imagesQue with
  | [] => s.call [.nextStarted slot]
  | cp :: rest => { s with imagesQue := rest }.call [.changeRunning cp slot, .nextStarted slot]

/-- `deleteConnection`, up to the start of the next process. -/
def deleteConnection (conn : ConnProcess) (stat : AstrometryStat) : ImageProc :=
  match s.findSlot (some conn) with
  | none => s.touchAll
  | some slot => (s.finish slot conn stat).startNext slot

/-- The rest of `deleteConnection`. -/
def nextStarted (slot : Int) : ImageProc :=
  let s := s.touch slot
  if s.slotAt slot = none then
    if s.reprocessingPossible then s.touchAll.call [.queNextFromGlob] else s.touchAll
  else s

/-! ## Reprocessing -/

/-- An image that another slot processes. -/
def alreadyProcessing (path : String) : Bool :=
  (List.range s.numProc.toNat).any fun i =>
    (s.slotAt i).any fun image => decide (image.processArguments = path)

def globLoop : ImageProc :=
  match s.imageGlob[s.globPos]? with
  | some path =>
    let s := s.touchFree
    if 0 ≤ s.getFreeSlot then
      let s := s.touchAll
      if s.alreadyProcessing path then { s with globPos := s.globPos + 1 }.call [.globLoop]
      else s.queImage path [.globQueued]
    else s
  | none => { s with imageGlob := [], globPos := 0 }

def checkNotProcessed (glob : Option (List String)) : ImageProc :=
  match glob with
  | none => { s with imageGlob := [] }
  | some paths => { s with imageGlob := paths, globPos := 0 }.call [.fillSlots 0]

def fillSlots (i : Nat) : ImageProc :=
  if i < s.imageGlob.length then
    let s := s.touchFree
    if 0 ≤ s.getFreeSlot then s.call [.queNextFromGlob, .fillSlots (i + 1)] else s
  else s

/-- `if (getFreeSlot () >= 0 && imagesQue.size () == 0) checkNotProcessed ();` -/
def reprocess : ImageProc :=
  if s.image_glob.length ≠ 0 then
    let s := { s with reprocessingPossible := true }.touchFree
    if 0 ≤ s.getFreeSlot ∧ s.imagesQue = [] then s.call [.checkNotProcessed] else s
  else s

/-! ## Events -/

/-- `reloadConfig`: the array is allocated once, and cleared. A negative size ends the
program. -/
def reloadConfig (image_glob : String) (np : Int) : ImageProc :=
  match s.runningImage with
  | none =>
    if np < 0 then s
    else
      { s with
        image_glob := image_glob
        numProc := np
        runningImage := some (List.replicate np.toNat none) }
  | some slots =>
    { s with
      image_glob := image_glob
      numProc := np
      runningImage := some (List.replicate (min np.toNat slots.length) none ++ slots.drop np.toNat)
      outside := s.outside || decide (slots.length < np) }

def event : Event → ImageProc
  | .que_image path => s.queImage path []
  | .only_process path => s.queImage path []
  | .do_image path => s.doImage path
  | .que_obs executable target => if executable then s.queImage target [] else s
  | .reprocess => s.reprocess
  | .stop_reprocess => { s with imageGlob := [], globPos := 0 }
  | .setImageGlob glob => { s with image_glob := glob }
  | .ended conn =>
    if conn ∈ s.processes then
      { s with processes := s.processes.erase conn }.call [.deleteConnection conn]
    else s
  | .idle =>
    match s.imagesQue with
    | [] => s
    | newImage :: rest =>
      let s := s.touchFree
      if 0 ≤ s.getFreeSlot then
        { s with imagesQue := rest }.call [.changeRunning newImage s.getFreeSlot]
      else s
  | .changeMasterState true =>
    if s.imageGlob ≠ [] then { s with imageGlob := [], globPos := 0, reprocessingPossible := false }
    else { s with reprocessingPossible := false }
  | .changeMasterState false => s.reprocess
  | .reloadConfig none => s
  | .reloadConfig (some (image_glob, np)) => s.reloadConfig image_glob np

/-- The call on the top of the stack goes on. -/
def resume (a : Input) : Frame → ImageProc
  | .changeRunning newImage slot => s.changeRunning newImage slot a.starts
  | .notStarted slot => s.notStarted slot
  | .deleteConnection conn => s.deleteConnection conn a.astrometryStat
  | .nextStarted slot => s.nextStarted slot
  | .queNextFromGlob => if s.imageGlob = [] then s else s.call [.globLoop]
  | .globLoop => s.globLoop
  | .globQueued => { s with globPos := s.globPos + 1 }.call [.globLoop]
  | .checkNotProcessed => s.checkNotProcessed a.glob
  | .fillSlots i => s.fillSlots i

/-- One step: an event, or the call on the top of the stack. -/
def step (a : Input) : ImageProc :=
  match s.stack with
  | [] => s.event a.event
  | frame :: rest => { s with stack := rest }.resume a frame

end ImageProc

end Rts2.Plan.Imgproc
