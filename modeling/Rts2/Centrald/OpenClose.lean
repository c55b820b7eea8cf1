import Mathlib.Order.Defs.LinearOrder
import Rts2.Centrald.Conditions

/-! # Opening and closing the observatory

`Centrald` opens the devices of `open_sequence` one after another and closes them
in the reverse order. Each request, each change of a device and each close timeout
scans the sequence anew; `open_close_last` is the device commanded last. Times are
any linear order with an addition. -/
namespace Rts2.OpenClose

open Rts2.Lib Rts2.Centrald

/-- The values of `open_close`. -/
inductive Operation where
  | none
  | opening
  | closing
  deriving DecidableEq, Repr

/-- `COMMAND_OPEN` and `COMMAND_CLOSE`. -/
inductive Command where
  | open
  | close
  deriving DecidableEq, Repr

def blocksOpen (c : ConnCentrald) : Bool := c.serverState &&& Status.deviceBlockOpen ≠ 0

def blocksClose (c : ConnCentrald) : Bool := c.serverState &&& Status.deviceBlockClose ≠ 0

/-- `Block::getOpenConnection`. -/
def getOpenConnection (connections : List ConnCentrald) (deviceName : String) :
    Option ConnCentrald :=
  connections.find? fun c => c.name = deviceName

/-- A timer with `EVENT_CLOSE_TIMEOUT`. The event carries nothing: the device the
timer was started for and the closing it was started in are kept for the record. -/
structure Timer (T : Type*) where
  due : T
  device : String
  closing : Nat
  deriving DecidableEq

/-- A command queued, with what the scan decided from. -/
structure Queued where
  command : Command
  device : String
  openSequence : List String
  connections : List ConnCentrald
  failedClose : List String
  deriving DecidableEq

/-- A device added to `close_failed`: the timer that did it, the closing, the time, and
the commands to close that were out. -/
structure Mark (T : Type*) where
  device : String
  timer : Timer T
  closing : Nat
  now : T
  asked : List (String × T)
  deriving DecidableEq

/-- What `Centrald` keeps for opening and closing. `changing` says that `setState` of a
connection runs and has not come to `openCloseChanged`. The last four fields are
records: the number of closings begun, the times at which `COMMAND_CLOSE` was queued in
this closing to devices that have not reported since that they are closed, the commands
queued and the devices marked as failed. -/
structure Central (T : Type*) where
  now : T
  connections : List ConnCentrald := []
  openSequence : List String
  openClose : Operation := .none
  openCloseLast : String := ""
  openCloseTimeout : Option T := none
  failedClose : List String := []
  timers : List (Timer T) := []
  changing : Bool := false
  closings : Nat := 0
  asked : List (String × T) := []
  queued : List Queued := []
  marks : List (Mark T) := []

variable {T : Type*}

namespace Central

/-! ## The sequence -/

def queCommand (s : Central T) (command : Command) (device : String) : Central T :=
  { s with queued := s.queued ++ [{
      command, device
      openSequence := s.openSequence
      connections := s.connections
      failedClose := s.failedClose }] }

/-- `Centrald::updateOpenClose (true)`. -/
def clearOpenClose (s : Central T) : Central T :=
  { s with openClose := .none, openCloseLast := "", openCloseTimeout := none, asked := [] }

/-- `openCloseTimeout` and `openCloseLast` are set, if the device is another one. -/
def setLast [Add T] [OfNat T 180] (s : Central T) (device : String) : Central T :=
  if device ≠ s.openCloseLast then
    { s with openCloseTimeout := some (s.now + 180), openCloseLast := device }
  else s

/-- `Block::addTimer`: the timer takes the place of one that is due at the same time. -/
def addTimer [Add T] [OfNat T 180] [DecidableEq T] (s : Central T) (device : String) : Central T :=
  let timer : Timer T := { due := s.now + 180, device, closing := s.closings }
  { s with timers := s.timers.filter (fun old => old.due ≠ timer.due) ++ [timer] }

section
variable [Add T] [OfNat T 180]

/-- The loop of `Centrald::doOpen`. -/
def openFrom (s : Central T) : List String → Int × Central T
  | [] => (-1, s.clearOpenClose)
  | device :: rest =>
    match getOpenConnection s.connections device with
    | none => (-1, { s with openClose := .none })
    | some dconn =>
      if blocksOpen dconn then (0, (s.queCommand .open device).setLast device)
      else openFrom s rest

/-- `Centrald::doOpen`. -/
def doOpen (s : Central T) : Int × Central T := s.openFrom s.openSequence

variable [DecidableEq T]

/-- `COMMAND_CLOSE` is queued, and a timer started if the device is another one. -/
def closeDevice (s : Central T) (device : String) : Central T :=
  let s := s.queCommand .close device
  let s := { s with asked := s.asked ++ [(device, s.now)] }
  if device ≠ s.openCloseLast then (s.setLast device).addTimer device else s

/-- The loop of `Centrald::doClose`, over the sequence read from its end. -/
def closeFrom (s : Central T) : List String → Int × Central T
  | [] => (-1, { s.clearOpenClose with failedClose := [] })
  | device :: rest =>
    match getOpenConnection s.connections device with
    | none => closeFrom s rest
    | some dconn =>
      if device ∉ s.failedClose ∧ blocksClose dconn then (0, s.closeDevice device)
      else closeFrom s rest

/-- `Centrald::doClose`. -/
def doClose (s : Central T) : Int × Central T :=
  if s.openSequence.length < 1 then (0, s) else s.closeFrom s.openSequence.reverse

/-- `Centrald::startOpen`. -/
def startOpen (s : Central T) : Int × Central T :=
  doOpen { s with openClose := .opening, asked := [] }

/-- `openClose` is set to closing; a closing begins unless one is going on. -/
def beginClose (s : Central T) : Central T :=
  if s.openClose = .closing then s
  else { s with openClose := .closing, closings := s.closings + 1, asked := [] }

/-- `Centrald::startClose`. -/
def startClose (s : Central T) : Int × Central T := s.beginClose.doClose

/-- `Centrald::openCloseChanged`. -/
def openCloseChanged (s : Central T) : Central T :=
  match s.openClose with
  | .none => s
  | .opening => s.doOpen.2
  | .closing => s.doClose.2

/-- `Centrald::postEvent` of `EVENT_CLOSE_TIMEOUT`. -/
def closeTimeout (s : Central T) (timer : Timer T) : Central T :=
  if s.openClose = .closing then
    let mark : Mark T := {
      device := s.openCloseLast, timer, closing := s.closings, now := s.now, asked := s.asked }
    let s := { s with
      failedClose := s.failedClose ++ [s.openCloseLast]
      marks := s.marks ++ [mark] }
    s.doClose.2
  else s

end

/-! ## Connections -/

/-- The report changes what the connection blocks. -/
def changesBlocks (c : ConnCentrald) (value : Status) : Bool :=
  maskValueChanged c.serverState value Status.deviceBlockOpen ||
    maskValueChanged c.serverState value Status.deviceBlockClose

/-- The connection is the one found under its name and reports that it does not block
closing. -/
def reportsClosed (s : Central T) (i : Nat) (c : ConnCentrald) (value : Status) : Bool :=
  let c' := { c with serverState := value }
  getOpenConnection (s.connections.set i c') c.name = some c' ∧ blocksClose c' = false

/-- The state of the connection is set, the first part of `ConnCentrald::setState`. -/
def setState (s : Central T) (i : Nat) (c : ConnCentrald) (value : Status) : Central T :=
  { s with
    connections := s.connections.set i { c with serverState := value }
    changing := changesBlocks c value
    asked :=
      if s.reportsClosed i c value then s.asked.filter fun ask => ask.1 ≠ c.name else s.asked }

end Central

/-- What happens to `Centrald`. A status line of a connection is `setState` and then, if
it changed what the device blocks, `changed`; in between the requests to open and close
that the change of the central state made. -/
inductive Input (T : Type*) where
  | clock (t : T)
  | connect (c : ConnCentrald)
  | rename (i : Nat) (name : String)
  | disconnect (i : Nat)
  | setSequence (names : List String)
  | setState (i : Nat) (value : Status)
  | changed
  | startOpen
  | startClose
  | timeout (k : Nat)

variable [LinearOrder T] [Add T] [OfNat T 180]

/-- One step. The clock does not go back, a timer is posted when its time has passed,
and nothing else happens while `setState` runs. -/
def step (s : Central T) : Input T → Central T
  | .clock t => { s with now := max s.now t }
  | .startOpen => s.startOpen.2
  | .startClose => s.startClose.2
  | .changed => if s.changing then { s with changing := false }.openCloseChanged else s
  | .connect c => if s.changing then s else { s with connections := s.connections ++ [c] }
  | .rename i name =>
    if s.changing then s
    else { s with connections := s.connections.modify i fun c => { c with name } }
  | .disconnect i =>
    if s.changing then s else { s with connections := s.connections.eraseIdx i }
  | .setSequence names => if s.changing then s else { s with openSequence := names }
  | .setState i value =>
    if s.changing then s
    else match s.connections[i]? with
      | none => s
      | some c => s.setState i c value
  | .timeout k =>
    if s.changing then s
    else match s.timers[k]? with
      | none => s
      | some timer =>
        if timer.due < s.now then
          { s with timers := s.timers.eraseIdx k }.closeTimeout timer
        else s

/-- The scan a step runs. -/
def scan (s : Central T) : Input T → Operation
  | .startOpen => .opening
  | .startClose => .closing
  | .changed => if s.changing then s.openClose else .none
  | .timeout k =>
    if s.changing = false ∧ s.openClose = .closing ∧ s.timers[k]?.any (·.due < s.now) then .closing
    else .none
  | _ => .none

/-- A scan for closing has a device to look at. -/
def SequenceGiven (s : Central T) (input : Input T) : Prop :=
  scan s input = .closing → s.openSequence ≠ []

instance (s : Central T) (input : Input T) : Decidable (SequenceGiven s input) :=
  inferInstanceAs (Decidable (_ → _))

/-! ## What a scan does -/

/-- The device is connected and does not block opening. -/
def Opened (connections : List ConnCentrald) (device : String) : Prop :=
  ∃ c, getOpenConnection connections device = some c ∧ blocksOpen c = false

/-- The device is missing, marked as failed or does not block closing. -/
def Closed (connections : List ConnCentrald) (failedClose : List String) (device : String) : Prop :=
  ∀ c, getOpenConnection connections device = some c →
    device ∈ failedClose ∨ blocksClose c = false

/-- All devices are done with what goes on. -/
def Central.AllDone (s : Central T) : Prop :=
  match s.openClose with
  | .none => True
  | .opening => ∀ device ∈ s.openSequence, Opened s.connections device
  | .closing => ∀ device ∈ s.openSequence, Closed s.connections s.failedClose device

/-- The command was queued in the order of the sequence. -/
def Queued.InOrder (q : Queued) : Prop :=
  match q.command with
  | .open => ∃ before after, q.openSequence = before ++ q.device :: after ∧
      ∀ device ∈ before, Opened q.connections device
  | .close => ∃ before after, q.openSequence = before ++ q.device :: after ∧
      ∀ device ∈ after, Closed q.connections q.failedClose device

section
variable {s : Central T}

omit [LinearOrder T] in
theorem openFrom_cases (before rest : List String) (hseq : s.openSequence = before ++ rest)
    (hbefore : ∀ device ∈ before, Opened s.connections device) :
    (∃ device ∈ s.openSequence, ¬ Opened s.connections device ∧
      s.openFrom rest = (-1, { s with openClose := .none })) ∨
    (∀ device ∈ s.openSequence, Opened s.connections device) ∧
      s.openFrom rest = (-1, s.clearOpenClose) ∨
    ∃ before device after, s.openSequence = before ++ device :: after ∧
      (∀ device ∈ before, Opened s.connections device) ∧ ¬ Opened s.connections device ∧
      s.openFrom rest = (0, (s.queCommand .open device).setLast device) := by
  induction rest generalizing before with
  | nil =>
    rw [List.append_nil] at hseq
    exact Or.inr (Or.inl ⟨hseq ▸ hbefore, rfl⟩)
  | cons device rest ih =>
    cases hconn : getOpenConnection s.connections device with
    | none =>
      refine Or.inl ⟨device, by simp [hseq], ?_, by simp [Central.openFrom, hconn]⟩
      rintro ⟨c, hc, _⟩
      simp [hconn] at hc
    | some dconn =>
      by_cases hblocks : blocksOpen dconn = true
      · refine Or.inr (Or.inr ⟨before, device, rest, hseq, hbefore, ?_, ?_⟩)
        · rintro ⟨c, hc, hopen⟩
          rw [hconn] at hc
          cases hc
          simp [hblocks] at hopen
        · simp [Central.openFrom, hconn, hblocks]
      · have hopen : Opened s.connections device := ⟨dconn, hconn, by simpa using hblocks⟩
        have hnext := ih (before ++ [device]) (by simp [hseq]) (by
          simpa [or_imp, forall_and] using ⟨hbefore, hopen⟩)
        simpa [Central.openFrom, hconn, hblocks] using hnext

theorem closeFrom_cases (after rest : List String) (hseq : s.openSequence = rest.reverse ++ after)
    (hafter : ∀ device ∈ after, Closed s.connections s.failedClose device) :
    (∀ device ∈ s.openSequence, Closed s.connections s.failedClose device) ∧
      s.closeFrom rest = (-1, { s.clearOpenClose with failedClose := [] }) ∨
    ∃ before device after, s.openSequence = before ++ device :: after ∧
      (∀ device ∈ after, Closed s.connections s.failedClose device) ∧
      ¬ Closed s.connections s.failedClose device ∧
      s.closeFrom rest = (0, s.closeDevice device) := by
  induction rest generalizing after with
  | nil =>
    rw [List.reverse_nil, List.nil_append] at hseq
    exact Or.inl ⟨hseq ▸ hafter, rfl⟩
  | cons device rest ih =>
    have hsplit : s.openSequence = rest.reverse ++ device :: after := by simp [hseq]
    have hnext : Closed s.connections s.failedClose device → _ := fun hclosed =>
      ih (device :: after) hsplit (by simpa using ⟨hclosed, hafter⟩)
    cases hconn : getOpenConnection s.connections device with
    | none =>
      have hclosed : Closed s.connections s.failedClose device := fun c hc => by simp [hconn] at hc
      simpa [Central.closeFrom, hconn] using hnext hclosed
    | some dconn =>
      by_cases hblocks : device ∉ s.failedClose ∧ blocksClose dconn = true
      · refine Or.inr ⟨rest.reverse, device, after, hsplit, hafter, ?_, ?_⟩
        · intro hclosed
          rcases hclosed dconn hconn with hfailed | hopen
          · exact hblocks.1 hfailed
          · simp [hblocks.2] at hopen
        · simp [Central.closeFrom, hconn, hblocks]
      · have hclosed : Closed s.connections s.failedClose device := by
          intro c hc
          rw [hconn] at hc
          cases hc
          by_cases hfailed : device ∈ s.failedClose
          · exact Or.inl hfailed
          · exact Or.inr (by simpa [hfailed] using hblocks)
        simpa only [Central.closeFrom, hconn, hblocks, if_false] using hnext hclosed

omit [LinearOrder T] in
/-- What `doOpen` does: a device is missing, all are open, or the first that is not is
commanded. -/
theorem doOpen_cases (s : Central T) :
    (∃ device ∈ s.openSequence, ¬ Opened s.connections device ∧
      s.doOpen = (-1, { s with openClose := .none })) ∨
    (∀ device ∈ s.openSequence, Opened s.connections device) ∧
      s.doOpen = (-1, s.clearOpenClose) ∨
    ∃ before device after, s.openSequence = before ++ device :: after ∧
      (∀ device ∈ before, Opened s.connections device) ∧ ¬ Opened s.connections device ∧
      s.doOpen = (0, (s.queCommand .open device).setLast device) :=
  openFrom_cases [] s.openSequence rfl (by simp)

/-- What `doClose` does with a sequence: all devices are closed, or the last that is
not is commanded. -/
theorem doClose_cases (hgiven : s.openSequence ≠ []) :
    (∀ device ∈ s.openSequence, Closed s.connections s.failedClose device) ∧
      s.doClose = (-1, { s.clearOpenClose with failedClose := [] }) ∨
    ∃ before device after, s.openSequence = before ++ device :: after ∧
      (∀ device ∈ after, Closed s.connections s.failedClose device) ∧
      ¬ Closed s.connections s.failedClose device ∧
      s.doClose = (0, s.closeDevice device) := by
  have hlength : ¬ s.openSequence.length < 1 := by
    intro hlt
    exact hgiven (List.length_eq_zero_iff.1 (Nat.lt_one_iff.1 hlt))
  have hcases := closeFrom_cases (s := s) [] s.openSequence.reverse (by simp) (by simp)
  simpa only [Central.doClose, hlength, if_false] using hcases

/-- What a scan for opening leaves: the commands are in order, and nothing goes on when
all devices are open. -/
structure ScanRight (s s' : Central T) : Prop where
  queued : (∀ q ∈ s.queued, q.InOrder) → ∀ q ∈ s'.queued, q.InOrder
  done : s'.AllDone → s'.openClose = .none

omit [LinearOrder T] [Add T] [OfNat T 180] in
theorem inOrder_queCommand {command : Command} {device : String}
    (hq : Queued.InOrder ⟨command, device, s.openSequence, s.connections, s.failedClose⟩)
    (h : ∀ q ∈ s.queued, q.InOrder) : ∀ q ∈ (s.queCommand command device).queued, q.InOrder := by
  intro q hmem
  rcases List.mem_append.1 hmem with hmem | hmem
  · exact h q hmem
  · rw [List.mem_singleton.1 hmem]
    exact hq

omit [LinearOrder T] in
@[simp] theorem setLast_queued (s : Central T) (device : String) :
    (s.setLast device).queued = s.queued := by
  unfold Central.setLast
  split <;> rfl

omit [LinearOrder T] in
theorem setLast_allDone (s : Central T) (device : String) :
    (s.setLast device).AllDone ↔ s.AllDone := by
  unfold Central.setLast
  split <;> rfl

omit [LinearOrder T] in
theorem doOpen_right (hopening : s.openClose = .opening) : ScanRight s s.doOpen.2 := by
  rcases doOpen_cases s with ⟨_, _, _, h⟩ | ⟨_, h⟩ | ⟨before, device, after, hseq, hbefore, hdevice, h⟩
  · rw [h]
    exact ⟨fun hq => hq, fun _ => rfl⟩
  · rw [h]
    exact ⟨fun hq => hq, fun _ => rfl⟩
  · rw [h]
    constructor
    · intro hq
      rw [setLast_queued]
      exact inOrder_queCommand ⟨before, after, hseq, hbefore⟩ hq
    · intro hdone
      rw [setLast_allDone] at hdone
      simp only [Central.AllDone, Central.queCommand, hopening] at hdone
      exact absurd (hdone device (by simp [hseq])) hdevice

theorem closeDevice_queued (s : Central T) (device : String) :
    (s.closeDevice device).queued = (s.queCommand .close device).queued := by
  unfold Central.closeDevice
  dsimp only
  split
  · rw [Central.addTimer, setLast_queued]
  · rfl

theorem closeDevice_allDone (s : Central T) (device : String) :
    (s.closeDevice device).AllDone ↔ s.AllDone := by
  unfold Central.closeDevice Central.addTimer Central.setLast
  dsimp only
  split <;> rfl

theorem doClose_right (hclosing : s.openClose = .closing) (hgiven : s.openSequence ≠ []) :
    ScanRight s s.doClose.2 := by
  rcases doClose_cases hgiven with ⟨_, h⟩ | ⟨before, device, after, hseq, hafter, hdevice, h⟩
  · rw [h]
    exact ⟨fun hq => hq, fun _ => rfl⟩
  · rw [h]
    constructor
    · intro hq
      rw [closeDevice_queued]
      exact inOrder_queCommand ⟨before, after, hseq, hafter⟩ hq
    · intro hdone
      rw [closeDevice_allDone] at hdone
      simp only [Central.AllDone, hclosing] at hdone
      exact absurd (hdone device (by simp [hseq])) hdevice

theorem openCloseChanged_cases (s : Central T) :
    s.openClose = .none ∧ s.openCloseChanged = s ∨
    s.openClose = .opening ∧ s.openCloseChanged = s.doOpen.2 ∨
    s.openClose = .closing ∧ s.openCloseChanged = s.doClose.2 := by
  unfold Central.openCloseChanged
  cases s.openClose <;> simp

theorem openCloseChanged_right (hgiven : s.openClose = .closing → s.openSequence ≠ [])
    (hq : ∀ q ∈ s.queued, q.InOrder) :
    (∀ q ∈ s.openCloseChanged.queued, q.InOrder) ∧
      (s.openClose ≠ .none → s.openCloseChanged.AllDone → s.openCloseChanged.openClose = .none) := by
  rcases openCloseChanged_cases s with ⟨hopen, h⟩ | ⟨hopen, h⟩ | ⟨hopen, h⟩
  · rw [h]
    exact ⟨hq, fun hne => absurd hopen hne⟩
  · rw [h]
    exact ⟨(doOpen_right hopen).queued hq, fun _ => (doOpen_right hopen).done⟩
  · rw [h]
    have hright := doClose_right hopen (hgiven hopen)
    exact ⟨hright.queued hq, fun _ => hright.done⟩

theorem closeTimeout_right (timer : Timer T) (hgiven : s.openClose = .closing → s.openSequence ≠ [])
    (hq : ∀ q ∈ s.queued, q.InOrder) :
    (∀ q ∈ (s.closeTimeout timer).queued, q.InOrder) ∧
      (s.openClose = .closing → (s.closeTimeout timer).AllDone →
        (s.closeTimeout timer).openClose = .none) := by
  unfold Central.closeTimeout
  split
  next hclosing =>
    have h : ScanRight _ _ := doClose_right (s := { s with
      failedClose := s.failedClose ++ [s.openCloseLast]
      marks := s.marks ++ [⟨s.openCloseLast, timer, s.closings, s.now, s.asked⟩] })
      hclosing (hgiven hclosing)
    exact ⟨h.queued hq, fun _ => h.done⟩
  next hclosing => exact ⟨hq, fun h => absurd h hclosing⟩

/-- A timer is posted or nothing happens. -/
theorem step_timeout (s : Central T) (k : Nat) :
    step s (.timeout k) = s ∧ scan s (.timeout k) = .none ∨
    ∃ timer, s.changing = false ∧ s.timers[k]? = some timer ∧ timer.due < s.now ∧
      step s (.timeout k) = { s with timers := s.timers.eraseIdx k }.closeTimeout timer ∧
      scan s (.timeout k) = if s.openClose = .closing then .closing else .none := by
  cases hchanging : s.changing with
  | true => exact Or.inl ⟨by simp [step, hchanging], by simp [scan, hchanging]⟩
  | false =>
    cases htimer : s.timers[k]? with
    | none => exact Or.inl ⟨by simp [step, hchanging, htimer], by simp [scan, htimer]⟩
    | some timer =>
      by_cases hdue : timer.due < s.now
      · exact Or.inr ⟨timer, rfl, rfl, hdue, by simp [step, hchanging, htimer, hdue],
          by simp [scan, hchanging, htimer, hdue]⟩
      · exact Or.inl ⟨by simp [step, hchanging, htimer, hdue], by simp [scan, htimer, hdue]⟩

/-! ## Runs -/

/-- **Every step is right**: it queues commands in order, and a scan that leaves all
devices done leaves nothing going on. -/
theorem step_right {input : Input T} (hgiven : SequenceGiven s input)
    (hq : ∀ q ∈ s.queued, q.InOrder) :
    (∀ q ∈ (step s input).queued, q.InOrder) ∧
      (scan s input ≠ .none → (step s input).AllDone → (step s input).openClose = .none) := by
  cases input with
  | startOpen =>
    have h := doOpen_right (s := { s with openClose := .opening, asked := [] }) rfl
    exact ⟨h.queued hq, fun _ => h.done⟩
  | startClose =>
    have hseq : s.beginClose.openSequence = s.openSequence := by
      unfold Central.beginClose
      split <;> rfl
    have hqueued : s.beginClose.queued = s.queued := by
      unfold Central.beginClose
      split <;> rfl
    have hclosing : s.beginClose.openClose = .closing := by
      unfold Central.beginClose
      split
      · assumption
      · rfl
    have h := doClose_right hclosing (hseq ▸ hgiven rfl)
    exact ⟨h.queued (hqueued ▸ hq), fun _ => h.done⟩
  | changed =>
    simp only [step, scan, SequenceGiven] at hgiven ⊢
    by_cases hchanging : s.changing = true
    · simp only [hchanging, if_true] at hgiven ⊢
      exact openCloseChanged_right (s := { s with changing := false }) hgiven hq
    · simp only [hchanging]
      exact ⟨hq, fun h => absurd rfl h⟩
  | timeout k =>
    rcases step_timeout s k with ⟨hstep, hscan⟩ | ⟨timer, _, _, _, hstep, hscan⟩
    · rw [hstep, hscan]
      exact ⟨hq, fun h => absurd rfl h⟩
    · simp only [SequenceGiven, hscan] at hgiven
      rw [hstep, hscan]
      have h := closeTimeout_right (s := { s with timers := s.timers.eraseIdx k }) timer
        (fun hclosing => hgiven (if_pos hclosing)) hq
      refine ⟨h.1, fun hscans => h.2 ?_⟩
      by_contra hclosing
      exact hscans (if_neg hclosing)
  | clock | connect | rename | disconnect | setSequence =>
    refine ⟨?_, fun h => absurd rfl h⟩
    simp only [step]
    first | exact hq | (split <;> exact hq)
  | setState i value =>
    refine ⟨?_, fun h => absurd rfl h⟩
    simp only [step]
    split
    · exact hq
    · split <;> exact hq

end

/-- `Centrald` as it starts. -/
def Central.start (now : T) (openSequence : List String) : Central T := { now, openSequence }

/-- **The sequence is kept in order** whatever happens, and when a scan leaves all devices
done nothing goes on, if no scan for closing finds the sequence empty. -/
theorem sequence_in_order {now : T} {openSequence : List String} {inputs : List (Input T)}
    (h : Along step SequenceGiven (.start now openSequence) inputs) :
    (∀ q ∈ (run step (.start now openSequence) inputs).queued, q.InOrder) ∧
    ∀ before input after, inputs = before ++ input :: after →
      scan (run step (.start now openSequence) before) input ≠ .none →
      (run step (.start now openSequence) (before ++ [input])).AllDone →
      (run step (.start now openSequence) (before ++ [input])).openClose = .none := by
  have hstart : ∀ q ∈ (Central.start now openSequence).queued, q.InOrder := by
    simp [Central.start]
  have hstep : ∀ (s : Central T) (input : Input T), (∀ q ∈ s.queued, q.InOrder) →
      SequenceGiven s input → ∀ q ∈ (step s input).queued, q.InOrder :=
    fun s input hq hgiven => (step_right hgiven hq).1
  constructor
  · exact h.invariant hstart hstep
  · rintro before input after rfl hscan hdone
    rw [along_append, along_cons] at h
    rw [run_append, run_cons, run_nil] at hdone ⊢
    exact (step_right h.2.1 (h.1.invariant hstart hstep)).2 hscan hdone

/-- A dome and its shutter are opened, one after the other, and closed. -/
theorem sequence_in_order_dome :
    let s := run step (.start (0 : Int) ["DOME", "SHUT"])
      [.connect ⟨1, .deviceServer, "DOME", .connConnected, 0x4000#32⟩,
        .connect ⟨2, .deviceServer, "SHUT", .connConnected, 0x4000#32⟩, .startOpen,
        .setState 0 0x2000#32, .changed, .setState 1 0x2000#32, .changed, .startClose,
        .setState 1 0x4000#32, .changed, .setState 0 0x4000#32, .changed]
    s.queued.map (fun q => (q.command, q.device)) =
        [(.open, "DOME"), (.open, "SHUT"), (.close, "SHUT"), (.close, "DOME")] ∧
      ∀ q ∈ s.queued, q.InOrder := by
  intro s
  have h : Along step SequenceGiven (.start (0 : Int) ["DOME", "SHUT"])
      [.connect ⟨1, .deviceServer, "DOME", .connConnected, 0x4000#32⟩,
        .connect ⟨2, .deviceServer, "SHUT", .connConnected, 0x4000#32⟩, .startOpen,
        .setState 0 0x2000#32, .changed, .setState 1 0x2000#32, .changed, .startClose,
        .setState 1 0x4000#32, .changed, .setState 0 0x4000#32, .changed] := by
    decide
  exact ⟨by decide, (sequence_in_order h).1⟩

/-- Without a sequence all devices are closed, and the closing goes on. -/
theorem empty_sequence_closing :
    (run step (.start (0 : Int) []) [.startClose]).AllDone ∧
      (run step (.start (0 : Int) []) [.startClose]).openClose = .closing := by
  constructor
  · intro device hdevice
    cases hdevice
  · rfl

end Rts2.OpenClose
