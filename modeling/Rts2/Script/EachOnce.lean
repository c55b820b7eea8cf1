import Mathlib.Data.List.Range
import Rts2.Script.CameraExec

/-! # Every command of the script once

A command is prepared once and queued once, as long as nothing takes its place or its
connections while it waits. The flag `waitForExposure` covers an exposure command from its
queueing to the start of its exposure, unless something else resets it. -/
namespace Rts2.Script

/-! ## What a call of `DevScript` keeps -/

namespace Dev

/-- A prepared command is deleted only with its script, and a script that ended does not run
again: the next one has a higher number. -/
structure Kept (d d' : DevScript) : Prop where
  count : d.scriptCount ≤ d'.scriptCount
  script : d'.scriptCount = d.scriptCount → d'.script = true → d.script = true
  command : d'.scriptCount = d.scriptCount → d'.script = true → d.nextComd = true →
    d'.nextComd = true

variable {T : Targets} {d d' d'' : DevScript} {a : Input}

theorem Kept.refl (d : DevScript) : Kept d d := ⟨le_rfl, fun _ h => h, fun _ _ h => h⟩

theorem Kept.trans (h : Kept d d') (h' : Kept d' d'') : Kept d d'' where
  count := h.count.trans h'.count
  script hcount hscript := by
    have hmid : d'.scriptCount = d.scriptCount := by have := h.count; have := h'.count; omega
    exact h.script hmid (h'.script (by omega) hscript)
  command hcount hscript hcommand := by
    have hmid : d'.scriptCount = d.scriptCount := by have := h.count; have := h'.count; omega
    have hscript' : d'.script = true := h'.script (by omega) hscript
    exact h'.command (by omega) hscript (h.command hmid hscript' hcommand)

/-- The script and its command are left as they are. -/
theorem Kept.of_eq (hcount : d'.scriptCount = d.scriptCount) (hscript : d'.script = d.script)
    (hcommand : d'.nextComd = d.nextComd) : Kept d d' :=
  ⟨hcount.ge, fun _ h => hscript ▸ h, fun _ _ h => hcommand ▸ h⟩

/-- The script ends. -/
theorem Kept.of_ended (hcount : d'.scriptCount = d.scriptCount) (hscript : d'.script = false) :
    Kept d d' :=
  ⟨hcount.ge, fun _ h => by simp [hscript] at h, fun _ h => by simp [hscript] at h⟩

/-- The next script starts. -/
theorem Kept.of_started (hcount : d.scriptCount < d'.scriptCount) : Kept d d' :=
  ⟨hcount.le, fun h => by omega, fun h => by omega⟩

theorem kept_call (d : DevScript) (frames : List Frame) : Kept d (d.call frames) :=
  .of_eq rfl rfl rfl

theorem kept_disableCurrent (d : DevScript) : Kept d (d.disableCurrent T) := by
  unfold DevScript.disableCurrent
  split
  · exact .of_eq rfl rfl rfl
  · exact .refl d

theorem kept_setNextTarget (d : DevScript) (target : Target) :
    Kept d (d.setNextTarget T target) := by
  unfold DevScript.setNextTarget
  split
  · exact .of_eq rfl rfl rfl
  · exact .of_eq rfl rfl rfl

theorem kept_startTarget (d : DevScript) : Kept d (d.startTarget T) := by
  unfold DevScript.startTarget
  split
  · exact .of_started (by simp [DevScript.startCurrent, DevScript.call])
  · exact .of_started (by simp [DevScript.startCurrent, DevScript.call])
  · exact .refl d

theorem kept_disableNotExecuted (d : DevScript) (target : Target) :
    Kept d (d.disableNotExecuted T target) := by
  unfold DevScript.disableNotExecuted
  split
  · exact (kept_disableCurrent d).trans (.of_eq rfl rfl rfl)
  · exact .refl d

theorem kept_disableEnded (d : DevScript) (target : Target) :
    Kept d (d.disableEnded T a target) := by
  unfold DevScript.disableEnded
  have hfirst : Kept d (if a.notExecuted then d.disableNotExecuted T target else d) := by
    split
    · exact kept_disableNotExecuted d target
    · exact .refl d
  dsimp only
  split
  · exact hfirst.trans (kept_disableCurrent _)
  · exact hfirst

theorem kept_disableFailed (d : DevScript) : Kept d (d.disableFailed T a) := by
  unfold DevScript.disableFailed
  split
  · rename_i target _
    have hobs : Kept d { d with lastTargetObsID := T.obsTargetID target } := .of_eq rfl rfl rfl
    exact hobs.trans (kept_disableEnded _ _)
  · exact .refl d

theorem kept_dropScript (d : DevScript) (startNext : Bool) :
    Kept d (d.dropScript T a startNext) := by
  unfold DevScript.dropScript
  dsimp only
  split
  · refine ⟨?_, fun _ h => ?_, fun _ h => ?_⟩
    · exact (kept_disableFailed { d with waitScript := .NO_WAIT, nextComd := false }).count
    · simp [DevScript.call] at h
    · simp [DevScript.call] at h
  · rename_i hscript
    exact .of_ended rfl (show d.script = false by simpa using hscript)

theorem kept_deleteScript (d : DevScript) (startNext : Bool) :
    Kept d (d.deleteScript T a startNext) := by
  unfold DevScript.deleteScript
  split
  · exact kept_call _ _
  · exact kept_dropScript _ _

theorem kept_nextPreparedCommand (d : DevScript) : Kept d (d.nextPreparedCommand T a) := by
  unfold DevScript.nextPreparedCommand
  split
  · exact .of_eq rfl rfl rfl
  · rename_i hcommand
    have hnew : Kept d { d with nextComd := a.command } :=
      ⟨le_rfl, fun _ h => h, fun _ _ h => absurd h hcommand⟩
    dsimp only
    split
    all_goals first
      | exact hnew.trans (.of_eq rfl rfl rfl)
      | exact hnew.trans ((kept_disableCurrent _).trans (.of_eq rfl rfl rfl))

/-- Where no command was prepared, the one that is given is. -/
theorem nextPreparedCommand_fields (d : DevScript) (hcommand : d.nextComd = false) :
    (d.nextPreparedCommand T a).nextComd = a.command ∧
      (d.nextPreparedCommand T a).script = d.script ∧
      (d.nextPreparedCommand T a).scriptCount = d.scriptCount := by
  have hdisable (d : DevScript) : (d.disableCurrent T).nextComd = d.nextComd ∧
      (d.disableCurrent T).script = d.script ∧
      (d.disableCurrent T).scriptCount = d.scriptCount := by
    unfold DevScript.disableCurrent
    split <;> exact ⟨rfl, rfl, rfl⟩
  unfold DevScript.nextPreparedCommand
  simp only [hcommand, Bool.false_eq_true, if_false]
  split
  all_goals first
    | exact ⟨rfl, rfl, rfl⟩
    | exact hdisable { d with nextComd := a.command }

theorem kept_observe (d : DevScript) : Kept d (d.observe T) := by
  unfold DevScript.observe
  split
  · exact kept_call _ _
  · exact (kept_call _ _).trans (kept_startTarget _)

theorem kept_setTarget (d : DevScript) (target : Target) : Kept d (d.setTarget T target) := by
  unfold DevScript.setTarget
  dsimp only
  split
  · exact kept_setNextTarget _ _
  · exact (kept_setNextTarget _ _).trans ((kept_call _ _).trans (kept_startTarget _))

theorem kept_scriptEnded (d : DevScript) (arg : Option Target) :
    Kept d (d.scriptEnded T arg) := by
  unfold DevScript.scriptEnded
  cases arg with
  | none =>
    dsimp only
    split
    · exact .refl d
    · exact kept_observe d
  | some target =>
    have hnext : Kept d (d.setNextTarget T target) := kept_setNextTarget d target
    dsimp only
    split
    · exact hnext
    · exact hnext.trans (kept_observe _)

theorem kept_kill (d : DevScript) : Kept d d.kill := .of_ended rfl rfl

theorem kept_postEvent (d : DevScript) (event : Event) : Kept d (d.postEvent T a event) := by
  cases event with
  | stopTarget arg =>
    exact (kept_disableCurrent d).trans ((kept_kill _).trans (.of_eq rfl rfl rfl))
  | killAll => exact (kept_kill d).trans (.of_eq rfl rfl rfl)
  | setTargetKill arg => exact (kept_kill d).trans (.of_eq rfl rfl rfl)
  | setTargetKillNotClear arg => exact (kept_kill d).trans (.of_eq rfl rfl rfl)
  | stopObservation => exact kept_call _ _
  | setTarget target => exact kept_setTarget _ _
  | setTargetNotClear target => exact kept_setTarget _ _
  | scriptEnded arg => exact kept_scriptEnded _ _
  | observe => exact kept_observe _
  | clearWait => exact kept_call _ _
  | nextCommand killCommand =>
    unfold DevScript.postEvent
    dsimp only
    split
    · split
      · exact (kept_call _ _).trans (kept_setTarget _ _)
      · exact kept_call _ _
    · exact kept_call _ _
  | endScript => exact kept_call _ _
  | setObsId target obsId => exact .of_eq rfl rfl rfl
  | other => exact .refl d
  | _ =>
    unfold DevScript.postEvent
    dsimp only
    repeat' split
    all_goals exact .of_eq rfl rfl rfl

/-- A call goes on that is not the one the device class has to answer. -/
theorem kept_resume (d : DevScript) (frame : Frame) (hsent : a.sent = false)
    (hevent : a.event = none) : Kept d (d.resume T a frame) := by
  cases frame with
  | master => simpa [DevScript.resume, hevent] using Kept.refl d
  | nextCommand =>
    unfold DevScript.resume
    simp only [hsent, Bool.not_false, Bool.and_true]
    split
    · exact .of_eq rfl rfl rfl
    · exact .refl d
  | nextPrepared => exact kept_nextPreparedCommand d
  | haveNextDeleted => exact (kept_call _ _).trans (kept_startTarget _)
  | deleteScript startNext => exact kept_deleteScript _ _
  | acqusitionPosted startNext => exact kept_dropScript _ _
  | _ =>
    unfold DevScript.resume
    dsimp only
    repeat' split
    all_goals exact .of_eq rfl rfl rfl

end Dev

namespace Camera
open Rts2.Lib
open Rts2.Script.Dev (DevScript Kept Target Targets)

/-! ## What is asked -/

namespace CameraExec
variable (s : CameraExec) (a : Input)

/-- The connections a command was queued to, in the order it was. -/
def queuedTo (number : Nat) : List Nat :=
  (s.queued.filter (·.number = number)).map (·.conn)

/-- The script runs that a command is from. -/
def runs (e : Emission) : Prop := s.dev.script = true ∧ s.dev.scriptCount = e.script

/-- The command was queued once to each of its connections, or not at all: it is prepared,
there is no such device, or its script was killed or deleted. -/
structure Handled (e : Emission) : Prop where
  distinct : e.conns.Nodup
  once : s.queuedTo e.number = e.conns ∨ s.queuedTo e.number = [] ∧
    (s.nextComd.map (·.number) = some e.number ∨ e.conns = [] ∨ ¬ s.runs e)

/-- Every command is handled, in the order of the script; an exposure command is queued for a
target that was moved, while no other one waits for its exposure to start; and no connection
is used that was removed. -/
structure Right : Prop where
  handled : ∀ e ∈ s.emitted, s.Handled e
  emitted : (s.emitted.map (·.number)).Pairwise (· < ·)
  inOrder : (s.queued.map (·.number)).Pairwise (· ≤ ·)
  given : ∀ q ∈ s.queued, q.number ∈ s.emitted.map (·.number)
  exposure : ∀ q ∈ s.queued, q.exposure = true → q.moved = true ∧ q.waiting = false
  connected : ∀ q ∈ s.queued, q.connected = true

/-! ## What the program does not check -/

/-- The event that is taken. -/
def taken : Option Event :=
  match s.stack with
  | [] => a.event
  | .dev .master :: _ => a.event
  | _ => none

/-- The connection that is removed is not one the prepared command is for. -/
def Keeps : Prop :=
  match s.taken a with
  | some (.removed conn) => ∀ comd ∈ s.nextComd, conn ∉ comd.cmdConns
  | _ => True

/-- No other command fails while an exposure command waits. -/
def OwnFailure : Prop :=
  match s.taken a with
  | some (.commandFailed false) => s.waiting = false
  | _ => True

end CameraExec

/-- The readings show the exposure command: it is in the queue, or its exposure is. -/
def Input.showsExposure (a : Input) : Bool := !a.queEmpty || a.que_exp_num.any (0 < ·)

/-- The command waits for an exposure to start: an exposure, a plain value, and what is
postponed as long as the readings show the exposure command. -/
def NextComd.holds (comd : NextComd) (a : Input) : Bool :=
  comd.command.exposure || (comd.command.telMove && !comd.command.whileState) ||
    ((comd.command.whileState || comd.cmdConns ≠ []) && a.showsExposure)

namespace CameraExec
variable (s : CameraExec) (a : Input)

/-- A condition on the call on the top. While an exposure command waits, the next command is
not a box or a center, and the readings show the exposure to other ones without
`BOP_EXPOSURE`; no command was prepared while an element of the script posted its signal;
and none was queued by `exposureStarted` before it resets its flag. -/
def Waits : Prop :=
  match s.stack with
  | .doNextCommand :: _ => s.waiting = true → ∀ comd ∈ s.next a, comd.holds a = true
  | .scriptCommand :: _ => s.nextComd.isNone = true
  | .exposureStarted :: _ => s.waiting = false
  | _ => True

def Undisturbed : Prop := s.Keeps a ∧ s.OwnFailure a ∧ s.Waits a

instance Keeps.decidable : Decidable (s.Keeps a) := by
  unfold Keeps
  split <;> infer_instance

instance OwnFailure.decidable : Decidable (s.OwnFailure a) := by
  unfold OwnFailure
  split <;> infer_instance

instance Waits.decidable : Decidable (s.Waits a) := by
  unfold Waits
  split <;> infer_instance

instance Undisturbed.decidable : Decidable (s.Undisturbed a) :=
  inferInstanceAs (Decidable (_ ∧ _ ∧ _))

/-! ## The invariant -/

structure Inv : Prop where
  right : s.Right
  prepared : s.nextComd.isSome = true → s.dev.nextComd = true
  numbers : s.emitted.map (·.number) = List.range s.emitted.length
  scripts : ∀ e ∈ s.emitted, e.script ≤ s.dev.scriptCount
  last : ∀ comd ∈ s.nextComd, comd.number + 1 = s.emitted.length
  notQueued : ∀ comd ∈ s.nextComd, s.queuedTo comd.number = []
  targets : ∀ comd ∈ s.nextComd, ∃ e ∈ s.emitted, e.number = comd.number ∧ e.conns = comd.targets
  /-- The flag covers the exposure command that waits. -/
  covered : s.waiting = true → s.waitForExposure = true
  present : ∀ comd ∈ s.nextComd, ∀ conn ∈ comd.targets, conn ∈ s.connections.map (·.number)
  distinct : (s.connections.map (·.number)).Nodup
  fresh : ∀ conn ∈ s.connections.map (·.number), conn < s.connCount
  own : ownConn ∈ s.connections.map (·.number)

variable {s} {s' : CameraExec} {T : Targets} {e : Emission}

/-- A command that is not prepared, or still is, is handled as before. -/
theorem Handled.congr (h : s.Handled e) (hqueued : s'.queued = s.queued)
    (hnext : s.nextComd.map (·.number) = some e.number → s'.nextComd = s.nextComd)
    (hscript : s'.dev.script = s.dev.script)
    (hscriptCount : s'.dev.scriptCount = s.dev.scriptCount) : s'.Handled e := by
  refine ⟨h.distinct, ?_⟩
  have honce := h.once
  unfold queuedTo runs at *
  rw [hqueued, hscript, hscriptCount]
  obtain honce | ⟨hnone, hprepared | hwhy⟩ := honce
  · exact .inl honce
  · exact .inr ⟨hnone, .inl (by rw [hnext hprepared, hprepared])⟩
  · exact .inr ⟨hnone, .inr hwhy⟩

/-- What is not the commands, the connections or the flag does not matter. -/
theorem Inv.congr (h : s.Inv) (hqueued : s'.queued = s.queued)
    (hnext : s'.nextComd = s.nextComd) (hdev : s'.dev = s.dev) (hemitted : s'.emitted = s.emitted)
    (hconns : s'.connections = s.connections) (hcount : s'.connCount = s.connCount)
    (hcovered : s'.waiting = true → s'.waitForExposure = true) : s'.Inv where
  right :=
    { handled := fun e he => (h.right.handled e (hemitted ▸ he)).congr hqueued (fun _ => hnext)
        (hdev ▸ rfl) (hdev ▸ rfl)
      emitted := hemitted ▸ h.right.emitted
      inOrder := hqueued ▸ h.right.inOrder
      given := hqueued ▸ hemitted ▸ h.right.given
      exposure := hqueued ▸ h.right.exposure
      connected := hqueued ▸ h.right.connected }
  prepared := by rw [hnext, hdev]; exact h.prepared
  numbers := by rw [hemitted]; exact h.numbers
  scripts := by rw [hemitted, hdev]; exact h.scripts
  last := by rw [hemitted, hnext]; exact h.last
  notQueued := by unfold queuedTo; rw [hqueued, hnext]; exact h.notQueued
  targets := by rw [hemitted, hnext]; exact h.targets
  covered := hcovered
  present := by rw [hnext, hconns]; exact h.present
  distinct := by rw [hconns]; exact h.distinct
  fresh := by rw [hconns, hcount]; exact h.fresh
  own := by rw [hconns]; exact h.own

theorem Inv.create (name : Name) (obsId : Target → Int) : (create name obsId).Inv where
  right :=
    { handled := fun e he => by simp [CameraExec.create] at he
      emitted := .nil
      inOrder := .nil
      given := fun q hq => by simp [CameraExec.create] at hq
      exposure := fun q hq => by simp [CameraExec.create] at hq
      connected := fun q hq => by simp [CameraExec.create] at hq }
  prepared h := by simp [CameraExec.create] at h
  numbers := rfl
  scripts e he := by simp [CameraExec.create] at he
  last comd h := by simp [CameraExec.create] at h
  notQueued comd h := by simp [CameraExec.create] at h
  targets comd h := by simp [CameraExec.create] at h
  covered h := by simp [CameraExec.create] at h
  present comd h := by simp [CameraExec.create] at h
  distinct := by simp [CameraExec.create]
  fresh conn h := by
    have hconn : conn = ownConn := by simpa [CameraExec.create] using h
    simp [hconn, ownConn, CameraExec.create]
  own := by simp [CameraExec.create]

theorem Inv.call (h : s.Inv) (frames : List Frame) : (s.call frames).Inv :=
  h.congr rfl rfl rfl rfl rfl rfl h.covered

theorem Inv.pop (h : s.Inv) (rest : List Frame) : ({ s with stack := rest } : CameraExec).Inv :=
  h.congr rfl rfl rfl rfl rfl rfl h.covered

/-- The flag and what waits change together. -/
theorem Inv.setWait (h : s.Inv) (waitForExposure waiting : Bool)
    (hcovered : waiting = true → waitForExposure = true) :
    ({ s with waitForExposure := waitForExposure, waiting := waiting } : CameraExec).Inv :=
  h.congr rfl rfl rfl rfl rfl rfl hcovered

/-! ## Calls of `DevScript` -/

theorem Handled.runDev (h : s.Handled e) (hprepared : s.nextComd.isSome = true → s.dev.nextComd = true)
    (hscript : e.script ≤ s.dev.scriptCount) {f : DevScript → DevScript}
    (hkept : Kept s.dev (f { s.dev with stack := [] })) : (s.runDev f).Handled e := by
  refine ⟨h.distinct, ?_⟩
  obtain honce | ⟨hnone, hwhy⟩ := h.once
  · exact .inl honce
  · refine .inr ⟨hnone, ?_⟩
    by_cases hruns : (s.runDev f).runs e
    · obtain ⟨hrun, hcount⟩ := hruns
      have hle := hkept.count
      have hsame : (f { s.dev with stack := [] }).scriptCount = s.dev.scriptCount :=
        le_antisymm (hcount.trans_le hscript) hle
      obtain hnext | hconns | hnot := hwhy
      · have hsome : s.nextComd.isSome = true := by
          cases hcomd : s.nextComd with
          | none => simp [hcomd] at hnext
          | some comd => rfl
        have hcommand := hkept.command hsame hrun (hprepared hsome)
        exact .inl (by simpa [CameraExec.runDev, hcommand] using hnext)
      · exact .inr (.inl hconns)
      · exact absurd ⟨hkept.script hsame hrun, hsame.symm.trans hcount⟩ hnot
    · exact .inr (.inr hruns)

/-- The stack of `DevScript` is empty where it is called. -/
theorem kept_of_stack {f : DevScript → DevScript} (hf : ∀ d, Kept d (f d)) (d : DevScript) :
    Kept d (f { d with stack := [] }) := by
  have hstack : Kept d { d with stack := [] } := .of_eq rfl rfl rfl
  exact hstack.trans (hf _)

theorem Inv.runDev (h : s.Inv) {f : DevScript → DevScript} (hf : ∀ d, Kept d (f d)) :
    (s.runDev f).Inv := by
  have hkept := kept_of_stack hf s.dev
  have hsub : ∀ comd ∈ (s.runDev f).nextComd, comd ∈ s.nextComd := by
    intro comd hcomd
    simp only [CameraExec.runDev] at hcomd
    split at hcomd
    · exact hcomd
    · cases hcomd
  exact
    { right :=
        { handled := fun e he => (h.right.handled e he).runDev h.prepared (h.scripts e he) hkept
          emitted := h.right.emitted
          inOrder := h.right.inOrder
          given := h.right.given
          exposure := h.right.exposure
          connected := h.right.connected }
      prepared := by
        intro hsome
        simp only [CameraExec.runDev] at hsome ⊢
        split at hsome
        · assumption
        · cases hsome
      numbers := h.numbers
      scripts := fun e he => (h.scripts e he).trans hkept.count
      last := fun comd hcomd => h.last comd (hsub comd hcomd)
      notQueued := fun comd hcomd => h.notQueued comd (hsub comd hcomd)
      targets := fun comd hcomd => h.targets comd (hsub comd hcomd)
      covered := h.covered
      present := fun comd hcomd => h.present comd (hsub comd hcomd)
      distinct := h.distinct
      fresh := h.fresh
      own := h.own }

/-! ## Taking a command from the script -/

theorem find_sublist (connections : List Connection) (device : Name) :
    ((connections.find? (·.name = device)).map (·.number)).toList.Sublist
      (connections.map (·.number)) := by
  cases hfind : connections.find? (·.name = device) with
  | none => simp
  | some conn =>
    exact List.singleton_sublist.mpr (List.mem_map_of_mem (List.mem_of_find?_eq_some hfind))

theorem named_sublist (connections : List Connection) (device : Name) :
    (named connections device).Sublist (connections.map (·.number)) := by
  unfold named
  split
  · exact List.filter_sublist.map _
  · exact find_sublist connections _

theorem Inv.addressed (h : s.Inv) (device : Name) :
    (s.addressed device).Nodup ∧
      ∀ conn ∈ s.addressed device, conn ∈ s.connections.map (·.number) := by
  unfold CameraExec.addressed
  split
  · exact ⟨List.nodup_singleton _, fun conn hconn => by rw [List.mem_singleton.mp hconn]; exact h.own⟩
  · have hsub := named_sublist s.connections device
    exact ⟨hsub.nodup h.distinct, fun conn hconn => hsub.subset hconn⟩

/-- What was queued was given before. -/
theorem Inv.queued_lt (h : s.Inv) : ∀ q ∈ s.queued, q.number < s.emitted.length := by
  intro q hq
  have hmem := h.right.given q hq
  rw [h.numbers] at hmem
  exact List.mem_range.mp hmem

theorem queuedTo_eq_nil {number : Nat} (hq : ∀ q ∈ s.queued, q.number ≠ number) :
    s.queuedTo number = [] := by
  unfold queuedTo
  rw [List.filter_eq_nil_iff.mpr fun q hmem => by simpa using hq q hmem, List.map_nil]

/-- No command is given. -/
theorem Inv.unprepared (h : s.Inv) (hnone : s.nextComd = none) (hqueued : s'.queued = s.queued)
    (hnext : s'.nextComd = none) (hscript : s'.dev.script = s.dev.script)
    (hscriptCount : s'.dev.scriptCount = s.dev.scriptCount) (hemitted : s'.emitted = s.emitted)
    (hconns : s'.connections = s.connections) (hcount : s'.connCount = s.connCount)
    (hcovered : s'.waiting = true → s'.waitForExposure = true) : s'.Inv where
  right :=
    { handled := fun e he => (h.right.handled e (hemitted ▸ he)).congr hqueued
        (fun _ => by rw [hnext, hnone]) hscript hscriptCount
      emitted := hemitted ▸ h.right.emitted
      inOrder := hqueued ▸ h.right.inOrder
      given := hqueued ▸ hemitted ▸ h.right.given
      exposure := hqueued ▸ h.right.exposure
      connected := hqueued ▸ h.right.connected }
  prepared hsome := by simp [hnext] at hsome
  numbers := by rw [hemitted]; exact h.numbers
  scripts := by rw [hemitted, hscriptCount]; exact h.scripts
  last comd hcomd := by simp [hnext] at hcomd
  notQueued comd hcomd := by simp [hnext] at hcomd
  targets comd hcomd := by simp [hnext] at hcomd
  covered := hcovered
  present comd hcomd := by simp [hnext] at hcomd
  distinct := by rw [hconns]; exact h.distinct
  fresh := by rw [hconns, hcount]; exact h.fresh
  own := by rw [hconns]; exact h.own

/-- The script gives a command: it is prepared for its connections, or there are none. -/
theorem Inv.emit {conns : List Nat} (h : s.Inv) (hnone : s.nextComd = none)
    (hqueued : s'.queued = s.queued) (hscript : s'.dev.script = s.dev.script)
    (hscriptCount : s'.dev.scriptCount = s.dev.scriptCount)
    (hemitted : s'.emitted = s.emitted ++ [⟨s.emitted.length, s.dev.scriptCount, conns⟩])
    (hdistinct : conns.Nodup) (hthere : ∀ conn ∈ conns, conn ∈ s.connections.map (·.number))
    (hwithout : s'.nextComd = none → conns = [])
    (hwith : ∀ comd ∈ s'.nextComd, comd.number = s.emitted.length ∧ conns = comd.targets)
    (hprepared : s'.nextComd.isSome = true → s'.dev.nextComd = true)
    (hconns : s'.connections = s.connections) (hcount : s'.connCount = s.connCount)
    (hcovered : s'.waiting = true → s'.waitForExposure = true) : s'.Inv := by
  have hfree : s'.queuedTo s.emitted.length = [] :=
    queuedTo_eq_nil fun q hq => (h.queued_lt q (hqueued ▸ hq)).ne
  have hnew : s'.Handled ⟨s.emitted.length, s.dev.scriptCount, conns⟩ := by
    refine ⟨hdistinct, .inr ⟨hfree, ?_⟩⟩
    cases hnext : s'.nextComd with
    | none => exact .inr (.inl (hwithout hnext))
    | some comd => exact .inl (by simp [(hwith comd (by simp [hnext])).1])
  exact
    { right :=
        { handled := by
            rw [hemitted]
            intro e he
            obtain he | he := List.mem_append.mp he
            · exact (h.right.handled e he).congr hqueued (fun hp => by simp [hnone] at hp) hscript
                hscriptCount
            · rw [List.mem_singleton.mp he]
              exact hnew
          emitted := by
            rw [hemitted, List.map_append, List.pairwise_append]
            refine ⟨h.right.emitted, List.pairwise_singleton _ _, fun number hmem _ hlast => ?_⟩
            rw [h.numbers] at hmem
            rw [List.mem_singleton.mp hlast]
            exact List.mem_range.mp hmem
          inOrder := hqueued ▸ h.right.inOrder
          given := by
            rw [hqueued, hemitted, List.map_append]
            exact fun q hq => List.mem_append_left _ (h.right.given q hq)
          exposure := hqueued ▸ h.right.exposure
          connected := hqueued ▸ h.right.connected }
      prepared := hprepared
      numbers := by
        rw [hemitted, List.map_append, h.numbers, List.length_append, List.length_singleton,
          List.range_succ]
        rfl
      scripts := by
        rw [hemitted, hscriptCount]
        intro e he
        obtain he | he := List.mem_append.mp he
        · exact h.scripts e he
        · rw [List.mem_singleton.mp he]
      last := fun comd hcomd => by
        rw [hemitted, List.length_append, List.length_singleton, (hwith comd hcomd).1]
      notQueued := fun comd hcomd => by rw [(hwith comd hcomd).1, hfree]
      targets := fun comd hcomd => by
        refine ⟨_, hemitted ▸ List.mem_append_right _ (List.mem_singleton_self _), ?_⟩
        exact ⟨(hwith comd hcomd).1.symm, (hwith comd hcomd).2⟩
      covered := hcovered
      present := fun comd hcomd conn hconn => by
        rw [hconns]
        exact hthere conn ((hwith comd hcomd).2 ▸ hconn)
      distinct := by rw [hconns]; exact h.distinct
      fresh := by rw [hconns, hcount]; exact h.fresh
      own := by rw [hconns]; exact h.own }

theorem prepared_fields (a : Input) :
    (s.prepared T a).nextComd = s.nextComd ∧
      (s.prepared T a).dev.nextComd = s.nextComd.isSome ∧
      (s.prepared T a).dev.script = s.dev.script ∧
      (s.prepared T a).dev.scriptCount = s.dev.scriptCount := by
  obtain ⟨hcommand, hscript, hcount⟩ := Dev.nextPreparedCommand_fields
    (T := T) (a := a.dev a.next s.nextComd.isSome) { s.dev with nextComd := false, stack := [] } rfl
  refine ⟨?_, hcommand, hscript, hcount⟩
  unfold prepared CameraExec.runDev
  dsimp only
  rw [hcommand]
  cases s.nextComd with
  | none => rfl
  | some comd => rfl

theorem Inv.getNextCommand (h : s.Inv) (hnone : s.nextComd = none) : s.getNextCommand.Inv :=
  h.unprepared hnone rfl rfl rfl rfl rfl rfl rfl h.covered

theorem Inv.preparedNone {a : Input} (h : s.Inv) (hnone : s.nextComd = none) :
    (s.prepared T a).Inv := by
  obtain ⟨hnext, _, hscript, hcount⟩ := prepared_fields (s := s) (T := T) a
  exact h.unprepared hnone rfl (hnext.trans hnone) hscript hcount rfl rfl rfl h.covered

/-- The command is prepared with its connections. -/
theorem Inv.emitPrepared {a : Input} (h : s.Inv) (hnone : s.nextComd = none) (command : Command)
    (cmdConns : List Nat) (htargets : s.addressed command.device =
      (⟨s.emitted.length, command, cmdConns⟩ : NextComd).targets) :
    (({ s.emit command with nextComd := some ⟨s.emitted.length, command, cmdConns⟩ } :
      CameraExec).prepared T a).Inv := by
  obtain ⟨hdistinct, hthere⟩ := h.addressed command.device
  obtain ⟨hnext, hcommand, hscript, hcount⟩ := prepared_fields (T := T)
    (s := { s.emit command with nextComd := some ⟨s.emitted.length, command, cmdConns⟩ }) a
  refine h.emit hnone rfl hscript hcount rfl hdistinct hthere (fun hn => ?_) (fun comd hcomd => ?_)
    (fun _ => hcommand) rfl rfl h.covered
  · rw [hnext] at hn
    cases hn
  · rw [hnext] at hcomd
    cases hcomd
    exact ⟨rfl, htargets⟩

/-- The script gives its command, and none was prepared meanwhile. -/
theorem Inv.emitted {a : Input} (h : s.Inv) (hnone : s.nextComd = none) (command : Command) :
    ((s.emit command).findConnections T a).Inv := by
  change CameraExec.Inv (if command.device = s.name then _
    else if named s.connections command.device = [] then _ else _)
  by_cases hown : command.device = s.name
  · rw [if_pos hown]
    exact h.emitPrepared hnone command [] (if_pos hown)
  · have hconns : s.addressed command.device = named s.connections command.device := if_neg hown
    rw [if_neg hown]
    by_cases hnil : named s.connections command.device = []
    · rw [if_pos hnil]
      obtain ⟨hdistinct, hthere⟩ := h.addressed command.device
      exact h.emit hnone rfl rfl rfl rfl hdistinct hthere (fun _ => hconns.trans hnil)
        (fun comd hcomd => by cases hcomd) (fun hsome => by cases hsome) rfl rfl h.covered
    · rw [if_neg hnil]
      exact h.emitPrepared hnone command _ (hconns.trans (if_neg hnil).symm)

theorem Inv.scriptCommand {a : Input} (h : s.Inv) (hnone : s.nextComd = none) :
    ((s.newCommand a).findConnections T a).Inv := by
  have hunchanged : ∀ {s : CameraExec}, s.Inv → s.nextComd = none → (s.findConnections T a).Inv := by
    intro s hs hsnone
    unfold findConnections
    rw [hsnone]
    exact hs.preparedNone hsnone
  unfold newCommand
  split
  · exact hunchanged (h.unprepared hnone rfl rfl rfl rfl rfl rfl rfl h.covered) rfl
  · split
    · exact h.emitted hnone _
    · exact hunchanged h hnone

/-! ## Queueing a command -/

theorem exposure_alone (c : Command) (hexposure : c.exposure = true) :
    c.telMove = false ∧ c.whileState = false := by
  have hall : ∀ mask ∈ elementMasks, has mask Status.bopExposure = true →
      has mask Status.bopTelMove = false ∧ has mask Rts2.CommandQue.bopWhileState = false := by
    unfold elementMasks
    simp only [List.forall_mem_cons]
    exact ⟨by decide, by decide, by decide, by decide, fun mask hmask => by cases hmask⟩
  exact hall c.bopMask c.element hexposure

/-- The move bit is no part of an exposure command. -/
theorem exposure_withoutMove (c : Command) :
    has (c.bopMask &&& ~~~Status.bopTelMove) Status.bopExposure = c.exposure := by
  have hall : ∀ mask ∈ elementMasks, has (mask &&& ~~~Status.bopTelMove) Status.bopExposure =
      has mask Status.bopExposure := by
    unfold elementMasks
    simp only [List.forall_mem_cons]
    exact ⟨rfl, rfl, rfl, rfl, fun mask hmask => by cases hmask⟩
  exact hall c.bopMask c.element

/-- The command that waits for an exposure is postponed. -/
theorem postponed_of_holds {a : Input} {comd : NextComd} (hwait : s.waitForExposure = true)
    (hholds : comd.holds a = true) :
    s.postponed a comd.command = true ∨
      comd.cmdConns ≠ [] ∧ devicePostponed a comd.command = true := by
  have hpositive : a.que_exp_num.any (0 < ·) = true → a.que_exp_num.any (· ≠ 0) = true := by
    cases hnum : a.que_exp_num with
    | none => simp
    | some n =>
      simp only [Option.any_some, decide_eq_true_eq]
      omega
  unfold NextComd.holds Input.showsExposure at hholds
  unfold postponed devicePostponed
  cases hexposure : comd.command.exposure with
  | true =>
    obtain ⟨htel, hwhile⟩ := exposure_alone _ hexposure
    exact .inl (by simp [htel, hwhile, hwait])
  | false =>
    cases hwhile : comd.command.whileState with
    | true =>
      refine .inl ?_
      simp only [hexposure, hwhile, Bool.not_true, Bool.and_false, Bool.or_false, Bool.false_or,
        Bool.true_or, Bool.true_and, Bool.or_eq_true] at hholds ⊢
      rw [if_pos trivial, Bool.or_eq_true]
      exact hholds.elim .inr fun hnum => .inl (hpositive hnum)
    | false =>
      cases htel : comd.command.telMove with
      | true => exact .inl (by simp [hwait])
      | false =>
        refine .inr ?_
        simp only [hexposure, hwhile, htel, Bool.not_false, Bool.and_true, Bool.false_or,
          Bool.true_and, Bool.and_eq_true, decide_eq_true_eq, Bool.or_eq_true] at hholds ⊢
        obtain ⟨hconns, hshows⟩ := hholds
        exact ⟨hconns, .inl (.inl (.inl hshows))⟩

theorem queuedTo_queCommand (number : Nat) (bopMask : Status) (conns : List Nat) (n : Nat) :
    (s.queCommand number bopMask conns).queuedTo n =
      s.queuedTo n ++ if number = n then conns else [] := by
  unfold queuedTo queCommand
  rw [List.filter_append, List.map_append, List.filter_map, List.map_map]
  congr 1
  by_cases hn : number = n
  · simp [hn, Function.comp_def]
  · simp [hn, Function.comp_def]

theorem queued_numbers (number : Nat) (bopMask : Status) (conns : List Nat) :
    (s.queCommand number bopMask conns).queued.map (·.number) =
      s.queued.map (·.number) ++ List.replicate conns.length number := by
  simp [queCommand, Function.comp_def]

/-- A call of `queCommand` on the connections of the prepared command. -/
theorem mem_queCommand {number : Nat} {bopMask : Status} {conns : List Nat} {q : Queued}
    (hq : q ∈ (s.queCommand number bopMask conns).queued) :
    q ∈ s.queued ∨ ∃ conn ∈ conns, q.number = number ∧ q.bopMask = bopMask ∧
      q.connected = decide (conn ∈ s.connections.map (·.number)) ∧ q.moved = !s.notMoved ∧
      q.waiting = s.waiting := by
  obtain hold | hnew := List.mem_append.mp hq
  · exact .inl hold
  · obtain ⟨conn, hconn, rfl⟩ := List.mem_map.mp hnew
    exact .inr ⟨conn, hconn, rfl, rfl, rfl, rfl, rfl⟩

theorem Inv.queCommand {comd : NextComd} {bopMask : Status} (h : s.Inv) (hcomd : comd ∈ s.nextComd)
    (hmoved : has bopMask Status.bopExposure = true → s.notMoved = false)
    (hwaiting : s.waiting = false) :
    (s.queCommand comd.number bopMask comd.targets).Inv := by
  obtain ⟨e₀, he₀, hnumber, hconns⟩ := h.targets comd hcomd
  have hnodup : (s.emitted.map (·.number)).Nodup := h.numbers ▸ List.nodup_range
  have hlast := h.last comd hcomd
  exact
    { right :=
        { handled := fun e he => by
            have hold := h.right.handled e he
            refine ⟨hold.distinct, ?_⟩
            rw [queuedTo_queCommand]
            by_cases hn : comd.number = e.number
            · have heq : e = e₀ :=
                List.inj_on_of_nodup_map hnodup he he₀ (hn.symm.trans hnumber.symm)
              rw [if_pos hn, ← hn, h.notQueued comd hcomd, List.nil_append, heq, hconns]
              exact .inl rfl
            · rw [if_neg hn, List.append_nil]
              obtain honce | ⟨hnone, hprepared | hwhy⟩ := hold.once
              · exact .inl honce
              · rw [Option.mem_def.mp hcomd] at hprepared
                exact absurd (Option.some.inj hprepared) hn
              · exact .inr ⟨hnone, .inr hwhy⟩
          emitted := h.right.emitted
          inOrder := by
            rw [queued_numbers]
            refine List.pairwise_append.mpr
              ⟨h.right.inOrder, List.pairwise_replicate.mpr (.inr le_rfl), fun number hmem last hl => ?_⟩
            obtain ⟨q, hq, rfl⟩ := List.mem_map.mp hmem
            rw [List.eq_of_mem_replicate hl]
            have hlt := h.queued_lt q hq
            omega
          given := fun q hq => by
            obtain hold | ⟨conn, _, hqn, _⟩ := mem_queCommand hq
            · exact h.right.given q hold
            · rw [hqn, ← hnumber]
              exact List.mem_map_of_mem he₀
          exposure := fun q hq hexposure => by
            obtain hold | ⟨conn, _, _, hmask, _, hqmoved, hqwaiting⟩ := mem_queCommand hq
            · exact h.right.exposure q hold hexposure
            · rw [hqmoved, hqwaiting, hmoved (hmask ▸ hexposure)]
              exact ⟨rfl, hwaiting⟩
          connected := fun q hq => by
            obtain hold | ⟨conn, hconn, _, _, hconnected, _⟩ := mem_queCommand hq
            · exact h.right.connected q hold
            · rw [hconnected, decide_eq_true (h.present comd hcomd conn hconn)] }
      prepared := fun hsome => by cases hsome
      numbers := h.numbers
      scripts := h.scripts
      last := fun comd hnone => by cases hnone
      notQueued := fun comd hnone => by cases hnone
      targets := fun comd hnone => by cases hnone
      covered := h.covered
      present := fun comd hnone => by cases hnone
      distinct := h.distinct
      fresh := h.fresh
      own := h.own }

theorem Inv.loop {a : Input} (h : s.Inv) : (s.loop a).Inv := by
  unfold CameraExec.loop
  split
  · exact h.call _
  · exact h

/-- Past the checks, no exposure command waits, and one is queued to a target that was moved. -/
theorem Inv.send {a : Input} {comd : NextComd} (h : s.Inv) (hcomd : comd ∈ s.nextComd)
    (hmoved : comd.command.exposure = true → s.notMoved = false)
    (hwaiting : s.waiting = true → comd.cmdConns ≠ [] ∧ devicePostponed a comd.command = true) :
    (s.send a comd).Inv := by
  unfold CameraExec.send
  by_cases hconns : comd.cmdConns = []
  · have hnot : s.waiting = false := by
      by_contra hwait
      exact (hwaiting (Bool.eq_true_of_not_eq_false hwait)).1 hconns
    have htargets : comd.targets = [ownConn] := if_pos hconns
    rw [if_neg (not_not_intro hconns)]
    refine Inv.loop ?_
    unfold queToCamera
    rw [hnot, Bool.false_or, ← htargets]
    exact (h.queCommand hcomd hmoved hnot).setWait _ _ id
  · have htargets : comd.targets = comd.cmdConns := if_neg hconns
    rw [if_pos hconns]
    split
    · exact h
    · rename_i hpassed
      have hnot : s.waiting = false := by
        by_contra hwait
        exact hpassed (hwaiting (Bool.eq_true_of_not_eq_false hwait)).2
      refine Inv.loop ?_
      unfold queToDevices
      rw [← htargets]
      have hreset : ({ s with waitForExposure := false } : CameraExec).Inv :=
        h.congr rfl rfl rfl rfl rfl rfl fun hwait => by rw [hnot] at hwait; cases hwait
      refine hreset.queCommand hcomd ?_ hnot
      split
      · exact hmoved
      · rw [exposure_withoutMove]
        exact hmoved

theorem Inv.doNextCommand {a : Input} (h : s.Inv)
    (hholds : s.waiting = true → ∀ comd ∈ s.next a, comd.holds a = true) :
    (s.doNextCommand a).Inv := by
  unfold CameraExec.doNextCommand
  cases hnext : s.next a with
  | none => exact h
  | some comd =>
    have hcomd : comd ∈ s.nextComd := by
      unfold CameraExec.next at hnext
      split at hnext
      · cases hnext
      · exact hnext
    have hmeta (waitMetaData : Bool) :
        ({ s with waitMetaData := waitMetaData } : CameraExec).Inv :=
      h.congr rfl rfl rfl rfl rfl rfl h.covered
    dsimp only
    split
    · exact hmeta false
    · rename_i hnotMoved
      split
      · exact hmeta true
      · split
        · exact hmeta false
        · rename_i hpassed
          refine (hmeta false).send hcomd (fun hexposure => ?_) fun hwait => ?_
          · by_contra hmoved
            exact hnotMoved ⟨hexposure, Bool.eq_true_of_not_eq_false hmoved⟩
          · have hwaits := hholds hwait comd (by rw [hnext]; rfl)
            exact (postponed_of_holds (h.covered hwait) hwaits).resolve_left hpassed

/-! ## Events -/

/-- A device connects; its connection is a new one. -/
theorem Inv.connected (h : s.Inv) (name : Name) (otherType : Nat) :
    ({ s with
      connections := s.connections ++ [⟨s.connCount, name, otherType⟩]
      connCount := s.connCount + 1 } : CameraExec).Inv :=
  { h with
    right :=
      { h.right with
        handled := fun e he => (h.right.handled e he).congr rfl (fun _ => rfl) rfl rfl }
    notQueued := h.notQueued
    present := fun comd hcomd conn hconn => by
      rw [List.map_append]
      exact List.mem_append_left _ (h.present comd hcomd conn hconn)
    distinct := by
      rw [List.map_append]
      refine h.distinct.append (List.nodup_singleton _) ?_
      intro conn hold hnew
      rw [List.mem_singleton.mp hnew] at hold
      exact absurd (h.fresh _ hold) (lt_irrefl _)
    fresh := fun conn hconn => by
      rw [List.map_append] at hconn
      obtain hold | hnew := List.mem_append.mp hconn
      · exact Nat.lt_succ_of_lt (h.fresh conn hold)
      · rw [List.mem_singleton.mp hnew]
        exact Nat.lt_succ_self _
    own := by
      rw [List.map_append]
      exact List.mem_append_left _ h.own }

/-- A connection is removed that no prepared command is for. -/
theorem Inv.removed {conn : Nat} (h : s.Inv) (hown : conn ≠ ownConn)
    (hkeeps : ∀ comd ∈ s.nextComd, conn ∉ comd.cmdConns) :
    ({ s with connections := s.connections.filter (·.number ≠ conn) } : CameraExec).Inv := by
  have hsub := (List.filter_sublist (p := fun c : Connection => c.number ≠ conn)
    (l := s.connections)).map (·.number)
  have hstays : ∀ other ∈ s.connections.map (·.number), other ≠ conn →
      other ∈ (s.connections.filter (·.number ≠ conn)).map (·.number) := by
    intro other hother hne
    obtain ⟨c, hc, rfl⟩ := List.mem_map.mp hother
    exact List.mem_map_of_mem (List.mem_filter.mpr ⟨hc, by simpa using hne⟩)
  exact
    { h with
      right :=
        { h.right with
          handled := fun e he => (h.right.handled e he).congr rfl (fun _ => rfl) rfl rfl }
      notQueued := h.notQueued
      present := fun comd hcomd other hother => by
        refine hstays other (h.present comd hcomd other hother) fun heq => ?_
        unfold NextComd.targets at hother
        split at hother
        · exact hown (heq ▸ List.mem_singleton.mp hother)
        · exact hkeeps comd hcomd (heq ▸ hother)
      distinct := hsub.nodup h.distinct
      fresh := fun other hother => h.fresh other (hsub.subset hother)
      own := hstays _ h.own (Ne.symm hown) }

theorem Inv.clearWait (h : s.Inv) (event : Dev.Event) : (s.clearWait event).Inv := by
  unfold CameraExec.clearWait
  split
  any_goals exact h.setWait false false id
  exact h

/-- An event that is taken keeps the invariant. -/
theorem Inv.postEvent {a : Input} (h : s.Inv) (event : Event)
    (hremoved : ∀ conn, event = .removed conn → ∀ comd ∈ s.nextComd, conn ∉ comd.cmdConns)
    (hfailed : event = .commandFailed false → s.waiting = false) :
    (s.postEvent T a event).Inv := by
  cases event with
  | script event =>
    exact (h.clearWait event).runDev (fun d => Dev.kept_postEvent d event)
  | commandOK killCommand => exact h.runDev fun d => Dev.kept_postEvent d _
  | commandFailed waited =>
    refine Inv.call (h.setWait false (s.waiting && !waited) fun hwait => ?_) _
    cases waited with
    | true => simp at hwait
    | false => simp [hfailed rfl] at hwait
  | triggered => exact h.call _
  | idle next =>
    exact Inv.runDev (f := fun d => d.postEvent T (a.dev a.next false) (.idle next)) (h.call _)
      fun d => Dev.kept_postEvent d _
  | exposureStarted =>
    exact Inv.call (h.setWait s.waitForExposure false fun hwait => by cases hwait) _
  | exposureEnd =>
    unfold CameraExec.postEvent
    dsimp only
    split
    · exact (h.call _).call _
    · exact h.call _
  | exposureFailed => exact h.call _
  | readoutEnd => exact h.call _
  | processImage =>
    unfold CameraExec.postEvent
    dsimp only
    split
    · exact h.call _
    · exact h
  | stateChanged => exact h.call _
  | connected name otherType => exact h.connected name otherType
  | removed conn =>
    unfold CameraExec.postEvent
    dsimp only
    split
    · exact h
    · rename_i hown
      exact h.removed hown (hremoved conn rfl)
  | moved target wasMoved => exact h.congr rfl rfl rfl rfl rfl rfl h.covered

/-! ## Steps -/

theorem Inv.nextPreparedCommand {a : Input} (h : s.Inv) : (s.nextPreparedCommand T a).Inv := by
  unfold CameraExec.nextPreparedCommand
  split
  · exact h.runDev Dev.kept_nextPreparedCommand
  · rename_i hnone
    exact h.getNextCommand hnone

/-- A call of `DevScript` that is not `.master`. -/
theorem Inv.resumeDev {a : Input} (h : s.Inv) (frame : Dev.Frame) (hframe : frame ≠ .master) :
    (s.resumeDev T a frame).Inv := by
  have hother : (s.runDev (·.resume T (a.dev a.next false) frame)).Inv :=
    h.runDev fun d => Dev.kept_resume d frame rfl rfl
  cases frame with
  | master => exact absurd rfl hframe
  | nextCommand => exact h.call _
  | nextPrepared => exact h.nextPreparedCommand
  | haveNextAgain =>
    unfold CameraExec.resumeDev
    dsimp only
    split
    · exact (h.pop s.stack.tail).call _
    · exact h
  | _ => exact hother

theorem Inv.resume {a : Input} {frame : Frame} (h : s.Inv) (hframe : frame ≠ .dev .master)
    (hnext : frame = .doNextCommand → s.waiting = true → ∀ comd ∈ s.next a, comd.holds a = true)
    (hcommand : frame = .scriptCommand → s.nextComd = none)
    (hstarted : frame = .exposureStarted → s.waiting = false) :
    (s.resume T a frame).Inv := by
  cases frame with
  | dev frame => exact h.resumeDev frame fun heq => hframe (heq ▸ rfl)
  | scriptCommand => exact h.scriptCommand (hcommand rfl)
  | doNextCommand => exact h.doNextCommand (hnext rfl)
  | exposureStarted =>
    have hreset : ({ s with waitForExposure := false } : CameraExec).Inv :=
      h.congr rfl rfl rfl rfl rfl rfl fun hwait => by rw [hstarted rfl] at hwait; cases hwait
    exact hreset.call _
  | _ =>
    unfold CameraExec.resume
    dsimp only
    split
    all_goals first
      | exact h
      | exact h.call _

theorem Inv.step {a : Input} (h : s.Inv) (hok : s.Undisturbed a) : (s.step T a).Inv := by
  obtain ⟨hkeeps, hfailed, hwaits⟩ := hok
  have hevent : ∀ event, s.taken a = some event →
      (∀ conn, event = .removed conn → ∀ comd ∈ s.nextComd, conn ∉ comd.cmdConns) ∧
        (event = .commandFailed false → s.waiting = false) := by
    intro event htaken
    unfold Keeps at hkeeps
    unfold OwnFailure at hfailed
    rw [htaken] at hkeeps hfailed
    refine ⟨fun conn heq => ?_, fun heq => ?_⟩
    · subst heq
      exact hkeeps
    · subst heq
      exact hfailed
  unfold CameraExec.step
  cases hstack : s.stack with
  | nil =>
    dsimp only
    split
    · rename_i event hsome
      have htaken : s.taken a = some event := by simp [taken, hstack, hsome]
      exact h.postEvent event (hevent event htaken).1 (hevent event htaken).2
    · exact h
  | cons frame rest =>
    have hpop := h.pop rest
    by_cases hmaster : frame = .dev .master
    · subst hmaster
      dsimp only [CameraExec.resume, CameraExec.resumeDev]
      split
      · rename_i event hsome
        have htaken : s.taken a = some event := by simp [taken, hstack, hsome]
        exact (hpop.call _).postEvent event (hevent event htaken).1 (hevent event htaken).2
      · exact hpop
    · unfold Waits at hwaits
      rw [hstack] at hwaits
      refine hpop.resume hmaster (fun heq => ?_) (fun heq => ?_) (fun heq => ?_)
      · subst heq
        exact hwaits
      · subst heq
        exact Option.isNone_iff_eq_none.mp hwaits
      · subst heq
        exact hwaits

end CameraExec

/-! ## Runs -/

/-- In every run of a camera whose prepared commands and waiting exposures are left alone,
every command is queued once, and an exposure only when it may be. -/
theorem commands_right (T : Targets) (name : Name) (obsId : Target → Int) (inputs : List Input)
    (hok : Along (CameraExec.step T) CameraExec.Undisturbed (CameraExec.create name obsId) inputs) :
    (run (CameraExec.step T) (CameraExec.create name obsId) inputs).Right :=
  (hok.invariant (CameraExec.Inv.create name obsId) fun _ _ h hstep => h.step hstep).right

/-! ## Runs on the camera `C0` with the filter wheel `W0` -/

def exposure : Command := ⟨Status.bopExposure, "C0".toList, by decide⟩

def box : Command := ⟨0#32, "C0".toList, by decide⟩

def filter : Command := ⟨Status.bopTelMove, "W0".toList, by decide⟩

/-- An event, or the end of one, while the camera has nothing to do. -/
def quiet (event : Option Event) : Input where
  event := event
  next := .KEEP
  command := none
  notExecuted := false
  isLastCommand := false
  failed := false
  isWaitMove := false
  waitForMetaData := false
  que_exp_num := some 0
  queEmpty := true
  commandOriginatorPending := false
  state := 0#32
  bopState := 0#32
  fullBopState := 0#32
  newState := 0#32
  waits := false

/-- The filter wheel connects, and the target 7 is set after the telescope moved to it. -/
def observes : List Input :=
  [quiet (some (.connected "W0".toList deviceTypeFw)), quiet (some (.moved 7 true)),
    quiet (some (.script (.setTarget 7))), quiet none]

def gives (command : Command) : Input := { quiet none with command := some command }

/-- An exposure is in the queue of the camera. -/
def exposing : Input := { quiet none with que_exp_num := some 1 }

/-- `nextCommand` takes a command from the script. -/
def takes (command : Command) (a : Input) : List Input :=
  [quiet none, quiet none, quiet none, quiet none, gives command, quiet none, a]

def returned : Input := quiet (some (.commandOK false))

def numbered : Targets where
  targetID target := target
  obsTargetID target := target

abbrev cameraAfter (inputs : List Input) : CameraExec :=
  run (CameraExec.step numbered) (CameraExec.create "C0".toList fun _ => 1) inputs

/-- The filter is set, and then an exposure starts. -/
def filterThenExposure : List Input :=
  observes ++ takes filter (quiet none) ++ [returned] ++ takes exposure (quiet none) ++
    [returned, quiet (some .exposureStarted), quiet none]

theorem commands_right_filterThenExposure :
    Along (CameraExec.step numbered) CameraExec.Undisturbed
        (CameraExec.create "C0".toList fun _ => 1) filterThenExposure ∧
      (cameraAfter filterThenExposure).Right ∧
      (cameraAfter filterThenExposure).queued.map (fun q => (q.number, q.conn)) =
        [(0, 1), (1, 0)] := by
  have hok : Along (CameraExec.step numbered) CameraExec.Undisturbed
      (CameraExec.create "C0".toList fun _ => 1) filterThenExposure := by decide
  exact ⟨hok, commands_right numbered _ _ filterThenExposure hok, by decide⟩

/-- The filter wheel is removed while its command waits for an exposure to end. -/
def removedWhilePrepared : List Input :=
  observes ++ takes filter exposing ++ [quiet (some (.removed 1)), returned, quiet none,
    quiet none, quiet none, quiet none, quiet none]

/-- A box is set after the exposure command returned, before the exposure starts. -/
def boxBetweenExposures : List Input :=
  observes ++ takes exposure (quiet none) ++ [returned] ++ takes box (quiet none) ++ [returned] ++
    takes exposure (quiet none)

/-- An element posts a signal; a command returns meanwhile, and the filter is prepared. The
next element gives an exposure in its place. -/
def preparedDuringSignal : List Input :=
  observes ++ [quiet none, quiet none, quiet none, returned] ++ takes filter exposing ++
    [quiet none, gives exposure]

/-- A connection is used that was removed, an exposure command is queued while another one
waits, and a command is lost. -/
theorem commands_wrong :
    ¬ (cameraAfter removedWhilePrepared).Right ∧ ¬ (cameraAfter boxBetweenExposures).Right ∧
      ¬ (cameraAfter preparedDuringSignal).Right := by
  refine ⟨fun h => ?_, fun h => ?_, fun h => ?_⟩
  · have hremoved : ∃ q ∈ (cameraAfter removedWhilePrepared).queued, q.connected = false := by
      decide
    obtain ⟨q, hq, hconnected⟩ := hremoved
    rw [h.connected q hq] at hconnected
    cases hconnected
  · have hwaits : ∃ q ∈ (cameraAfter boxBetweenExposures).queued,
        q.exposure = true ∧ q.waiting = true := by decide
    obtain ⟨q, hq, hexposure, hwaiting⟩ := hwaits
    rw [(h.exposure q hq hexposure).2] at hwaiting
    cases hwaiting
  · have hlost : ∃ e ∈ (cameraAfter preparedDuringSignal).emitted,
        (cameraAfter preparedDuringSignal).queuedTo e.number ≠ e.conns ∧
          (cameraAfter preparedDuringSignal).nextComd.map (·.number) ≠ some e.number ∧
          e.conns ≠ [] ∧ (cameraAfter preparedDuringSignal).dev.script = true ∧
          (cameraAfter preparedDuringSignal).dev.scriptCount = e.script := by decide
    obtain ⟨e, he, honce, hprepared, hconns, hscript, hcount⟩ := hlost
    obtain hall | ⟨_, hnext | hnone | hnot⟩ := (h.handled e he).once
    · exact honce hall
    · exact hprepared hnext
    · exact hconns hnone
    · exact hnot ⟨hscript, hcount⟩

end Camera

end Rts2.Script
