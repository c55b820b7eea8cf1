import Mathlib.Data.Option.Basic
import Rts2.Script.DevScript

/-! # The target that is not executed

A target that was stopped, whose script executed nothing or failed, or whose script asked
to be stopped, is not executed again. A target that waits is compared with it when it
comes, and again only in two of the four cases. -/
namespace Rts2.Script.Dev
open Rts2.Lib

/-! ## What is asked -/

/-- A script is loaded only with a current target, and none was started for the pair that
was disabled then. -/
structure Safe (s : DevScript) : Prop where
  loaded : s.script = true → s.currentTarget.isSome
  started : ∀ start ∈ s.starts, start.disabled = false

section
variable (T : Targets) (s : DevScript) (a : Input)

/-- The target that waits is the current one: the same number and the same observation. -/
def WaitsAgain : Prop :=
  ∃ target ∈ s.currentTarget, ∃ next ∈ s.nextTarget,
    T.targetID next = T.targetID target ∧ s.obsId next = s.obsId target

/-- The script fails and its target does not wait again, or is dropped from the queue since
nothing was executed. -/
def DropsWaiting : Prop :=
  s.script = true → a.failed = true → WaitsAgain T s →
    a.notExecuted = true ∧ ∀ target ∈ s.currentTarget, 0 ≤ T.targetID target

/-- The target that gets an observation. -/
def Input.observed : Option (Target × Int) :=
  match a.event with
  | some (.setObsId target obsId) => some (target, obsId)
  | _ => none

/-- A target does not get the observation that is disabled for its number. -/
def ObservedAnew : Prop :=
  ∀ observed ∈ a.observed,
    s.dont_execute_for = -1 ∨ T.targetID observed.1 ≠ s.dont_execute_for ∨
      observed.2 ≠ s.dont_execute_for_obsid

/-- The script is about to be dropped. -/
def DevScript.drops : Bool :=
  match s.stack with
  | .deleteScript _ :: _ => s.waitScript ≠ .WAIT_MASTER
  | .acqusitionPosted _ :: _ => true
  | _ => false

/-- The script is asked for its next command. -/
def DevScript.asks : Bool :=
  match s.stack with
  | .nextPrepared :: _ => !s.nextComd
  | _ => false

/-- An event may come. -/
def DevScript.listens : Bool :=
  match s.stack with
  | [] => true
  | .master :: _ => true
  | _ => false

/-- What the program does not check. A target that fails, or that asks to be stopped, does
not wait again; a target that asks to be stopped was not started while the end of another
script was posted; and a target does not get the observation that is disabled. -/
def Undisturbed : Prop :=
  (s.drops = true → DropsWaiting T s a) ∧
  (s.asks = true → a.next = .STOP_TARGET → ¬ WaitsAgain T s ∧ .haveNextDeleted ∉ s.stack) ∧
  (s.listens = true → ObservedAnew T s a)

instance WaitsAgain.decidable : Decidable (WaitsAgain T s) :=
  inferInstanceAs (Decidable (∃ target ∈ s.currentTarget, ∃ next ∈ s.nextTarget, _))

instance DropsWaiting.decidable : Decidable (DropsWaiting T s a) :=
  inferInstanceAs (Decidable (_ → _ → _ → _))

instance ObservedAnew.decidable : Decidable (ObservedAnew T s a) :=
  inferInstanceAs (Decidable (∀ observed ∈ a.observed, _))

instance Undisturbed.decidable : Decidable (Undisturbed T s a) :=
  inferInstanceAs (Decidable (_ ∧ _ ∧ _))

/-! ## The invariant -/

structure Inv : Prop where
  loaded : s.script = s.currentTarget.isSome
  started : ∀ start ∈ s.starts, start.disabled = false
  pending : ∀ target ∈ s.nextTarget, s.disabled T target = false
  /-- While `haveNextCommand` is about to start a target, the current one is not disabled. -/
  restart : .haveNextDeleted ∈ s.stack → ∀ target ∈ s.currentTarget, s.disabled T target = false

end

variable {T : Targets} {s : DevScript} {a : Input} {target : Target}

theorem Inv.create (obsId : Target → Int) : Inv T (DevScript.create obsId) where
  loaded := rfl
  started start h := by simp [DevScript.create] at h
  pending target h := by simp [DevScript.create] at h
  restart h := by simp [DevScript.create] at h

theorem Inv.safe (h : Inv T s) : Safe s := ⟨fun hs => by rw [← h.loaded, hs], h.started⟩

/-! ## Frames -/

theorem Inv.pop {frame : Frame} {rest : List Frame} (h : Inv T s) (hstack : s.stack = frame :: rest) :
    Inv T { s with stack := rest } :=
  ⟨h.loaded, h.started, h.pending, fun hmem =>
    h.restart (by rw [hstack]; exact List.mem_cons_of_mem _ hmem)⟩

theorem Inv.call {frames : List Frame} (h : Inv T s) (hframes : .haveNextDeleted ∉ frames) :
    Inv T (s.call frames) :=
  ⟨h.loaded, h.started, h.pending, fun hmem =>
    h.restart ((List.mem_append.mp hmem).resolve_left hframes)⟩

/-- What is changed besides the targets, the script and the stack does not matter. -/
theorem Inv.congr {s' : DevScript} (h : Inv T s) (hscript : s'.script = s.script)
    (hcurrent : s'.currentTarget = s.currentTarget) (hnext : s'.nextTarget = s.nextTarget)
    (hstarts : s'.starts = s.starts) (hdisabled : s'.disabled T = s.disabled T)
    (hstack : s'.stack = s.stack) : Inv T s' where
  loaded := by rw [hscript, hcurrent]; exact h.loaded
  started := by rw [hstarts]; exact h.started
  pending := by rw [hnext, hdisabled]; exact h.pending
  restart := by rw [hstack, hcurrent, hdisabled]; exact h.restart

/-! ## Starting a target -/

theorem Inv.startCurrent (h : Inv T s) (hcurrent : s.currentTarget = some target)
    (hok : s.disabled T target = false) : Inv T (s.startCurrent T target) where
  loaded := by simp [DevScript.startCurrent, DevScript.call, hcurrent]
  started start hmem := by
    rcases List.mem_cons.mp hmem with rfl | hmem
    · exact hok
    · exact h.started start hmem
  pending := h.pending
  restart hmem := h.restart ((List.mem_cons.mp hmem).resolve_left (by simp))

/-- The target that waits becomes the current one. -/
theorem Inv.startNext (h : Inv T s) (hnext : s.nextTarget = some target) :
    Inv T ({ s with currentTarget := some target, nextTarget := none }.startCurrent T target) where
  loaded := rfl
  started start hmem := by
    rcases List.mem_cons.mp hmem with rfl | hmem
    · exact h.pending target hnext
    · exact h.started start hmem
  pending next hmem := by cases hmem
  restart _ current hmem := by
    cases hmem
    exact h.pending target hnext

theorem Inv.startTarget (h : Inv T s)
    (hok : ∀ target ∈ s.currentTarget, s.disabled T target = false) :
    Inv T (s.startTarget T) := by
  unfold DevScript.startTarget
  split
  · rename_i target hcurrent
    exact h.startCurrent hcurrent (hok target hcurrent)
  · rename_i target hcurrent hnext
    exact h.startNext hnext
  · exact h

theorem Inv.startTarget_of_none (h : Inv T s) (hcurrent : s.currentTarget = none) :
    Inv T (s.startTarget T) :=
  h.startTarget fun target hmem => by rw [hcurrent] at hmem; cases hmem

/-! ## Events -/

/-- The target that waits is compared with the pair when it comes; another one enables it. -/
theorem Inv.setNextTarget (h : Inv T s) : Inv T (s.setNextTarget T target) := by
  unfold DevScript.setNextTarget
  split
  · exact ⟨h.loaded, h.started, fun next hmem => (by cases hmem), h.restart⟩
  · refine ⟨h.loaded, h.started, fun next _ => ?_, fun _ current _ => ?_⟩
    all_goals simp [DevScript.disabled]

/-- After the script is stopped at once, nothing is left to start, whatever is disabled. -/
theorem Inv.kill (h : Inv T s) : Inv T s.kill :=
  ⟨rfl, h.started, fun next hmem => (by cases hmem), fun _ current hmem => (by cases hmem)⟩

theorem Inv.enable (h : Inv T s) : Inv T s.enable := by
  refine ⟨h.loaded, h.started, fun next _ => ?_, fun _ current _ => ?_⟩
  all_goals simp [DevScript.enable, DevScript.disabled]

theorem Inv.kill_disableCurrent (h : Inv T s) : Inv T (s.disableCurrent T).kill := by
  have hstarts : (s.disableCurrent T).starts = s.starts := by
    unfold DevScript.disableCurrent
    split <;> rfl
  exact ⟨rfl, by rw [DevScript.kill, hstarts]; exact h.started, fun next hmem => (by cases hmem),
    fun _ current hmem => (by cases hmem)⟩

theorem Inv.killCommand (h : Inv T s) (callScriptEnds : Bool) (arg : Option Target) :
    Inv T (s.killCommand callScriptEnds arg) :=
  h.congr rfl rfl rfl rfl rfl rfl

theorem Inv.nextCommand (h : Inv T s) : Inv T (s.call [.nextCommand]) := h.call (by simp)

theorem Inv.clearWait (h : Inv T s) : Inv T { s with waitScript := .NO_WAIT } :=
  h.congr rfl rfl rfl rfl rfl rfl

theorem Inv.observe (h : Inv T s) : Inv T (s.observe T) := by
  unfold DevScript.observe
  split
  · exact h.nextCommand
  · rename_i hcurrent
    exact h.nextCommand.startTarget_of_none hcurrent

theorem Inv.setTarget (h : Inv T s) : Inv T (s.setTarget T target) := by
  have hnext : Inv T (s.setNextTarget T target) := h.setNextTarget
  unfold DevScript.setTarget
  dsimp only
  split
  · exact hnext
  · rename_i hcurrent
    exact hnext.nextCommand.startTarget_of_none hcurrent

theorem Inv.scriptEnded (h : Inv T s) (arg : Option Target) : Inv T (s.scriptEnded T arg) := by
  cases arg with
  | none =>
    unfold DevScript.scriptEnded
    dsimp only
    split
    · exact h
    · exact h.observe
  | some target =>
    have hnext : Inv T (s.setNextTarget T target) := h.setNextTarget
    unfold DevScript.scriptEnded
    dsimp only
    split
    · exact hnext
    · exact hnext.observe

/-- No target gets the observation that is disabled, so what is enabled stays so. -/
theorem Inv.setObsId (h : Inv T s) {obsId : Int}
    (hnew : s.dont_execute_for = -1 ∨ T.targetID target ≠ s.dont_execute_for ∨
      obsId ≠ s.dont_execute_for_obsid) :
    Inv T { s with obsId := fun t => if t = target then obsId else s.obsId t } := by
  have hkeep : ∀ t, s.disabled T t = false →
      { s with obsId := fun t => if t = target then obsId else s.obsId t }.disabled T t = false := by
    intro t ht
    by_cases heq : t = target
    · subst heq
      rcases hnew with h1 | h1 | h1 <;> simp [DevScript.disabled, h1]
    · simpa [DevScript.disabled, heq] using ht
  exact ⟨h.loaded, h.started, fun next hmem => hkeep next (h.pending next hmem),
    fun hstack current hmem => hkeep current (h.restart hstack current hmem)⟩

theorem Inv.postEvent (h : Inv T s) (event : Event) (hevent : a.event = some event)
    (hnew : ObservedAnew T s a) : Inv T (s.postEvent T a event) := by
  cases event with
  | stopTarget arg => exact h.kill_disableCurrent.killCommand true arg
  | killAll => exact h.kill.enable
  | setTargetKill arg => exact h.kill.enable.killCommand true arg
  | setTargetKillNotClear arg => exact h.kill.enable.killCommand false arg
  | stopObservation => exact h.call (by simp)
  | setTarget target => exact h.setTarget
  | setTargetNotClear target => exact h.setTarget
  | scriptEnded arg => exact h.scriptEnded arg
  | observe => exact h.observe
  | clearWait => exact h.nextCommand
  | starData =>
    unfold DevScript.postEvent
    dsimp only
    split
    exacts [h.nextCommand, h]
  | mirrorFinish =>
    unfold DevScript.postEvent
    dsimp only
    split
    exacts [h.clearWait.nextCommand, h]
  | acqusitionEnd acqEnd =>
    unfold DevScript.postEvent
    dsimp only
    split
    · cases acqEnd with
      | ok => exact h.clearWait.nextCommand
      | failed => exact h.clearWait.call (by simp)
      | deleted => exact h.clearWait
    · exact h
  | signal waited =>
    unfold DevScript.postEvent
    dsimp only
    split
    exacts [h.clearWait.nextCommand, h]
  | nextCommand killCommand =>
    have hkilled : Inv T (s.call [.killed, .nextCommand]) := h.call (by simp)
    unfold DevScript.postEvent
    dsimp only
    split
    · split
      exacts [hkilled.setTarget, hkilled]
    · exact h.nextCommand
  | idle next =>
    unfold DevScript.postEvent
    dsimp only
    split
    exacts [h.nextCommand, h]
  | endScript => exact h.call (by simp)
  | setObsId target obsId =>
    exact h.setObsId (hnew (target, obsId) (by simp [Input.observed, hevent]))
  | other => exact h

/-! ## Deleting the script -/

theorem waits_disableCurrent (hpending : ∀ next ∈ s.nextTarget, s.disabled T next = false)
    (hagain : ¬ WaitsAgain T s) :
    ∀ next ∈ (s.disableCurrent T).nextTarget, (s.disableCurrent T).disabled T next = false := by
  unfold DevScript.disableCurrent
  split
  · rename_i target hcurrent
    intro next hnext
    have hne : ¬ (T.targetID next = T.targetID target ∧ s.obsId next = s.obsId target) :=
      fun heq => hagain ⟨target, hcurrent, next, hnext, heq⟩
    simp only [DevScript.disabled, Bool.and_eq_false_iff, decide_eq_false_iff_not]
    by_cases hid : T.targetID next = T.targetID target
    · exact .inr fun hobs => hne ⟨hid, hobs⟩
    · exact .inl (.inr hid)
  · exact hpending

/-- A target whose script executed nothing does not wait any more, under any observation. -/
theorem not_waitsAgain_disableNotExecuted (hcurrent : s.currentTarget = some target)
    (hid : 0 ≤ T.targetID target) : ¬ WaitsAgain T (s.disableNotExecuted T target) := by
  rintro ⟨current, hmem, next, hnext, heq, -⟩
  have hsame : (s.disableNotExecuted T target).currentTarget = some target := by
    simp [DevScript.disableNotExecuted, DevScript.disableCurrent, hid, hcurrent]
  have hfilter : next ∈ s.nextTarget.filter fun next => T.targetID next ≠ T.targetID target := by
    simpa [DevScript.disableNotExecuted, DevScript.disableCurrent, hid] using hnext
  rw [hsame] at hmem
  cases hmem
  have hne := (Option.mem_filter_iff.mp hfilter).2
  simp [heq] at hne

theorem waits_disableNotExecuted (hpending : ∀ next ∈ s.nextTarget, s.disabled T next = false)
    (hcurrent : s.currentTarget = some target) :
    ∀ next ∈ (s.disableNotExecuted T target).nextTarget,
      (s.disableNotExecuted T target).disabled T next = false := by
  unfold DevScript.disableNotExecuted
  split
  · intro next hnext
    have hne := (Option.mem_filter_iff.mp hnext).2
    have hid : T.targetID next ≠ T.targetID target := by simpa using hne
    simp [DevScript.disabled, DevScript.disableCurrent, hcurrent, hid]
  · exact hpending

/-- What waits is not disabled if it was dropped, as for a script that executed nothing, or
if it is another target. -/
theorem waits_disableEnded (hpending : ∀ next ∈ s.nextTarget, s.disabled T next = false)
    (hcurrent : s.currentTarget = some target)
    (hdrops : a.failed = true → WaitsAgain T s →
      a.notExecuted = true ∧ ∀ target ∈ s.currentTarget, 0 ≤ T.targetID target) :
    ∀ next ∈ (s.disableEnded T a target).nextTarget,
      (s.disableEnded T a target).disabled T next = false := by
  unfold DevScript.disableEnded
  dsimp only
  cases hexecuted : a.notExecuted with
  | false =>
    rw [if_neg Bool.false_ne_true]
    split
    · rename_i hfailed
      refine waits_disableCurrent hpending fun hwaits => ?_
      rw [hexecuted] at hdrops
      cases (hdrops hfailed hwaits).1
    · exact hpending
  | true =>
    have hfirst := waits_disableNotExecuted hpending hcurrent
    rw [if_pos rfl]
    split
    · rename_i hfailed
      refine waits_disableCurrent hfirst ?_
      by_cases hid : 0 ≤ T.targetID target
      · exact not_waitsAgain_disableNotExecuted hcurrent hid
      · rw [DevScript.disableNotExecuted, if_neg hid]
        exact fun hwaits => hid ((hdrops hfailed hwaits).2 target hcurrent)
    · exact hfirst

theorem starts_disableFailed : (s.disableFailed T a).starts = s.starts := by
  simp only [DevScript.disableFailed, DevScript.disableEnded, DevScript.disableNotExecuted,
    DevScript.disableCurrent]
  repeat' split
  all_goals rfl

/-- The end of a script leaves no current target. -/
theorem Inv.ended (h : Inv T s) (hs : s.script = true) (hdrops : DropsWaiting T s a) :
    Inv T { s.disableFailed T a with script := false, currentTarget := none } := by
  obtain ⟨target, hcurrent⟩ : ∃ target, s.currentTarget = some target :=
    Option.isSome_iff_exists.mp (h.loaded ▸ hs)
  refine ⟨rfl, ?_, ?_, fun _ current hmem => by cases hmem⟩
  · dsimp only
    rw [starts_disableFailed]
    exact h.started
  · have heq : s.disableFailed T a =
        { s with lastTargetObsID := T.obsTargetID target }.disableEnded T a target := by
      simp only [DevScript.disableFailed, hcurrent]
    have hwaits : ∀ next ∈ (s.disableFailed T a).nextTarget,
        (s.disableFailed T a).disabled T next = false := by
      rw [heq]
      exact waits_disableEnded h.pending hcurrent (hdrops hs)
    exact hwaits

/-- Without a current target, another one may be started. -/
theorem Inv.call_of_none (h : Inv T s) (hcurrent : s.currentTarget = none)
    (frames : List Frame) : Inv T (s.call frames) :=
  ⟨h.loaded, h.started, h.pending, fun _ current hmem => by
    rw [DevScript.call, hcurrent] at hmem
    cases hmem⟩

theorem Inv.dropScript (h : Inv T s) (hdrops : DropsWaiting T s a) (startNext : Bool) :
    Inv T (s.dropScript T a startNext) := by
  have hreset : Inv T { s with waitScript := .NO_WAIT, nextComd := false } :=
    h.congr rfl rfl rfl rfl rfl rfl
  unfold DevScript.dropScript
  dsimp only
  split
  · rename_i hs
    exact (hreset.ended hs hdrops).call_of_none rfl _
  · rename_i hs
    exact hreset.call_of_none (by simpa [h.loaded] using hs) _

theorem Inv.deleteScript (h : Inv T s)
    (hdrops : s.waitScript ≠ .WAIT_MASTER → DropsWaiting T s a) (startNext : Bool) :
    Inv T (s.deleteScript T a startNext) := by
  unfold DevScript.deleteScript
  split
  · exact h.call (by simp)
  · rename_i hwait
    exact h.dropScript (hdrops hwait) startNext

/-! ## The next command -/

/-- A target that asks to be stopped stays the current one until its script is deleted. -/
theorem Inv.stopTarget (h : Inv T s) (hagain : ¬ WaitsAgain T s)
    (hstack : .haveNextDeleted ∉ s.stack) : Inv T { s.disableCurrent T with ret := true } := by
  have hsame : (s.disableCurrent T).script = s.script ∧
      (s.disableCurrent T).currentTarget = s.currentTarget ∧
      (s.disableCurrent T).starts = s.starts ∧ (s.disableCurrent T).stack = s.stack := by
    unfold DevScript.disableCurrent
    split <;> simp
  obtain ⟨hscript, hcurrent, hstarts, hframes⟩ := hsame
  refine ⟨?_, ?_, waits_disableCurrent h.pending hagain, fun hmem => ?_⟩
  · exact hscript.trans (h.loaded.trans (congrArg Option.isSome hcurrent.symm))
  · dsimp only
    rw [hstarts]
    exact h.started
  · exact absurd (hframes ▸ hmem) hstack

theorem Inv.nextPreparedCommand (h : Inv T s)
    (hstop : s.nextComd = false → a.next = .STOP_TARGET →
      ¬ WaitsAgain T s ∧ .haveNextDeleted ∉ s.stack) :
    Inv T (s.nextPreparedCommand T a) := by
  unfold DevScript.nextPreparedCommand
  split
  · exact h.congr rfl rfl rfl rfl rfl rfl
  · rename_i hnone
    have hcomd : Inv T { s with nextComd := a.command } := h.congr rfl rfl rfl rfl rfl rfl
    dsimp only
    cases hnext : a.next with
    | STOP_TARGET =>
      obtain ⟨hagain, hstack⟩ := hstop (by simpa using hnone) hnext
      exact hcomd.stopTarget hagain hstack
    | RESYNC => exact hcomd.call (by simp)
    | PRECISION_OK => exact hcomd.clearWait.call (by simp)
    | PRECISION_FAILED => exact hcomd.clearWait.call (by simp)
    | ACQUSITION_IMAGE => exact hcomd.call (by simp)
    | NEXT => exact h.congr rfl rfl rfl rfl rfl rfl
    | END_SCRIPT => exact h.congr rfl rfl rfl rfl rfl rfl
    | KEEP => exact h.congr rfl rfl rfl rfl rfl rfl
    | WAITING => exact h.congr rfl rfl rfl rfl rfl rfl
    | CHECK_WAIT => exact h.congr rfl rfl rfl rfl rfl rfl
    | WAIT_ACQUSITION => exact h.congr rfl rfl rfl rfl rfl rfl
    | WAIT_SIGNAL => exact h.congr rfl rfl rfl rfl rfl rfl
    | WAIT_MIRROR => exact h.congr rfl rfl rfl rfl rfl rfl
    | WAIT_SEARCH => exact h.congr rfl rfl rfl rfl rfl rfl

/-! ## One step -/

/-- The call on the top of the stack goes on, after it was taken from the stack. -/
theorem Inv.resume (h : Inv T s) {frame : Frame} {rest : List Frame}
    (hstack : s.stack = frame :: rest) (hok : Undisturbed T s a) :
    Inv T ({ s with stack := rest }.resume T a frame) := by
  have hrest : Inv T { s with stack := rest } := h.pop hstack
  obtain ⟨hdrops, hstop, hnew⟩ := hok
  cases frame with
  | master =>
    unfold DevScript.resume
    dsimp only
    split
    · rename_i event hevent
      have hmaster : Inv T ({ s with stack := rest }.call [.master]) := hrest.call (by simp)
      exact hmaster.postEvent event hevent (hnew (by simp [DevScript.listens, hstack]))
    · exact hrest
  | nextCommand =>
    have hcomd : Inv T { s with stack := rest, nextComd := s.nextComd && !a.sent } :=
      hrest.congr rfl rfl rfl rfl rfl rfl
    unfold DevScript.resume
    dsimp only
    split
    exacts [hcomd.call (by simp), hcomd]
  | killed => exact hrest.congr rfl rfl rfl rfl rfl rfl
  | nextPrepared =>
    refine hrest.nextPreparedCommand fun hnone hnext => ?_
    obtain ⟨hagain, hframe⟩ := hstop (by simpa [DevScript.asks, hstack] using hnone) hnext
    exact ⟨hagain, fun hmem => hframe (by simp [hstack, show _ ∈ rest from hmem])⟩
  | prepared negative => exact hrest.congr rfl rfl rfl rfl rfl rfl
  | acquireStarted => exact hrest.congr rfl rfl rfl rfl rfl rfl
  | haveNext =>
    unfold DevScript.resume
    dsimp only
    split
    exacts [hrest, hrest.call (by simp)]
  | haveNextPrepared =>
    unfold DevScript.resume
    dsimp only
    split
    exacts [hrest.call (by simp), hrest]
  | haveNextDeleted =>
    have hstart : Inv T ({ s with stack := rest }.call [.haveNextStarted]) := hrest.call (by simp)
    exact hstart.startTarget (h.restart (by simp [hstack]))
  | haveNextStarted =>
    unfold DevScript.resume
    dsimp only
    split
    exacts [hrest.call (by simp), hrest]
  | haveNextAgain =>
    unfold DevScript.resume
    dsimp only
    split
    exacts [hrest.call (by simp), hrest]
  | deleteScript startNext =>
    refine hrest.deleteScript (fun hwait => hdrops ?_) startNext
    simpa [DevScript.drops, hstack] using hwait
  | acqusitionPosted startNext =>
    exact hrest.dropScript (hdrops (by simp [DevScript.drops, hstack])) startNext

theorem Inv.step (h : Inv T s) (hok : Undisturbed T s a) : Inv T (s.step T a) := by
  unfold DevScript.step
  cases hstack : s.stack with
  | nil =>
    dsimp only
    split
    · rename_i event hevent
      exact h.postEvent event hevent (hok.2.2 (by simp [DevScript.listens, hstack]))
    · exact h
  | cons frame rest => exact h.resume hstack hok

/-! ## Runs -/

/-- A device whose targets are not disturbed never starts the script of a disabled target,
and holds a script only for its current target. -/
theorem never_started_disabled (T : Targets) (obsId : Target → Int) (inputs : List Input)
    (hok : Along (DevScript.step T) (Undisturbed T) (DevScript.create obsId) inputs) :
    Safe (run (DevScript.step T) (DevScript.create obsId) inputs) :=
  (hok.invariant (Inv.create obsId) fun _ _ h hstep => h.step hstep).safe

/-- An event, or the end of one, where the device class has nothing to do. -/
def quiet (event : Option Event) : Input where
  event := event
  next := .KEEP
  command := false
  notExecuted := false
  failed := false
  canEnd := false
  isWaitMove := false
  sent := false
  again := false

def numbered : Targets where
  targetID target := target
  obsTargetID target := target

/-- The script of the target 7 executes nothing; it is set again while its end is posted. -/
def setAgain : List Input :=
  [quiet (some (.setTarget 7)), quiet none, quiet none, quiet (some .endScript),
    { quiet none with notExecuted := true }, quiet (some (.setTarget 7)), quiet none]

theorem never_started_disabled_setAgain :
    Along (DevScript.step numbered) (Undisturbed numbered) (DevScript.create fun _ => 1) setAgain ∧
      Safe (run (DevScript.step numbered) (DevScript.create fun _ => 1) setAgain) := by
  have hok : Along (DevScript.step numbered) (Undisturbed numbered)
      (DevScript.create fun _ => 1) setAgain := by decide
  exact ⟨hok, never_started_disabled numbered (fun _ => 1) setAgain hok⟩

/-- The target 7 waits while it is executed, and its script ends with a failed command. The
target is disabled, and started when the end of its script is posted. -/
def waitsAndFails : List Input :=
  [quiet (some (.setTarget 7)), quiet none, quiet none, quiet (some (.setTarget 7)),
    quiet (some .endScript), { quiet none with failed := true }, quiet (some (.scriptEnded none))]

theorem started_disabled :
    ¬ Safe (run (DevScript.step numbered) (DevScript.create fun _ => 1) waitsAndFails) := by
  intro hsafe
  have hstarts : (run (DevScript.step numbered) (DevScript.create fun _ => 1) waitsAndFails).starts =
      [⟨7, true⟩, ⟨7, false⟩] := by decide
  have hdisabled := hsafe.started ⟨7, true⟩ (by simp [hstarts])
  cases hdisabled

end Rts2.Script.Dev
