import Mathlib.Algebra.Order.Monoid.Unbundled.Basic
import Mathlib.Algebra.Order.Group.Int
import Rts2.Centrald.OpenClose

/-! # Close timeouts

A timer started for a device is never cancelled and does not say which device it was
started for: `postEvent` marks the device commanded last. The mark is right when the
timers that are posted while a closing goes on are not older than
`open_close_timeout`, and the device commanded last was commanded in this closing. -/
namespace Rts2.OpenClose

open Rts2.Lib Rts2.Centrald

variable {T : Type*}

/-- The device a scan for closing commands. -/
def Central.firstToClose (s : Central T) : Option String :=
  s.openSequence.reverse.find? fun device =>
    device ∉ s.failedClose ∧ (getOpenConnection s.connections device).any blocksClose

section
variable [Add T] [OfNat T 180] [LinearOrder T]

/-- The steps after which a timeout marks the right device. A scan for closing has a
sequence, a closing that begins does not find the device commanded last as the first to
close, a timer posted while a closing goes on is not older than `open_close_timeout`, and
the device commanded last is seen when it closes: the report changes what it blocks. -/
def Timely (s : Central T) (input : Input T) : Prop :=
  SequenceGiven s input ∧
  match input with
  | .startClose => s.openClose ≠ .closing → s.firstToClose ≠ some s.openCloseLast
  | .timeout k => scan s (.timeout k) = .closing →
    s.timers[k]?.all fun timer => s.openCloseTimeout.any (· ≤ timer.due)
  | .setState i value => s.openClose = .closing → s.connections[i]?.all fun c =>
    c.name = s.openCloseLast ∧ s.reportsClosed i c value → Central.changesBlocks c value
  | _ => True

instance Timely.decidable (s : Central T) : ∀ input, Decidable (Timely s input)
  | .startClose | .timeout _ | .setState _ _ => inferInstanceAs (Decidable (_ ∧ (_ → _)))
  | .clock _ | .connect _ | .rename _ _ | .disconnect _ | .setSequence _ | .changed
  | .startOpen => inferInstanceAs (Decidable (_ ∧ True))

/-- The device was marked by the timer of its own last command, in the closing that timer
was started in, and `COMMAND_CLOSE` was out for 180 seconds. -/
structure Mark.Right (m : Mark T) : Prop where
  asked : ∃ t, (m.device, t) ∈ m.asked ∧ t + 180 ≤ m.now
  device : m.timer.device = m.device
  closing : m.timer.closing = m.closing

/-- The device commanded last was asked to close in this closing, as long ago as
`open_close_timeout` says, and no timer of another command is as late. -/
def Central.Armed (s : Central T) : Prop :=
  ∃ timeout, s.openCloseTimeout = some timeout ∧
    (∃ t, (s.openCloseLast, t) ∈ s.asked ∧ t + 180 ≤ timeout) ∧
    ∀ timer ∈ s.timers, timeout ≤ timer.due →
      timer.device = s.openCloseLast ∧ timer.closing = s.closings

/-- The device commanded last has just reported that it is closed. -/
def Central.LastClosing (s : Central T) : Prop :=
  s.changing = true ∧ ∃ c, getOpenConnection s.connections s.openCloseLast = some c ∧
    blocksClose c = false

/-- What holds between any two steps. -/
structure Central.Timed (s : Central T) : Prop where
  recent : ∀ timer ∈ s.timers, timer.due ≤ s.now + 180
  armed : s.openClose = .closing → s.Armed ∨ s.LastClosing
  right : ∀ m ∈ s.marks, m.Right

/-! ## What a scan commands -/

variable {s : Central T}

theorem closeFrom_eq (s : Central T) (devices : List String) :
    s.closeFrom devices =
      match devices.find? fun device =>
        device ∉ s.failedClose ∧ (getOpenConnection s.connections device).any blocksClose with
      | none => (-1, { s.clearOpenClose with failedClose := [] })
      | some device => (0, s.closeDevice device) := by
  induction devices with
  | nil => rfl
  | cons device devices ih =>
    cases hconn : getOpenConnection s.connections device with
    | none => simp [Central.closeFrom, hconn, ih]
    | some dconn =>
      by_cases hblocks : device ∉ s.failedClose ∧ blocksClose dconn = true
      · simp [Central.closeFrom, hconn, hblocks]
      · rw [Central.closeFrom, hconn]
        simp only [hblocks, if_false, ih]
        rw [List.find?_cons_of_neg (by simpa [hconn] using hblocks)]

/-- A scan for closing commands the first device to close, or ends the closing. -/
theorem doClose_eq (hgiven : s.openSequence ≠ []) :
    s.doClose = match s.firstToClose with
      | none => (-1, { s.clearOpenClose with failedClose := [] })
      | some device => (0, s.closeDevice device) := by
  have hlength : ¬ s.openSequence.length < 1 := by
    intro hlt
    exact hgiven (List.length_eq_zero_iff.1 (Nat.lt_one_iff.1 hlt))
  rw [Central.doClose, if_neg hlength, closeFrom_eq]
  rfl

omit [Add T] [OfNat T 180] [LinearOrder T] in
theorem firstToClose_some {device : String} (h : s.firstToClose = some device) :
    device ∉ s.failedClose ∧
      (getOpenConnection s.connections device).any blocksClose = true := by
  simpa using List.find?_some h

/-- A device commanded while it is the one commanded last changes only the records. -/
theorem closeDevice_same : s.closeDevice s.openCloseLast =
    { s.queCommand .close s.openCloseLast with
      asked := s.asked ++ [(s.openCloseLast, s.now)] } := by
  simp [Central.closeDevice, Central.queCommand]

/-- Another device becomes the one commanded last, with a timer of its own. -/
theorem closeDevice_other {device : String} (hother : device ≠ s.openCloseLast) :
    s.closeDevice device = { s.queCommand .close device with
      asked := s.asked ++ [(device, s.now)]
      openCloseLast := device
      openCloseTimeout := some (s.now + 180)
      timers := s.timers.filter (fun old => old.due ≠ s.now + 180) ++
        [⟨s.now + 180, device, s.closings⟩] } := by
  simp [Central.closeDevice, Central.queCommand, Central.setLast, Central.addTimer, hother]

/-! ## What a step keeps -/

/-- A scan while a closing goes on, if it does not come to the device commanded last
unless that one is armed. -/
theorem Central.Timed.doClose (hrecent : ∀ timer ∈ s.timers, timer.due ≤ s.now + 180)
    (hright : ∀ m ∈ s.marks, m.Right) (hgiven : s.openSequence ≠ [])
    (hlast : s.firstToClose = some s.openCloseLast → s.Armed) : s.doClose.2.Timed := by
  rw [doClose_eq hgiven]
  cases hfirst : s.firstToClose with
  | none =>
    refine ⟨hrecent, ?_, hright⟩
    intro hclosing
    cases hclosing
  | some device =>
    by_cases hsame : device = s.openCloseLast
    · subst hsame
      dsimp only
      rw [closeDevice_same]
      refine ⟨hrecent, fun _ => Or.inl ?_, hright⟩
      obtain ⟨timeout, htimeout, ⟨t, ht, hle⟩, hnewest⟩ := hlast hfirst
      exact ⟨timeout, htimeout, ⟨t, List.mem_append_left _ ht, hle⟩, hnewest⟩
    · dsimp only
      rw [closeDevice_other hsame]
      refine ⟨?_, fun _ => Or.inl ⟨s.now + 180, rfl, ⟨s.now, by simp, le_refl _⟩, ?_⟩, hright⟩
      · intro timer htimer
        rcases List.mem_append.1 htimer with htimer | htimer
        · exact hrecent timer (List.mem_of_mem_filter htimer)
        · rw [List.mem_singleton.1 htimer]
          exact le_refl (s.now + 180)
      · intro timer htimer hlate
        rcases List.mem_append.1 htimer with htimer | htimer
        · -- an older timer is due before, or its place was taken
          obtain ⟨hold, hother⟩ := List.mem_filter.1 htimer
          have heq := le_antisymm (hrecent timer hold) hlate
          simp [heq] at hother
        · rw [List.mem_singleton.1 htimer]
          exact ⟨rfl, rfl⟩

/-- In a closing that goes on, a scan comes to the device commanded last only if that
one is armed. -/
theorem Central.Timed.armed_of_first (h : s.Timed) (hclosing : s.openClose = .closing)
    (hfirst : s.firstToClose = some s.openCloseLast) : s.Armed := by
  rcases h.armed hclosing with harmed | ⟨_, c, hc, hopen⟩
  · exact harmed
  · have hblocks := (firstToClose_some hfirst).2
    rw [hc] at hblocks
    simp [hopen] at hblocks

theorem Central.Timed.doOpen (h : s.Timed) (hopening : s.openClose = .opening) :
    s.doOpen.2.Timed := by
  rcases doOpen_cases s with ⟨_, _, _, hdo⟩ | ⟨_, hdo⟩ | ⟨_, device, _, _, _, _, hdo⟩
  · rw [hdo]
    exact ⟨h.recent, nofun, h.right⟩
  · rw [hdo]
    exact ⟨h.recent, nofun, h.right⟩
  · rw [hdo]
    unfold Central.setLast Central.queCommand
    split
    · exact ⟨h.recent, fun hclosing => by simp [hopening] at hclosing, h.right⟩
    · exact ⟨h.recent, fun hclosing => by simp [hopening] at hclosing, h.right⟩

theorem Central.Timed.startClose (h : s.Timed) (htimely : Timely s .startClose) :
    s.startClose.2.Timed := by
  obtain ⟨hgiven, hfirst⟩ := htimely
  unfold Central.startClose Central.beginClose
  split
  next hclosing =>
    exact Timed.doClose h.recent h.right (hgiven rfl) (h.armed_of_first hclosing)
  next hclosing =>
    refine Timed.doClose h.recent h.right (hgiven rfl) fun hlast => ?_
    exact absurd hlast (hfirst hclosing)

theorem Central.Timed.changed (h : s.Timed) (htimely : Timely s .changed) :
    (step s .changed).Timed := by
  by_cases hchanging : s.changing = true
  · have hgiven := htimely.1
    simp only [SequenceGiven, scan, hchanging, if_true] at hgiven
    simp only [step, hchanging, if_true]
    rcases openCloseChanged_cases { s with changing := false } with
      ⟨hopen, heq⟩ | ⟨hopen, heq⟩ | ⟨hopen, heq⟩
    · rw [heq]
      refine ⟨h.recent, fun hclosing => ?_, h.right⟩
      cases hopen.symm.trans hclosing
    · rw [heq]
      refine Timed.doOpen ⟨h.recent, fun hclosing => ?_, h.right⟩ hopen
      cases hopen.symm.trans hclosing
    · rw [heq]
      exact Timed.doClose h.recent h.right (hgiven hopen) (h.armed_of_first hopen)
  · simpa [step, hchanging] using h

/-- A timer that is not older than `open_close_timeout` marks the right device. -/
theorem Central.Timed.timeout (h : s.Timed) {k : Nat} (htimely : Timely s (.timeout k)) :
    (step s (.timeout k)).Timed := by
  rcases step_timeout s k with ⟨hstep, _⟩ | ⟨timer, hchanging, htimer, hdue, hstep, hscan⟩
  · rw [hstep]
    exact h
  · have herase : ∀ timer' ∈ s.timers.eraseIdx k, timer' ∈ s.timers :=
      fun timer' hmem => List.mem_of_mem_eraseIdx hmem
    have hrecent : ∀ timer' ∈ s.timers.eraseIdx k, timer'.due ≤ s.now + 180 :=
      fun timer' hmem => h.recent timer' (herase timer' hmem)
    rw [hstep]
    unfold Central.closeTimeout
    split
    next hclosing =>
      obtain ⟨hgiven, hnewest⟩ := htimely
      simp only [SequenceGiven, hscan] at hgiven
      rw [if_pos hclosing] at hgiven hscan
      have harmed : s.Armed := by
        rcases h.armed hclosing with harmed | ⟨hchanging', _⟩
        · exact harmed
        · rw [hchanging] at hchanging'
          cases hchanging'
      obtain ⟨timeout, htimeout, ⟨t, ht, hle⟩, hlatest⟩ := harmed
      have hnew := hnewest hscan
      simp only [htimer, htimeout, Option.all_some, Option.any_some, decide_eq_true_eq] at hnew
      obtain ⟨hdevice, hcount⟩ := hlatest timer (List.mem_of_getElem? htimer) hnew
      refine Timed.doClose hrecent ?_ (hgiven rfl) fun hfirst => ?_
      · intro m hm
        rcases List.mem_append.1 hm with hm | hm
        · exact h.right m hm
        · rw [List.mem_singleton.1 hm]
          exact ⟨⟨t, ht, le_trans hle (le_trans hnew (le_of_lt hdue))⟩, hdevice, hcount⟩
      · -- the device just marked is not commanded
        exact absurd (List.mem_append_right _ (List.mem_singleton_self _))
          (firstToClose_some hfirst).1
    next hclosing =>
      exact ⟨hrecent, fun hclosing' => absurd hclosing' hclosing, h.right⟩

theorem Central.Timed.setState (h : s.Timed) (hchanging : s.changing = false) {i : Nat}
    {c : ConnCentrald} {value : Status} (hconn : s.connections[i]? = some c)
    (htimely : Timely s (.setState i value)) : (s.setState i c value).Timed := by
  refine ⟨h.recent, fun hclosing => ?_, h.right⟩
  have hseen := htimely.2 hclosing
  simp only [hconn, Option.all_some, decide_eq_true_eq] at hseen
  rcases h.armed hclosing with ⟨timeout, htimeout, ⟨t, ht, hle⟩, hlatest⟩ | ⟨hchanging', _⟩
  · by_cases hlast : c.name = s.openCloseLast ∧ s.reportsClosed i c value = true
    · right
      have hchanges : Central.changesBlocks c value = true := by simpa [hlast] using hseen
      have hfound := hlast.2
      simp only [Central.reportsClosed, decide_eq_true_eq] at hfound
      exact ⟨hchanges, _, hlast.1 ▸ hfound.1, hfound.2⟩
    · left
      refine ⟨timeout, htimeout, ⟨t, ?_, hle⟩, hlatest⟩
      simp only [Central.setState]
      split
      next hreports =>
        refine List.mem_filter.2 ⟨ht, ?_⟩
        have hne : s.openCloseLast ≠ c.name := fun heq => hlast ⟨heq.symm, hreports⟩
        simpa using hne
      next => exact ht
  · rw [hchanging] at hchanging'
    cases hchanging'

/-- A step that does not touch the closing keeps it timed. -/
theorem Central.Timed.of_eq {s' : Central T} (h : s.Timed) (hchanging : s.changing = false)
    (hnow : s'.now = s.now) (htimers : s'.timers = s.timers) (hmarks : s'.marks = s.marks)
    (hopen : s'.openClose = s.openClose) (hlast : s'.openCloseLast = s.openCloseLast)
    (htimeout : s'.openCloseTimeout = s.openCloseTimeout) (hasked : s'.asked = s.asked)
    (hcount : s'.closings = s.closings) : s'.Timed := by
  refine ⟨?_, fun hclosing => Or.inl ?_, ?_⟩
  · rw [htimers, hnow]
    exact h.recent
  · rcases h.armed (hopen ▸ hclosing) with harmed | ⟨hchanging', _⟩
    · unfold Central.Armed
      rw [htimeout, hlast, hasked, htimers, hcount]
      exact harmed
    · rw [hchanging] at hchanging'
      cases hchanging'
  · rw [hmarks]
    exact h.right

/-- **Every timely step keeps the closing timed.** -/
theorem Central.Timed.step [AddRightMono T] (h : s.Timed) {input : Input T}
    (htimely : Timely s input) : (step s input).Timed := by
  cases input with
  | clock t =>
    refine ⟨fun timer htimer => ?_, h.armed, h.right⟩
    exact le_trans (h.recent timer htimer) (add_le_add_left (le_max_left s.now t) 180)
  | startOpen =>
    exact Timed.doOpen (s := { s with openClose := .opening, asked := [] })
      ⟨h.recent, nofun, h.right⟩ rfl
  | startClose => exact h.startClose htimely
  | changed => exact h.changed htimely
  | timeout k => exact h.timeout htimely
  | setState i value =>
    cases hchanging : s.changing with
    | true => simpa [OpenClose.step, hchanging] using h
    | false =>
      cases hconn : s.connections[i]? with
      | none => simpa [OpenClose.step, hchanging, hconn] using h
      | some c =>
        simpa [OpenClose.step, hchanging, hconn] using h.setState hchanging hconn htimely
  | connect | rename | disconnect | setSequence =>
    cases hchanging : s.changing with
    | true => simpa [OpenClose.step, hchanging] using h
    | false =>
      refine h.of_eq hchanging ?_ ?_ ?_ ?_ ?_ ?_ ?_ ?_ <;> simp [OpenClose.step, hchanging]

end

/-- **A close timeout marks the right device** when all steps are timely: it is the device
the timer was started for, in the same closing, and `COMMAND_CLOSE` was sent to it in
this closing at least 180 seconds before, with no report since that it is closed. -/
theorem timeout_marks_right [Add T] [OfNat T 180] [LinearOrder T] [AddRightMono T] {now : T}
    {openSequence : List String} {inputs : List (Input T)}
    (h : Along step Timely (.start now openSequence) inputs) :
    ∀ m ∈ (run step (.start now openSequence) inputs).marks, m.Right := by
  have hstart : (Central.start now openSequence).Timed := by
    constructor <;> simp [Central.start]
  exact (h.invariant hstart fun s input hs htimely => hs.step htimely).right

/-- A shutter that does not close is marked after 180 seconds. -/
theorem timeout_marks_right_shutter :
    let s := run step (.start (0 : Int) ["DOME", "SHUT"])
      [.connect ⟨1, .deviceServer, "DOME", .connConnected, 0x2000#32⟩,
        .connect ⟨2, .deviceServer, "SHUT", .connConnected, 0x2000#32⟩, .startClose,
        .clock 181, .timeout 0]
    s.marks.map (fun m => m.device) = ["SHUT"] ∧ ∀ m ∈ s.marks, m.Right := by
  intro s
  have h : Along step Timely (.start (0 : Int) ["DOME", "SHUT"])
      [.connect ⟨1, .deviceServer, "DOME", .connConnected, 0x2000#32⟩,
        .connect ⟨2, .deviceServer, "SHUT", .connConnected, 0x2000#32⟩, .startClose,
        .clock 181, .timeout 0] := by
    decide
  exact ⟨by decide, timeout_marks_right h⟩

/-- The shutter closes in 100 seconds, and then the dome is commanded. The timer of the
shutter marks the dome after 81 seconds. -/
theorem stale_timer_marks :
    (run step (.start (0 : Int) ["DOME", "SHUT"])
      [.connect ⟨1, .deviceServer, "DOME", .connConnected, 0x2000#32⟩,
        .connect ⟨2, .deviceServer, "SHUT", .connConnected, 0x2000#32⟩, .startClose,
        .clock 100, .setState 1 0x4000#32, .changed, .clock 181, .timeout 0]).marks =
      [⟨"DOME", ⟨180, "SHUT", 1⟩, 1, 181, [("DOME", 100)]⟩] ∧
    ¬ (⟨"DOME", ⟨180, "SHUT", 1⟩, 1, 181, [("DOME", 100)]⟩ : Mark Int).Right := by
  refine ⟨by decide, fun h => ?_⟩
  obtain ⟨t, ht, hle⟩ := h.asked
  simp only [List.mem_singleton, Prod.mk.injEq, true_and] at ht
  change t + 180 ≤ 181 at hle
  omega

end Rts2.OpenClose
