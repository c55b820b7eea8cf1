import Rts2.Camd.Requests

/-! # Postponed exposures

A light exposure is put off while a wheel or the focuser moves, and while BOP_EXPOSURE is
set. What starts it later knows one of these reasons only. A change of the state starts
nothing when no value waits to be changed, when nothing is counted, and when the chip is
in use. -/
namespace Rts2.Camd
open Rts2.Lib Status

variable {d : Driver} {s t u : Camera} {f : Status}

/-- Nothing moves, and nothing blocks an exposure. -/
def Camera.Clear (s : Camera) : Prop :=
  s.filterMoving = false ∧ s.focuserMoving = false ∧ s.blocked = false

/-- Every light exposure that was asked for with checks found the camera clear. -/
def Safe (s : Camera) : Prop :=
  ∀ start ∈ s.starts, ∀ r, start.request = some r → r.careBlock = true → start.light = true →
    start.filterMoving = false ∧ start.focuserMoving = false ∧ start.blocked = false

/-- The checks a waiting request asked for are those of the last one. -/
structure Patient (s : Camera) : Prop where
  safe : Safe s
  checked : ∀ r ∈ s.requests, r.careBlock = true → s.lastCareBlock = true
  noim : s.state.has camExposingNoim = true → s.state.has camExposing = true

/-- The camera knows of a block that it was told of. -/
def Told (s : Camera) : Prop :=
  s.bopState.has bopExposure = true → s.fullBopState.has bopExposure = true

/-! ## Changes that start nothing -/

/-- Nothing was started from `s` to `t`. -/
structure Rests (s t : Camera) : Prop where
  starts : t.starts = s.starts
  requests : t.requests = s.requests
  lastCareBlock : t.lastCareBlock = s.lastCareBlock
  light : t.light = s.light
  bopState : t.bopState = s.bopState
  masterState : t.masterState = s.masterState
  exposureConn : t.exposureConn = s.exposureConn
  noim : (s.state.has camExposingNoim = true → s.state.has camExposing = true) →
    t.state.has camExposingNoim = true → t.state.has camExposing = true

theorem Rests.refl (s : Camera) : Rests s s := ⟨rfl, rfl, rfl, rfl, rfl, rfl, rfl, id⟩

theorem Rests.trans (h : Rests s t) (h' : Rests t u) : Rests s u where
  starts := h'.starts.trans h.starts
  requests := h'.requests.trans h.requests
  lastCareBlock := h'.lastCareBlock.trans h.lastCareBlock
  light := h'.light.trans h.light
  bopState := h'.bopState.trans h.bopState
  masterState := h'.masterState.trans h.masterState
  exposureConn := h'.exposureConn.trans h.exposureConn
  noim hs := h'.noim (h.noim hs)

theorem Patient.rests (h : Patient s) (hr : Rests s t) : Patient t := by
  refine ⟨?_, ?_, hr.noim h.noim⟩
  · unfold Safe
    rw [hr.starts]
    exact h.safe
  · rw [hr.requests, hr.lastCareBlock]
    exact h.checked

theorem Rests.masked {mask new : Status} (s : Camera)
    (hmask : mask.has camExposing = true → mask.has camExposingNoim = true)
    (hnew : new.has camExposingNoim = true → new.has camExposing = true) :
    Rests s { s with state := maskedState s.state mask new } := by
  refine ⟨rfl, rfl, rfl, rfl, rfl, rfl, rfl, ?_⟩
  intro hnoim
  simp only [exposing_maskedState, exposingNoim_maskedState, Bool.or_eq_true, Bool.and_eq_true,
    Bool.not_eq_true']
  rintro (⟨hs, hm⟩ | hn)
  · refine .inl ⟨hnoim hs, ?_⟩
    by_contra he
    rw [hmask (by simpa using he)] at hm
    cases hm
  · exact .inr (hnew hn)

theorem Rests.release (s : Camera) (f : Status) : Rests s (s.release f) := by
  obtain ⟨moving, focuserMoving, he⟩ := s.release_eq f
  rw [he]
  exact ⟨rfl, rfl, rfl, rfl, rfl, rfl, rfl, id⟩

theorem Rests.endWaitingForEmptyQue (s : Camera) : Rests s s.endWaitingForEmptyQue := by
  unfold Camera.endWaitingForEmptyQue
  dsimp only
  split
  · split
    · exact ⟨rfl, rfl, rfl, rfl, rfl, rfl, rfl, id⟩
    · exact ⟨rfl, rfl, rfl, rfl, rfl, rfl, rfl, id⟩
  · exact .refl s

/-- No value waits to be changed, or no request is counted. -/
def Apart (s : Camera) : Prop := s.queValues = [] ∨ s.quedExpNumber ≤ 0

theorem Apart.release (h : Apart s) (f : Status) : Apart (s.release f) := by
  obtain ⟨moving, focuserMoving, he⟩ := s.release_eq f
  rw [he]
  exact h.imp_left fun hq => by simp [hq]

theorem Apart.endWaitingForEmptyQue (h : Apart s) : Apart s.endWaitingForEmptyQue := by
  unfold Camera.endWaitingForEmptyQue
  dsimp only
  split
  · next hq =>
    split
    · exact .inl hq.1
    · exact .inl hq.1
  · exact h

theorem Camera.release_nil (h : s.queValues = []) (f : Status) : s.release f = s := by
  unfold Camera.release
  rw [h]
  show { s with queValues := [] } = s
  rw [← h]

/-- With nothing to change, a change of the state counts the request that waited. -/
theorem Camera.checkQueChanges_nil (h : s.queValues = []) (f : Status) :
    s.checkQueChanges d f = s ∨ s.checkQueChanges d f = s.endWaitingForEmptyQue := by
  rw [Camera.checkQueChanges_eq]
  unfold Camera.checkQueChangesWith
  split
  · exact .inl rfl
  · refine .inr ?_
    dsimp only
    rw [Camera.release_nil h, h]
    rfl

/-- A change of the state starts nothing when the two are apart. -/
theorem Apart.checkQueChanges (h : Apart s) (f : Status) :
    Apart (s.checkQueChanges d f) ∧ Rests s (s.checkQueChanges d f) := by
  by_cases hque : s.queValues = []
  · rcases Camera.checkQueChanges_nil (d := d) hque f with he | he
    · rw [he]
      exact ⟨h, .refl s⟩
    · rw [he]
      exact ⟨h.endWaitingForEmptyQue, .endWaitingForEmptyQue s⟩
  · have hzero : s.quedExpNumber ≤ 0 := h.resolve_left hque
    rw [Camera.checkQueChanges_eq]
    unfold Camera.checkQueChangesWith
    rw [if_neg fun hpos => absurd hpos.1 (Int.not_lt.mpr hzero)]
    dsimp only
    obtain ⟨moving, focuserMoving, he⟩ :=
      s.release_eq (f ||| (s.fullBopState &&& bopTrigExpose))
    have hrelease : Rests s (s.release (f ||| (s.fullBopState &&& bopTrigExpose))) := .release s _
    have hbop : ∀ t : Camera, t.quedExpNumber ≤ 0 → ∀ f, t.setFullBopState d f =
        { t with fullBopState := t.maskQueValueBopState f } := by
      intro t ht f
      unfold Camera.setFullBopState Camera.setFullBopStateWith
      dsimp only
      rw [if_neg fun hpos => absurd hpos.2.1 (Int.not_lt.mpr ht)]
    split
    · rw [hbop _ (by rw [he]; exact hzero)]
      have hfull : Apart { s.release (f ||| (s.fullBopState &&& bopTrigExpose)) with
          fullBopState := (s.release (f ||| (s.fullBopState &&& bopTrigExpose))).maskQueValueBopState
            (f ||| (s.fullBopState &&& bopTrigExpose)) } := h.release _
      refine ⟨hfull.endWaitingForEmptyQue, hrelease.trans (.trans ?_ (.endWaitingForEmptyQue _))⟩
      exact ⟨rfl, rfl, rfl, rfl, rfl, rfl, rfl, id⟩
    · exact ⟨(h.release _).endWaitingForEmptyQue, hrelease.trans (.endWaitingForEmptyQue _)⟩

theorem Camera.checkQueChanges_inUse (hpos : 0 < s.quedExpNumber)
    (hf : f.has (camExposing ||| camReading) = true) : s.checkQueChanges d f = s := by
  rw [Camera.checkQueChanges_eq]
  unfold Camera.checkQueChangesWith
  rw [if_pos ⟨hpos, hf⟩]

theorem Camera.maskState_inUse {mask new : Status} (hpos : 0 < s.quedExpNumber)
    (hf : (maskedState s.state mask new).has (camExposing ||| camReading) = true) :
    s.maskState d mask new = { s with state := maskedState s.state mask new } := by
  unfold Camera.maskState Camera.maskStateWith Camera.setStateWith
  split
  · next hsame => rw [← hsame]
  · exact Camera.checkQueChanges_inUse hpos hf

/-- A change to a state in which the chip is in use starts nothing. -/
theorem Rests.maskState {mask new : Status}
    (h : Apart s ∨ (maskedState s.state mask new).has (camExposing ||| camReading) = true)
    (hmask : mask.has camExposing = true → mask.has camExposingNoim = true)
    (hnew : new.has camExposingNoim = true → new.has camExposing = true) :
    Rests s (s.maskState d mask new) := by
  have hstate := Rests.masked s hmask hnew
  by_cases hapart : Apart s
  · unfold Camera.maskState Camera.maskStateWith Camera.setStateWith
    split
    · exact .refl s
    · have hmasked : Apart { s with state := maskedState s.state mask new } := hapart
      exact hstate.trans (hmasked.checkQueChanges _).2
  · have hpos : 0 < s.quedExpNumber := Int.not_le.mp fun hle => hapart (.inr hle)
    rw [Camera.maskState_inUse hpos (h.resolve_left hapart)]
    exact hstate

theorem Apart.maskState (h : Apart s) (mask new : Status) : Apart (s.maskState d mask new) :=
  Camera.maskStateWith_keeps (fun _ f h => (Apart.checkQueChanges h f).1) h

theorem Patient.maskState {mask new : Status} (h : Patient s)
    (hr : Apart s ∨ (maskedState s.state mask new).has (camExposing ||| camReading) = true)
    (hmask : mask.has camExposing = true → mask.has camExposingNoim = true)
    (hnew : new.has camExposingNoim = true → new.has camExposing = true) :
    Patient (s.maskState d mask new) :=
  h.rests (.maskState hr hmask hnew)

/-- Nothing is changed while nothing waits to be changed. -/
structure Still (s t : Camera) : Prop where
  queValues : t.queValues = []
  moving : t.moving = s.moving
  focuserMoving : t.focuserMoving = s.focuserMoving
  fullBopState : t.fullBopState = s.fullBopState

theorem Still.checkQueChanges (h : s.queValues = []) (f : Status) :
    Still s (s.checkQueChanges d f) := by
  rcases Camera.checkQueChanges_nil (d := d) h f with he | he
  · rw [he]
    exact ⟨h, rfl, rfl, rfl⟩
  · rw [he]
    unfold Camera.endWaitingForEmptyQue
    dsimp only
    split
    · split
      · exact ⟨h, rfl, rfl, rfl⟩
      · exact ⟨h, rfl, rfl, rfl⟩
    · exact ⟨h, rfl, rfl, rfl⟩

theorem Still.maskState (h : s.queValues = []) (mask new : Status) :
    Still s (s.maskState d mask new) := by
  unfold Camera.maskState Camera.maskStateWith Camera.setStateWith
  split
  · exact ⟨h, rfl, rfl, rfl⟩
  · obtain ⟨hque, hmoving, hfocuser, hfull⟩ := Still.checkQueChanges (d := d)
      (s := { s with state := maskedState s.state mask new }) h (maskedState s.state mask new)
    exact ⟨hque, hmoving, hfocuser, hfull⟩

/-- A camera that rests keeps clear while nothing is changed. -/
theorem Still.clear (h : Still s t) (hr : Rests s t) (hclear : s.Clear) : t.Clear := by
  obtain ⟨hfilter, hfocuser, hblocked⟩ := hclear
  refine ⟨?_, ?_, ?_⟩
  · unfold Camera.filterMoving
    rw [h.moving]
    exact hfilter
  · rw [h.focuserMoving]
    exact hfocuser
  · unfold Camera.blocked
    rw [hr.bopState, hr.masterState]
    exact hblocked

/-! ## Starts -/

/-- A start is safe when the request that waits longest finds the camera clear. -/
theorem Patient.camStartExposureWithoutCheck (h : Patient s) (hque : s.queValues = [])
    (hclear : ∀ r, s.requests.head? = some r → r.careBlock = true → s.light = true → s.Clear) :
    Patient (s.camStartExposureWithoutCheck d).2 ∧
      (s.camStartExposureWithoutCheck d).2.queValues = [] := by
  have hinc : Patient s.incExposureNumber :=
    ⟨h.safe, fun r hr => h.checked r (List.mem_of_mem_tail hr), h.noim⟩
  have hincQue : s.incExposureNumber.queValues = [] := hque
  have hrest : Rests s.incExposureNumber
      (s.incExposureNumber.maskState d bopTelMove bopTelMove) :=
    .maskState (.inl (.inl hincQue)) (by decide) (by decide)
  have hstill : Still s.incExposureNumber
      (s.incExposureNumber.maskState d bopTelMove bopTelMove) := .maskState hincQue _ _
  have hmask := hinc.rests hrest
  have hexposed : Patient ((s.incExposureNumber.maskState d bopTelMove bopTelMove).exposed
      s.requests.head?) := by
    refine ⟨?_, hmask.checked, hmask.noim⟩
    intro start hstart r hr hcare hlight
    rcases List.mem_append.mp hstart with hold | hnew
    · exact hmask.safe start hold r hr hcare hlight
    · rw [List.mem_singleton] at hnew
      subst hnew
      have hlight' : s.light = true := by
        rw [← hlight]
        exact hrest.light.symm
      exact hstill.clear hrest (hclear r hr hcare hlight')
  have hend : ∀ {mask new : Status},
      (mask.has camExposing = true → mask.has camExposingNoim = true) →
      (new.has camExposingNoim = true → new.has camExposing = true) →
      Patient (((s.incExposureNumber.maskState d bopTelMove bopTelMove).exposed
        s.requests.head?).maskState d mask new) ∧
      (((s.incExposureNumber.maskState d bopTelMove bopTelMove).exposed
        s.requests.head?).maskState d mask new).queValues = [] := by
    intro mask new hm hn
    have hque' : ((s.incExposureNumber.maskState d bopTelMove bopTelMove).exposed
        s.requests.head?).queValues = [] := hstill.queValues
    exact ⟨hexposed.maskState (.inl (.inl hque')) hm hn, (Still.maskState hque' _ _).queValues⟩
  unfold Camera.camStartExposureWithoutCheck Camera.camStartExposureWithoutCheckWith
  dsimp only
  split
  · split
    · exact hend (by decide) (by decide)
    · exact hend (by decide) (by decide)
  · exact hend (by decide) (by decide)

/-- A start with checks is put off, or finds the camera clear; the requests that wait
are not checked when it is not. -/
theorem Patient.camStartExposure {careBlock : Bool} (h : Patient s) (hque : s.queValues = [])
    (hcare : ∀ r ∈ s.requests, r.careBlock = true → careBlock = true)
    (htold : careBlock = true → s.light = true → Told s) :
    Patient (s.camStartExposure d careBlock).2 ∧
      (s.camStartExposure d careBlock).2.queValues = [] := by
  unfold Camera.camStartExposure
  dsimp only
  split
  · have hwait : Patient { s.inc with waitingForNotBop := true } := ⟨h.safe, h.checked, h.noim⟩
    have hwaitQue : Camera.queValues { s.inc with waitingForNotBop := true } = [] := hque
    split
    · exact ⟨hwait.maskState (.inl (.inl hwaitQue)) (by decide) (by decide),
        (Still.maskState hwaitQue _ _).queValues⟩
    · exact ⟨hwait, hwaitQue⟩
  · next hfree =>
    by_cases hlight : s.light = true
    · rw [if_neg (by simp [hlight])]
      refine h.camStartExposureWithoutCheck hque fun r hr hchecked _ => ?_
      have hcareBlock := hcare r (List.mem_of_mem_head? hr) hchecked
      simp only [hcareBlock, hlight, true_and, Bool.or_eq_true, not_or, Bool.not_eq_true] at hfree
      obtain ⟨⟨⟨⟨hfull, hmaster⟩, -⟩, hfilter⟩, hfocuser⟩ := hfree
      refine ⟨hfilter, hfocuser, ?_⟩
      have hbop : s.bopState.has bopExposure = false := by
        by_contra hbop
        rw [htold hcareBlock hlight (by simpa using hbop)] at hfull
        cases hfull
      simp [Camera.blocked, hbop, hmaster]
    · have hdark : ∀ t : Camera, Rests s t → t.light = true → t.Clear := by
        intro t ht hl
        exact absurd (ht.light ▸ hl) hlight
      split
      · have hrest : Rests s (s.maskState d bopWillExpose bopWillExpose) :=
          .maskState (.inl (.inl hque)) (by decide) (by decide)
        exact (h.rests hrest).camStartExposureWithoutCheck (Still.maskState hque _ _).queValues
          fun _ _ _ hl => hdark _ hrest hl
      · exact h.camStartExposureWithoutCheck hque fun _ _ _ hl => hdark _ (.refl s) hl

/-- The chip is in use, and nothing is started. -/
theorem Patient.camExpose_busy {conn : Option Nat} {chipState : Status} {fromQue careBlock : Bool}
    (h : Patient s) (hbusy : d.busy chipState = true ∨ s.queValues ≠ [] ∧ fromQue = false) :
    Patient (s.camExpose d conn chipState fromQue careBlock).2 := by
  unfold Camera.camExpose
  rw [if_pos hbusy]
  split
  · exact ⟨h.safe, h.checked, h.noim⟩
  · exact ⟨h.safe, h.checked, h.noim⟩

/-- The chip is free, and no value waits to be changed. -/
theorem Patient.camExpose_free {conn : Option Nat} {chipState : Status} {fromQue careBlock : Bool}
    (h : Patient s) (hfree : d.busy chipState = false) (hque : s.queValues = [])
    (hcare : ∀ r ∈ s.requests, r.careBlock = true → careBlock = true)
    (htold : careBlock = true → s.light = true → Told s) :
    Patient (s.camExpose d conn chipState fromQue careBlock).2 ∧
      (s.camExpose d conn chipState fromQue careBlock).2.queValues = [] := by
  unfold Camera.camExpose
  rw [if_neg (by simp [hfree, hque])]
  split
  · have hdec : Patient { s.dec with exposureConn := conn } := ⟨h.safe, h.checked, h.noim⟩
    exact hdec.camStartExposure hque hcare htold
  · have hconn : Patient { s with exposureConn := conn } := ⟨h.safe, h.checked, h.noim⟩
    exact hconn.camStartExposure hque hcare htold

/-- With frame transfer the chip is free for the next request of the queue. -/
theorem Patient.camExposeNext (h : Patient s) (hft : d.supportFrameTransfer = true)
    (hque : s.queValues = []) (htold : s.lastCareBlock = true → s.light = true → Told s) :
    Patient (s.camExposeNext d) ∧ (s.camExposeNext d).queValues = [] := by
  refine h.camExpose_free ?_ hque h.checked htold
  simp [Driver.busy, hft, show (~~~camMaskExpose).has camExposing = false from rfl,
    show (~~~camMaskExpose).has camExposingNoim = false from rfl]

/-- What starts the next request of the queue finds: the block it may not know of. -/
def Resumes (d : Driver) (s : Camera) : Prop :=
  0 < s.quedExpNumber → d.busy s.getStateChip = false → s.queValues = [] →
    s.lastCareBlock = true → s.light = true → Told s

theorem Patient.checkQueuedExposures (h : Patient s) (hs : Resumes d s) :
    Patient (s.checkQueuedExposures d) := by
  unfold Camera.checkQueuedExposures
  split
  · next hpos =>
    have hdec : Patient s.dec := ⟨h.safe, h.checked, h.noim⟩
    cases hbusy : d.busy s.getStateChip with
    | true => exact hdec.camExpose_busy (.inl hbusy)
    | false =>
      by_cases hque : s.queValues = []
      · exact (hdec.camExpose_free hbusy hque h.checked (hs hpos hbusy hque)).1
      · exact hdec.camExpose_busy (.inr ⟨hque, rfl⟩)
  · exact h

/-! ## Ends of exposures and readouts -/

/-- Nothing is changed when the chip is read out next. -/
def Settled (s : Camera) : Prop := Apart s ∨ s.state.has camReading = true

theorem Settled.finish {mask : Status} (h : Settled s) (hp : Patient s)
    (hmask : mask.has camExposing = true → mask.has camExposingNoim = true)
    (hreading : mask.has camReading = false) : Patient (s.maskState d mask 0#32) := by
  refine hp.maskState (h.imp_right fun hread => ?_) hmask (by decide)
  rw [has_or, reading_maskedState]
  simp [hread, hreading]

theorem Frozen.rests (h : Frozen s) (f : Status) : Rests s (s.checkQueChanges d f) := by
  have hkeeps : Frozen (s.checkQueChanges d f) ∧ Rests s (s.checkQueChanges d f) := by
    apply Camera.checkQueChanges_keeps (P := fun t => Frozen t ∧ Rests s t) _ _ _ s f ⟨h, .refl s⟩
    · exact fun t f ht => ⟨ht.1.release f, ht.2.trans (.release t f)⟩
    · exact fun t ht => ⟨ht.1.endWaitingForEmptyQue, ht.2.trans (.endWaitingForEmptyQue t)⟩
    · intro chk hchk t f ht
      have hfull : Rests t { t with fullBopState := t.maskQueValueBopState f } :=
        ⟨rfl, rfl, rfl, rfl, rfl, rfl, rfl, id⟩
      exact ht.1.setFullBopStateWith hchk f (ht.2.trans hfull)
        (ht.2.trans (hfull.trans (.masked _ (by decide) (by decide))))
  exact hkeeps.2

/-- What the end of an exposure that is read out finds: with frame transfer the next
request begins, and it must know of a block. -/
def Transfers (d : Driver) (s : Camera) : Prop :=
  d.supportFrameTransfer = true → 0 < s.quedExpNumber → s.exposureConn.isSome = true →
    s.lastCareBlock = true → s.light = true →
      Told s ∧ (s.queValues = [] ∨ s.bopState.has bopExposure = false)

theorem Patient.camReadout (h : Patient s) (hexp : s.state.has camExposing = true)
    (hs : Transfers d s) {opened : Bool} (hopened : opened = false → Apart s) :
    Patient (s.camReadout d opened) ∧ Settled (s.camReadout d opened) := by
  have hreading : ∀ (t : Camera) (mask new : Status),
      (mask.has camExposing = true → mask.has camExposingNoim = true) →
      new.has camExposingNoim = false → new.has camReading = true →
      Rests t (t.maskState d mask new) ∧ Settled (t.maskState d mask new) := by
    intro t mask new hmask hnoim hnew
    have hread : (maskedState t.state mask new).has camReading = true := by simp [hnew]
    have huse : (maskedState t.state mask new).has (camExposing ||| camReading) = true := by
      rw [has_or, hread, Bool.or_true]
    refine ⟨.maskState (.inr huse) hmask fun hn => absurd hn (by simp [hnoim]), ?_⟩
    by_cases hapart : Apart t
    · exact .inl (hapart.maskState _ _)
    · rw [Camera.maskState_inUse (Int.not_le.mp fun hle => hapart (.inr hle)) huse]
      exact .inr hread
  have hstart : ∃ t, t = (if 0 < s.quedExpNumber ∧ s.exposureConn.isSome ∧ d.supportFrameTransfer then
      let s := s.checkQueChanges d (s.getStateChip &&& ~~~(camExposing ||| camExposingNoim))
      let s := s.maskState d (camMaskReading ||| camMaskFt) (camReading ||| camFt)
      if s.queValues = [] then s.camExposeNext d else s
    else s.maskState d (camMaskExpose ||| camMaskReading ||| bopTelMove) camReading) ∧
      Patient t ∧ Settled t ∧ (Apart s → Apart t) := by
    refine ⟨_, rfl, ?_⟩
    split
    · next hft =>
      obtain ⟨hpos, hconn, hft⟩ := hft
      generalize hf : s.getStateChip &&& ~~~(camExposing ||| camExposingNoim) = f
      have hrest : Rests s (s.checkQueChanges d f) := Frozen.rests ⟨hexp, hpos⟩ f
      have hfrozen : Frozen (s.checkQueChanges d f) := Frozen.checkQueChanges ⟨hexp, hpos⟩ f
      obtain ⟨hmask, hsettled⟩ := hreading (s.checkQueChanges d f) (camMaskReading ||| camMaskFt)
        (camReading ||| camFt) (by decide) (by decide) (by decide)
      have hread := hrest.trans hmask
      have hpatient := h.rests hread
      dsimp only
      split
      · next hque =>
        have htold : ((s.checkQueChanges d f).maskState d (camMaskReading ||| camMaskFt)
            (camReading ||| camFt)).lastCareBlock = true →
            ((s.checkQueChanges d f).maskState d (camMaskReading ||| camMaskFt)
              (camReading ||| camFt)).light = true →
            Told ((s.checkQueChanges d f).maskState d (camMaskReading ||| camMaskFt)
              (camReading ||| camFt)) := by
          intro hcare hlight hbop
          obtain ⟨htold, hno | hno⟩ := hs hft hpos hconn (hread.lastCareBlock ▸ hcare)
            (hread.light ▸ hlight)
          · have hstill : Still s (s.checkQueChanges d f) := .checkQueChanges hno f
            have hstill' : Still (s.checkQueChanges d f) ((s.checkQueChanges d f).maskState d
              (camMaskReading ||| camMaskFt) (camReading ||| camFt)) :=
              .maskState hstill.queValues _ _
            rw [hstill'.fullBopState, hstill.fullBopState]
            exact htold (hread.bopState ▸ hbop)
          · rw [hread.bopState, hno] at hbop
            cases hbop
        have hnext := hpatient.camExposeNext hft hque htold
        exact ⟨hnext.1, .inl (.inl hnext.2), fun _ => .inl hnext.2⟩
      · exact ⟨hpatient, hsettled, fun ha => (ha.checkQueChanges f).1.maskState _ _⟩
    · obtain ⟨hmask, hsettled⟩ := hreading s (camMaskExpose ||| camMaskReading ||| bopTelMove)
        camReading (by decide) (by decide) (by decide)
      exact ⟨h.rests hmask, hsettled, fun ha => ha.maskState _ _⟩
  obtain ⟨t, ht, hpatient, hsettled, hapart⟩ := hstart
  unfold Camera.camReadout
  dsimp only at ht ⊢
  rw [← ht]
  cases opened with
  | true => exact ⟨hpatient, hsettled⟩
  | false =>
    have hclosed := hapart (hopened rfl)
    exact ⟨hpatient.maskState (.inl hclosed) (by decide) (by decide), .inl (hclosed.maskState _ _)⟩

/-- Nothing is counted, and no connection waits for the exposure. -/
def Calm (s : Camera) : Prop := s.quedExpNumber ≤ 0 ∧ s.exposureConn = none

theorem Calm.maskState (h : Calm s) (mask new : Status) : Calm (s.maskState d mask new) := by
  refine Camera.maskStateWith_keeps (Camera.checkQueChanges_keeps ?_ ?_ ?_) h
  · intro s f h
    obtain ⟨moving, focuserMoving, he⟩ := s.release_eq f
    rw [he]
    exact h
  · intro s h
    unfold Camera.endWaitingForEmptyQue
    dsimp only
    split
    · rw [if_neg (by simp [h.2])]
      exact h
    · exact h
  · intro chk hchk s f h
    unfold Camera.setFullBopStateWith
    dsimp only
    rw [if_neg fun hpos => absurd hpos.2.1 (Int.not_lt.mpr h.1)]
    exact h

/-- An exposure that ends without an image to read clears what is counted. -/
theorem Patient.stopped (h : Patient s) (hnone : s.exposureConn = none) {ret : Int}
    (hret : ret ≠ -5) (opened : Bool) :
    Patient (s.endExposure d ret opened) ∧ Calm (s.endExposure d ret opened) := by
  have hstop : Patient s.stopExposure ∧ Calm s.stopExposure :=
    ⟨⟨h.safe, h.checked, h.noim⟩, Int.le_refl 0, hnone⟩
  have hsame : (if s.getStateChip.has (camExposing ||| camExposingNoim ||| camShift) = true ∧ ret ≠ -4
      then s.stopExposure else s).stopExposure = s.stopExposure := by
    split
    · rfl
    · rfl
  unfold Camera.endExposure
  dsimp only
  rw [if_neg (by simp [hnone]), if_neg fun hused => hret hused.2, hsame]
  exact ⟨hstop.1.maskState (.inl (.inr hstop.2.1)) (by decide) (by decide), hstop.2.maskState _ _⟩

/-- What the end of an exposure finds, for the answer `ret` of the driver: nothing waits
to be changed where the chip is not read out next. -/
def Ends (d : Driver) (s : Camera) (ret : Int) (opened : Bool) : Prop :=
  (ret = -1 ∨ ret = -5 ∧ s.exposureConn = none → Apart s) ∧
    (ret = -2 ∨ ret = -5 →
      (s.exposureConn.isSome = true → opened = false → Apart s) ∧ Transfers d s)

theorem Patient.checkExposures (h : Patient s) {ret : Int} {opened : Bool}
    (hs : s.state.has camExposing = true → Ends d s ret opened) :
    Patient (s.checkExposures d ret opened) := by
  unfold Camera.checkExposures
  dsimp only
  split
  · exact h
  · next hused =>
    have hexp := Camera.exposing_of_used h.noim hused
    obtain ⟨hapart, hread⟩ := hs hexp
    have hnone : Patient { s with exposureConn := none } := ⟨h.safe, h.checked, h.noim⟩
    have hend : ∀ conn, s.exposureConn = some conn → ret = -2 ∨ ret = -5 →
        Patient (s.endExposure d ret opened) ∧ Settled (s.endExposure d ret opened) := by
      intro conn hconn hret
      obtain ⟨hopened, htransfers⟩ := hread hret
      have hsome : s.exposureConn.isSome = true := by rw [hconn]; rfl
      unfold Camera.endExposure
      rw [if_pos hsome]
      exact h.camReadout hexp htransfers (hopened hsome)
    split
    · next hret =>
      subst hret
      cases hconn : s.exposureConn with
      | some conn =>
        obtain ⟨hpatient, hsettled⟩ := hend conn hconn (.inr rfl)
        exact hsettled.finish hpatient (by decide) (by decide)
      | none =>
        have hsame : s.endExposure d (-5) opened = s := by
          unfold Camera.endExposure
          dsimp only
          rw [if_neg (by simp [hconn]), if_pos ⟨(Camera.exposing_used hexp).1, rfl⟩]
        rw [hsame]
        exact h.maskState (.inl (hapart (.inr ⟨rfl, hconn⟩))) (by decide) (by decide)
    · split
      · next hret =>
        subst hret
        obtain ⟨hpatient, hcalm⟩ := hnone.stopped (d := d) rfl (by decide : (-4 : Int) ≠ -5) opened
        have hmask := hcalm.maskState (d := d) (camMaskExpose ||| camMaskFt ||| bopTelMove) 0#32
        rw [if_neg (Int.not_lt.mpr hmask.1)]
        exact hpatient.maskState (.inl (.inr hcalm.1)) (by decide) (by decide)
      · split
        · next hret =>
          subst hret
          exact (hnone.stopped rfl (by decide) opened).1
        · split
          · next hret =>
            subst hret
            have hfinish : Patient (s.endExposure d (-2) opened) ∧
                Settled (s.endExposure d (-2) opened) := by
              cases hconn : s.exposureConn with
              | some conn => exact hend conn hconn (.inl rfl)
              | none =>
                obtain ⟨hpatient, hcalm⟩ := h.stopped (d := d) hconn (by decide : (-2 : Int) ≠ -5)
                  opened
                exact ⟨hpatient, .inl (.inr hcalm.1)⟩
            split
            · exact hfinish.2.finish hfinish.1 (by decide) (by decide)
            · exact hfinish.2.finish hfinish.1 (by decide) (by decide)
          · split
            · next hret =>
              subst hret
              rw [if_neg (show ¬0 < (Camera.stopExposure _).quedExpNumber from Int.lt_irrefl 0)]
              have hmask : Patient (s.maskState d (deviceErrorMask ||| camMaskExpose |||
                  camMaskShifting ||| camMaskReading ||| bopTelMove) deviceErrorHw) :=
                h.maskState (.inl (hapart (.inl rfl))) (by decide) (by decide)
              exact ⟨hmask.safe, hmask.checked, hmask.noim⟩
            · exact h

/-- What the end of a readout finds: no value waits to be changed, and the next request
knows of a block. -/
def Follows (s : Camera) : Prop :=
  0 < s.quedExpNumber → s.state.has camExposing = false → s.queValues = [] ∧
    (s.exposureConn.isSome = true → s.lastCareBlock = true → s.light = true → Told s)

theorem Patient.checkReadouts (h : Patient s) {ret : Int}
    (hs : s.getStateChip &&& camMaskReading = camReading → ret < 0 → Follows s) :
    Patient (s.checkReadouts d ret) := by
  unfold Camera.checkReadouts
  split
  · exact h
  · next hreading =>
    rw [not_or, ne_eq, not_not, Int.not_le] at hreading
    have hfollows := hs hreading.1 hreading.2
    have hend : Patient (s.endReadout d) ∧
        (Apart (s.endReadout d) ∨ (s.endReadout d).state.has camExposing = true) := by
      unfold Camera.endReadout
      split
      · next hpos =>
        cases hexp : s.state.has camExposing with
        | true =>
          have hbusy : d.busy (s.getStateChip &&& camMaskExpose) = true := by
            simp [Driver.busy, hexp, show camMaskExpose.has camExposing = true from rfl]
          refine ⟨h.camExpose_busy (.inl hbusy), .inr ?_⟩
          unfold Camera.camExpose
          rw [if_pos (.inl hbusy), if_neg (by simp)]
          exact hexp
        | false =>
          have hnoim : s.state.has camExposingNoim = false := by
            by_contra hnoim
            rw [h.noim (by simpa using hnoim)] at hexp
            cases hexp
          have hfree : d.busy (s.getStateChip &&& camMaskExpose) = false := by
            simp [Driver.busy, hexp, hnoim, show camMaskExpose.has camReading = false from rfl]
          obtain ⟨hque, htold⟩ := hfollows hpos.1 hexp
          have hnext : Patient (s.camExpose d s.exposureConn (s.getStateChip &&& camMaskExpose) true
              s.lastCareBlock).2 ∧ _ := h.camExpose_free hfree hque h.checked (htold hpos.2)
          exact ⟨hnext.1, .inl (.inl hnext.2)⟩
      · refine ⟨h, ?_⟩
        cases hexp : s.state.has camExposing with
        | true => exact .inr rfl
        | false =>
          by_cases hpos : 0 < s.quedExpNumber
          · exact .inl (.inl (hfollows hpos hexp).1)
          · exact .inl (.inr (Int.not_lt.mp hpos))
    have hmask : ∀ (mask new : Status), mask.has camExposing = false →
        new.has camExposingNoim = false → Patient ((s.endReadout d).maskState d mask new) := by
      intro mask new hmask hnew
      refine hend.1.maskState (hend.2.imp_right fun hexp => ?_) (by simp [hmask]) (by simp [hnew])
      rw [has_or, exposing_maskedState]
      simp [hexp, hmask]
    split
    · exact hmask _ _ (by decide) (by decide)
    · exact hmask _ _ (by decide) (by decide)

/-! ## Runs -/

/-- The events whose starts keep the requests waiting that have to, by the camera they
find. -/
def Waits (d : Driver) (s : Camera) : Event → Prop
  | .expose _ careBlock =>
    (careBlock = false → ∀ r ∈ s.requests, r.careBlock = false) ∧
      (d.busy s.getStateChip = false → s.queValues = [] → careBlock = true → s.light = true →
        Told s)
  | .bop newState =>
    newState.has bopExposure = false → 0 < s.quedExpNumber → s.waitingForNotBop = true →
      s.state.has camExposing = false →
      (s.state.has camReading = true → d.supportFrameTransfer = true) →
        s.queValues = [] ∧
          ((newState.has bopTrigExpose = true ∧ s.state.has bopWillExpose = false) ∨
            ∀ r, s.requests.head? = some r → r.careBlock = true → s.light = true →
              s.filterMoving = false ∧ s.focuserMoving = false ∧
                s.masterState.has bopExposure = false)
  | .filterMoveEnd wheel => (∀ w ∈ s.moving, w = wheel) → Resumes d s
  | .focuserEndMove => s.focuserMoving = true → Resumes d s
  | .exposing ret opened => s.state.has camExposing = true → Ends d s ret opened
  | .reading ret => s.getStateChip &&& camMaskReading = camReading → ret < 0 → Follows s
  | _ => True

instance (s : Camera) : Decidable (Told s) := inferInstanceAs (Decidable (_ → _))

instance (s : Camera) : Decidable (Apart s) := inferInstanceAs (Decidable (_ ∨ _))

instance (d : Driver) (s : Camera) : Decidable (Resumes d s) :=
  inferInstanceAs (Decidable (_ → _ → _ → _ → _ → _))

instance (d : Driver) (s : Camera) : Decidable (Transfers d s) :=
  inferInstanceAs (Decidable (_ → _ → _ → _ → _ → _ ∧ _))

instance (s : Camera) : Decidable (Follows s) := inferInstanceAs (Decidable (_ → _ → _ ∧ _))

instance (d : Driver) (s : Camera) : ∀ e, Decidable (Waits d s e)
  | .expose _ _ => inferInstanceAs (Decidable (_ ∧ _))
  | .bop _ =>
    have : Decidable (∀ r, s.requests.head? = some r → r.careBlock = true → s.light = true →
        s.filterMoving = false ∧ s.focuserMoving = false ∧
          s.masterState.has bopExposure = false) :=
      inferInstanceAs (Decidable (∀ r ∈ s.requests.head?, _))
    inferInstanceAs (Decidable (_ → _ → _ → _ → _ → _ ∧ (_ ∨ _)))
  | .filterMoveEnd wheel => inferInstanceAs (Decidable ((∀ w ∈ s.moving, w = wheel) → _))
  | .focuserEndMove => inferInstanceAs (Decidable (_ → _))
  | .exposing _ _ => inferInstanceAs (Decidable (_ → _ ∧ _))
  | .reading _ => inferInstanceAs (Decidable (_ → _ → _))
  | .master _ | .change _ | .shutter _ | .killAll _ | .scriptEnds | .stopexpo
  | .deleteConnection _ => .isTrue trivial

theorem Patient.setFullBopState {newState : Status} (h : Patient s)
    (hbop : s.bopState = newState) (hs : Waits d s (.bop newState)) :
    Patient (s.setFullBopState d newState) := by
  have hfull : Patient { s with fullBopState := s.maskQueValueBopState newState } :=
    ⟨h.safe, h.checked, h.noim⟩
  unfold Camera.setFullBopState Camera.setFullBopStateWith
  dsimp only
  split
  · next hwait =>
    obtain ⟨hnew, hpos, hwaiting⟩ := hwait
    by_cases huse : s.state.has camExposing = true ∨
        d.supportFrameTransfer = false ∧ s.state.has camReading = true
    · split
      · refine hfull.maskState (.inr ?_) (by decide) (by decide)
        have hwill : bopWillExpose.has camExposing = false ∧ bopWillExpose.has camReading = false :=
          ⟨rfl, rfl⟩
        rcases huse with hexp | hread
        · simp [has_or, hexp, hwill]
        · simp [has_or, hread.2, hwill]
      · exact hfull
    · have hfree := not_or.mp huse
      have htransfer : s.state.has camReading = true → d.supportFrameTransfer = true := by
        intro hread
        by_contra hft
        exact hfree.2 ⟨by simpa using hft, hread⟩
      obtain ⟨hque, hready⟩ := hs hnew hpos hwaiting (by simpa using hfree.1) htransfer
      have hfullQue : Apart { s with fullBopState := s.maskQueValueBopState newState } := .inl hque
      split
      · exact hfull.maskState (.inl hfullQue) (by decide) (by decide)
      · next htrig =>
        have hdec : Patient { s with
            fullBopState := s.maskQueValueBopState newState
            waitingForNotBop := false
            quedExpNumber := s.quedExpNumber - 1 } := ⟨h.safe, h.checked, h.noim⟩
        refine (hdec.camStartExposureWithoutCheck hque fun r hr hcare hlight => ?_).1
        obtain ⟨hfilter, hfocuser, hmaster⟩ := hready.resolve_left htrig r hr hcare hlight
        refine ⟨hfilter, hfocuser, ?_⟩
        simp [Camera.blocked, hbop, hnew, hmaster]
  · exact hfull

/-! ## Kills -/

theorem Patient.cleared (h : Patient s) :
    Patient s.clear.stopExposure ∧ Apart s.clear.stopExposure :=
  ⟨⟨h.safe, fun r hr => h.checked r (List.mem_of_mem_drop hr), h.noim⟩, .inr (Int.le_refl 0)⟩

theorem Patient.killAll (h : Patient s) (callScriptEnds : Bool) :
    Patient (s.killAll d callScriptEnds) := by
  have hmask : ∀ (s : Camera) (mask new : Status), Patient s ∧ Apart s →
      (mask.has camExposing = true → mask.has camExposingNoim = true) →
      new.has camExposingNoim = false →
      Patient (s.maskState d mask new) ∧ Apart (s.maskState d mask new) := by
    intro s mask new h hmask hnew
    exact ⟨h.1.maskState (.inl h.2) hmask (by simp [hnew]), h.2.maskState _ _⟩
  have hstart : Patient { s with
      waitingForNotBop := false
      waitingForEmptyQue := false
      moving := []
      requests := []
      quedExpNumber := 0 } := ⟨h.safe, nofun, h.noim⟩
  have hidle := hmask _ camIdleMask deviceErrorKill ⟨hstart, .inr (Int.le_refl 0)⟩ (by decide)
    (by decide)
  have hempty : ∀ {t : Camera}, Patient t ∧ Apart t →
      Patient { t with queValues := [] } ∧ Apart { t with queValues := [] } :=
    fun ht => ⟨⟨ht.1.safe, ht.1.checked, ht.1.noim⟩, .inl rfl⟩
  have hclosed := hempty hidle
  unfold Camera.killAll
  dsimp only
  apply And.left
  apply hmask _ _ _ _ (by decide) (by decide)
  split
  · exact hmask _ _ _ hclosed.1.cleared (by decide) (by decide)
  · exact hclosed

theorem Patient.step {e : Event} (h : Patient s) (hs : Waits d s e) : Patient (step d s e) := by
  cases e with
  | expose conn careBlock =>
    obtain ⟨hunchecked, htold⟩ := hs
    have hcare : ∀ r ∈ s.requests ++ [(⟨conn, careBlock⟩ : Request)], r.careBlock = true →
        careBlock = true := by
      intro r hr hcheck
      rcases List.mem_append.mp hr with hold | hnew
      · by_contra hno
        rw [hunchecked (by simpa using hno) r hold] at hcheck
        cases hcheck
      · rw [List.mem_singleton] at hnew
        subst hnew
        exact hcheck
    have hask : Patient ({ s with lastCareBlock := careBlock }.ask ⟨conn, careBlock⟩) :=
      ⟨h.safe, hcare, h.noim⟩
    cases hbusy : d.busy s.getStateChip with
    | true => exact hask.camExpose_busy (.inl hbusy)
    | false =>
      by_cases hque : s.queValues = []
      · exact (hask.camExpose_free hbusy hque hcare (htold hbusy hque)).1
      · exact hask.camExpose_busy (.inr ⟨hque, rfl⟩)
  | bop newState =>
    have hbop : Patient { s with bopState := newState } := ⟨h.safe, h.checked, h.noim⟩
    exact hbop.setFullBopState rfl hs
  | master newState => exact ⟨h.safe, h.checked, h.noim⟩
  | change c =>
    show Patient (if c.queValueChange s.state then _ else _)
    split
    · exact ⟨h.safe, h.checked, h.noim⟩
    · exact ⟨h.safe, h.checked, h.noim⟩
  | shutter light => exact ⟨h.safe, h.checked, h.noim⟩
  | filterMoveEnd wheel =>
    have hmoved : Patient { s with moving := s.moving.filter (· ≠ wheel) } :=
      ⟨h.safe, h.checked, h.noim⟩
    show Patient (if Camera.filterMoving { s with moving := s.moving.filter (· ≠ wheel) } then _
      else _)
    split
    · exact hmoved
    · next hstill => exact hmoved.checkQueuedExposures (hs (Camera.all_arrived (by simpa using hstill)))
  | focuserEndMove =>
    show Patient (if s.focuserMoving then _ else s)
    split
    · next hmoving =>
      have harrived : Patient { s with focuserMoving := false } := ⟨h.safe, h.checked, h.noim⟩
      exact harrived.checkQueuedExposures (hs hmoving)
    · exact h
  | exposing ret opened => exact h.checkExposures hs
  | reading ret => exact h.checkReadouts hs
  | killAll callScriptEnds => exact h.killAll callScriptEnds
  | scriptEnds => exact h.cleared.1.maskState (.inl h.cleared.2) (by decide) (by decide)
  | stopexpo => exact h.cleared.1.maskState (.inl h.cleared.2) (by decide) (by decide)
  | deleteConnection conn =>
    show Patient (if s.exposureConn = some conn then _ else s)
    split
    · exact ⟨h.safe, h.checked, h.noim⟩
    · exact h

theorem patient_start : Patient Camera.start := ⟨nofun, nofun, nofun⟩

/-- **No exposure that has to wait begins** in a run of events that keep the requests
waiting: a light exposure asked for with checks finds nothing moving and no block. -/
theorem starts_safe (d : Driver) (events : List Event)
    (h : Along (step d) (Waits d) Camera.start events) :
    Safe (run (step d) Camera.start events) := by
  have hpatient : Patient (run (step d) Camera.start events) :=
    h.invariant patient_start fun _ _ hp hs => hp.step hs
  exact hpatient.safe

theorem starts_safe_night : Safe (run (step ccd) Camera.start
    [.change ⟨0#32, some 0, false⟩, .expose 1 true, .filterMoveEnd 0, .exposing (-2) true,
      .reading (-2), .bop bopExposure, .expose 2 true, .bop 0#32]) :=
  starts_safe ccd _ (by decide +kernel)

/-- A change of the BOP state starts what waits for the filter wheel. -/
theorem started_while_moving : ¬Safe (run (step ccd) Camera.start
    [.change ⟨0#32, some 0, false⟩, .expose 1 true, .bop 0#32]) := by
  intro h
  have hclear := h ⟨some ⟨1, true⟩, true, true, false, false⟩ (by decide +kernel) _ rfl rfl rfl
  cases hclear.1

end Rts2.Camd
