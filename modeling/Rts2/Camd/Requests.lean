import Rts2.Camd.QueChanges

/-! # Every request is started once

The requests that were not started are those `que_exp_num` counts, and the one that
waits for an empty queue. Each part of the camera passes requests on: what it takes
from the counter it starts or puts back. -/
namespace Rts2.Camd
open Rts2.Lib Status

variable {d : Driver} {s : Camera} {k : Nat} {chk : Camera → Status → Camera}

/-- The requests that are counted, with the one that waits for an empty queue. -/
def Camera.counted (s : Camera) : Int := s.quedExpNumber + if s.waitingForEmptyQue then 1 else 0

theorem Camera.counted_inc (s : Camera) : s.inc.counted = s.counted + 1 := by
  show s.quedExpNumber + 1 + _ = s.quedExpNumber + _ + 1
  exact Int.add_right_comm ..

theorem Camera.counted_dec (s : Camera) : s.dec.counted = s.counted - 1 := by
  show s.quedExpNumber - 1 + _ = s.quedExpNumber + _ - 1
  exact Int.add_right_comm ..

/-- The counter is no negative number, a request is counted or was started, and nothing
was started without one. -/
def Accounted (s : Camera) : Prop :=
  0 ≤ s.quedExpNumber ∧ (s.requests.length : Int) = s.counted ∧
    ∀ start ∈ s.starts, start.request.isSome = true

/-- Every request is counted but the `k` in hand, and an exposure without image is an
exposure. -/
structure Balanced (k : Nat) (s : Camera) : Prop where
  nonneg : 0 ≤ s.quedExpNumber
  count : (s.requests.length : Int) = s.counted + k
  asked : ∀ start ∈ s.starts, start.request.isSome = true
  noim : s.state.has camExposingNoim = true → s.state.has camExposing = true

/-- The request that waits for an empty queue has its connection still. -/
structure Held (k : Nat) (s : Camera) : Prop extends Balanced k s where
  addressed : s.waitingForEmptyQue = true → s.exposureConn.isSome = true

theorem Balanced.accounted (h : Balanced 0 s) : Accounted s :=
  ⟨h.nonneg, by simpa using h.count, h.asked⟩

/-- A change of the state that drops an exposure drops the one without image too. -/
theorem Held.maskedState {mask new : Status} (h : Held k s)
    (hmask : mask.has camExposing = true → mask.has camExposingNoim = true)
    (hnew : new.has camExposingNoim = true → new.has camExposing = true) :
    Held k { s with state := maskedState s.state mask new } := by
  refine ⟨⟨h.nonneg, h.count, h.asked, ?_⟩, h.addressed⟩
  have hnoim := h.noim
  simp only [exposing_maskedState, exposingNoim_maskedState, Bool.or_eq_true, Bool.and_eq_true,
    Bool.not_eq_true']
  rintro (⟨hs, hm⟩ | hn)
  · refine .inl ⟨hnoim hs, ?_⟩
    by_contra he
    rw [hmask (by simpa using he)] at hm
    cases hm
  · exact .inr (hnew hn)

/-! ## Inside a change of the state -/

theorem Held.mask {mask new : Status} (hchk : ∀ s f, Held k s → Held k (chk s f)) (h : Held k s)
    (hmask : mask.has camExposing = true → mask.has camExposingNoim = true)
    (hnew : new.has camExposingNoim = true → new.has camExposing = true) :
    Held k (s.maskStateWith chk mask new) :=
  Camera.maskStateWith_keeps hchk (h.maskedState hmask hnew)

theorem Held.release (h : Held k s) (f : Status) : Held k (s.release f) := by
  obtain ⟨moving, focuserMoving, he⟩ := s.release_eq f
  rw [he]
  exact ⟨⟨h.nonneg, h.count, h.asked, h.noim⟩, h.addressed⟩

theorem Held.endWaitingForEmptyQue (h : Held k s) : Held k s.endWaitingForEmptyQue := by
  have hnonneg := h.nonneg
  have hcount := h.count
  unfold Camera.endWaitingForEmptyQue
  dsimp only
  split
  · next hwait =>
    rw [if_pos (h.addressed hwait.2)]
    refine ⟨⟨?_, ?_, h.asked, h.noim⟩, nofun⟩
    · show 0 ≤ s.quedExpNumber + 1
      omega
    · simp only [Camera.counted, hwait.2, if_true] at hcount
      simp only [Camera.counted, Camera.inc, Bool.false_eq_true, if_false]
      omega
  · exact h

theorem Held.dec (h : Held k s) (hpos : 0 < s.quedExpNumber) : Held (k + 1) s.dec := by
  have hcount := h.count
  refine ⟨⟨?_, ?_, h.asked, h.noim⟩, h.addressed⟩
  · show 0 ≤ s.quedExpNumber - 1
    omega
  · show (s.requests.length : Int) = s.dec.counted + (k + 1 : Nat)
    rw [s.counted_dec]
    omega

theorem Held.inc (h : Held (k + 1) s) : Held k s.inc := by
  have hnonneg := h.nonneg
  have hcount := h.count
  refine ⟨⟨?_, ?_, h.asked, h.noim⟩, h.addressed⟩
  · show 0 ≤ s.quedExpNumber + 1
    omega
  · show (s.requests.length : Int) = s.inc.counted + k
    rw [s.counted_inc]
    omega

/-- A request in hand is the one that is started. -/
theorem Held.camStartExposureWithoutCheckWith (hchk : ∀ s f, Held k s → Held k (chk s f))
    (h : Held (k + 1) s) : Held k (s.camStartExposureWithoutCheckWith d chk).2 := by
  have hnonneg := h.nonneg
  have hcount := h.count
  have hhead : s.requests.head?.isSome = true := by
    cases hr : s.requests with
    | nil =>
      rw [hr] at hcount
      simp only [Camera.counted, List.length_nil] at hcount
      split at hcount <;> push_cast at hcount <;> omega
    | cons r rs => rfl
  have hinc : Held k s.incExposureNumber := by
    refine ⟨⟨hnonneg, ?_, h.asked, h.noim⟩, h.addressed⟩
    cases hr : s.requests with
    | nil =>
      rw [hr] at hhead
      cases hhead
    | cons r rs =>
      rw [hr] at hcount
      simp only [Camera.counted, List.length_cons] at hcount
      simp only [Camera.incExposureNumber, Camera.counted, hr, List.tail_cons]
      push_cast at hcount
      omega
  have hmask : Held k (s.incExposureNumber.maskStateWith chk bopTelMove bopTelMove) :=
    Held.mask hchk hinc (by decide) (by decide)
  have hexposed : Held k ((s.incExposureNumber.maskStateWith chk bopTelMove bopTelMove).exposed
      s.requests.head?) := by
    refine ⟨⟨hmask.nonneg, hmask.count, ?_, hmask.noim⟩, hmask.addressed⟩
    intro start hstart
    rcases List.mem_append.mp hstart with hold | hnew
    · exact hmask.asked start hold
    · rw [List.mem_singleton.mp hnew]
      exact hhead
  unfold Camera.camStartExposureWithoutCheckWith
  dsimp only
  split
  · split
    · exact Held.mask hchk hexposed (by decide) (by decide)
    · exact Held.mask hchk hexposed (by decide) (by decide)
  · exact Held.mask hchk hexposed (by decide) (by decide)

theorem Held.setFullBopStateWith (hchk : ∀ s f, Held k s → Held k (chk s f)) (h : Held k s)
    (newState : Status) : Held k (s.setFullBopStateWith d chk newState) := by
  have hfull : Held k { s with fullBopState := s.maskQueValueBopState newState } :=
    ⟨⟨h.nonneg, h.count, h.asked, h.noim⟩, h.addressed⟩
  unfold Camera.setFullBopStateWith
  dsimp only
  split
  · next hwait =>
    split
    · exact Held.mask hchk hfull (by decide) (by decide)
    · split
      · exact hfull
      · have hdec := hfull.dec hwait.2.1
        exact Held.camStartExposureWithoutCheckWith hchk
          ⟨⟨hdec.nonneg, hdec.count, hdec.asked, hdec.noim⟩, hdec.addressed⟩
  · exact hfull

theorem Held.checkQueChanges (h : Held k s) (f : Status) : Held k (s.checkQueChanges d f) :=
  Camera.checkQueChanges_keeps (fun _ f h => h.release f) (fun _ h => h.endWaitingForEmptyQue)
    (fun _ hchk _ f h => h.setFullBopStateWith hchk f) s f h

theorem Held.maskState {mask new : Status} (h : Held k s)
    (hmask : mask.has camExposing = true → mask.has camExposingNoim = true)
    (hnew : new.has camExposingNoim = true → new.has camExposing = true) :
    Held k (s.maskState d mask new) :=
  Held.mask (fun _ f h => h.checkQueChanges f) h hmask hnew

/-! ## States that start nothing -/

/-- The chip is exposed, and requests wait. -/
def Frozen (s : Camera) : Prop := s.state.has camExposing = true ∧ 0 < s.quedExpNumber

theorem Frozen.release (h : Frozen s) (f : Status) : Frozen (s.release f) := by
  obtain ⟨moving, focuserMoving, he⟩ := s.release_eq f
  rw [he]
  exact h

theorem Frozen.endWaitingForEmptyQue (h : Frozen s) : Frozen s.endWaitingForEmptyQue := by
  unfold Camera.endWaitingForEmptyQue
  dsimp only
  split
  · split
    · exact ⟨h.1, Int.lt_add_one_of_le (Int.le_of_lt h.2)⟩
    · exact h
  · exact h

/-- A chip that is exposed keeps `setFullBopState` from starting the next exposure. -/
theorem Frozen.setFullBopStateWith {P : Camera → Prop}
    (hchk : ∀ s f, Frozen s ∧ P s → Frozen (chk s f) ∧ P (chk s f)) (h : Frozen s) (f : Status)
    (hfull : P { s with fullBopState := s.maskQueValueBopState f })
    (hwill : P { s with
      fullBopState := s.maskQueValueBopState f
      state := Camd.maskedState s.state bopWillExpose bopWillExpose }) :
    Frozen (s.setFullBopStateWith d chk f) ∧ P (s.setFullBopStateWith d chk f) := by
  unfold Camera.setFullBopStateWith
  dsimp only
  split
  · split
    · refine Camera.maskStateWith_keeps hchk ⟨⟨?_, h.2⟩, hwill⟩
      simp [h.1, show bopWillExpose.has camExposing = false from rfl]
    · rw [if_pos (.inl h.1)]
      exact ⟨h, hfull⟩
  · exact ⟨h, hfull⟩

theorem Frozen.checkQueChanges (h : Frozen s) (f : Status) : Frozen (s.checkQueChanges d f) := by
  apply Camera.checkQueChanges_keeps (P := Frozen) _ _ _ s f h
  · exact fun s f h => h.release f
  · exact fun s h => h.endWaitingForEmptyQue
  · intro chk hchk s f h
    exact (h.setFullBopStateWith (P := fun _ => True) (fun s f hs => ⟨hchk s f hs.1, trivial⟩) f
      trivial trivial).1

theorem Frozen.maskState {mask new : Status} (h : Frozen s) (hmask : mask.has camExposing = false) :
    Frozen (s.maskState d mask new) := by
  refine Camera.maskStateWith_keeps (fun _ f h => h.checkQueChanges f) ⟨?_, h.2⟩
  simp [h.1, hmask]

/-- Nothing is counted. -/
def Quiet (s : Camera) : Prop := s.quedExpNumber ≤ 0 ∧ s.waitingForEmptyQue = false

instance (s : Camera) : Decidable (Quiet s) := inferInstanceAs (Decidable (_ ∧ _))

theorem Quiet.checkQueChanges (h : Quiet s) (f : Status) : Quiet (s.checkQueChanges d f) := by
  apply Camera.checkQueChanges_keeps (P := Quiet) _ _ _ s f h
  · intro s f h
    obtain ⟨moving, focuserMoving, he⟩ := s.release_eq f
    rw [he]
    exact h
  · intro s h
    unfold Camera.endWaitingForEmptyQue
    dsimp only
    rw [if_neg (by simp [h.2])]
    exact h
  · intro chk hchk s f h
    have hzero : ¬0 < s.quedExpNumber := by
      have := h.1
      omega
    unfold Camera.setFullBopStateWith
    dsimp only
    rw [if_neg fun hpos => hzero hpos.2.1]
    exact h

theorem Quiet.maskState (h : Quiet s) (mask new : Status) : Quiet (s.maskState d mask new) :=
  Camera.maskStateWith_keeps (fun _ f h => h.checkQueChanges f) h

theorem Quiet.stopExposure (hq : Quiet s) (hnonneg : 0 ≤ s.quedExpNumber) : s.stopExposure = s := by
  unfold Camera.stopExposure
  rw [← Int.le_antisymm hq.1 hnonneg]

theorem Quiet.held (hq : Quiet s) (h : Balanced k s) : Held k s :=
  ⟨h, fun hwait => by rw [hq.2] at hwait; cases hwait⟩

/-! ## Requests -/

theorem Held.camStartExposure (h : Held (k + 1) s) (careBlock : Bool) :
    Held k (s.camStartExposure d careBlock).2 := by
  have hwait : Held k { s.inc with waitingForNotBop := true } :=
    ⟨⟨h.inc.nonneg, h.inc.count, h.inc.asked, h.inc.noim⟩, h.inc.addressed⟩
  unfold Camera.camStartExposure
  dsimp only
  split
  · split
    · exact hwait.maskState (by decide) (by decide)
    · exact hwait
  · apply Held.camStartExposureWithoutCheckWith fun _ f h => h.checkQueChanges f
    split
    · exact h.maskState (by decide) (by decide)
    · exact h

/-- The chip cannot be exposed now, and the request is counted. -/
theorem Balanced.camExpose_waits {conn : Option Nat} {chipState : Status} {careBlock : Bool}
    (h : Balanced (k + 1) s) (hbusy : d.busy chipState = true ∨ s.queValues ≠ [])
    (hwait : s.queValues ≠ [] → s.waitingForEmptyQue = false) :
    Balanced k (s.camExpose d conn chipState false careBlock).2 := by
  have hnonneg := h.nonneg
  have hcount := h.count
  unfold Camera.camExpose
  rw [if_pos (hbusy.imp_right fun hq => ⟨hq, rfl⟩)]
  split
  · refine ⟨?_, ?_, h.asked, h.noim⟩
    · show 0 ≤ s.quedExpNumber + 1
      omega
    · show (s.requests.length : Int) = s.inc.counted + k
      rw [s.counted_inc]
      omega
  · next hq =>
    have hfalse := hwait fun hnil => hq ⟨rfl, hnil⟩
    refine ⟨hnonneg, ?_, h.asked, h.noim⟩
    show (s.requests.length : Int) = s.quedExpNumber + 1 + k
    unfold Camera.counted at hcount
    rw [hfalse] at hcount
    simp at hcount
    omega

/-- The chip is free, and the exposure begins or is put off. -/
theorem Balanced.camExpose_free {conn : Option Nat} {chipState : Status} {fromQue careBlock : Bool}
    (h : Balanced (k + 1) s) (hfree : d.busy chipState = false) (hque : s.queValues = [] ∨ fromQue = true)
    (hzero : s.quedExpNumber ≤ 0)
    (hconn : s.waitingForEmptyQue = true → conn.isSome = true) :
    Held k (s.camExpose d conn chipState fromQue careBlock).2 := by
  unfold Camera.camExpose
  rw [if_neg (by rcases hque with hq | hq <;> simp [hfree, hq]), if_neg (by omega)]
  have hconn' : Held (k + 1) { s with exposureConn := conn } :=
    ⟨⟨h.nonneg, h.count, h.asked, h.noim⟩, hconn⟩
  exact hconn'.camStartExposure careBlock

/-- The chip is free for the next request of the queue. -/
theorem Held.camExpose_next {chipState : Status} {fromQue careBlock : Bool} (h : Held k s)
    (hfree : d.busy chipState = false) (hque : s.queValues = [] ∨ fromQue = true)
    (hpos : 0 < s.quedExpNumber) :
    Held k (s.camExpose d s.exposureConn chipState fromQue careBlock).2 := by
  unfold Camera.camExpose
  rw [if_neg (by rcases hque with hq | hq <;> simp [hfree, hq]), if_pos hpos]
  exact (h.dec hpos).camStartExposure careBlock

/-- When the last wheel arrives, no other moves. -/
theorem Camera.all_arrived {wheel : Nat}
    (h : Camera.filterMoving { s with moving := s.moving.filter (· ≠ wheel) } = false) :
    ∀ w ∈ s.moving, w = wheel := by
  intro w hw
  by_contra hne
  have hmem : w ∈ s.moving.filter (· ≠ wheel) := List.mem_filter.mpr ⟨hw, by simpa using hne⟩
  rw [Camera.filterMoving, Bool.not_eq_false', List.isEmpty_iff] at h
  have hnone : s.moving.filter (· ≠ wheel) = [] := h
  rw [hnone] at hmem
  cases hmem

/-- What a wheel or the focuser that has arrived finds: the request it takes from the
counter begins, or is counted again. -/
def Requeues (d : Driver) (s : Camera) : Prop :=
  0 < s.quedExpNumber → (s.waitingForEmptyQue = true → s.exposureConn.isSome = true) ∧
    (s.queValues ≠ [] → s.waitingForEmptyQue = false) ∧
    (s.queValues = [] → d.busy s.getStateChip = true ∨ s.quedExpNumber ≤ 1)

theorem Balanced.checkQueuedExposures (h : Balanced 0 s) (hs : Requeues d s) :
    Balanced 0 (s.checkQueuedExposures d) := by
  unfold Camera.checkQueuedExposures
  split
  · next hpos =>
    obtain ⟨haddressed, hwait, hempty⟩ := hs hpos
    have hdec : Held 1 s.dec := Held.dec ⟨h, haddressed⟩ hpos
    by_cases hque : s.queValues = []
    · rcases hempty hque with hbusy | hone
      · exact hdec.toBalanced.camExpose_waits (.inl hbusy) hwait
      · cases hbusy : d.busy s.getStateChip with
        | true => exact hdec.toBalanced.camExpose_waits (.inl hbusy) hwait
        | false =>
          have hzero : s.dec.quedExpNumber ≤ 0 := by
            show s.quedExpNumber - 1 ≤ 0
            omega
          exact (hdec.toBalanced.camExpose_free hbusy (.inl hque) hzero haddressed).toBalanced
    · exact hdec.toBalanced.camExpose_waits (.inr hque) hwait
  · exact h

/-! ## Ends of exposures and readouts -/

theorem Held.camReadout (h : Held 0 s) (hexp : s.state.has camExposing = true) (opened : Bool) :
    Held 0 (s.camReadout d opened) := by
  have hstart : Held 0 (if 0 < s.quedExpNumber ∧ s.exposureConn.isSome ∧ d.supportFrameTransfer then
      let s := s.checkQueChanges d (s.getStateChip &&& ~~~(camExposing ||| camExposingNoim))
      let s := s.maskState d (camMaskReading ||| camMaskFt) (camReading ||| camFt)
      if s.queValues = [] then s.camExposeNext d else s
    else s.maskState d (camMaskExpose ||| camMaskReading ||| bopTelMove) camReading) := by
    split
    · next hft =>
      have hfrozen : Frozen s := ⟨hexp, hft.1⟩
      have hmask : Held 0 ((s.checkQueChanges d (s.getStateChip &&&
          ~~~(camExposing ||| camExposingNoim))).maskState d (camMaskReading ||| camMaskFt)
            (camReading ||| camFt)) :=
        (h.checkQueChanges _).maskState (by decide) (by decide)
      have hpos : Frozen ((s.checkQueChanges d (s.getStateChip &&&
          ~~~(camExposing ||| camExposingNoim))).maskState d (camMaskReading ||| camMaskFt)
            (camReading ||| camFt)) :=
        (hfrozen.checkQueChanges _).maskState (by decide)
      dsimp only
      split
      · have hfree : ∀ chip : Status, d.busy (chip &&& ~~~camMaskExpose) = false := by
          intro chip
          simp [Driver.busy, hft.2.2, show (~~~camMaskExpose).has camExposing = false from rfl,
            show (~~~camMaskExpose).has camExposingNoim = false from rfl]
        exact hmask.camExpose_next (hfree _) (.inr rfl) hpos.2
      · exact hmask
    · exact h.maskState (by decide) (by decide)
  unfold Camera.camReadout
  dsimp only
  split
  · exact hstart
  · exact hstart.maskState (by decide) (by decide)

theorem Camera.exposing_used (hexp : s.state.has camExposing = true) :
    s.getStateChip.has (camExposing ||| camExposingNoim ||| camShift) = true ∧
      s.getStateChip.has (camExposing ||| camExposingNoim) = true := by
  simp [has_or, hexp]

/-- An exposure without image is an exposure. -/
theorem Camera.exposing_of_used
    (hnoim : s.state.has camExposingNoim = true → s.state.has camExposing = true)
    (hused : ¬s.getStateChip.has (camExposing ||| camExposingNoim) = false) :
    s.state.has camExposing = true := by
  by_contra hexp
  have hno : s.state.has camExposingNoim = false := by
    by_contra hno
    exact hexp (hnoim (by simpa using hno))
  simp [has_or, hno, Bool.not_eq_true _ ▸ hexp] at hused

/-- An exposure that ends without an image to read. -/
theorem Quiet.stopped (hq : Quiet s) (h : Balanced 0 s) (hnone : s.exposureConn = none)
    (ret : Int) (hret : ret ≠ -5) (opened : Bool) :
    Quiet (s.endExposure d ret opened) ∧ Balanced 0 (s.endExposure d ret opened) := by
  have hstop := hq.stopExposure h.nonneg
  have hsame : (if s.getStateChip.has (camExposing ||| camExposingNoim ||| camShift) = true ∧ ret ≠ -4
      then s.stopExposure else s) = s := by
    split
    · exact hstop
    · rfl
  unfold Camera.endExposure
  dsimp only
  rw [if_neg (by simp [hnone]), if_neg fun hused => hret hused.2, hsame, hstop]
  exact ⟨hq.maskState _ _, ((hq.held h).maskState (by decide) (by decide)).toBalanced⟩

/-- What the end of an exposure finds, for the answer `ret` of the driver: an exposure
that is given up stops all that wait. -/
def Finishes (s : Camera) (ret : Int) : Prop :=
  (ret = -2 ∨ ret = -5 → s.waitingForEmptyQue = true → s.exposureConn.isSome = true) ∧
    (ret = -2 → s.exposureConn = none → s.quedExpNumber ≤ 0) ∧
    (ret = -1 ∨ ret = -3 ∨ ret = -4 → Quiet s)

theorem Held.endExposure (h : Held 0 s) (hexp : s.state.has camExposing = true) {ret : Int}
    (hret : ret = -2 ∨ ret = -5) (hnone : ret = -2 → s.exposureConn = none → s.quedExpNumber ≤ 0)
    (opened : Bool) : Held 0 (s.endExposure d ret opened) := by
  cases hconn : s.exposureConn with
  | some conn =>
    unfold Camera.endExposure
    rw [if_pos (by rw [hconn]; rfl)]
    exact h.camReadout hexp opened
  | none =>
    rcases hret with rfl | rfl
    · have hwait : s.waitingForEmptyQue = false := by
        by_contra hwait
        have hsome := h.addressed (by simpa using hwait)
        rw [hconn] at hsome
        cases hsome
      have hq : Quiet s := ⟨hnone rfl hconn, hwait⟩
      obtain ⟨hq', hb⟩ := hq.stopped (d := d) h.toBalanced hconn (-2) (by decide) opened
      exact hq'.held hb
    · unfold Camera.endExposure
      dsimp only
      rw [if_neg (by simp [hconn]), if_pos ⟨(Camera.exposing_used hexp).1, rfl⟩]
      exact h

theorem Balanced.checkExposures (h : Balanced 0 s) {ret : Int}
    (hs : s.state.has camExposing = true → Finishes s ret) (opened : Bool) :
    Balanced 0 (s.checkExposures d ret opened) := by
  have hfinished : ∀ {s : Camera}, Held 0 s →
      Held 0 (s.maskState d (camMaskExpose ||| camMaskFt ||| bopTelMove) 0#32) := by
    intro s h
    exact h.maskState (by decide) (by decide)
  unfold Camera.checkExposures
  dsimp only
  split
  · exact h
  · next hused =>
    have hexp := Camera.exposing_of_used h.noim hused
    obtain ⟨haddressed, hnone, hquiet⟩ := hs hexp
    split
    · next hret =>
      subst hret
      have hheld : Held 0 s := ⟨h, haddressed (.inr rfl)⟩
      exact (hfinished (hheld.endExposure hexp (.inr rfl) nofun opened)).toBalanced
    · split
      · next hret =>
        subst hret
        have hq : Quiet { s with exposureConn := none } := hquiet (.inr (.inr rfl))
        obtain ⟨hq', hb⟩ := hq.stopped (d := d) ⟨h.nonneg, h.count, h.asked, h.noim⟩ rfl (-4)
          (by decide) opened
        have hmask := hfinished (hq'.held hb)
        have hzero := hq'.maskState (d := d) (camMaskExpose ||| camMaskFt ||| bopTelMove) 0#32
        rw [if_neg (by have := hzero.1; omega)]
        exact hmask.toBalanced
      · split
        · next hret =>
          subst hret
          have hq : Quiet { s with exposureConn := none } := hquiet (.inr (.inl rfl))
          exact (hq.stopped ⟨h.nonneg, h.count, h.asked, h.noim⟩ rfl (-3) (by decide) opened).2
        · split
          · next hret =>
            subst hret
            have hheld : Held 0 s := ⟨h, haddressed (.inl rfl)⟩
            have hend := hheld.endExposure (d := d) hexp (.inl rfl) hnone opened
            split
            · exact (hfinished hend).toBalanced
            · exact (hend.maskState (by decide) (by decide)).toBalanced
          · split
            · next hret =>
              subst hret
              have hq := hquiet (.inl rfl)
              have hmask : Held 0 (s.maskState d (deviceErrorMask ||| camMaskExpose |||
                  camMaskShifting ||| camMaskReading ||| bopTelMove) deviceErrorHw) :=
                (hq.held h).maskState (by decide) (by decide)
              have hzero := hq.maskState (d := d) (deviceErrorMask ||| camMaskExpose |||
                camMaskShifting ||| camMaskReading ||| bopTelMove) deviceErrorHw
              rw [hzero.stopExposure hmask.nonneg, if_neg (by have := hzero.1; omega)]
              exact hmask.toBalanced
            · exact h

/-- What the end of a readout finds: an exposure that began during the readout and
requests that wait for it are not both there. -/
def EndsReadout (s : Camera) : Prop :=
  (s.waitingForEmptyQue = true → s.exposureConn.isSome = true) ∧
    (0 < s.quedExpNumber → s.exposureConn.isSome = true → s.state.has camExposing = true →
      s.waitingForEmptyQue = true)

theorem Balanced.checkReadouts (h : Balanced 0 s) {ret : Int}
    (hs : s.getStateChip &&& camMaskReading = camReading → ret < 0 → EndsReadout s) :
    Balanced 0 (s.checkReadouts d ret) := by
  unfold Camera.checkReadouts
  split
  · exact h
  · next hreading =>
    rw [not_or, ne_eq, not_not, Int.not_le] at hreading
    obtain ⟨haddressed, hwait⟩ := hs hreading.1 hreading.2
    have hend : Held 0 (s.endReadout d) := by
      have hheld : Held 0 s := ⟨h, haddressed⟩
      unfold Camera.endReadout
      split
      · next hpos =>
        cases hexp : s.state.has camExposing with
        | true =>
          -- the exposure is on, and the request that waits already is counted
          have hsame : s.camExpose d s.exposureConn (s.getStateChip &&& camMaskExpose) true
              s.lastCareBlock = (-1, s) := by
            have htrue := hwait hpos.1 hpos.2 hexp
            unfold Camera.camExpose
            rw [if_pos (.inl (by simp [Driver.busy, hexp, show camMaskExpose.has camExposing = true
              from rfl])), if_neg (by simp), ← htrue]
          rw [hsame]
          exact hheld
        | false =>
          have hnoim : s.state.has camExposingNoim = false := by
            by_contra hnoim
            rw [h.noim (by simpa using hnoim)] at hexp
            cases hexp
          refine hheld.camExpose_next ?_ (.inr rfl) hpos.1
          simp [Driver.busy, hexp, hnoim, show camMaskExpose.has camReading = false from rfl]
      · exact hheld
    split
    · exact (hend.maskState (by decide) (by decide)).toBalanced
    · exact (hend.maskState (by decide) (by decide)).toBalanced

/-! ## Kills -/

/-- The requests that are counted are cleared. -/
theorem Held.cleared (h : Held 0 s) : Held 0 s.clear.stopExposure := by
  have hnonneg := h.nonneg
  have hcount := h.count
  refine ⟨⟨Int.le_refl 0, ?_, h.asked, h.noim⟩, h.addressed⟩
  show ((s.requests.drop s.quedExpNumber.toNat).length : Int) =
    0 + (if s.waitingForEmptyQue then 1 else 0) + (0 : Nat)
  rw [List.length_drop]
  unfold Camera.counted at hcount
  cases hwait : s.waitingForEmptyQue with
  | false =>
    simp only [hwait, Bool.false_eq_true, if_false] at hcount ⊢
    omega
  | true =>
    simp only [hwait, if_true] at hcount ⊢
    omega

theorem Balanced.killAll (h : Balanced 0 s) (callScriptEnds : Bool) :
    Balanced 0 (s.killAll d callScriptEnds) := by
  have hkilled : ∀ {s : Camera} (mask new : Status), Quiet s ∧ Balanced 0 s →
      (mask.has camExposing = true → mask.has camExposingNoim = true) →
      new.has camExposingNoim = false →
      Quiet (s.maskState d mask new) ∧ Balanced 0 (s.maskState d mask new) := by
    intro s mask new h hmask hnew
    exact ⟨h.1.maskState _ _, ((h.1.held h.2).maskState hmask (by simp [hnew])).toBalanced⟩
  have hstart : Quiet { s with
        waitingForNotBop := false
        waitingForEmptyQue := false
        moving := []
        requests := []
        quedExpNumber := 0 } ∧ Balanced 0 { s with
        waitingForNotBop := false
        waitingForEmptyQue := false
        moving := []
        requests := []
        quedExpNumber := 0 } :=
    ⟨⟨Int.le_refl 0, rfl⟩, Int.le_refl 0, rfl, h.asked, h.noim⟩
  have hidle := hkilled camIdleMask deviceErrorKill hstart (by decide) (by decide)
  have hempty : ∀ {s : Camera}, Quiet s ∧ Balanced 0 s →
      Quiet { s with queValues := [] } ∧ Balanced 0 { s with queValues := [] } :=
    fun h => ⟨h.1, h.2.nonneg, h.2.count, h.2.asked, h.2.noim⟩
  unfold Camera.killAll
  dsimp only
  apply (hkilled _ _ _ (by decide) (by decide)).2
  split
  · have hq := hempty hidle
    have hclear := (hq.1.held hq.2).cleared
    exact hkilled deviceErrorKill 0#32 ⟨⟨Int.le_refl 0, hq.1.2⟩, hclear.toBalanced⟩ (by decide)
      (by decide)
  · exact hempty hidle

/-! ## Runs -/

/-- The events that keep the requests in order, by the camera they find. -/
def Keeps (d : Driver) (s : Camera) : Event → Prop
  | .expose _ _ =>
    (s.queValues ≠ [] → s.waitingForEmptyQue = false) ∧
      (s.queValues = [] → d.busy s.getStateChip = false → s.quedExpNumber ≤ 0)
  | .bop _ => s.waitingForEmptyQue = true → s.exposureConn.isSome = true
  | .filterMoveEnd wheel => (∀ w ∈ s.moving, w = wheel) → Requeues d s
  | .focuserEndMove => s.focuserMoving = true → Requeues d s
  | .exposing ret _ => s.state.has camExposing = true → Finishes s ret
  | .reading ret => s.getStateChip &&& camMaskReading = camReading → ret < 0 → EndsReadout s
  | .scriptEnds => s.waitingForEmptyQue = true → s.exposureConn.isSome = true
  | .stopexpo => s.waitingForEmptyQue = true → s.exposureConn.isSome = true
  | _ => True

instance (d : Driver) (s : Camera) : ∀ e, Decidable (Keeps d s e)
  | .expose _ _ => inferInstanceAs (Decidable (_ ∧ _))
  | .bop _ | .scriptEnds | .stopexpo => inferInstanceAs (Decidable (_ → _))
  | .filterMoveEnd wheel =>
    inferInstanceAs (Decidable ((∀ w ∈ s.moving, w = wheel) → _ → _ ∧ _ ∧ _))
  | .focuserEndMove => inferInstanceAs (Decidable (_ → _ → _ ∧ _ ∧ _))
  | .exposing _ _ => inferInstanceAs (Decidable (_ → _ ∧ _ ∧ _))
  | .reading _ => inferInstanceAs (Decidable (_ → _ → _ ∧ _))
  | .master _ | .change _ | .shutter _ | .killAll _ | .deleteConnection _ => .isTrue trivial

theorem Balanced.step {e : Event} (h : Balanced 0 s) (hs : Keeps d s e) :
    Balanced 0 (step d s e) := by
  cases e with
  | expose conn careBlock =>
    obtain ⟨hwait, hfree⟩ := hs
    have hcount := h.count
    have hask : Balanced 1 ({ s with lastCareBlock := careBlock }.ask ⟨conn, careBlock⟩) := by
      refine ⟨h.nonneg, ?_, h.asked, h.noim⟩
      show ((s.requests ++ [_]).length : Int) = s.counted + 1
      rw [List.length_append]
      push_cast
      simpa using hcount
    by_cases hque : s.queValues = []
    · cases hbusy : d.busy s.getStateChip with
      | true => exact hask.camExpose_waits (.inl hbusy) fun hne => hwait hne
      | false =>
        exact (hask.camExpose_free hbusy (.inl hque) (hfree hque hbusy) fun _ => rfl).toBalanced
    · exact hask.camExpose_waits (.inr hque) fun hne => hwait hne
  | bop newState =>
    have hheld : Held 0 { s with bopState := newState } :=
      ⟨⟨h.nonneg, h.count, h.asked, h.noim⟩, hs⟩
    exact (hheld.setFullBopStateWith (fun _ f h => h.checkQueChanges f) newState).toBalanced
  | master newState => exact ⟨h.nonneg, h.count, h.asked, h.noim⟩
  | change c =>
    show Balanced 0 (if c.queValueChange s.state then _ else _)
    split
    · exact ⟨h.nonneg, h.count, h.asked, h.noim⟩
    · exact ⟨h.nonneg, h.count, h.asked, h.noim⟩
  | shutter light => exact ⟨h.nonneg, h.count, h.asked, h.noim⟩
  | filterMoveEnd wheel =>
    have hbalanced : Balanced 0 { s with moving := s.moving.filter (· ≠ wheel) } :=
      ⟨h.nonneg, h.count, h.asked, h.noim⟩
    show Balanced 0 (if Camera.filterMoving { s with moving := s.moving.filter (· ≠ wheel) } then _
      else _)
    split
    · exact hbalanced
    · next hstill =>
      exact hbalanced.checkQueuedExposures (hs (Camera.all_arrived (by simpa using hstill)))
  | focuserEndMove =>
    show Balanced 0 (if s.focuserMoving then _ else s)
    split
    · next hmoving =>
      have hbalanced : Balanced 0 { s with focuserMoving := false } :=
        ⟨h.nonneg, h.count, h.asked, h.noim⟩
      exact hbalanced.checkQueuedExposures (hs hmoving)
    · exact h
  | exposing ret opened => exact h.checkExposures hs opened
  | reading ret => exact h.checkReadouts hs
  | killAll callScriptEnds => exact h.killAll callScriptEnds
  | scriptEnds =>
    have hheld : Held 0 s := ⟨h, hs⟩
    exact (hheld.cleared.maskState (by decide) (by decide)).toBalanced
  | stopexpo =>
    have hheld : Held 0 s := ⟨h, hs⟩
    exact (hheld.cleared.maskState (by decide) (by decide)).toBalanced
  | deleteConnection conn =>
    show Balanced 0 (if s.exposureConn = some conn then _ else s)
    split
    · exact ⟨h.nonneg, h.count, h.asked, h.noim⟩
    · exact h

theorem balanced_start : Balanced 0 Camera.start := by
  refine ⟨Int.le_refl 0, rfl, nofun, nofun⟩

/-- **No request is lost or started twice** in a run of events that keep the requests in
order: each is started once or counted still, until it is cleared. -/
theorem requests_accounted (d : Driver) (events : List Event)
    (h : Along (step d) (Keeps d) Camera.start events) :
    Accounted (run (step d) Camera.start events) := by
  have hbalanced : Balanced 0 (run (step d) Camera.start events) :=
    h.invariant balanced_start fun _ _ hb hs => hb.step hs
  exact hbalanced.accounted

/-- A camera without frame transfer that starts every exposure. -/
def ccd : Driver := ⟨false, fun _ => 0⟩

theorem requests_accounted_night : Accounted (run (step ccd) Camera.start
    [.change ⟨0#32, some 0, false⟩, .expose 1 true, .filterMoveEnd 0, .expose 2 true, .expose 3 true,
      .exposing (-2) true, .reading (-2), .bop bopExposure, .exposing (-2) true]) :=
  requests_accounted ccd _ (by decide +kernel)

/-- A request that comes while one waits for the filter wheel takes its place. -/
theorem request_lost : ¬Accounted (run (step ccd) Camera.start
    [.change ⟨0#32, some 0, false⟩, .expose 1 true, .expose 2 true]) := by
  intro h
  have hcount : (2 : Int) = 1 := h.2.1
  omega

end Rts2.Camd
