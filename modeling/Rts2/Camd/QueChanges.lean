import Rts2.Camd.Exposure

/-! # How deep a change of the state goes

`checkQueChanges` and `setFullBopState` call each other through `setState`. A turn needs
a change that leaves the queue, so that the fuel of `checkQueChanges` is never used up:
it is the body of the source with `setFullBopState` in it. What the body keeps, the
whole recursion keeps. -/
namespace Rts2.Camd
open Rts2.Lib Status

variable {d : Driver} {P : Camera → Prop} {chk chk' : Camera → Status → Camera}
  {bop bop' : Camera → Status → Camera} {n : Nat}

/-! ## Bits of a state -/

section Bits
variable (s m new : Status)

theorem has_twoPow (i : Nat) : s.has (BitVec.twoPow 32 i) = s.getLsbD i := by
  by_cases hi : i < 32
  · have hne : BitVec.twoPow 32 i ≠ 0#32 := fun h => by
      have hbit := congrArg (·.getLsbD i) h
      simp [hi] at hbit
    cases hs : s.getLsbD i <;> simp [Status.has, BitVec.and_twoPow, hs, hne]
  · simp [Status.has, BitVec.and_twoPow, Nat.le_of_not_lt hi]

theorem has_or (a b : Status) : s.has (a ||| b) = (s.has a || s.has b) := by
  simp only [Status.has, BitVec.and_or_distrib_left, ne_eq, BitVec.or_eq_zero_iff]
  by_cases ha : s &&& a = 0#32 <;> by_cases hb : s &&& b = 0#32 <;> simp [ha, hb]

/-- A bit that is no error outlasts a change that does not mask it. -/
theorem has_maskedState {b : Status} (i : Nat) (hb : b = BitVec.twoPow 32 i)
    (he : deviceErrorMask.has b = false) :
    (maskedState s m new).has b = (s.has b && !m.has b || new.has b) := by
  subst hb
  rw [has_twoPow] at he
  simp only [has_twoPow, maskedState, BitVec.getLsbD_or, BitVec.getLsbD_and, BitVec.getLsbD_not,
    he, Bool.false_or]
  by_cases hi : i < 32
  · simp [hi]
  · simp [Nat.le_of_not_lt hi]

@[simp] theorem exposing_maskedState : (maskedState s m new).has camExposing =
    (s.has camExposing && !m.has camExposing || new.has camExposing) :=
  has_maskedState s m new 0 (by decide) (by decide)

@[simp] theorem exposingNoim_maskedState : (maskedState s m new).has camExposingNoim =
    (s.has camExposingNoim && !m.has camExposingNoim || new.has camExposingNoim) :=
  has_maskedState s m new 4 (by decide) (by decide)

@[simp] theorem reading_maskedState : (maskedState s m new).has camReading =
    (s.has camReading && !m.has camReading || new.has camReading) :=
  has_maskedState s m new 1 (by decide) (by decide)

theorem has_and {b : Status} (i : Nat) (hb : b = BitVec.twoPow 32 i) :
    (s &&& m).has b = (s.has b && m.has b) := by
  subst hb
  simp only [has_twoPow, BitVec.getLsbD_and]

@[simp] theorem exposing_and : (s &&& m).has camExposing = (s.has camExposing && m.has camExposing) :=
  has_and s m 0 (by decide)

@[simp] theorem exposingNoim_and :
    (s &&& m).has camExposingNoim = (s.has camExposingNoim && m.has camExposingNoim) :=
  has_and s m 4 (by decide)

@[simp] theorem reading_and : (s &&& m).has camReading = (s.has camReading && m.has camReading) :=
  has_and s m 1 (by decide)

end Bits

@[simp] theorem Camera.exposing_getStateChip (s : Camera) :
    s.getStateChip.has camExposing = s.state.has camExposing := by
  simp [Camera.getStateChip, show camMaskChip.has camExposing = true from rfl]

@[simp] theorem Camera.exposingNoim_getStateChip (s : Camera) :
    s.getStateChip.has camExposingNoim = s.state.has camExposingNoim := by
  simp [Camera.getStateChip, show camMaskChip.has camExposingNoim = true from rfl]

@[simp] theorem Camera.reading_getStateChip (s : Camera) :
    s.getStateChip.has camReading = s.state.has camReading := by
  simp [Camera.getStateChip, show camMaskChip.has camReading = true from rfl]

/-! ## A release -/

/-- A release takes changes from the queue, and lets wheels and the focuser move. -/
theorem Camera.release_eq (s : Camera) (f : Status) :
    ∃ moving focuserMoving, s.release f =
      { s with
        queValues := s.queValues.filter (·.queValueChange f)
        moving := moving
        focuserMoving := focuserMoving } := by
  have carry : ∀ (cs : List Change) (s : Camera), ∃ moving focuserMoving,
      cs.foldl (fun s c => c.carryOut s) s =
        { s with moving := moving, focuserMoving := focuserMoving } := by
    intro cs
    induction cs with
    | nil => exact fun s => ⟨s.moving, s.focuserMoving, rfl⟩
    | cons c cs ih => exact fun s => ih (c.carryOut s)
  exact carry _ _

/-- A change that leaves the queue makes it shorter. -/
theorem Camera.release_length {s : Camera} {f : Status}
    (h : s.queValues.any fun c => !c.queValueChange f) :
    (s.release f).queValues.length < s.queValues.length := by
  obtain ⟨moving, focuserMoving, he⟩ := s.release_eq f
  rw [he]
  obtain ⟨c, hc, hf⟩ := List.any_eq_true.mp h
  exact List.length_filter_lt_length_iff_exists.mpr ⟨c, hc, by simpa using hf⟩

theorem Camera.release_length_le (s : Camera) (f : Status) :
    (s.release f).queValues.length ≤ s.queValues.length := by
  obtain ⟨moving, focuserMoving, he⟩ := s.release_eq f
  rw [he]
  exact List.length_filter_le ..

/-! ## What the body keeps -/

theorem Camera.setStateWith_keeps {s : Camera} {newState : Status}
    (hchk : ∀ s f, P s → P (chk s f)) (h : P { s with state := newState }) :
    P (s.setStateWith chk newState) := by
  unfold Camera.setStateWith
  split
  case isTrue he => subst he; exact h
  case isFalse => exact hchk _ _ h

theorem Camera.maskStateWith_keeps {s : Camera} {mask newState : Status}
    (hchk : ∀ s f, P s → P (chk s f))
    (h : P { s with state := maskedState s.state mask newState }) :
    P (s.maskStateWith chk mask newState) :=
  s.setStateWith_keeps hchk h

theorem Camera.checkQueChangesWith_keeps {s : Camera} {f : Status}
    (hrelease : ∀ s f, P s → P (s.release f))
    (hempty : ∀ s, P s → P s.endWaitingForEmptyQue)
    (hbop : ∀ s f, P s → P (bop s f)) (h : P s) : P (s.checkQueChangesWith bop f) := by
  unfold Camera.checkQueChangesWith
  split
  case isTrue => exact h
  case isFalse =>
    have hr := hrelease s (f ||| (s.fullBopState &&& bopTrigExpose)) h
    apply hempty
    split
    · exact hbop _ _ hr
    · exact hr

/-- What a release, the end of the wait and `setFullBopState` keep, `checkQueChanges`
keeps. -/
theorem checkQueChangesFuel_keeps (hrelease : ∀ s f, P s → P (s.release f))
    (hempty : ∀ s, P s → P s.endWaitingForEmptyQue)
    (hbop : ∀ chk, (∀ s f, P s → P (chk s f)) →
      ∀ s f, P s → P (s.setFullBopStateWith d chk f)) (n : Nat) :
    ∀ s f, P s → P (checkQueChangesFuel d n s f) := by
  induction n with
  | zero => exact fun _ _ h => h
  | succ n ih => exact fun s f h => s.checkQueChangesWith_keeps hrelease hempty (hbop _ ih) h

theorem Camera.checkQueChanges_keeps (hrelease : ∀ s f, P s → P (s.release f))
    (hempty : ∀ s, P s → P s.endWaitingForEmptyQue)
    (hbop : ∀ chk, (∀ s f, P s → P (chk s f)) →
      ∀ s f, P s → P (s.setFullBopStateWith d chk f)) :
    ∀ s f, P s → P (s.checkQueChanges d f) :=
  fun s f h => checkQueChangesFuel_keeps hrelease hempty hbop (s.queValues.length + 1) s f h

/-! ## The queue does not grow -/

section Length

theorem Camera.endWaitingForEmptyQue_queValues (s : Camera) :
    s.endWaitingForEmptyQue.queValues = s.queValues := by
  unfold Camera.endWaitingForEmptyQue
  dsimp only
  split
  · split <;> rfl
  · rfl

variable (hchk : ∀ s f, s.queValues.length ≤ n → (chk s f).queValues.length ≤ n)
include hchk

theorem Camera.maskStateWith_length {s : Camera} {mask newState : Status}
    (h : s.queValues.length ≤ n) : (s.maskStateWith chk mask newState).queValues.length ≤ n :=
  s.maskStateWith_keeps (P := fun s => s.queValues.length ≤ n) hchk h

theorem Camera.camStartExposureWithoutCheckWith_length {s : Camera}
    (h : s.queValues.length ≤ n) :
    (s.camStartExposureWithoutCheckWith d chk).2.queValues.length ≤ n := by
  have hmask : (s.incExposureNumber.maskStateWith chk bopTelMove bopTelMove).queValues.length ≤ n :=
    Camera.maskStateWith_length hchk h
  unfold Camera.camStartExposureWithoutCheckWith
  dsimp only
  split <;> exact Camera.maskStateWith_length hchk hmask

theorem Camera.setFullBopStateWith_length {s : Camera} {newState : Status}
    (h : s.queValues.length ≤ n) :
    (s.setFullBopStateWith d chk newState).queValues.length ≤ n := by
  unfold Camera.setFullBopStateWith
  dsimp only
  split
  case isFalse => exact h
  case isTrue =>
    split
    · exact Camera.maskStateWith_length hchk h
    · split
      · exact h
      · exact Camera.camStartExposureWithoutCheckWith_length hchk h

end Length

theorem checkQueChangesFuel_length (m : Nat) (s : Camera) (f : Status)
    (h : s.queValues.length ≤ n) : (checkQueChangesFuel d m s f).queValues.length ≤ n :=
  checkQueChangesFuel_keeps (P := fun s => s.queValues.length ≤ n)
    (fun s f h => (s.release_length_le f).trans h)
    (fun s h => by rwa [s.endWaitingForEmptyQue_queValues])
    (fun _ hchk _ _ h => Camera.setFullBopStateWith_length hchk h) m s f h

/-! ## The fuel -/

section Congr
variable (hchk : ∀ s f, s.queValues.length ≤ n → (chk s f).queValues.length ≤ n)
  (heq : ∀ s f, s.queValues.length ≤ n → chk s f = chk' s f)
include heq

theorem Camera.maskStateWith_congr {s : Camera} {mask newState : Status}
    (h : s.queValues.length ≤ n) :
    s.maskStateWith chk mask newState = s.maskStateWith chk' mask newState := by
  unfold Camera.maskStateWith Camera.setStateWith
  split
  · rfl
  · exact heq _ _ h

include hchk

theorem Camera.camStartExposureWithoutCheckWith_congr {s : Camera}
    (h : s.queValues.length ≤ n) :
    s.camStartExposureWithoutCheckWith d chk = s.camStartExposureWithoutCheckWith d chk' := by
  have hmask : ((s.incExposureNumber.maskStateWith chk bopTelMove bopTelMove).exposed
      s.requests.head?).queValues.length ≤ n := Camera.maskStateWith_length hchk h
  have hstart : s.incExposureNumber.maskStateWith chk bopTelMove bopTelMove =
      s.incExposureNumber.maskStateWith chk' bopTelMove bopTelMove :=
    Camera.maskStateWith_congr heq h
  unfold Camera.camStartExposureWithoutCheckWith
  dsimp only
  rw [← hstart]
  split <;> rw [Camera.maskStateWith_congr heq hmask]

theorem Camera.setFullBopStateWith_congr {s : Camera} {newState : Status}
    (h : s.queValues.length ≤ n) :
    s.setFullBopStateWith d chk newState = s.setFullBopStateWith d chk' newState := by
  unfold Camera.setFullBopStateWith
  dsimp only
  split
  case isFalse => rfl
  case isTrue =>
    split
    · exact Camera.maskStateWith_congr heq h
    · split
      · rfl
      · exact congrArg Prod.snd (Camera.camStartExposureWithoutCheckWith_congr hchk heq h)

end Congr

/-- The body calls `setFullBopState` on a shorter queue. -/
theorem Camera.checkQueChangesWith_congr {s : Camera} {f : Status}
    (heq : ∀ s' f, s'.queValues.length < s.queValues.length → bop s' f = bop' s' f) :
    s.checkQueChangesWith bop f = s.checkQueChangesWith bop' f := by
  unfold Camera.checkQueChangesWith
  split
  case isTrue => rfl
  case isFalse =>
    dsimp only
    cases hc : s.queValues.any fun c =>
        !c.queValueChange (f ||| (s.fullBopState &&& bopTrigExpose)) with
    | false => rfl
    | true => rw [if_pos rfl, if_pos rfl, heq _ _ (Camera.release_length hc)]

/-- The queue bounds the depth: more fuel does not change what happens. -/
theorem checkQueChangesFuel_enough (n m : Nat) : ∀ (s : Camera) (f : Status),
    s.queValues.length < n → s.queValues.length < m →
      checkQueChangesFuel d n s f = checkQueChangesFuel d m s f := by
  induction n generalizing m with
  | zero => intro s f hn; omega
  | succ n ih =>
    intro s f hn hm
    obtain ⟨m, rfl⟩ : ∃ k, m = k + 1 := ⟨m - 1, by omega⟩
    refine Camera.checkQueChangesWith_congr fun s' f' hs' => ?_
    exact Camera.setFullBopStateWith_congr (checkQueChangesFuel_length n)
      (fun t g ht => ih m t g (by omega) (by omega)) (Nat.le_refl _)

/-- **`checkQueChanges` is its body**, with the `setFullBopState` that calls it. -/
theorem Camera.checkQueChanges_eq (s : Camera) (f : Status) :
    s.checkQueChanges d f = s.checkQueChangesWith (Camera.setFullBopState d) f := by
  refine Camera.checkQueChangesWith_congr fun s' f' hs' => ?_
  refine Camera.setFullBopStateWith_congr (checkQueChangesFuel_length _)
    (fun t g ht => ?_) (Nat.le_refl _)
  exact checkQueChangesFuel_enough _ _ t g (by omega) (Nat.lt_succ_self _)

end Rts2.Camd
