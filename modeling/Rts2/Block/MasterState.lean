import Rts2.Lib.Run
import Rts2.Status

/-! # The master state of a block

A device or a client keeps one `masterState`, set by the status lines of every
central daemon it is connected to. One of these connections may be named the
master; `Block::setMasterState` decides what the others are allowed to change. -/
namespace Rts2.MasterState
open Rts2.Lib

/-- A `Connection *`. -/
abbrev ConnId := Nat

/-- The part of `Block` that holds the master state. -/
structure Block where
  masterState : Status
  stateMasterConn : Option ConnId
  deriving DecidableEq, Repr

/-- A block as its constructor leaves it, `setMasterConn (master)` called. -/
def Block.start (master : ConnId) : Block where
  masterState := Status.serverdHardOff
  stateMasterConn := some master

/-- What `setMasterState` calls once the state is settled. -/
inductive Effect where
  | logIgnoringStateChange
  | changeMasterState (oldState newState : Status)
  | bopStateChanged
  deriving DecidableEq, Repr

/-- The calls that follow a change of the master state. -/
def changeEffects (oldState newState : Status) : List Effect :=
  (if oldState &&& ~~~Status.bopMask ≠ newState &&& ~~~Status.bopMask then
    [.changeMasterState oldState newState] else []) ++
  (if oldState &&& Status.bopMask ≠ newState &&& Status.bopMask then
    [.bopStateChanged] else [])

/-- `Block::setMasterState`. -/
def setMasterState (b : Block) (conn : ConnId) (newState : Status) : Block × List Effect :=
  let oldState := b.masterState
  let set : Block × List Effect :=
    ({ b with masterState := newState }, changeEffects oldState newState)
  if b.stateMasterConn ≠ none ∧ b.stateMasterConn ≠ some conn then
    -- ignore connections from wrong master
    if newState.onoff ≠ Status.serverdHardOff ∧
        newState &&& Status.weatherMask ≠ Status.badWeather ∧
        newState.onoff ≠ Status.serverdStandby then
      (b, if oldState &&& ~~~Status.bopMask ≠ newState &&& ~~~Status.bopMask then
        [.logIgnoringStateChange] else [])
    -- a non-master server asks for standby while we are in hard off
    else if b.masterState.onoff = Status.serverdHardOff ∧
        newState.onoff = Status.serverdStandby then
      (b, [])
    else set
  else set

/-- A line of a central daemon that carries its state; the values are the
`long long` read from the line. -/
inductive StatusLine where
  | status (value : Int)
  | statusProgress (value : Int)
  | bopStatus (masterStatus masterBopState : Int)
  deriving DecidableEq, Repr

/-- The state handed to `setState`, cut to `rts2_status_t`. -/
def StatusLine.state : StatusLine → Status
  | .status value => BitVec.ofInt 32 value
  | .statusProgress value => BitVec.ofInt 32 value
  | .bopStatus masterStatus _ => BitVec.ofInt 32 masterStatus

/-- A status line arrives on a connection: `DevConnectionMaster::setState`
passes its state on to `setMasterState`. -/
def receive (b : Block) (message : ConnId × StatusLine) : Block :=
  (setMasterState b message.1 message.2.state).1

/-! ## Safety of a state -/

/-- The state reports bad weather. -/
def Bad (s : Status) : Prop := s &&& Status.weatherMask = Status.badWeather

/-- The state asks everything to stop. -/
def Stop (s : Status) : Prop := s &&& Status.stopMask = Status.stopEverything

instance (s : Status) : Decidable (Bad s) := inferInstanceAs (Decidable (_ = _))
instance (s : Status) : Decidable (Stop s) := inferInstanceAs (Decidable (_ = _))

/-- The new state keeps bad weather, keeps a stop, and is no closer to ON. -/
structure AtLeastAsSafe (old new : Status) : Prop where
  weather : Bad old → Bad new
  stop : Stop old → Stop new
  onoff : old.onoff ≤ new.onoff

theorem atLeastAsSafe_iff (old new : Status) :
    AtLeastAsSafe old new ↔
      (Bad old → Bad new) ∧ (Stop old → Stop new) ∧ old.onoff ≤ new.onoff :=
  ⟨fun h => ⟨h.weather, h.stop, h.onoff⟩, fun h => ⟨h.1, h.2.1, h.2.2⟩⟩

instance (old new : Status) : Decidable (AtLeastAsSafe old new) :=
  decidable_of_iff _ (atLeastAsSafe_iff old new).symm

theorem AtLeastAsSafe.refl (s : Status) : AtLeastAsSafe s s :=
  ⟨id, id, Nat.le_refl _⟩

/-- A message of a server that is not the master leaves the block at least as
safe as it was. -/
def KeepsSafe (b : Block) (message : ConnId × StatusLine) : Prop :=
  b.stateMasterConn ≠ some message.1 →
    AtLeastAsSafe b.masterState (receive b message).masterState

instance (b : Block) (message : ConnId × StatusLine) : Decidable (KeepsSafe b message) :=
  inferInstanceAs (Decidable (_ → _))

/-! ## What the gate lets through -/

/-- The state a non-master server has to send: what each value of its on/off
part can smuggle past the gate is excluded. -/
def CarriesSafety (old new : Status) : Prop :=
  if new.onoff = Status.serverdHardOff then
    (Bad old → Bad new) ∧ (Stop old → Stop new)
  else if new.onoff = Status.serverdStandby then
    old.onoff = Status.serverdHardOff ∨
      (old.onoff ≠ Status.serverdSoftOff ∧ (Bad old → Bad new) ∧ (Stop old → Stop new))
  else if Bad new then
    (Stop old → Stop new) ∧
      (if new.onoff = Status.serverdSoftOff then old.onoff ≠ Status.serverdHardOff
        else old.onoff = Status.serverdOn)
  else True

/-- The condition on one message, in the state it arrives in. -/
def SafeMessage (b : Block) (message : ConnId × StatusLine) : Prop :=
  b.stateMasterConn ≠ some message.1 → CarriesSafety b.masterState message.2.state

@[simp] theorem setMasterState_stateMasterConn (b : Block) (conn : ConnId) (newState : Status) :
    (setMasterState b conn newState).1.stateMasterConn = b.stateMasterConn := by
  simp only [setMasterState]
  split_ifs <;> rfl

/-! The on/off values are ordered ON, STANDBY, SOFT_OFF, HARD_OFF. -/

theorem onoff_le_hardOff (s : Status) : s.onoff ≤ Status.serverdHardOff := by
  rcases s.onoff_cases with h | h | h | h <;> rw [h] <;> decide

theorem onoff_le_softOff_iff (s : Status) :
    s.onoff ≤ Status.serverdSoftOff ↔ s.onoff ≠ Status.serverdHardOff := by
  rcases s.onoff_cases with h | h | h | h <;> rw [h] <;> decide

theorem onoff_le_standby_iff (s : Status) :
    s.onoff ≤ Status.serverdStandby ↔
      s.onoff ≠ Status.serverdHardOff ∧ s.onoff ≠ Status.serverdSoftOff := by
  rcases s.onoff_cases with h | h | h | h <;> rw [h] <;> decide

theorem onoff_le_on_iff (s : Status) :
    s.onoff ≤ Status.serverdOn ↔ s.onoff = Status.serverdOn := by
  rcases s.onoff_cases with h | h | h | h <;> rw [h] <;> decide

/-- The state after a message of a server that is not the master. -/
theorem setMasterState_nonMaster {b : Block} {conn m : ConnId} (newState : Status)
    (hm : b.stateMasterConn = some m) (hne : m ≠ conn) :
    (setMasterState b conn newState).1.masterState =
      if newState.onoff = Status.serverdHardOff then newState
      else if newState.onoff = Status.serverdStandby then
        if b.masterState.onoff = Status.serverdHardOff then b.masterState else newState
      else if Bad newState then newState
      else b.masterState := by
  have hgate : b.stateMasterConn ≠ none ∧ b.stateMasterConn ≠ some conn := by simp [hm, hne]
  have hdiff : Status.serverdStandby ≠ Status.serverdHardOff := by decide
  simp only [setMasterState, if_pos hgate, Bad]
  by_cases hhard : newState.onoff = Status.serverdHardOff
  · simp [hhard, hdiff.symm]
  · by_cases hstandby : newState.onoff = Status.serverdStandby
    · simp only [hstandby, hdiff]
      split_ifs <;> simp_all
    · by_cases hbad : newState &&& Status.weatherMask = Status.badWeather
      · simp [hhard, hstandby, hbad]
      · simp [hhard, hstandby, hbad]

/-- The gate keeps the block safe exactly when the message carries what the
master state holds. -/
theorem atLeastAsSafe_nonMaster_iff {b : Block} {conn m : ConnId} (newState : Status)
    (hm : b.stateMasterConn = some m) (hne : m ≠ conn) :
    AtLeastAsSafe b.masterState (setMasterState b conn newState).1.masterState ↔
      CarriesSafety b.masterState newState := by
  rw [setMasterState_nonMaster newState hm hne, CarriesSafety]
  by_cases hhard : newState.onoff = Status.serverdHardOff
  · simp [hhard, atLeastAsSafe_iff, onoff_le_hardOff]
  simp only [hhard, if_false]
  by_cases hstandby : newState.onoff = Status.serverdStandby
  · by_cases hold : b.masterState.onoff = Status.serverdHardOff
    · simp [hstandby, hold, AtLeastAsSafe.refl]
    · simp only [hstandby, hold, if_true, if_false, false_or, atLeastAsSafe_iff,
        onoff_le_standby_iff, ne_eq, not_false_eq_true, true_and]
      exact ⟨fun ⟨hw, hs, hle⟩ => ⟨hle, hw, hs⟩, fun ⟨hle, hw, hs⟩ => ⟨hw, hs, hle⟩⟩
  simp only [hstandby, if_false]
  by_cases hbad : Bad newState
  · simp only [hbad, if_true, atLeastAsSafe_iff, implies_true, true_and]
    refine and_congr_right fun _ => ?_
    -- what is left of the on/off part is ON or SOFT_OFF
    rcases newState.onoff_cases with h | h | h | h
    · have hsoft : Status.serverdOn ≠ Status.serverdSoftOff := by decide
      simp [h, hsoft, onoff_le_on_iff]
    · exact absurd h hstandby
    · simp [h, onoff_le_softOff_iff]
    · exact absurd h hhard
  · simp [hbad, AtLeastAsSafe.refl]

/-! ## Runs -/

/-- The master of a run stays the one it started with. -/
theorem receive_stateMasterConn {b : Block} {m : ConnId} (message : ConnId × StatusLine)
    (hm : b.stateMasterConn = some m) : (receive b message).stateMasterConn = some m := by
  rw [receive, setMasterState_stateMasterConn, hm]

/-- **A non-master server makes the master state less safe exactly when the gate
lets in a state that does not carry the safety the block holds.** -/
theorem nonMaster_keepsSafe_iff (master : ConnId) (messages : List (ConnId × StatusLine)) :
    Along receive KeepsSafe (Block.start master) messages ↔
      Along receive SafeMessage (Block.start master) messages := by
  have hstep : ∀ (b : Block) message, b.stateMasterConn = some master →
      (KeepsSafe b message ↔ SafeMessage b message) := by
    intro b message hm
    refine imp_congr_right fun hne => ?_
    have hne' : master ≠ message.1 := fun h => hne (h ▸ hm)
    exact atLeastAsSafe_nonMaster_iff message.2.state hm hne'
  constructor
  · intro h
    exact h.strengthen (I := fun b => b.stateMasterConn = some master) rfl
      (fun b message hm _ => receive_stateMasterConn message hm)
      (fun b message hm hsafe => (hstep b message hm).1 hsafe)
  · intro h
    exact h.strengthen (I := fun b => b.stateMasterConn = some master) rfl
      (fun b message hm _ => receive_stateMasterConn message hm)
      (fun b message hm hsafe => (hstep b message hm).2 hsafe)

/-- A fresh block is in HARD_OFF; a second server reporting bad weather with the
on/off part at ON switches it on. -/
theorem nonMaster_badWeather_switchesOn :
    ¬ Along receive KeepsSafe (Block.start 0) [(1, .status 0x80000000)] := by
  decide

end Rts2.MasterState
