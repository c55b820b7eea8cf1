import Mathlib.Data.BitVec

/-! # Status words

Every device, client and central daemon describes itself by one `uint32_t`, cut
into fields by masks. The constants are those of `status.h` and `command.h`. -/
namespace Rts2

/-- `rts2_status_t`. -/
abbrev Status := BitVec 32

instance : LawfulBEq Status := inferInstance

namespace Status

/-! ## Fields -/

def deviceErrorMask : Status := 0x000f0000#32
def deviceErrorKill : Status := 0x00010000#32
def deviceErrorHw : Status := 0x00020000#32
def deviceNotReady : Status := 0x00040000#32

def deviceBlockClose : Status := 0x00002000#32
def deviceBlockOpen : Status := 0x00004000#32

def bopMask : Status := 0x3f000000#32
def bopExposure : Status := 0x01000000#32
def bopReadout : Status := 0x02000000#32
def bopTelMove : Status := 0x04000000#32
def bopWillExpose : Status := 0x08000000#32
def bopTrigExpose : Status := 0x10000000#32

def stopMask : Status := 0x40000000#32
def canMove : Status := 0#32
def stopEverything : Status := 0x40000000#32

def weatherMask : Status := 0x80000000#32
def goodWeather : Status := 0#32
def badWeather : Status := 0x80000000#32

def serverdStatusMask : Status := 0x00f#32
def serverdDay : Status := 0#32
def serverdEvening : Status := 0x001#32
def serverdDusk : Status := 0x002#32
def serverdNight : Status := 0x003#32
def serverdDawn : Status := 0x004#32
def serverdMorning : Status := 0x005#32

def serverdOnoffMask : Status := 0x030#32
def serverdOn : Status := 0#32
def serverdStandby : Status := 0x010#32
def serverdSoftOff : Status := 0x020#32
def serverdHardOff : Status := 0x030#32

def deviceStatusMask : Status := 0x00000fff#32
def deviceIdle : Status := 0#32

def telMaskMoving : Status := 0x007#32
def telObserving : Status := 0#32
def telMoving : Status := 0x001#32
def telParked : Status := 0x002#32
def telParking : Status := 0x004#32
def telMaskTrack : Status := 0x020#32
def telNotrack : Status := 0#32
def telTracking : Status := 0x020#32
def telMaskCorrecting : Status := 0x040#32
def telNotCorrecting : Status := 0#32
def telCorrecting : Status := 0x040#32
def telMaskNeedStop : Status := 0x080#32
def telMaskOffseting : Status := 0x200#32
def telNoOffseting : Status := 0#32
def telOffseting : Status := 0x200#32
def telMaskUnstable : Status := 0x400#32
def telStable : Status := 0#32

def focMaskFocusing : Status := 0x001#32
def focSleeping : Status := 0#32
def focFocusing : Status := 0x001#32

/-- The on/off part of a central state. -/
def onoff (s : Status) : Status := s &&& serverdOnoffMask

/-! ## Reading a field -/

/-- The on/off part holds the two bits its mask names. -/
theorem onoff_eq (s : Status) :
    s.onoff = (if s.getLsbD 4 then 0x010#32 else 0#32) |||
      (if s.getLsbD 5 then 0x020#32 else 0#32) := by
  have hmask : serverdOnoffMask = BitVec.twoPow 32 4 ||| BitVec.twoPow 32 5 := by decide
  rw [onoff, hmask, BitVec.and_or_distrib_left, BitVec.and_twoPow, BitVec.and_twoPow]
  rfl

/-- The on/off part is one of the four values `status.h` names. -/
theorem onoff_cases (s : Status) :
    s.onoff = serverdOn ∨ s.onoff = serverdStandby ∨
      s.onoff = serverdSoftOff ∨ s.onoff = serverdHardOff := by
  rw [onoff_eq]
  cases s.getLsbD 4 <;> cases s.getLsbD 5 <;> decide

end Status
end Rts2
