import Rts2.Status
import Rts2.Values.MinMax

/-! # Focusers

The target of a focuser is the sum of its default position, three offsets and
what the driver adds for temperature. Its values are `double`s, the sums are
`float`s. -/
namespace Rts2.Focus
open Rts2.Connection Rts2.Values
open Rts2.Status

variable {K : Type} [Field K] [LinearOrder K] [IsStrictOrderedRing K] [LnRangeDegrees K]

/-- What a focuser takes from the C library and from its driver: `single` is the conversion
to `float`, `round` the nearest number, and `tcOffset` is constant. -/
structure Driver (K : Type) [Zero K] where
  readDouble : ReadDouble K
  single : K → K
  round : K → Int
  tcOffset : K
  single_single : ∀ x, single (single x) = single x
  single_zero : single 0 = 0

/-- A `ValueDoubleMinMax` of a focuser. -/
abbrev DoubleMinMax (d : Driver K) : Type := MinMax (doubleNumbers false d.readDouble)

/-- The writable values with limits. -/
inductive FocusValue where
  | target
  | defaultPosition
  | filterOffset
  | focusingOffset
  | tempOffset
  deriving DecidableEq

/-- The values of the linear fit to temperature, with the state of the masters. -/
structure LinearFit (K : Type) where
  linearOffset : Bool
  slope : Option K
  intercept : Option K
  temperature : Option K
  temperatureNightOnly : Bool
  masterState : Status

/-- `moves` holds what `setTo` was called with. -/
structure Focusd (d : Driver K) where
  position : Option K
  target : DoubleMinMax d
  defaultPosition : DoubleMinMax d
  filterOffset : DoubleMinMax d
  focusingOffset : DoubleMinMax d
  tempOffset : DoubleMinMax d
  state : Status
  moves : List (Option K)

namespace Focusd
variable {d : Driver K} (s : Focusd d)

/-! ## Values -/

def get : FocusValue → DoubleMinMax d
  | .target => s.target
  | .defaultPosition => s.defaultPosition
  | .filterOffset => s.filterOffset
  | .focusingOffset => s.focusingOffset
  | .tempOffset => s.tempOffset

def put (w : FocusValue) (v : DoubleMinMax d) : Focusd d :=
  match w with
  | .target => { s with target := v }
  | .defaultPosition => { s with defaultPosition := v }
  | .filterOffset => { s with filterOffset := v }
  | .focusingOffset => { s with focusingOffset := v }
  | .tempOffset => { s with tempOffset := v }

/-- `getValueFloat` of a value that holds `x`. -/
def getValueFloat (d : Driver K) (x : Option K) : Option K := x.map d.single

/-- A sum of two `float`s. -/
def plusFloat (d : Driver K) (x y : Option K) : Option K := do return d.single ((← x) + (← y))

/-- The position that the default position and the offsets make. -/
def sum (d : Driver K) (defaultPosition filterOffset focusingOffset tempOffset : DoubleMinMax d)
    (tco : K) : Option K :=
  plusFloat d (plusFloat d (plusFloat d (plusFloat d (getValueFloat d defaultPosition.value)
    (getValueFloat d filterOffset.value)) (getValueFloat d focusingOffset.value))
    (getValueFloat d tempOffset.value)) (some tco)

/-! ## Movements -/

/-- `Daemon::maskState`; errors do not outlast a change of the state. -/
def maskState (mask newState : Status) : Focusd d :=
  { s with state := (s.state &&& ~~~(deviceErrorMask ||| mask)) ||| newState }

/-- The limits that `updateOffsetsExtent` gives an offset. -/
def offsetExtent (offset : DoubleMinMax d) : DoubleMinMax d :=
  { offset with
    min := do
      return (← s.target.min) - (← getValueFloat d s.target.value) +
        (← getValueFloat d offset.value)
    max := do
      return (← s.target.max) - (← getValueFloat d s.target.value) +
        (← getValueFloat d offset.value) }

/-- `Focusd::updateOffsetsExtent`. -/
def updateOffsetsExtent : Focusd d :=
  { s with
    filterOffset := s.offsetExtent s.filterOffset
    focusingOffset := s.offsetExtent s.focusingOffset
    tempOffset := s.offsetExtent s.tempOffset }

/-- `Focusd::setFocusExtent`. -/
def setFocusExtent (foc_min foc_max : Option K) : Focusd d :=
  updateOffsetsExtent { s with
    target := { s.target with min := foc_min, max := foc_max }
    defaultPosition := { s.defaultPosition with min := foc_min, max := foc_max } }

/-- The target takes the position, and the focuser starts. -/
def start (num : Option K) : Focusd d :=
  ({ s with target := s.target.setNumber num } : Focusd d).maskState
    (focMaskFocusing ||| bopExposure) (focFocusing ||| bopExposure)

/-- The change is not possible. -/
def failed : Focusd d :=
  s.maskState (focMaskFocusing ||| bopExposure ||| deviceErrorHw) deviceErrorHw

def setTo (num : Option K) : Focusd d := { s with moves := s.moves ++ [num] }

/-- `Focusd::setPosition`, when the driver's `setTo` returns `ret`. -/
def setPosition (num : Option K) (ret : Int) : Int × Focusd d :=
  if (s.start num).target.passes num then
    if ret ≠ 0 then (ret, ((s.start num).setTo num).failed)
    else (0, ((s.start num).setTo num).updateOffsetsExtent)
  else (-1, (s.start num).failed)

/-- Where `Focusd::setValue` goes for a new value. -/
def requested (w : FocusValue) (new : DoubleMinMax d) : Option K :=
  match w with
  | .target => getValueFloat d new.value
  | w =>
    let s := s.put w new
    sum d s.defaultPosition s.filterOffset s.focusingOffset s.tempOffset (d.single d.tcOffset)

/-- `Focusd::setValue`. -/
def setValue (w : FocusValue) (new : DoubleMinMax d) (ret : Int) : Int × Focusd d :=
  let r := s.setPosition (s.requested w new) ret
  (if r.1 ≠ 0 then -2 else 0, r.2)

/-- `Focusd::setValue` of the position, when the driver's `writePosition` returns `ret`. -/
def setPositionValue (new : Option K) (ret : Int) : Int × Focusd d :=
  if ret ≠ 0 then (-2, s)
  else (0, { s with
    position := new
    target := s.target.setNumber new
    defaultPosition := s.defaultPosition.setNumber new })

/-! ## Requests -/

/-- `Daemon::doSetValue`. -/
def doSetValue (w : FocusValue) (op : Char) (new : DoubleMinMax d) (ret : Int) :
    Int × Focusd d :=
  match new.doOpValue op (s.get w) with
  | none => (-2, s)
  | some new =>
    let r := s.setValue w new ret
    if r.1 < 0 then r
    else if (r.2.get w).isEqual new then (0, r.2)
    else (0, r.2.put w ((r.2.get w).setFromValue new))

/-- `Daemon::setCondValue`; no state of a focuser puts a change off. -/
def setCondValue (w : FocusValue) (op : Char) (new : DoubleMinMax d) (ret : Int) :
    Int × Focusd d :=
  if op = '=' ∧ (s.get w).isEqual new then (0, s) else s.doSetValue w op new ret

/-- `Daemon::setValue` of an `X` line. -/
def request (w : FocusValue) (op : Char) (text : List Byte) (ret : Int) : Int × Focusd d :=
  match (s.get w).setValue text with
  | none => (-2, s)
  | some new => s.setCondValue w op new ret

/-- Where `Focusd::scriptEnds` goes, after the temporary offset was cleared. -/
def scriptPosition : Option K :=
  sum d s.defaultPosition s.filterOffset s.focusingOffset s.tempOffset d.tcOffset

def clearTempOffset : Focusd d := { s with tempOffset := s.tempOffset.setNumber (some 0) }

/-- `Focusd::scriptEnds`, and what its `setPosition` returns. -/
def scriptEnds (ret : Int) : Int × Focusd d :=
  s.clearTempOffset.setPosition s.clearTempOffset.scriptPosition ret

/-! ## Idle -/

/-- The position of the linear fit. -/
def linearPosition (d : Driver K) (l : LinearFit K) : Option Int :=
  if l.linearOffset ∧ (l.temperatureNightOnly = false ∨
      l.masterState = serverdNight ||| serverdOn) then do
    return d.round (d.single (d.single (d.single (← l.slope) * d.single (← l.temperature)) +
      d.single (← l.intercept)))
  else none

/-- `np != round (getPosition ())`; `round (NAN)` is no integer. -/
def notAt (np : Int) : Bool :=
  match getValueFloat d s.position with
  | some x => np ≠ d.round x
  | none => true

/-- Where the temperature moves a focuser that does not move. -/
def temperatureMove (l : Option (LinearFit K)) : Option Int := do
  let np ← linearPosition d (← l)
  if s.notAt np then return np else none

def isMoving : Bool := s.state &&& focMaskFocusing = focFocusing

/-- `Focusd::idle`, and what its `setPosition` returns: `isFocusing` and `endFocusing` are what
the driver answers, the values of `l` are there when `createLinearOffset` made them. -/
def idle (l : Option (LinearFit K)) (isFocusing endFocusing ret : Int) : Int × Focusd d :=
  if s.isMoving then
    if 0 ≤ isFocusing then (0, s)
    else if endFocusing ≠ 0 then
      (0, s.maskState (deviceErrorMask ||| focMaskFocusing ||| bopExposure)
        (deviceErrorHw ||| focSleeping))
    else (0, s.maskState (focMaskFocusing ||| bopExposure) focSleeping)
  else
    match s.temperatureMove l with
    | none => (0, s)
    | some np => s.setPosition (some (d.single np)) ret

/-! ## Runs -/

inductive Op (K : Type) where
  | request (w : FocusValue) (op : Char) (text : List Byte) (ret : Int)
  | position (new : Option K) (ret : Int)
  | scriptEnds (ret : Int)
  | idle (l : Option (LinearFit K)) (isFocusing endFocusing ret : Int)
  | info (position : Option K)

/-- An operation, with what it returns. -/
def perform : Op K → Int × Focusd d
  | .request w op text ret => s.request w op text ret
  | .position new ret => s.setPositionValue new ret
  | .scriptEnds ret => s.scriptEnds ret
  | .idle l isFocusing endFocusing ret => s.idle l isFocusing endFocusing ret
  | .info position => (0, { s with position })

def step (s : Focusd d) (o : Op K) : Focusd d := (s.perform o).2

end Focusd
end Rts2.Focus
