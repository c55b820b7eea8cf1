import Rts2.Values.Numeric

/-! # Operators of numeric values

`doOpValue` of the seven classes. RaDec, AltAz and PID take the old value away
from the operand; the others take the operand away from the old value. -/
namespace Rts2.Values
open Rts2.Daemon

variable {K : Type} [Field K] [LinearOrder K] [IsStrictOrderedRing K]

section Reading

variable [FloorRing K]

/-- A `double` stored to an `int`. -/
def trunc (x : K) : Int := if 0 ≤ x then ⌊x⌋ else ⌈x⌉

theorem trunc_intCast (n : Int) : trunc (n : K) = n := by
  unfold trunc
  split
  · exact Int.floor_intCast n
  · exact Int.ceil_intCast n

/-- `getValueInteger`, and `getValueLong`; the classes that are no single number
answer `INT_MAX`, no number to reckon with. -/
def Value.getValueInteger {k : Kind} : Value K k → Option Int
  | .integer value => some value
  | .long value => some value
  | .double value => some (trunc value)
  | .float value => some (trunc value)
  | _ => none

omit [LinearOrder K] [IsStrictOrderedRing K] [FloorRing K] in
/-- `getValueDouble`, and `getValueFloat`; `NAN` is none. -/
def Value.getValueDouble {k : Kind} : Value K k → Option K
  | .integer value => some value
  | .long value => some value
  | .double value => some value
  | .float value => some value
  | _ => none

/-- `ValuePID::factor`. -/
def factor : K := 1000000

/-- `ValuePID::getP`, `getI` and `getD`. -/
def getPID (c : K) : Int := trunc (c * factor)

/-- What a value holds, component by component. -/
def Value.components {k : Kind} : Value K k → List K
  | .integer value => [(value : K)]
  | .long value => [(value : K)]
  | .double value => [value]
  | .float value => [value]
  | .raDec ra decl => [ra, decl]
  | .altAz alt az => [alt, az]
  | .pid kP kI kD => [(getPID kP : K), (getPID kI : K), (getPID kD : K)]

end Reading

section Operators

variable [LnRangeDegrees K]

/-- A component as a value with this display type keeps it. -/
def stored (degDist180 : Bool) (x : K) : K := if degDist180 then degDist x else x

/-- `ValueDouble::setValueDouble` of a value that holds `value`. -/
def setValueDouble {d : Bool} (value x : K) : Value K (.double d) :=
  if value ≠ x then .double (stored d x) else .double value

/-- `ValueRaDec::setValueRaDec`. -/
def setValueRaDec {d : Bool} (ra decl : K) : Value K (.raDec d) :=
  .raDec (stored d ra) (stored d decl)

variable [FloorRing K]

/-- `ValuePID::setPID` of a value that holds `kP`, `kI` and `kD`. -/
def setPID (kP kI kD : K) (p i d : Int) : Value K .pid :=
  if getPID kP ≠ p ∨ getPID kI ≠ i ∨ getPID kD ≠ d then
    .pid (p / factor) (i / factor) (d / factor)
  else .pid kP kI kD

/-- `Value::doOpValue`. -/
def baseOpValue {k : Kind} (op : Char) (new : Value K k) : Option (Value K k) :=
  if op = '=' then some new else none

/-- The two numbers an old value gives to `ValueRaDec::doOpValue`. -/
def Value.asRaDec {k : Kind} : Value K k → Option (K × K)
  | .raDec ra decl => some (ra, decl)
  | old => old.getValueDouble.map fun o => (o, o)

/-- The two numbers an old value gives to `ValueAltAz::doOpValue`. -/
def Value.asAltAz {k : Kind} : Value K k → Option (K × K)
  | .altAz alt az => some (alt, az)
  | old => old.getValueDouble.map fun o => (o, o)

/-- The three numbers an old value gives to `ValuePID::doOpValue`. -/
def Value.asPID {k : Kind} : Value K k → Option (Int × Int × Int)
  | .pid kP kI kD => some (getPID kP, getPID kI, getPID kD)
  | old => old.getValueInteger.map fun o => (o, o, o)

/-- `doOpValue (op, old_value)` of the new value. -/
def Value.doOpValue {k j : Kind} (new : Value K k) (op : Char) (old : Value K j) :
    Option (Value K k) :=
  match new with
  | .integer value =>
    match op with
    | '+' => old.getValueInteger.map fun o => .integer (o + value)
    | '-' => old.getValueInteger.map fun o => .integer (o - value)
    | '=' => some (.integer value)
    | _ => baseOpValue op (.integer value)
  | .long value =>
    match op with
    | '+' => old.getValueInteger.map fun o => .long (o + value)
    | '-' => old.getValueInteger.map fun o => .long (o - value)
    | '=' => some (.long value)
    | _ => baseOpValue op (.long value)
  | .double value =>
    match op with
    | '+' => old.getValueDouble.map fun o => setValueDouble value (o + value)
    | '-' => old.getValueDouble.map fun o => setValueDouble value (o - value)
    | _ => baseOpValue op (.double value)
  | .float value =>
    match op with
    | '+' => old.getValueDouble.map fun o => .float (o + value)
    | '-' => old.getValueDouble.map fun o => .float (o - value)
    | _ => baseOpValue op (.float value)
  | .raDec ra decl =>
    old.asRaDec.bind fun o =>
      match op with
      | '+' => some (setValueRaDec (ra + o.1) (decl + o.2))
      | '-' => some (setValueRaDec (ra - o.1) (decl - o.2))
      | _ => baseOpValue op (.raDec ra decl)
  | .altAz alt az =>
    old.asAltAz.bind fun o =>
      match op with
      | '+' => some (.altAz (alt + o.1) (az + o.2))
      | '-' => some (.altAz (alt - o.1) (az - o.2))
      | _ => baseOpValue op (.altAz alt az)
  | .pid kP kI kD =>
    old.asPID.bind fun o =>
      match op with
      | '+' => some (setPID kP kI kD (getPID kP + o.1) (getPID kI + o.2.1) (getPID kD + o.2.2))
      | '-' => some (setPID kP kI kD (getPID kP - o.1) (getPID kI - o.2.1) (getPID kD - o.2.2))
      | _ => baseOpValue op (.pid kP kI kD)

/-- `isEqual` of two values of one class. -/
def Value.isEqual : {k : Kind} → Value K k → Value K k → Bool
  | _, .integer v, .integer w => v == w
  | _, .long v, .long w => v == w
  | _, .double v, .double w => v == w
  | _, .float v, .float w => v == w
  | _, .raDec ra decl, .raDec ra' decl' => ra == ra' && decl == decl'
  | _, .altAz alt az, .altAz alt' az' => alt == alt' && az == az'
  | _, .pid kP kI kD, .pid kP' kI' kD' =>
    getPID kP == getPID kP' && getPID kI == getPID kI' && getPID kD == getPID kD'

/-- `setFromValue` with a value of the same class. -/
def Value.setFromValue : {k : Kind} → Value K k → Value K k → Value K k
  | _, .integer _, .integer w => .integer w
  | _, .long _, .long w => .long w
  | _, .double v, .double w => setValueDouble v w
  | _, .float _, .float w => .float w
  | _, .raDec _ _, .raDec ra decl => setValueRaDec ra decl
  | _, .altAz _ _, .altAz alt az => .altAz alt az
  | _, .pid kP kI kD, .pid kP' kI' kD' =>
    setPID kP kI kD (getPID kP') (getPID kI') (getPID kD')

omit [IsStrictOrderedRing K] in
theorem Value.doOpValue_assign {k : Kind} {new old r : Value K k}
    (h : new.doOpValue '=' old = some r) : r = new := by
  cases new with
  | integer value | long value | double value | float value =>
    exact (Option.some.inj h).symm
  | raDec ra decl | altAz alt az | pid kP kI kD =>
    obtain ⟨o, -, ho⟩ := Option.bind_eq_some_iff.mp h
    exact (Option.some.inj ho).symm

instance (k : Kind) : ValueOps (Value K k) where
  doOpValue := Value.doOpValue
  isEqual := Value.isEqual
  setFromValue := Value.setFromValue
  doOpValue_assign := Value.doOpValue_assign

end Operators

end Rts2.Values
