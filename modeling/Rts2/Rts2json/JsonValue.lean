import Mathlib.Data.NNRat.Defs
import Rts2.Lib.Json
import Rts2.Values.IntegerLike

/-! # Values as JSON

What `sendConnectionValues` writes of the values of a connection. A value is its
class, with the data that the class keeps; its type is the constructor. -/
namespace Rts2.JsonValue
open Rts2.Connection
open Rts2.Lib.Json (commas member)
open Rts2.Values (trueText falseText)

/-! ## Numbers -/

/-- A `double`, by its sign and its absolute value. -/
inductive Double where
  | nan
  | inf (neg : Bool)
  | finite (neg : Bool) (abs : ℚ≥0)
  deriving DecidableEq

namespace Double

/-- The place of a number among the infinities and the finite numbers. -/
def rank : Double → Option (Int × ℚ)
  | .nan => none
  | .inf neg => some (if neg then -1 else 1, 0)
  | .finite neg abs => some (0, if neg then -abs else abs)

def isnan (x : Double) : Bool := x.rank.isNone

/-- `<`, false when one of the numbers is not a number. -/
def lt (x y : Double) : Bool :=
  match x.rank, y.rank with
  | some (i, x), some (j, y) => i < j || (i == j && x < y)
  | _, _ => false

def zero : Double := .finite false 0

/-- The conversion to `int`; what is out of range becomes `INT_MIN`. -/
def toInt : Double → Int32
  | .finite neg abs =>
    let n : Int := if neg then -(abs.num / abs.den : Nat) else (abs.num / abs.den : Nat)
    if -2 ^ 31 ≤ n ∧ n < 2 ^ 31 then Int32.ofInt n else Int32.minValue
  | _ => Int32.minValue

end Double

/-- `n / d`, rounded to the nearest, a tie to the even one. -/
def rounded (n d : Nat) : Nat :=
  if 2 * (n % d) < d ∨ (2 * (n % d) = d ∧ n / d % 2 = 0) then n / d else n / d + 1

/-- `std::fixed` with `setprecision (20)`. -/
def fixed (x : ℚ≥0) : List Byte :=
  let n := rounded (x.num * 10 ^ 20) x.den
  let digits := decimalNat (n % 10 ^ 20)
  decimalNat (n / 10 ^ 20) ++ 46 :: (List.replicate (20 - digits.length) 48 ++ digits)

/-- `null` -/
def nullText : List Byte := [110, 117, 108, 108]

/-- `operator << (JsonDouble)`. -/
def JsonDouble : Double → List Byte
  | .finite true abs => 45 :: fixed abs
  | .finite false abs => fixed abs
  | _ => nullText

/-! ## Values -/

/-- A text that was assigned from a C string. -/
abbrev CString := {s : List Byte // 0 ∉ s}

/-- The values of a base type. -/
inductive Scalar where
  | string (value : CString)
  | integer (value : Int32)
  | time (value : Double)
  | double (value : Double)
  | float (value : Double)
  | bool (value : Int32)
  | selection (value : Int32)
  | longint (value : Int64)
  | radec (ra dec : Double)
  | altaz (alt az : Double)
  | pid (p i d : Int32)

/-- The classes of values. -/
inductive Content where
  | scalar (s : Scalar)
  | stat (numMes : Int32) (value mode stdev min max : Double)
  | doubleMinMax (value min max : Double)
  | integerMinMax (value min max : Int32)
  | rectangle (x y w h : Scalar)
  | stringArray (value : List (List Byte))
  | doubleArray (value : List Double)
  | timeArray (value : List Double)
  | integerArray (value : List Int32)
  | boolArray (value : List Int32)
  | timeserie (value : Double)

/-- A value of a connection; `changedTime` is its entry of `DevInterface::changedTimes`. -/
structure Value where
  name : List Byte
  description : List Byte
  rts2Type : Int32
  changedTime : Option Double
  content : Content

namespace Value

/-- `DevInterface::getValueChangedTime`. -/
def getValueChangedTime (v : Value) : Double := v.changedTime.getD .nan

def getFlags (v : Value) : Int32 := v.rts2Type

/-- `RTS2_VALUE_ERROR` -/
def isError (v : Value) : Bool := v.rts2Type &&& 0x20000000 ≠ 0

/-- `RTS2_VALUE_WARNING` -/
def isWarning (v : Value) : Bool := v.rts2Type &&& 0x10000000 ≠ 0

end Value

/-- `getValueInteger`; the class `Value` returns -1. -/
def Scalar.getValueInteger : Scalar → Int32
  | .integer value | .bool value | .selection value => value
  | .longint value => value.toInt32
  | .time value | .double value | .float value => if value.isnan then -1 else value.toInt
  | _ => -1

/-! ## Texts -/

/-- `operator <<` of a bool. -/
def flag (b : Bool) : List Byte := if b then [49] else [48]

/-- A text between quotes. -/
def quoted (s : List Byte) : List Byte := 34 :: s ++ [34]

/-- The texts of an array. -/
def array (l : List (List Byte)) : List Byte := 91 :: commas l ++ [93]

/-- The members of an object. -/
def object (l : List (List Byte × List Byte)) : List Byte :=
  123 :: commas (l.map fun m => member m.1 m.2) ++ [125]

def raName : List Byte := [114, 97]
def decName : List Byte := [100, 101, 99]
def altName : List Byte := [97, 108, 116]
def azName : List Byte := [97, 122]

/-- `ValuePID::getValue`. -/
def pidText (p i d : Int32) : List Byte :=
  joined (fun n : Int32 => decimal n.toInt) [p, i, d]

/-- `sendValue` of a value of a base type. -/
def Scalar.sendValue : Scalar → List Byte
  | .string value => quoted value
  | .double value | .float value | .time value => JsonDouble value
  | .integer value | .selection value | .bool value => decimal value.toInt
  | .longint value => decimal value.toInt
  | .radec ra dec => object [(raName, JsonDouble ra), (decName, JsonDouble dec)]
  | .altaz alt az => object [(altName, JsonDouble alt), (azName, JsonDouble az)]
  | .pid p i d => quoted (pidText p i d)

/-- `sendArrayValue`, `sendStatValue`, `sendRectangleValue` and `sendValue`; a minimum and a
maximum are sent later, and the classes of a series are of the base type. -/
def Content.sendValue : Content → List Byte
  | .scalar s => s.sendValue
  | .stat numMes value mode stdev min max =>
    array [decimal numMes.toInt, JsonDouble value, JsonDouble mode, JsonDouble stdev,
      JsonDouble min, JsonDouble max]
  | .doubleMinMax value _ _ => JsonDouble value
  | .integerMinMax value _ _ => decimal value.toInt
  | .rectangle x y w h =>
    array ([x, y, w, h].map fun s => decimal s.getValueInteger.toInt)
  | .stringArray value => array (value.map quoted)
  | .doubleArray value => array (value.map JsonDouble)
  | .timeArray value => array (value.map JsonDouble)
  | .integerArray value => array (value.map fun n => decimal n.toInt)
  | .boolArray value => array (value.map fun n => if n ≠ 0 then trueText else falseText)
  | .timeserie value => JsonDouble value

/-- What `jsonValue` writes after the name. -/
def Value.data (v : Value) (extended : Bool) : List Byte :=
  if extended then
    array [decimal v.getFlags.toInt, v.content.sendValue, flag v.isError, flag v.isWarning,
      quoted v.description]
  else v.content.sendValue

def jsonValue (v : Value) (extended : Bool) : List Byte := member v.name (v.data extended)

/-! ## Connections -/

/-- A connection; `getOtherDevClient` tells whether there is a device client, that knows the
times of changes. -/
structure Conn where
  values : List Value
  getOtherDevClient : Bool
  isIdle : Bool
  getState : UInt32
  getProgressStart : Double
  getProgressEnd : Double
  getStateString : List Byte
  getOtherType : Int32

/-- The variables of the first loop. -/
structure Loop where
  os : List Byte
  mfrom : Double
  first : Bool

/-- The times of changes matter. -/
def Conn.checks (c : Conn) (since : Double) : Bool :=
  (since.isnan || Double.zero.lt since) && c.getOtherDevClient

/-- A turn of the first loop. -/
def Conn.turn (c : Conn) (since : Double) (extended : Bool) (s : Loop) (v : Value) : Loop :=
  let ch := v.getValueChangedTime
  let s := if c.checks since && (s.mfrom.isnan || s.mfrom.lt ch) then { s with mfrom := ch } else s
  if c.checks since && !since.isnan && !ch.isnan && ch.lt since then s
  else { s with
    os := s.os ++ ((if s.first then [] else [44]) ++ jsonValue v extended)
    first := false }

/-- The first loop. -/
def Conn.loop (c : Conn) (since : Double) (extended : Bool) : Loop :=
  c.values.foldl (c.turn since extended) ⟨[], .nan, true⟩

/-- The limits of a value, by its name. -/
def Value.minmax (v : Value) : Option (List Byte × List Byte) :=
  match v.content with
  | .doubleMinMax _ min max => some (v.name, array [JsonDouble min, JsonDouble max])
  | .integerMinMax _ min max => some (v.name, array [decimal min.toInt, decimal max.toInt])
  | _ => none

def dName : List Byte := [100]
def minmaxName : List Byte := [109, 105, 110, 109, 97, 120]
def idleName : List Byte := [105, 100, 108, 101]
def stateName : List Byte := [115, 116, 97, 116, 101]
def sstartName : List Byte := [115, 115, 116, 97, 114, 116]
def sendName : List Byte := [115, 101, 110, 100]
def fName : List Byte := [102]
def statestringName : List Byte :=
  [115, 116, 97, 116, 101, 115, 116, 114, 105, 110, 103]
def typeName : List Byte := [116, 121, 112, 101]

/-- `sendConnectionValues`. -/
def Conn.sendConnectionValues (c : Conn) (since : Double) (extended : Bool) : List Byte :=
  let s := c.loop since extended
  commas [
    member dName (123 :: s.os ++ [125]),
    member minmaxName (object (c.values.filterMap Value.minmax)),
    member idleName (flag c.isIdle),
    member stateName (decimalNat c.getState.toNat),
    member sstartName (JsonDouble c.getProgressStart),
    member sendName (JsonDouble c.getProgressEnd),
    member fName (JsonDouble s.mfrom),
    member statestringName (quoted c.getStateString),
    member typeName (decimal c.getOtherType.toInt)]

end Rts2.JsonValue
