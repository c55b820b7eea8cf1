import Rts2.Connection.ValueLine

/-! # Values kept in integers

`ValueInteger`, `ValueLong`, `ValueBool`, `ValueSelection`, `IntegerArray` and
`BoolArray`: what each sends, and what it makes of a line it is sent. -/
namespace Rts2.Values
open Rts2.Connection

/-- The content of a value. A boolean is 0, 1 or, when it is not known, 2; a
selection is the index of one of its names. -/
inductive IntegerLike where
  | integer (value : Int32)
  | long (value : Int64)
  | bool (value : Int32)
  | selection (names : List (List Byte)) (value : Int32)
  | integerArray (value : List Int32)
  | boolArray (value : List Int32)
  deriving DecidableEq, Repr

/-! ## Texts -/

/-- `on` -/
def onText : List Byte := [111, 110]
/-- `off` -/
def offText : List Byte := [111, 102, 102]
/-- `true` -/
def trueText : List Byte := [116, 114, 117, 101]
/-- `false` -/
def falseText : List Byte := [102, 97, 108, 115, 101]
/-- `yes` -/
def yesText : List Byte := [121, 101, 115]
/-- `no` -/
def noText : List Byte := [110, 111]

/-- `tolower` of the C locale. -/
def tolower (b : Byte) : Byte := if 65 ≤ b ∧ b ≤ 90 then b + 32 else b

/-- `charToBool`; the words are compared by `strcasecmp`. -/
def charToBool (s : List Byte) : Option Bool :=
  let word := s.map tolower
  if word = onText ∨ word = trueText ∨ word = yesText ∨ s = [49] then some true
  else if word = offText ∨ word = falseText ∨ word = noText ∨ s = [48] then some false
  else none

/-- A `bool` stored to an `int`. -/
def ofBool (b : Bool) : Int32 := if b then 1 else 0

/-- `getValue`; `ValueBool` and `ValueSelection` inherit it from `ValueInteger`, and `BoolArray`
from `IntegerArray`. -/
def IntegerLike.getValue : IntegerLike → List Byte
  | .integer value => decimal value.toInt
  | .long value => decimal value.toInt
  | .bool value => decimal value.toInt
  | .selection _ value => decimal value.toInt
  | .integerArray value => joined (fun e => decimal e.toInt) value
  | .boolArray value => joined (fun e => decimal e.toInt) value

/-! ## Reading a line -/

def nextInteger (s : List Byte) : Option (Int32 × List Byte) :=
  (paramNextInteger s).map fun r => (Int32.ofInt r.1, r.2)

def nextBool (s : List Byte) : Option (Int32 × List Byte) :=
  (paramNextString s []).bind fun r => (charToBool r.1).map fun b => (ofBool b, r.2)

/-- One parameter and the end of the line. -/
def lastParam {α : Type} (param : Option (α × List Byte)) : Option α :=
  param.bind fun r => if paramEnd r.2 then some r.1 else none

/-- `ValueSelection::getSelIndex`. -/
def getSelIndex (names : List (List Byte)) (s : List Byte) : Int :=
  match names.idxOf? s with
  | some i => i
  | none => -2

/-- `ValueSelection::setValueInteger`: the index, when it is one. -/
def selIndex (names : List (List Byte)) (i : Int) : Option Int32 :=
  if i < 0 ∨ names.length ≤ i then none else some (Int32.ofInt i)

/-- `ValueSelection::setValueCharArr`: an index, or a name. -/
def selCharArr (names : List (List Byte)) (s : List Byte) : Option Int32 :=
  if (strtol s).2 = [] then selIndex names (toInt32 (strtol s).1)
  else if getSelIndex names s < 0 then none
  else selIndex names (getSelIndex names s)

/-- `setValue (Connection *)`: what it returns, and the content after it. An array
that meets a wrong element keeps those before. -/
def IntegerLike.setValue (v : IntegerLike) (s : List Byte) : Int × IntegerLike :=
  match v with
  | .integer value =>
    match lastParam (nextInteger s) with
    | some n => (0, .integer n)
    | none => (-2, .integer value)
  | .long value =>
    match lastParam (paramNextLong s) with
    | some n => (0, .long (Int64.ofInt n))
    | none => (-2, .long value)
  | .bool value =>
    match (lastParam (paramNextString s [])).bind charToBool with
    | some b => (0, .bool (ofBool b))
    | none => (-2, .bool value)
  | .selection names value =>
    match (lastParam (paramNextString s [])).bind (selCharArr names) with
    | some i => (0, .selection names i)
    | none => (-2, .selection names value)
  | .integerArray _ =>
    let read := params nextInteger (unquoteRest s)
    (if read.1 then 0 else -2, .integerArray read.2)
  | .boolArray _ =>
    let read := params nextBool (unquoteRest s)
    (if read.1 then 0 else -2, .boolArray read.2)

/-- Values of one class, made alike on both sides. -/
def IntegerLike.SameType : IntegerLike → IntegerLike → Prop
  | .integer _, .integer _ => True
  | .long _, .long _ => True
  | .bool _, .bool _ => True
  | .selection names _, .selection names' _ => names = names'
  | .integerArray _, .integerArray _ => True
  | .boolArray _, .boolArray _ => True
  | _, _ => False

/-- What the receiver's value makes of the line the sender's value sends. -/
def IntegerLike.received (name : ValueName) (sent receiver : IntegerLike) :
    Option (List Byte × Int × IntegerLike) :=
  (commandValue (valueLine name sent.getValue)).map fun r => (r.1, receiver.setValue r.2)

end Rts2.Values
