import Rts2.Connection.ValueLine
import Rts2.Daemon.Modes
import Rts2.Lib.Run
import Rts2.Values.SetOperators

/-! # Values with limits

`ValueDoubleMinMax` and `ValueIntegerMinMax` do the same with their numbers. A
request carries a new value with a copy of the limits, and may bring limits of
its own; a section of a mode or autosave file may set a limit alone. -/
namespace Rts2.Values
open Rts2.Connection Rts2.Daemon Rts2.Lib
open Rts2.Modes (sameText)

/-! ## Numbers -/

/-- What the two classes do with their numbers. `lt` and `eq` are the comparisons of C;
`plus` and `minus` are none where an `int` overflows; `stored` is what a value keeps of a
number; `read` is the next parameter of a line, `ofText` is `setValueCharArr`, and `limit`
is what `setMin` of a `ValueDoubleMinMax` stores into a value of the class, none when it is
not a `ValueDoubleMinMax`. -/
structure Numbers (N : Type) where
  isNumber : N → Bool
  eq : N → N → Bool
  lt : N → N → Bool
  plus : N → N → Option N
  minus : N → N → Option N
  stored : N → N
  read : List Byte → Option (N × List Byte)
  ofText : List Byte → N
  limit : List Byte → Option N
  eq_sound : ∀ {x y}, eq x y = true → x = y
  eq_or_stored : ∀ x, eq x x = true ∨ stored x = x
  stored_stored : ∀ x, stored (stored x) = stored x
  isNumber_stored : ∀ x, isNumber (stored x) = isNumber x

/-- The functions of the C library that read a `double`; `NAN` is none. -/
structure ReadDouble (K : Type) where
  paramNextDouble : List Byte → Option (Option K × List Byte)
  atof : List Byte → Option K

/-- A reader of whole numbers. -/
def wholeNumbers : ReadDouble ℚ where
  paramNextDouble text := (paramNextInteger text).map fun r => (some (r.1 : ℚ), r.2)
  atof text := some ((strtol text).1 : ℚ)

section
variable {K : Type} [Field K] [LinearOrder K] [IsStrictOrderedRing K] [LnRangeDegrees K]

/-- The numbers of `ValueDoubleMinMax`. -/
def doubleNumbers (degDist180 : Bool) (lib : ReadDouble K) : Numbers (Option K) where
  isNumber := Option.isSome
  eq x y := x.isSome && x = y
  lt
    | some x, some y => x < y
    | _, _ => false
  plus x y := some (do return (← x) + (← y))
  minus x y := some (do return (← x) - (← y))
  stored x := x.map (Values.stored degDist180)
  read := lib.paramNextDouble
  ofText := lib.atof
  limit text := some (lib.atof text)
  eq_sound h := by simpa using (Bool.and_eq_true_iff.mp h).2
  eq_or_stored x := by
    cases x with
    | none => exact .inr rfl
    | some x => exact .inl (by simp)
  stored_stored x := by
    cases x with
    | none => rfl
    | some x => exact congrArg some (stored_stored degDist180 x)
  isNumber_stored x := by cases x <;> rfl

end

/-- A sum of two `int`s, if it is one. -/
def checked (n : Int) : Option Int := if -2 ^ 31 ≤ n ∧ n < 2 ^ 31 then some n else none

/-- The numbers of `ValueIntegerMinMax`. `setSectionValues` takes the value for a
`ValueDoubleMinMax`. -/
def integerNumbers : Numbers Int where
  isNumber _ := true
  eq x y := x = y
  lt x y := x < y
  plus x y := checked (x + y)
  minus x y := checked (x - y)
  stored x := x
  read := paramNextInteger
  ofText text := toInt32 (strtol text).1
  limit _ := none
  eq_sound h := of_decide_eq_true h
  eq_or_stored x := .inl (by simp)
  stored_stored _ := rfl
  isNumber_stored _ := rfl

/-! ## A value -/

variable {N : Type}

structure MinMax (c : Numbers N) where
  value : N
  min : N
  max : N
  deriving DecidableEq

namespace MinMax
variable {c : Numbers N}

/-- `new_val < min || new_val > max` is false. -/
def passes (v : MinMax c) (new_val : N) : Bool := !(c.lt new_val v.min || c.lt v.max new_val)

/-- The value is a number within the limits; a limit that is not set is none. -/
def InLimits (v : MinMax c) : Prop := c.isNumber v.value = true ∧ v.passes v.value = true

instance decidableInLimits (v : MinMax c) : Decidable v.InLimits :=
  inferInstanceAs (Decidable (_ ∧ _))

/-- `setValueDouble`, `setValueInteger`. -/
def setNumber (v : MinMax c) (x : N) : MinMax c :=
  if c.eq v.value x then v else { v with value := c.stored x }

/-- `setValue` of a duplicate of `old`, with the rest of an `X` line. -/
def setValue (old : MinMax c) (text : List Byte) : Option (MinMax c) := do
  let (new_val, rest) ← c.read (unquoteRest text)
  if paramEnd rest then
    if old.passes new_val then return { old with value := c.stored new_val } else none
  else
    let (min, rest) ← c.read rest
    let (max, rest) ← c.read rest
    let new : MinMax c := { value := c.stored new_val, min, max }
    if paramEnd rest ∧ new.passes new_val then return new else none

/-- What `doOpValue` makes of the numbers: none for an operator there is not. -/
def opNumber (op : Char) (old new : MinMax c) : Option (Option N) :=
  match op with
  | '+' => some (c.plus old.value new.value)
  | '-' => some (c.minus old.value new.value)
  | '=' => some (some new.value)
  | _ => none

/-- An addition or subtraction overflows. -/
def overflows (new : MinMax c) (op : Char) (old : MinMax c) : Bool :=
  match opNumber op old new with
  | some none => true
  | _ => false

/-- `doOpValue`. -/
def doOpValue (new : MinMax c) (op : Char) (old : MinMax c) : Option (MinMax c) := do
  let new_val ← (← opNumber op old new)
  if new.passes new_val then return new.setNumber new_val else none

def isEqual (v w : MinMax c) : Bool := c.eq v.value w.value

/-- `setFromValue`. -/
def setFromValue (old new : MinMax c) : MinMax c :=
  { value := (old.setNumber new.value).value, min := new.min, max := new.max }

@[simp] theorem setNumber_self (v : MinMax c) : v.setNumber v.value = v := by
  unfold setNumber
  split
  · rfl
  · rename_i heq
    rw [(c.eq_or_stored v.value).resolve_left heq]

theorem doOpValue_assign {new old r : MinMax c} (h : new.doOpValue '=' old = some r) :
    r = new := by
  simp only [doOpValue, opNumber, Option.bind_eq_bind, Option.bind_some, setNumber_self,
    Option.ite_none_right_eq_some] at h
  exact (Option.some.inj h.2).symm

instance : ValueOps (MinMax c) where
  doOpValue := doOpValue
  isEqual := isEqual
  setFromValue := setFromValue
  doOpValue_assign := doOpValue_assign

end MinMax

/-! ## A daemon with such a value -/

variable {c : Numbers N}

/-- The value, the queued changes of it, and whether the program has done something that C
leaves undefined. -/
structure MinMaxState (c : Numbers N) where
  v : MinMax c
  queValues : List (Char × MinMax c)
  undefined : Bool

/-- An entry of a section: for this value, with what the driver's `setValue` returns and
whether the state queues the change, or for another value, with whether it is taken. -/
inductive MinMaxEntry where
  | own (suffix : List Char) (text : List Byte) (ret : Int) (queued : Bool)
  | other (ok : Bool)

namespace MinMaxState

def change (s : MinMaxState c) (v : MinMax c) : MinMaxState c := { s with v }

def undefinedBehaviour (s : MinMaxState c) : MinMaxState c := { s with undefined := true }

/-- `Daemon::doSetValue`, when the driver's `setValue` returns `ret`. -/
def doSetValue (s : MinMaxState c) (op : Char) (new : MinMax c) (ret : Int) :
    Int × MinMaxState c :=
  if new.overflows op s.v then (-2, s.undefinedBehaviour)
  else
    let r := Daemon.doSetValue (fun _ _ => ret) s.v op new
    (r.1, s.change r.2)

/-- The change is put off. -/
def puts (s : MinMaxState c) (op : Char) (new : MinMax c) (queued : Bool) : Bool :=
  (op ≠ '=' || !s.v.isEqual new || !s.queValues.isEmpty) && queued

/-- `Daemon::setCondValue`. -/
def setCondValue (s : MinMaxState c) (op : Char) (new : MinMax c) (ret : Int) (queued : Bool) :
    Int × MinMaxState c :=
  if s.puts op new queued then (-1, { s with queValues := s.queValues ++ [(op, new)] })
  else if op = '=' ∧ s.v.isEqual new then (0, s)
  else s.doSetValue op new ret

/-- `Daemon::setValue` of an `X` line. -/
def setValue (s : MinMaxState c) (op : Char) (text : List Byte) (ret : Int) (queued : Bool) :
    Int × MinMaxState c :=
  match s.v.setValue text with
  | none => (-2, s)
  | some new => s.setCondValue op new ret queued

/-- The first queued change is carried out. -/
def loadQueued (s : MinMaxState c) (ret : Int) : Int × MinMaxState c :=
  match s.queValues with
  | [] => (0, s)
  | (op, new) :: rest => { s with queValues := rest }.doSetValue op new ret

/-- `setMin` or `setMax` of a value taken for a `ValueDoubleMinMax`. -/
def setLimit (s : MinMaxState c) (text : List Byte) (set : N → MinMax c) : MinMaxState c :=
  match c.limit text with
  | some x => s.change (set x)
  | none => s.undefinedBehaviour

/-- A turn of the loop of `Daemon::setSectionValues`: whether the entry was taken. -/
def setEntry (use_extenstions : Bool) (s : MinMaxState c) : MinMaxEntry → Bool × MinMaxState c
  | .other ok => (ok, s)
  | .own suffix text ret queued =>
    if suffix.length > 0 ∧ use_extenstions then
      if sameText suffix ['m', 'i', 'n'] then
        (true, s.setLimit text fun x => { s.v with min := x })
      else if sameText suffix ['m', 'a', 'x'] then
        (true, s.setLimit text fun x => { s.v with max := x })
      else (false, s)
    else
      let r := s.setCondValue '=' { s.v with value := c.stored (c.ofText text) } ret queued
      (r.1 ≠ -2, r.2)

/-- `Daemon::setSectionValues`. -/
def setSectionValues (use_extenstions : Bool) (s : MinMaxState c) :
    List MinMaxEntry → Bool × MinMaxState c
  | [] => (true, s)
  | e :: es =>
    if (s.setEntry use_extenstions e).1 then
      (s.setEntry use_extenstions e).2.setSectionValues use_extenstions es
    else (false, (s.setEntry use_extenstions e).2)

inductive Op where
  | set (op : Char) (text : List Byte) (ret : Int) (queued : Bool)
  | loadQueued (ret : Int)
  | sect (use_extenstions : Bool) (es : List MinMaxEntry)

/-- An operation, and whether it was refused or put off. -/
def perform (s : MinMaxState c) : Op → Bool × MinMaxState c
  | .set op text ret queued =>
    ((s.setValue op text ret queued).1 < 0, (s.setValue op text ret queued).2)
  | .loadQueued ret => ((s.loadQueued ret).1 < 0, (s.loadQueued ret).2)
  | .sect use_extenstions es =>
    (!(s.setSectionValues use_extenstions es).1, (s.setSectionValues use_extenstions es).2)

def step (s : MinMaxState c) (o : Op) : MinMaxState c := (s.perform o).2

end MinMaxState
end Rts2.Values
