import Mathlib.Algebra.Ring.Int.Defs
import Mathlib.Algebra.Ring.Nat
import Mathlib.Data.Int.Init
import Mathlib.Data.List.TakeWhile

/-! # Parameters of a protocol line

A line is a string of bytes; the parsers below walk it from `command_buf_top` on
and return what they read together with the new position. -/
namespace Rts2.Connection

abbrev Byte := UInt8

def cr : Byte := 13
def lf : Byte := 10
def quote : Byte := 34
def comma : Byte := 44

/-- `isspace` of the C locale. -/
def isspace (b : Byte) : Bool := b == 32 || (9 ≤ b && b ≤ 13)

/-- A text of the source is checked byte by byte. -/
theorem forall_of_all {P : Byte → Prop} [DecidablePred P] {text : List Byte}
    (h : (text.all fun b => decide (P b)) = true) : ∀ b ∈ text, P b :=
  fun b hb => of_decide_eq_true (List.all_eq_true.mp h b hb)

def skipSpace (s : List Byte) : List Byte := s.dropWhile isspace

/-- `Connection::paramEnd`. -/
def paramEnd (s : List Byte) : Bool := (skipSpace s).isEmpty

/-- `Connection::paramNextString`; the byte that ends the string is skipped. -/
def paramNextString (s : List Byte) (enddelim : List Byte) : Option (List Byte × List Byte) :=
  match skipSpace s with
  | [] => none
  | b :: rest =>
    if b = quote then
      some (rest.takeWhile (· ≠ quote), (rest.dropWhile (· ≠ quote)).drop 1)
    else
      let inside : Byte → Bool := fun c => !isspace c && !enddelim.contains c
      some ((b :: rest).takeWhile inside, ((b :: rest).dropWhile inside).drop 1)

/-! ## Numbers -/

def isdigit (b : Byte) : Bool := 48 ≤ b && b ≤ 57

/-- The value of a string of digits, on top of `acc`. -/
def digitsValue (acc : Nat) : List Byte → Nat
  | [] => acc
  | b :: rest => digitsValue (10 * acc + (b.toNat - 48)) rest

/-- The range of `long` and of `ssize_t`. -/
def clampLong (n : Int) : Int := max (-2 ^ 63) (min n (2 ^ 63 - 1))

/-- `strtol (s, &end, 10)`: the number and what follows it. -/
def strtol (s : List Byte) : Int × List Byte :=
  let (negative, digits) := match skipSpace s with
    | 45 :: rest => (true, rest)
    | 43 :: rest => (false, rest)
    | rest => (false, rest)
  match digits.takeWhile isdigit with
  | [] => (0, s)
  | number =>
    let value : Int := digitsValue 0 number
    (clampLong (if negative then -value else value), digits.dropWhile isdigit)

/-- A `long` stored to an `int`. -/
def toInt32 (n : Int) : Int := n.bmod (2 ^ 32)

/-- The number a parameter holds, when nothing follows it. -/
def paramNumber (s : List Byte) (enddelim : List Byte) : Option (Int × List Byte) :=
  match paramNextString s enddelim with
  | none => none
  | some (strNum, rest) =>
    if (strtol strNum).2.isEmpty then some ((strtol strNum).1, rest) else none

/-- `Connection::paramNextInteger`. -/
def paramNextInteger (s : List Byte) : Option (Int × List Byte) :=
  (paramNumber s [comma]).map fun r => (toInt32 r.1, r.2)

/-- `Connection::paramNextLong`. -/
def paramNextLong (s : List Byte) : Option (Int × List Byte) :=
  paramNumber s [comma]

/-- `Connection::paramNextSSizeT`. -/
def paramNextSSizeT (s : List Byte) : Option (Int × List Byte) :=
  paramNumber s []

end Rts2.Connection
