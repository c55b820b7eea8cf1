import Mathlib.Data.Nat.Basic
import Mathlib.Data.Rat.Defs
import Mathlib.Order.Lattice
import Rts2.Lib.Strtod

/-! # Expressions

`parseExpression` goes over a text with one index and adds what it reads to a tree. Two pointers own
the nodes; the model says what they point to, and stops where the code uses a node it must not use or
a character behind the text. A character stands for a byte. -/
namespace Rts2.Rts2Expression
open Rts2.Lib.Strtod (isspace)

inductive op_t where
  | OR
  | AND
  | XOR
  | EQU
  | LT
  | LEQU
  | GT
  | GEQU
  | NEQ
  deriving DecidableEq

/-- The value of the enumeration. -/
def op_t.toNat : op_t → Nat
  | OR => 0
  | AND => 1
  | XOR => 2
  | EQU => 3
  | LT => 4
  | LEQU => 5
  | GT => 6
  | GEQU => 7
  | NEQ => 8

theorem op_t.toNat_injective : Function.Injective op_t.toNat := by
  intro a b h
  cases a <;> cases b <;> first | rfl | cases h

instance op_t.instLinearOrder : LinearOrder op_t := LinearOrder.lift' op_t.toNat op_t.toNat_injective

/-! ## Trees -/

/-- `half` is an `ExpressionPair` whose second side is `NULL`. -/
inductive Expression where
  | const (val : ℚ)
  | value (deviceName valueName : List Char)
  | pair (exp1 : Expression) (op : op_t) (exp2 : Expression)
  | half (exp1 : Expression) (op : op_t)
  deriving DecidableEq

/-- The arithmetic of `double`. -/
structure Doubles (D : Type) where
  num : ℚ → D
  nonzero : D → Bool
  eq : D → D → Bool
  lt : D → D → Bool
  le : D → D → Bool

namespace Expression

section
variable {D : Type} (m : Doubles D)

def ofBool (b : Bool) : D := m.num (if b then 1 else 0)

/-- The `switch` of `ExpressionPair::evaluate` on the two sides; the second one is not evaluated where
the first one decides. -/
def apply (op : op_t) (exp1 exp2 : Option D) : Option D :=
  match op with
  | .OR => exp1.bind fun a => if m.nonzero a then some (ofBool m true)
      else exp2.map fun b => ofBool m (m.nonzero b)
  | .AND => exp1.bind fun a => if m.nonzero a then exp2.map fun b => ofBool m (m.nonzero b)
      else some (ofBool m false)
  | .XOR => exp1.bind fun a => exp2.map fun b => ofBool m (m.nonzero a != m.nonzero b)
  | .EQU => exp1.bind fun a => exp2.map fun b => ofBool m (m.eq a b)
  | .LT => exp1.bind fun a => exp2.map fun b => ofBool m (m.lt a b)
  | .LEQU => exp1.bind fun a => exp2.map fun b => ofBool m (m.le a b)
  | .GT => exp1.bind fun a => exp2.map fun b => ofBool m (m.lt b a)
  | .GEQU => exp1.bind fun a => exp2.map fun b => ofBool m (m.le b a)
  | .NEQ => exp1.bind fun a => exp2.map fun b => ofBool m (!m.eq a b)

/-- `evaluate`; `getValue` is the value of a device, and nothing where an error is thrown. -/
def evaluate (getValue : List Char → List Char → Option D) : Expression → Option D
  | const val => some (m.num val)
  | value deviceName valueName => getValue deviceName valueName
  | pair exp1 op exp2 => apply m op (exp1.evaluate getValue) (exp2.evaluate getValue)
  | half _ _ => none

end

/-- `add (op_t)` -/
def addOp (_op : op_t) : Expression → Except String Expression
  | const val => .ok (half (const val) _op)
  | value deviceName valueName => .ok (half (value deviceName valueName) _op)
  | pair exp1 op exp2 => if _op < op then .ok (half (pair exp1 op exp2) _op) else exp2.addOp _op
  | half exp1 op => if _op < op then .ok (half (half exp1 op) _op) else .error "missing value"

/-- `add (Expression *)`, also of `NULL`. -/
def addExp (_exp : Option Expression) : Expression → Except String Expression
  | const _ => .error "missing operand"
  | value _ _ => .error "missing operand"
  | pair _ _ exp2 => exp2.addExp _exp
  | half exp1 op => .ok (_exp.elim (half exp1 op) (pair exp1 op))

/-- `check`; nothing when it does not throw. -/
def check : Expression → Option String
  | const _ => none
  | value _ _ => none
  | pair exp1 _ exp2 => exp1.check <|> exp2.check
  | half _ _ => some "right side is missing"

end Expression

/-! ## The scanner -/

/-- A pointer to an expression. -/
inductive Ptr where
  | null
  | live (e : Expression)
  | deleted
  deriving DecidableEq

/-- What the code must not do; `endless` is a loop that does not end. -/
inductive Misuse where
  | behindText
  | useOfDeleted
  | secondDelete
  | useOfNull
  | endless
  deriving DecidableEq

/-- Why the scan stops before its end. -/
inductive Stop where
  | error (msg : String)
  | misuse (m : Misuse)
  deriving DecidableEq

def thrown {α : Type} : Except String α → Except Stop α
  | .ok a => .ok a
  | .error msg => .error (.error msg)

/-- `delete`, of `NULL` too. -/
def Ptr.delete : Ptr → Except Stop Ptr
  | .null => .ok .null
  | .live _ => .ok .deleted
  | .deleted => .error (.misuse .secondDelete)

inductive Token where
  | word (val : List Char)
  | number (val : List Char)
  | operator (val : List Char)
  | other
  deriving DecidableEq

def wordChar (c : Char) : Bool := !isspace c

/-- The token at the index, and the text from where the index is left. Words and numbers go to the
next blank. -/
def token : List Char → Token × List Char
  | [] => (.other, [])
  | c :: rest =>
    if c.isAlpha then (.word ((c :: rest).takeWhile wordChar), (c :: rest).dropWhile wordChar)
    else if c.isDigit then (.number ((c :: rest).takeWhile wordChar), (c :: rest).dropWhile wordChar)
    else if c = '=' ∨ c = '>' ∨ c = '<' ∨ c = '!' then
      (.operator (c :: rest.takeWhile (· = '=')), rest.dropWhile (· = '='))
    else (.other, c :: rest)

/-- `strcasecmp`, with a word in small letters. -/
def strcasecmp (val word : List Char) : Bool := val.map Char.toLower = word

def keyword (val : List Char) : Option op_t :=
  if strcasecmp val ['o', 'r'] then some .OR
  else if strcasecmp val ['a', 'n', 'd'] then some .AND
  else if strcasecmp val ['x', 'o', 'r'] then some .XOR
  else none

def comparison (val : List Char) : Option op_t :=
  if val = ['=', '='] then some .EQU
  else if val = ['<'] then some .LT
  else if val = ['<', '='] then some .LEQU
  else if val = ['>'] then some .GT
  else if val = ['>', '='] then some .GEQU
  else if val = ['!', '='] then some .NEQ
  else none

def digit (c : Char) : ℤ := (c.toNat - 48 : ℕ)

/-- A `long`. -/
def toLong (n : ℤ) : ℤ := n.bmod (2 ^ 64)

inductive Number where
  | val (v : ℚ)
  | secondPoint
  | otherChar
  deriving DecidableEq

/-- The loop over a number. The division is one of integers. -/
def numberLoop : List Char → ℚ → ℤ → Number
  | [], v, _ => .val v
  | c :: str, v, fraction =>
    if c = '.' then if fraction ≠ 0 then .secondPoint else numberLoop str v 10
    else if c.isDigit then
      if fraction ≠ 0 then
        numberLoop str (v + ((digit c).tdiv fraction : ℤ)) (toLong (fraction * 10))
      else numberLoop str (v * 10 + (digit c : ℤ)) fraction
    else .otherChar

/-- The variables of `parseExpression`. -/
structure Scan where
  str : List Char
  new_exp : Ptr
  root_exp : Ptr
  op : Option op_t
  deriving DecidableEq

namespace Scan

/-- Both pointers are deleted, the variables still hold them. -/
def deleteBoth (s : Scan) : Except Stop Scan := do
  let new_exp ← s.new_exp.delete
  let root_exp ← s.root_exp.delete
  return { s with new_exp, root_exp }

def error (s : Scan) (msg : String) : Except Stop Scan := do
  let _ ← s.deleteBoth
  .error (.error msg)

def take (s : Scan) : Token → Except Stop Scan
  | .word val =>
    match keyword val with
    | some op => .ok { s with op := some op }
    | none =>
      if '.' ∈ val then do
        let s ← s.deleteBoth
        return { s with
          new_exp := .live
            (.value (val.takeWhile (· ≠ '.')) ((val.dropWhile (· ≠ '.')).drop 1)) }
      else .error (.error "cannot find value separator (.)")
  | .number val =>
    match numberLoop val 0 0 with
    | .val v => .ok { s with new_exp := .live (.const v) }
    | .secondPoint => .error (.error "cannot parse number")
    | .otherChar => s.error "number contains unallowed characters"
  | .operator val =>
    match comparison val with
    | some op => .ok { s with op := some op }
    | none => s.error "invalid operand"
  | .other => .ok s

/-- `root_exp->add (op)` -/
def addOp (s : Scan) (op : op_t) : Except Stop Scan :=
  match s.root_exp with
  | .null => .error (.misuse .useOfNull)
  | .deleted => .error (.misuse .useOfDeleted)
  | .live root => do
    let root ← thrown (root.addOp op)
    return { s with root_exp := .live root, op := none }

/-- `root_exp->add (new_exp)`; what it throws is caught, and thrown again. -/
def addExp (s : Scan) (root : Expression) (new : Option Expression) : Except Stop Scan :=
  match root.addExp new with
  | .ok root => .ok { s with root_exp := .live root, new_exp := .null }
  | .error msg => s.error msg

/-- What is done with every token. -/
def add (s : Scan) : Except Stop Scan :=
  match s.op with
  | some op => s.addOp op
  | none =>
    match s.root_exp, s.new_exp with
    | .null, new_exp => .ok { s with root_exp := new_exp, new_exp := .null }
    | .deleted, _ => .error (.misuse .useOfDeleted)
    | .live _, .deleted => .error (.misuse .useOfDeleted)
    | .live root, .null => s.addExp root none
    | .live root, .live new => s.addExp root (some new)

/-- `i++` -/
def next (s : Scan) : Except Stop Scan :=
  match s.str with
  | [] => .error (.misuse .behindText)
  | _ :: str => .ok { s with str }

/-- The body of the loop for a character that is not a blank. -/
def body (s : Scan) : Except Stop Scan := do
  let s' ← take { s with str := (token s.str).2 } (token s.str).1
  let s' ← s'.add
  s'.next

def finish (s : Scan) : Except Stop Expression :=
  match s.root_exp with
  | .null => .error (.error "empty expression")
  | .deleted => .error (.misuse .useOfDeleted)
  | .live root => root.check.elim (.ok root) fun msg => .error (.error msg)

def loop : ℕ → Scan → Except Stop Expression
  | 0, _ => .error (.misuse .endless)
  | fuel + 1, s =>
    match s.str with
    | [] => s.finish
    | c :: str => if isspace c then loop fuel { s with str } else s.body.bind (loop fuel)

end Scan

def parseExpression (str : List Char) : Except Stop Expression :=
  Scan.loop (str.length + 1) ⟨str, .null, .null, none⟩

end Rts2.Rts2Expression
