import Rts2.Connection.ValueLine

/-! # The words of a script

`Script` walks its text from `cmdBufTop` on. An element of the text is a word, or
what stands between two quotes; the byte behind it is skipped. Numbers are read
by the C library, which takes what it can of a word. -/
namespace Rts2.Script.Parse
open Rts2.Connection

/-- The bytes of a literal. -/
def bytes (s : String) : List Byte := s.toList.map fun c => UInt8.ofNat c.toNat

def dot : Byte := 46
def equals : Byte := 61
def openBrace : Byte := 123
def closeBrace : Byte := 125
def openParen : Byte := 40
def closeParen : Byte := 41

/-- `Script::nextElement`: the element and what follows. -/
def nextElement (s : List Byte) : List Byte × List Byte :=
  match skipSpace s with
  | [] => ([], [])
  | b :: rest =>
    if b = quote ∨ b = apostrophe then
      (rest.takeWhile (· ≠ b), (rest.dropWhile (· ≠ b)).drop 1)
    else
      ((b :: rest).takeWhile fun c => !isspace c,
        ((b :: rest).dropWhile fun c => !isspace c).drop 1)

/-- What is left is shorter, once there was something to read. -/
theorem nextElement_rest (s : List Byte) :
    (nextElement s).2.length ≤ s.length ∧
      (skipSpace s ≠ [] → (nextElement s).2.length < s.length) := by
  have hle := skipSpace_length_le s
  unfold nextElement
  cases hs : skipSpace s with
  | nil => simp
  | cons b rest =>
    rw [hs, List.length_cons] at hle
    have hlt : ∀ p : Byte → Bool, ((rest.dropWhile p).drop 1).length ≤ rest.length ∧
        (((b :: rest).dropWhile p).drop 1).length ≤ rest.length := by
      intro p
      have h := (List.dropWhile_sublist p (l := rest)).length_le
      have h' := (List.dropWhile_sublist p (l := b :: rest)).length_le
      simp only [List.length_drop, List.length_cons] at h' ⊢
      omega
    dsimp only
    split
    · have h := (hlt (· ≠ b)).1
      exact ⟨by dsimp only; omega, fun _ => by dsimp only; omega⟩
    · have h := (hlt fun c => !isspace c).2
      exact ⟨by dsimp only; omega, fun _ => by dsimp only; omega⟩

theorem nextElement_rest_lt {s : List Byte} (h : (nextElement s).1 ≠ []) :
    (nextElement s).2.length < s.length := by
  apply (nextElement_rest s).2
  intro hs
  exact h (by simp [nextElement, hs])

theorem nextElement_of_skipSpace_nil {s : List Byte} (h : skipSpace s = []) :
    nextElement s = ([], []) := by
  simp [nextElement, h]

/-- `Script::isNext`: the text goes on with `element`; what follows. -/
def isNext (element s : List Byte) : Bool × List Byte :=
  if element.isPrefixOf (skipSpace s) then (true, (skipSpace s).drop (element.length + 1))
  else (false, skipSpace s)

theorem isNext_rest (element s : List Byte) : (isNext element s).2.length ≤ s.length := by
  have hle := skipSpace_length_le s
  unfold isNext
  split
  · dsimp only
    rw [List.length_drop]
    omega
  · exact hle

/-- `atoi` -/
def atoi (s : List Byte) : Int := toInt32 (strtol s).1

/-- Floating point: `atof` and whether it takes the whole word, the assignment to a
`float`, `operator <<`, and the number of an operand, given with units. -/
structure CLib (R : Type) where
  atof : List Byte → R
  whole : List Byte → Bool
  toFloat : R → R
  print : R → List Byte
  number : List Byte → R

/-- The types of the parameters of an element. -/
inductive Kind where
  | string
  | integer
  | float
  | double
  deriving DecidableEq, Repr

inductive Param (R : Type) where
  | string (val : List Byte)
  | integer (val : Int)
  | float (val : R)
  | double (val : R)
  deriving DecidableEq, Repr

section Params
variable {R : Type} (lib : CLib R)

def Kind.read (el : List Byte) : Kind → Param R
  | .string => .string el
  | .integer => .integer (atoi el)
  | .float => .float (lib.toFloat (lib.atof el))
  | .double => .double (lib.atof el)

/-- `getNextParamString`, `getNextParamInteger`, `getNextParamFloat` and
`getNextParamDouble`. Only a string may be empty. -/
def getNextParam (kind : Kind) (s : List Byte) : Option (Param R) × List Byte :=
  let (el, rest) := nextElement s
  if kind ≠ .string ∧ el = [] then (none, rest) else (some (kind.read lib el), rest)

/-- The parameters of an element, up to the first one that is missing. -/
def getNextParams : List Kind → List Byte → Option (List (Param R)) × List Byte
  | [], s => (some [], s)
  | kind :: kinds, s =>
    match getNextParam lib kind s with
    | (none, rest) => (none, rest)
    | (some val, rest) =>
      match getNextParams kinds rest with
      | (none, rest) => (none, rest)
      | (some vals, rest) => (some (val :: vals), rest)

theorem getNextParam_snd (kind : Kind) (s : List Byte) :
    (getNextParam lib kind s).2 = (nextElement s).2 := by
  unfold getNextParam
  split
  split <;> simp_all

theorem getNextParams_rest (kinds : List Kind) (s : List Byte) :
    (getNextParams lib kinds s).2.length ≤ s.length := by
  induction kinds generalizing s with
  | nil => exact Nat.le_refl _
  | cons kind kinds ih =>
    have hone := (nextElement_rest s).1
    rw [← getNextParam_snd lib kind s] at hone
    unfold getNextParams
    cases h : getNextParam lib kind s with
    | mk val rest =>
      rw [h] at hone
      cases val with
      | none => exact hone
      | some val =>
        have hmore := ih rest
        dsimp only
        cases h' : getNextParams lib kinds rest with
        | mk vals rest' =>
          rw [h'] at hmore
          cases vals <;> exact Nat.le_trans hmore hone

end Params

/-! ## Commands -/

/-- The words `parseBuf` knows, in the order it tries them. -/
inductive Keyword where
  | sequence | image | exposure | dark | shiftStart | shiftProgress | shiftEnd | box | center
  | change | wait | waitAcquire | photometer | sendSignal | waitSignal | acquire
  | blockWaitsig | blockAcq | blockEnd | blockFor | blockWhile | blockDo | blockOnce | waitSod
  | waitFor | sleep | waitForIdle | targetDisable | tarTempDisab | targetBoost | loopDisable
  | hex | fxf | spiral | exe | command
  deriving DecidableEq, Repr

/-- The constants of `scriptcommands.h`. -/
def Keyword.text : Keyword → List Byte
  | .sequence => bytes "SEQUENCE"
  | .image => bytes "I"
  | .exposure => bytes "E"
  | .dark => bytes "D"
  | .shiftStart => bytes "STARTSHIFT"
  | .shiftProgress => bytes "DOSHIFT"
  | .shiftEnd => bytes "ENDSHIFT"
  | .box => bytes "BOX"
  | .center => bytes "CENTER"
  | .change => bytes "C"
  | .wait => bytes "W"
  | .waitAcquire => bytes "Aw"
  | .photometer => bytes "P"
  | .sendSignal => bytes "SS"
  | .waitSignal => bytes "SW"
  | .acquire => bytes "A"
  | .blockWaitsig => bytes "block_waitsig"
  | .blockAcq => bytes "ifacq"
  | .blockEnd => [closeBrace]
  | .blockFor => bytes "for"
  | .blockWhile => bytes "while"
  | .blockDo => bytes "do"
  | .blockOnce => bytes "once"
  | .waitSod => bytes "waitsod"
  | .waitFor => bytes "waitfor"
  | .sleep => bytes "sleep"
  | .waitForIdle => bytes "wait_idle"
  | .targetDisable => bytes "tardisable"
  | .tarTempDisab => bytes "tempdisable"
  | .targetBoost => bytes "tarboost"
  | .loopDisable => bytes "loopdisable"
  | .hex => bytes "hex"
  | .fxf => bytes "fxf"
  | .spiral => bytes "spiral"
  | .exe => bytes "exe"
  | .command => bytes "cmd"

/-- COMMAND_BLOCK_ELSE -/
def elseText : List Byte := bytes "else"

def Keyword.all : List Keyword :=
  [.sequence, .image, .exposure, .dark, .shiftStart, .shiftProgress, .shiftEnd, .box, .center,
    .change, .wait, .waitAcquire, .photometer, .sendSignal, .waitSignal, .acquire,
    .blockWaitsig, .blockAcq, .blockEnd, .blockFor, .blockWhile, .blockDo, .blockOnce, .waitSod,
    .waitFor, .sleep, .waitForIdle, .targetDisable, .tarTempDisab, .targetBoost, .loopDisable,
    .hex, .fxf, .spiral, .exe, .command]

/-- The comparisons of `parseBuf`. -/
def keyword (word : List Byte) : Option Keyword := Keyword.all.find? (·.text = word)

/-- The parameters `parseBuf` reads after a word, those before the `{` of a
block. -/
def Keyword.params : Keyword → List Kind
  | .sequence => [.string, .integer, .float]
  | .image => [.float]
  | .exposure => [.float]
  | .dark => [.float]
  | .shiftStart => [.float]
  | .shiftProgress => [.integer, .float]
  | .shiftEnd => [.integer, .float]
  | .box => [.integer, .integer, .integer, .integer]
  | .center => [.integer, .integer]
  | .change => [.double, .double]
  | .wait => []
  | .waitAcquire => []
  | .photometer => [.integer, .float, .integer]
  | .sendSignal => [.integer]
  | .waitSignal => [.integer]
  | .acquire => [.double, .float]
  | .blockWaitsig => [.integer]
  | .blockAcq => []
  | .blockEnd => []
  | .blockFor => [.integer]
  | .blockWhile => [.integer]
  | .blockDo => [.integer]
  | .blockOnce => []
  | .waitSod => [.integer]
  | .waitFor => [.string, .double, .double]
  | .sleep => [.double]
  | .waitForIdle => []
  | .targetDisable => []
  | .tarTempDisab => [.string]
  | .targetBoost => [.integer, .integer]
  | .loopDisable => []
  | .hex => [.double, .double]
  | .fxf => [.double, .double]
  | .spiral => [.double, .double, .integer]
  | .exe => [.string]
  | .command => [.string]

end Rts2.Script.Parse
