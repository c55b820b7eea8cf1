import Rts2.Script.Parser

/-! # Well-formed scripts

A script is well formed when its elements are, its conditions keep every operand
and its blocks end with a `}` or with the text. The parser reads more: to it an
element it cannot read is the end of the block the element is in. -/
namespace Rts2.Script.Parse
open Rts2.Connection

/-- The next word is not quoted, or its quote is closed. -/
def closedWord (s : List Byte) : Bool :=
  match skipSpace s with
  | [] => true
  | b :: rest => !(b = quote || b = apostrophe) || rest.contains b

/-- The next word is `word`, and `rest` follows it. -/
def IsWord (word s rest : List Byte) : Prop := nextElement s = (word, rest) ∧ closedWord s = true

section Words
variable {R : Type} (lib : CLib R) (env : Env)

/-- The number takes the whole word. -/
def Kind.whole (el : List Byte) : Kind → Bool
  | .string => true
  | .integer => (strtol el).2 = [] ∧ atoi el = (strtol el).1
  | .float => lib.whole el
  | .double => lib.whole el

/-- The next word is there, and is no brace of a block. -/
def isArgument (s : List Byte) : Bool :=
  match skipSpace s with
  | [] => false
  | b :: _ => b = quote || b = apostrophe ||
      ((nextElement s).1 ≠ [openBrace] && (nextElement s).1 ≠ [closeBrace])

def paramsWhole : List Kind → List Byte → Bool
  | [], _ => true
  | kind :: kinds, s =>
    closedWord s && isArgument s && kind.whole lib (nextElement s).1 &&
      paramsWhole kinds (nextElement s).2

/-- The commands that keep the device they are given. -/
def Keyword.takesDevice : Keyword → Bool
  | .change => true
  | .waitFor => true
  | .hex => true
  | .fxf => true
  | .spiral => true
  | .command => true
  | _ => false

/-- Every bracket and every quote in the operands of a change is closed. -/
def bracketsClosed (word : List Byte) : Bool :=
  let operands := match word.dropWhile fun b => !isOp b with
    | [] => []
    | op :: rest => changeOperands op rest
  match operands.foldlM (fun st b => SetState.read st false b) SetState.new with
  | .error _ => false
  | .ok st => st.simpleBraces = 0 && st.curvedBraces = 0 && st.quotes.isNone

/-- The arguments of a call are what stands between its brackets, at its end. -/
def CallWhole (cmd : List Byte) : Prop :=
  openParen ∈ cmd → ∃ name args, cmd = name ++ openParen :: (args ++ [closeParen]) ∧
    ∀ b ∈ name ++ args, b ≠ openParen ∧ b ≠ closeParen

/-! ## Conditions -/

/-- One operand. -/
def IsOperand (s : List Byte) (op : Operand R) (rest : List Byte) : Prop :=
  match Found.at (skipSpace s) with
  | .number =>
    parseSetOperand lib (parseSet lib (skipSpace s).length) .angle
        ((skipSpace s).takeWhile fun b => !isspace b) = .ok op ∧
      rest = (skipSpace s).dropWhile fun b => !isspace b
  | .variable =>
    systemValue env.defaultDevice ((skipSpace s).takeWhile isVariableByte) = some op ∧
      rest = (skipSpace s).dropWhile isVariableByte
  | _ => False

/-- Operands with comparisons between them. -/
inductive Compares : List Byte → Operand R → List Byte → Prop where
  | operand {s op rest} (h : IsOperand lib env s op rest) : Compares s op rest
  | compare {s t u rest l cmp r} (hl : IsOperand lib env s l t)
      (hcmp : comparator (skipSpace t) = .ok (cmp, u)) (hr : Compares u r rest) :
      Compares s (.equation l cmp (some r)) rest

/-- A condition stands in brackets, or it is the end of the text. -/
def IsCondition (s : List Byte) (condition : Option (Operand R)) (rest : List Byte) : Prop :=
  ∃ op, condition = some op ∧
    ((∃ t u, skipSpace s = openParen :: t ∧ Compares lib env t op u ∧
        skipSpace u = closeParen :: rest) ∨
      (Compares lib env s op [] ∧ rest = []))

/-! ## Elements -/

/-- The words of an element, up to its block, are read whole. -/
structure HeadWhole (s : List Byte) (head : Head R) : Prop where
  word : closedWord s = true
  device : (splitDevice env.defaultDevice (nextElement s).1).2 ≠ (nextElement s).1 →
    ((nextElement s).1.takeWhile (· ≠ dot)).length ≤ deviceNameSize ∧
      ∀ kw ∈ keyword (splitDevice env.defaultDevice (nextElement s).1).2, kw.takesDevice = true
  params : ∀ kw ∈ keyword (splitDevice env.defaultDevice (nextElement s).1).2,
    kw ≠ .blockWhile → paramsWhole lib kw.params (nextElement s).2 = true
  condition : ∀ condition max, head = .opens (.block (.whileLoop condition max)) →
    ∃ rest, IsCondition lib env (nextElement s).2 condition rest ∧
      paramsWhole lib Keyword.blockWhile.params rest = true
  call : keyword (splitDevice env.defaultDevice (nextElement s).1).2 = some .command →
    CallWhole (nextElement (nextElement s).2).1
  operands : keyword (splitDevice env.defaultDevice (nextElement s).1).2 = none →
    bracketsClosed (splitDevice env.defaultDevice (nextElement s).1).2 = true

/-- `rest` is what follows an element without a block. -/
def IsElement (strict : Bool) (s : List Byte) (el : Element R) (rest : List Byte) : Prop :=
  parseHead lib env s = .ok (some (.element el), rest) ∧
    (strict = true → HeadWhole lib env s (.element el))

/-- `rest` is what follows the `{` of a block. -/
def Opens (strict : Bool) (s : List Byte) (opening : Opening R) (rest : List Byte) : Prop :=
  ∃ t, parseHead lib env s = .ok (some (.opens opening), t) ∧ openBlock t = (true, rest) ∧
    (strict = true → HeadWhole lib env s (.opens opening) ∧ IsWord [openBrace] t rest)

/-- A block of what follows is read as `else`. -/
def IsElse (strict : Bool) (s rest : List Byte) : Prop :=
  ∃ t, isNext elseText s = (true, t) ∧ openBlock t = (true, rest) ∧
    (strict = true → IsWord elseText s t ∧ IsWord [openBrace] t rest)

/-- The `while` of a `do`, and its condition. -/
def IsWhile (strict : Bool) (s : List Byte) (condition : Option (Operand R)) (rest : List Byte) :
    Prop :=
  ∃ t, nextElement s = (Keyword.blockWhile.text, t) ∧
    parseCondition lib env t = .ok (condition, rest) ∧
    (strict = true → closedWord s = true ∧ IsCondition lib env t condition rest)

/-- No element comes next. The parser finds none where it cannot read one. -/
def Ends (strict inBlock : Bool) (s rest : List Byte) : Prop :=
  if strict then skipSpace s = [] ∧ rest = [] ∨ inBlock = true ∧ IsWord [closeBrace] s rest
  else parseHead lib env s = .ok (none, rest) ∨
    ∃ opening t, parseHead lib env s = .ok (some (.opens opening), t) ∧ openBlock t = (false, rest)

/-- The parameters of an element are right. Inside a block the parser does not
check them. -/
def Checked (strict inBlock : Bool) (el : Element R) : Prop :=
  strict = true ∨ inBlock = false → el.checkParameters lib = none

/-- The elements of a text: of a well-formed one with `strict`, else of what the
parser reads. -/
inductive Reads (strict : Bool) : Bool → List Byte → List (Element R) → List Byte → Prop where
  | ends {inBlock s rest} (h : Ends lib env strict inBlock s rest) : Reads strict inBlock s [] rest
  | element {inBlock s el t els rest} (h : IsElement lib env strict s el t)
      (hcheck : Checked lib strict inBlock el) (hrest : Reads strict inBlock t els rest) :
      Reads strict inBlock s (el :: els) rest
  | block {inBlock s kind t inner u els rest} (h : Opens lib env strict s (.block kind) t)
      (hinner : Reads strict true t inner u) (hrest : Reads strict inBlock u els rest) :
      Reads strict inBlock s (.block kind inner :: els) rest
  | acquired {inBlock s tarId t inner u v els rest} (h : Opens lib env strict s (.acquired tarId) t)
      (hinner : Reads strict true t inner u) (helse : isNext elseText u = (false, v))
      (hrest : Reads strict inBlock v els rest) :
      Reads strict inBlock s (.acquired tarId inner [] :: els) rest
  | acquiredElse {inBlock s tarId t inner u v inner' w els rest}
      (h : Opens lib env strict s (.acquired tarId) t) (hinner : Reads strict true t inner u)
      (helse : IsElse strict u v) (hinner' : Reads strict true v inner' w)
      (hrest : Reads strict inBlock w els rest) :
      Reads strict inBlock s (.acquired tarId inner inner' :: els) rest
  | doLoop {inBlock s max t inner u condition v els rest}
      (h : Opens lib env strict s (.doLoop max) t) (hinner : Reads strict true t inner u)
      (hwhile : IsWhile lib env strict u condition v) (hrest : Reads strict inBlock v els rest) :
      Reads strict inBlock s (.doLoop max inner condition :: els) rest
  /-- An `else` without a block. -/
  | noElse {inBlock s tarId t inner u v rest} (hloose : strict = false)
      (h : Opens lib env strict s (.acquired tarId) t) (hinner : Reads strict true t inner u)
      (helse : isNext elseText u = (true, v)) (hblock : openBlock v = (false, rest)) :
      Reads strict inBlock s [] rest
  /-- A `do` without its `while`. -/
  | noWhile {inBlock s max t inner u rest} (hloose : strict = false)
      (h : Opens lib env strict s (.doLoop max) t) (hinner : Reads strict true t inner u)
      (hwhile : (nextElement u).1 ≠ Keyword.blockWhile.text) (hrest : (nextElement u).2 = rest) :
      Reads strict inBlock s [] rest

end Words
end Rts2.Script.Parse
