import Rts2.Script.Operands

/-! # The parser of scripts

`parseBuf` reads one element. `NULL` is its answer to the end of the text, to the
`}` of a block and to an element it cannot read; `parseBlock` and `parseScript`
read elements until it answers `NULL`. -/
namespace Rts2.Script.Parse
open Rts2.Connection

/-- The blocks that need nothing of what follows their `}`. -/
inductive Block (R : Type) where
  | signalEnd (sig : Int)
  | forLoop (max : Int)
  | whileLoop (condition : Option (Operand R)) (max : Int)
  | once
  | whileSod (endSod : Int)
  | hex (device : List Byte) (ra dec : R)
  | fxf (device : List Byte) (ra dec : R)
  | spiral (device : List Byte) (ra dec : R) (length : Int)

/-- The tree of a script. An element without a device of its own runs on the
default one. -/
inductive Element (R : Type) where
  | none
  | command (cmd : Keyword) (device : Option (List Byte)) (params : List (Param R))
  | waitAcquire (tarId : Int)
  | call (device cmd : List Byte) (args : List (List Byte))
  | changeValue (device valName : List Byte) (op : Byte) (operands : List (Operand R))
  | block (kind : Block R) (elements : List (Element R))
  | acquired (tarId : Int) (elements elseElements : List (Element R))
  | doLoop (max : Int) (elements : List (Element R)) (condition : Option (Operand R))
  | comment (cnum : Nat) (text : List Byte)

/-- What `parseBuf` asks its target for. -/
structure Target where
  obsTargetId : Int
  acquired : Bool

/-- The device a script is for, and its target. -/
structure Env where
  defaultDevice : List Byte
  target : Target

/-- An element whose block comes next. -/
inductive Opening (R : Type) where
  | block (kind : Block R)
  | acquired (tarId : Int)
  | doLoop (max : Int)

/-- What the words before the block of an element, if it has one, say. -/
inductive Head (R : Type) where
  | element (el : Element R)
  | opens (opening : Opening R)

/-- DEVICE_NAME_SIZE, less the terminating zero. -/
def deviceNameSize : Nat := 49

/-- The device of a command, and the command. -/
def splitDevice (defaultDevice word : List Byte) : List Byte × List Byte :=
  if dot ∈ word.takeWhile (· ≠ equals) then
    ((word.takeWhile (· ≠ dot)).take deviceNameSize, (word.dropWhile (· ≠ dot)).drop 1)
  else (defaultDevice, word)

/-- The loop of `SplitStr` over the text behind a comma, or its begin. -/
def splitFrom : List Byte → List Byte → List (List Byte)
  | piece, [] => [piece]
  | piece, b :: rest =>
    if b = comma then
      if piece = [] then splitFrom [] rest
      else if rest = [] then [piece]
      else piece :: splitFrom [] rest
    else splitFrom (piece ++ [b]) rest

/-- `SplitStr` at commas. -/
def splitStr (text : List Byte) : List (List Byte) :=
  if text = [] ∨ text = [comma] then [] else splitFrom [] text

/-- A byte that may be the operator of a change. -/
def isOp (b : Byte) : Bool := isSign b || b = equals

/-- The operands of a change, behind its operator: `+=` and `-=` are two bytes. -/
def changeOperands (op : Byte) (rest : List Byte) : List Byte :=
  if isSign op && rest.head? = some equals then rest.drop 1 else rest

section Parser
variable {R : Type} (lib : CLib R) (env : Env)

/-- The element of `COMMAND_COMMAND`. Its argument is cut at both brackets. -/
def parseCall (device cmd : List Byte) : Option (Element R) :=
  if openParen ∈ cmd ∧ closeParen ∈ cmd then
    let behind := (cmd.dropWhile (· ≠ openParen)).drop 1
    let name := cmd.takeWhile fun b => b ≠ openParen && b ≠ closeParen
    -- a `)` before the `(` ends the name, and the arguments end with the text
    let args := if closeParen ∈ cmd.takeWhile (· ≠ openParen) then behind
      else behind.takeWhile (· ≠ closeParen)
    some (.call device name (splitStr args))
  else if openParen ∈ cmd ∨ closeParen ∈ cmd then none
  else some (.call device cmd [])

/-- `ElementChangeValue::ElementChangeValue`. The word holds a `=`. -/
def parseChange (device word : List Byte) : Except ParsingError (Element R) :=
  match word.dropWhile fun b => !isOp b with
  | [] => .ok (.changeValue device [] 0 [])
  | op :: rest =>
    match parseSet lib ((changeOperands op rest).length + 1) (changeOperands op rest) with
    | .error fault => .error fault
    | .ok ops => .ok (.changeValue device (word.takeWhile fun b => !isOp b) op ops)

def oneInteger (f : Int → Opening R) : List (Param R) → Option (Head R)
  | [.integer val] => some (.opens (f val))
  | _ => none

def twoDoubles (f : R → R → Block R) : List (Param R) → Option (Head R)
  | [.double ra, .double dec] => some (.opens (.block (f ra dec)))
  | _ => none

/-- What `parseBuf` makes of a command once its parameters are read. -/
def Keyword.head (device : List Byte) (condition : Option (Operand R)) (params : List (Param R)) :
    Keyword → Option (Head R)
  | .waitAcquire => some (.element (.waitAcquire env.target.obsTargetId))
  | .waitSignal =>
    match params with
    | [.integer sig] =>
      if sig ≤ 0 then none else some (.element (.command .waitSignal Option.none params))
    | _ => none
  | .acquire =>
    some (.element
      (if env.target.acquired then .none else .command .acquire Option.none params))
  | .blockWaitsig => oneInteger (fun sig => .block (.signalEnd sig)) params
  | .blockAcq => some (.opens (.acquired env.target.obsTargetId))
  | .blockEnd => none
  | .blockFor => oneInteger (fun max => .block (.forLoop max)) params
  | .blockWhile => oneInteger (fun max => .block (.whileLoop condition max)) params
  | .blockDo => oneInteger .doLoop params
  | .blockOnce => some (.opens (.block .once))
  | .waitSod => oneInteger (fun endSod => .block (.whileSod endSod)) params
  | .hex => twoDoubles (.hex device) params
  | .fxf => twoDoubles (.fxf device) params
  | .spiral =>
    match params with
    | [.double ra, .double dec, .integer length] =>
      some (.opens (.block (.spiral device ra dec length)))
    | _ => none
  | .command =>
    match params with
    | [.string cmd] => (parseCall device cmd).map .element
    | _ => none
  | .change => some (.element (.command .change (some device) params))
  | .waitFor => some (.element (.command .waitFor (some device) params))
  | cmd => some (.element (.command cmd Option.none params))

/-- The condition at the front of a text. -/
def parseCondition (s : List Byte) : Except ParsingError (Option (Operand R) × List Byte) :=
  parseOperand lib env.defaultDevice (2 * s.length + 2) s

/-- `parseBuf` up to the `{` of a block. -/
def parseHead (s : List Byte) : Except ParsingError (Option (Head R) × List Byte) :=
  let (word, rest) := nextElement s
  let (device, cmd) := splitDevice env.defaultDevice word
  match keyword cmd with
  | some kw =>
    match if kw = .blockWhile then parseCondition lib env rest else .ok (none, rest) with
    | .error fault => .error fault
    | .ok (condition, rest) =>
      match getNextParams lib kw.params rest with
      | (none, rest) => .ok (none, rest)
      | (some params, rest) => .ok (kw.head env device condition params, rest)
  | none =>
    if equals ∈ cmd then
      match parseChange lib device cmd with
      | .error fault => .error fault
      | .ok el => .ok (some (.element el), rest)
    else .ok (none, rest)

/-- The test for the start of a block: only the first byte is looked at. -/
def openBlock (s : List Byte) : Bool × List Byte :=
  ((nextElement s).1.head? = some openBrace, (nextElement s).2)

/-- The text behind the block of an element, which `ifacq` and `do` read on. -/
def Opening.close (parseBlock : List Byte → Except ParsingError (List (Element R) × List Byte))
    (els : List (Element R)) :
    Opening R → List Byte → Except ParsingError (Option (Element R) × List Byte)
  | .block kind, rest => .ok (some (.block kind els), rest)
  | .acquired tarId, rest =>
    match isNext elseText rest with
    | (false, rest) => .ok (some (.acquired tarId els []), rest)
    | (true, rest) =>
      match openBlock rest with
      | (false, rest) => .ok (none, rest)
      | (true, rest) =>
        match parseBlock rest with
        | .error fault => .error fault
        | .ok (elseEls, rest) => .ok (some (.acquired tarId els elseEls), rest)
  | .doLoop max, rest =>
    let (word, rest) := nextElement rest
    if word ≠ Keyword.blockWhile.text then .ok (none, rest)
    else
      match parseCondition lib env rest with
      | .error fault => .error fault
      | .ok (condition, rest) => .ok (some (.doLoop max els condition), rest)

/-- `Script::parseBuf` -/
def parseBuf (parseBlock : List Byte → Except ParsingError (List (Element R) × List Byte))
    (s : List Byte) : Except ParsingError (Option (Element R) × List Byte) :=
  match parseHead lib env s with
  | .error fault => .error fault
  | .ok (none, rest) => .ok (none, rest)
  | .ok (some (.element el), rest) => .ok (some el, rest)
  | .ok (some (.opens opening), rest) =>
    match openBlock rest with
    | (false, rest) => .ok (none, rest)
    | (true, rest) =>
      match parseBlock rest with
      | .error fault => .error fault
      | .ok (els, rest) => opening.close lib env parseBlock els rest

/-- `checkParameters`: what it throws. -/
def Element.checkParameters : Element R → Option ParsingError
  | .command .tarTempDisab _ [.string distime] => distTimeFault lib distime
  | _ => Option.none

/-- A loop over `parseBuf`; `check` is what is done with an element before it is
kept. -/
def parseElements (check : Element R → Option ParsingError)
    (parseBuf : List Byte → Except ParsingError (Option (Element R) × List Byte)) :
    Nat → List Byte → Except ParsingError (List (Element R) × List Byte)
  | 0, s => .ok ([], s)
  | fuel + 1, s =>
    match parseBuf s with
    | .error fault => .error fault
    | .ok (none, rest) => .ok ([], rest)
    | .ok (some el, rest) =>
      match check el with
      | some fault => .error fault
      | none =>
        match parseElements check parseBuf fuel rest with
        | .error fault => .error fault
        | .ok (els, rest) => .ok (el :: els, rest)

/-- `Script::parseBlock`. The fuel bounds the nesting. -/
def parseBlock : Nat → List Byte → Except ParsingError (List (Element R) × List Byte)
  | 0, s => .ok ([], s)
  | fuel + 1, s =>
    parseElements (fun _ => none) (parseBuf lib env (parseBlock fuel)) (s.length + 1) s

def hash : Byte := 35

/-- The text of a script, up to its comment. -/
def scriptText (cmdBuf : List Byte) : List Byte := cmdBuf.takeWhile (· ≠ hash)

/-- The element of the comment, if there is one. -/
def scriptComment (commentNumber : Nat) (cmdBuf : List Byte) : List (Element R) :=
  if hash ∈ cmdBuf then
    [.comment commentNumber (skipSpace ((cmdBuf.dropWhile (· ≠ hash)).drop 1))]
  else []

/-- `Script::parseScript`: the elements, and what is left of the text. -/
def parseScript (commentNumber : Nat) (cmdBuf : List Byte) :
    Except ParsingError (List (Element R) × List Byte) :=
  let text := scriptText cmdBuf
  match parseElements (Element.checkParameters lib)
      (parseBuf lib env (parseBlock lib env (text.length + 1))) (text.length + 1) text with
  | .error fault => .error fault
  | .ok (els, rest) => .ok (els ++ scriptComment commentNumber cmdBuf, rest)

/-! ## What is left -/

theorem parseCondition_rest {s : List Byte} {condition : Option (Operand R)} {rest : List Byte}
    (h : parseCondition lib env s = .ok (condition, rest)) : rest.length ≤ s.length :=
  (operand_rest lib env.defaultDevice _).1 _ _ _ h

theorem openBlock_rest (s : List Byte) : (openBlock s).2.length ≤ s.length := (nextElement_rest s).1

/-- A head takes at least its first byte, and no more than there is. -/
theorem parseHead_rest {s : List Byte} {head : Option (Head R)} {rest : List Byte}
    (h : parseHead lib env s = .ok (head, rest)) :
    rest.length ≤ s.length ∧ (head ≠ none → rest.length < s.length) := by
  have hle := (nextElement_rest s).1
  have hlt : (nextElement s).1 ≠ [] → _ := nextElement_rest_lt (s := s)
  have hword : (nextElement s).1 = [] → (splitDevice env.defaultDevice (nextElement s).1).2 = [] := by
    intro hw
    rw [hw]
    rfl
  unfold parseHead at h
  dsimp only at h
  split at h
  · next kw hkw =>
    have hne : (nextElement s).1 ≠ [] := by
      intro hw
      rw [hword hw] at hkw
      cases hkw
    have hlt := hlt hne
    split at h
    · cases h
    · next condition rest' hcond =>
      have hrest' : rest'.length ≤ (nextElement s).2.length := by
        split at hcond
        · exact parseCondition_rest lib env hcond
        · cases hcond
          exact Nat.le_refl _
      have hparams := getNextParams_rest lib kw.params rest'
      split at h <;> next hp =>
        rw [hp] at hparams
        dsimp only at hparams
        cases h
        exact ⟨by omega, fun _ => by omega⟩
  · split at h
    · next hequals =>
      have hlt := hlt fun hw => by
        rw [hword hw] at hequals
        exact absurd hequals (by simp)
      split at h
      · cases h
      · cases h
        exact ⟨hle, fun _ => hlt⟩
    · cases h
      exact ⟨hle, fun hnone => absurd rfl hnone⟩

end Parser
end Rts2.Script.Parse
