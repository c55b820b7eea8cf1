import Rts2.Script.Reading

/-! # Printing a script

`printScript` writes the tree of a script as a script again. What it writes is read
back to the same tree where every element writes all it knows, and in words of its
own. -/
namespace Rts2.Script.Parse
open Rts2.Connection

def space : Byte := 32

/-- `getCmpSymbol` -/
def Comparator.symbol : Comparator → List Byte
  | .equal => bytes "=="
  | .less => bytes "<"
  | .lessEqu => bytes "<="
  | .greatEqu => bytes ">="
  | .great => bytes ">"

section Print
variable {R : Type} (lib : CLib R)

/-- `Operand::writeTo`. Only numbers and strings are written as they are, of the
others the number `getDouble` has at the moment. -/
def Operand.print (getDouble : Operand R → R) : Operand R → List Byte
  | .number val => lib.print val
  | .string str => str
  | .equation l cmp r =>
    lib.print (getDouble l) ++ cmp.symbol ++ (r.map fun r => lib.print (getDouble r)).getD []
  | op => lib.print (getDouble op)

/-- `operator <<` of an `OperandsSet`. -/
def printOperands (getDouble : Operand R → R) (operands : List (Operand R)) : List Byte :=
  (operands.map (Operand.print lib getDouble)).intersperse [space] |>.flatten

def Param.print : Param R → List Byte
  | .string val => val
  | .integer val => decimal val
  | .float val => lib.print val
  | .double val => lib.print val

def printParams (params : List (Param R)) : List Byte :=
  params.flatMap fun param => space :: param.print lib

/-- A command and its parameters. `ElementBox` prints its `y` for its `x`, and
`ElementCenter` no parameters. -/
def printCommand (cmd : Keyword) (params : List (Param R)) : List Byte :=
  match cmd with
  | .box => cmd.text ++ printParams lib ((params.drop 1).take 1 ++ params.drop 1)
  | .center => cmd.text
  | _ => cmd.text ++ printParams lib params

/-- A block before its `{`. A `while` leaves out its condition, and the patterns
their names, sizes and devices. -/
def Block.print : Block R → List Byte
  | .signalEnd sig => Keyword.blockWaitsig.text ++ space :: decimal sig
  | .forLoop max => Keyword.blockFor.text ++ space :: decimal max
  | .whileLoop _ max => Keyword.blockWhile.text ++ space :: decimal max
  | .once => Keyword.blockOnce.text
  | .whileSod endSod => Keyword.waitSod.text ++ space :: decimal endSod
  | .hex _ _ _ => []
  | .fxf _ _ _ => []
  | .spiral _ _ _ _ => []

variable (getDouble : Operand R → R)

/-- `ElementChangeValue::printScript`. Of `+=` and `-=` the first byte is left. -/
def printChange (device valName : List Byte) (op : Byte) (operands : List (Operand R)) :
    List Byte :=
  (if device = [] then [] else device ++ [dot]) ++ valName ++
    op :: printOperands lib getDouble operands

mutual

/-- `Element::printScript` -/
def Element.printScript : Element R → List Byte
  | .none => []
  | .command cmd _ params => printCommand lib cmd params
  | .waitAcquire _ => Keyword.waitAcquire.text
  | .call _ cmd args =>
    Keyword.command.text ++ space :: cmd ++ args.flatMap fun arg => space :: arg
  | .changeValue device valName op operands => printChange lib getDouble device valName op operands
  | .block kind els =>
    kind.print ++ space :: openBrace :: space :: (printElements true els ++ [space, closeBrace])
  | .acquired _ els elseEls =>
    Keyword.blockAcq.text ++
      space :: openBrace :: space :: (printElements true els ++ [space, closeBrace]) ++
      if elseEls.isEmpty then []
      else space :: elseText ++
        space :: space :: openBrace :: space :: (printElements true elseEls ++ [space, closeBrace])
  | .doLoop max els condition =>
    Keyword.blockDo.text ++ space :: decimal max ++
      (condition.map (Operand.print lib getDouble)).getD [] ++
      space :: openBrace :: space :: (printElements true els ++ [space, closeBrace])
  | .comment _ text => hash :: space :: text

/-- Elements with spaces between them. -/
def printElements : Bool → List (Element R) → List Byte
  | _, [] => []
  | first, el :: els =>
    (if first then [] else [space]) ++ el.printScript ++ printElements false els

end

/-- `Script::prettyPrint` of `PRINT_SCRIPT`. -/
def printScript (els : List (Element R)) : List Byte := printElements lib getDouble true els

end Print

/-! ## What is read back -/

/-- A word that is read as it is. -/
def plainWord (w : List Byte) : Bool :=
  match w with
  | [] => false
  | b :: _ => b ≠ quote && b ≠ apostrophe && w.all fun c => !isspace c && c ≠ hash

section PrintsBack
variable {R : Type} (lib : CLib R) (env : Env) (getDouble : Operand R → R)

/-- The parameter is read back. Nothing but the end of a script prints as an empty
word. -/
def Param.PrintsBack (last : Bool) : Kind → Param R → Prop
  | .string, .string val => plainWord val = true ∨ last = true ∧ val = []
  | .integer, .integer val => atoi (decimal val) = val
  | .float, .float val =>
    plainWord (lib.print val) = true ∧ lib.toFloat (lib.atof (lib.print val)) = val
  | .double, .double val => plainWord (lib.print val) = true ∧ lib.atof (lib.print val) = val
  | _, _ => False

/-- Only the last parameter stands at the end. -/
def ParamsPrintBack (last : Bool) : List Kind → List (Param R) → Prop
  | [], [] => True
  | kind :: kinds, param :: params =>
    param.PrintsBack lib (last && params.isEmpty) kind ∧ ParamsPrintBack last kinds params
  | _, _ => False

/-- A change is read back: its device is printed, or it has none, and its operands
are those of what is printed of them. -/
structure ChangePrintsBack (device valName : List Byte) (op : Byte) (operands : List (Operand R)) :
    Prop where
  word : plainWord (printChange lib getDouble device valName op operands) = true
  hasDevice : device = [] ∧ env.defaultDevice = [] ∧ dot ∉ valName ∨
    device ≠ [] ∧ dot ∉ device ∧ equals ∉ device ∧ device.length ≤ deviceNameSize
  noOp : ∀ b ∈ valName, isOp b = false
  assigns : op = equals
  reads : parseSet lib ((printOperands lib getDouble operands).length + 1)
    (printOperands lib getDouble operands) = .ok operands

/-- A block prints what it is. -/
def Block.PrintsBack : Block R → Prop
  | .signalEnd sig => atoi (decimal sig) = sig
  | .forLoop max => atoi (decimal max) = max
  | .once => True
  | .whileSod endSod => atoi (decimal endSod) = endSod
  | _ => False

/-- An `ifacq` that has no `else`, so that what follows must not look like one. -/
def Element.noElse : Element R → Bool
  | .acquired _ _ elseEls => elseEls.isEmpty
  | _ => false

mutual

/-- What the element prints is read back. `last` is the end of the script. -/
def Element.PrintsBack (last : Bool) : Element R → Prop
  | .none => False
  | .command cmd device params =>
    cmd.head env env.defaultDevice Option.none params =
        some (.element (.command cmd device params)) ∧
      cmd ≠ .center ∧ (cmd = .box → params.take 1 = (params.drop 1).take 1) ∧
      ParamsPrintBack lib last cmd.params params
  | .waitAcquire tarId => tarId = env.target.obsTargetId
  | .call device cmd args =>
    device = env.defaultDevice ∧ args = [] ∧ openParen ∉ cmd ∧ closeParen ∉ cmd ∧
      (plainWord cmd = true ∨ last = true ∧ cmd = [])
  | .changeValue device valName op operands =>
    ChangePrintsBack lib env getDouble device valName op operands
  | .block kind els => kind.PrintsBack ∧ ElementsPrintBack false els
  | .acquired tarId els elseEls =>
    tarId = env.target.obsTargetId ∧ ElementsPrintBack false els ∧ ElementsPrintBack false elseEls
  | .doLoop _ _ _ => False
  | .comment _ _ => False

def ElementsPrintBack (last : Bool) : List (Element R) → Prop
  | [] => True
  | el :: els =>
    el.PrintsBack (last && els.isEmpty) ∧
      (el.noElse = true →
        elseText.isPrefixOf (skipSpace (printElements lib getDouble true els)) = false) ∧
      ElementsPrintBack last els

end

/-- What a script prints is read back. -/
def ScriptPrintsBack (commentNumber : Nat) (els : List (Element R)) : Prop :=
  ∃ elements, ElementsPrintBack lib env getDouble true elements ∧
    (∀ el ∈ elements, el.checkParameters lib = none) ∧
    (els = elements ∨ ∃ text, skipSpace text = text ∧ els = elements ++ [.comment commentNumber text])

end PrintsBack
end Rts2.Script.Parse
