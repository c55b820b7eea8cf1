import Mathlib.Data.List.Basic

/-! # Running a script

`Script::nextCommand` asks the present element for its next command. A block asks its
own present element, and keeps in itself where it is and how often it has run, so that
it goes on from there when it is asked again. An element has two ways to be asked,
`nextCommand` of a camera or a photometer and `defnextCommand`; a class that overrides
only one of them has no command for the other. -/
namespace Rts2.Script

/-! ## Answers -/

/-- What `nextCommand` returns: NEXT_COMMAND_NEXT, 0, NEXT_COMMAND_KEEP and
NEXT_COMMAND_END_SCRIPT. `undefined` is the use of `end ()` as an element. -/
inductive Code where
  | next
  | zero
  | keep
  | endScript
  | undefined
  deriving DecidableEq, Repr

/-- A code, with NEXT_COMMAND_MASK_BLOCK or without. -/
structure Ret where
  code : Code
  block : Bool := false
  deriving DecidableEq, Repr

/-- `ret | NEXT_COMMAND_MASK_BLOCK` -/
def Ret.mask (ret : Ret) : Ret := { ret with block := true }

/-- What an element keeps between two calls: an element that has several commands
where it is among them, a block its `curr_element`, its `loopCount` and what its
elements keep, an `ElementAcquired` its state, its block and its else block. -/
inductive Members where
  | simple (callProgress : Nat)
  | block (currElement : Nat) (loopCount : Int) (elements : List Members)
  | acquired (state : Option Bool) (block elseBlock : Members)

/-- The return value, the new command and what the element keeps. -/
abbrev Answer (C : Type) := Ret × Option C × Members

variable {C : Type}

/-! ## Blocks

`fs` asks the elements of the block. -/

section
variable (endLoop : Int → Bool)

/-- `ElementBlock::blockScriptRet`, with `afterBlockEnd` -/
def blockScriptRet (ret : Ret) (command : Option C) (size currElement : Nat) (loopCount : Int)
    (elements : List Members) : Answer C :=
  if ret = ⟨.zero, false⟩ then
    if currElement + 1 = size then
      if endLoop (loopCount + 1) then (ret, command, .block 0 0 elements)
      else (ret.mask, command, .block 0 (loopCount + 1) elements)
    else (ret.mask, command, .block (currElement + 1) loopCount elements)
  else (ret.mask, command, .block currElement loopCount elements)

/-- The loop of `ElementBlock::nextCommand` and `defnextCommand` over elements that have
no command. -/
def blockTurns (fs : List (Members → Answer C)) :
    Nat → Nat → Int → List Members → Answer C
  | 0, currElement, loopCount, elements =>
    (⟨.undefined, false⟩, none, .block currElement loopCount elements)
  | fuel + 1, currElement, loopCount, elements =>
    match fs[currElement]?, elements[currElement]? with
    | some f, some m =>
      let answer := f m
      let elements := elements.set currElement answer.2.2
      if answer.1.code ≠ .next then
        blockScriptRet endLoop answer.1 answer.2.1 fs.length currElement loopCount elements
      else if currElement + 1 = fs.length then
        if endLoop (loopCount + 1) then (⟨.next, false⟩, none, .block 0 0 elements)
        else blockTurns fs fuel 0 (loopCount + 1) elements
      else blockTurns fs fuel (currElement + 1) loopCount elements
    | _, _ => (⟨.undefined, false⟩, none, .block currElement loopCount elements)

variable (max : Int)

/-- `ElementBlock::defnextCommand` of a block that ends after `max` turns at most. -/
def blockDefnextCommand (fs : List (Members → Answer C)) : Members → Answer C
  | .block currElement loopCount elements =>
    blockTurns endLoop fs (((max - loopCount).toNat + 1) * (fs.length + 1)) currElement loopCount
      elements
  | m => (⟨.undefined, false⟩, none, m)

/-- `ElementBlock::nextCommand` -/
def blockNextCommand (fs : List (Members → Answer C)) : Members → Answer C
  | .block currElement loopCount elements =>
    if endLoop loopCount ∨ fs = [] then
      (⟨.next, false⟩, none, .block currElement loopCount elements)
    else blockDefnextCommand endLoop max fs (.block currElement loopCount elements)
  | m => (⟨.undefined, false⟩, none, m)

end

/-! ## Elements -/

/-- Whom a script is run for. -/
inductive Client where
  | camera
  | phot
  deriving DecidableEq, Repr

/-- What a class overrides: `defnextCommand`, or `nextCommand` for one client. -/
inductive Kind where
  | common
  | camera
  | phot
  deriving DecidableEq, Repr

/-- The class has commands for the client. -/
def Kind.answers : Kind → Client → Bool
  | .common, _ => true
  | .camera, .camera => true
  | .phot, .phot => true
  | _, _ => false

/-- An element as the parser builds it: one that sends its commands one after another,
an `ElementFor`, and an `ElementAcquired` with its `ElementElse`, which is there when
something follows `else`. -/
inductive Element (C : Type) where
  | simple (kind : Kind) (commands : List C)
  | forLoop (max : Int) (blockElements : List (Element C))
  | acquired (blockElements elseElements : List (Element C))

/-- The commands of an element that is no block: all but the last with
NEXT_COMMAND_KEEP. -/
def simpleCommand (commands : List C) : Members → Answer C
  | .simple callProgress =>
    match commands.drop callProgress with
    | [] => (⟨.next, false⟩, none, .simple 0)
    | [c] => (⟨.zero, false⟩, some c, .simple 0)
    | c :: _ => (⟨.keep, false⟩, some c, .simple (callProgress + 1))
  | m => (⟨.undefined, false⟩, none, m)

/-- `ElementFor::endLoop` -/
def forEndLoop (max : Int) (loopCount : Int) : Bool := max ≤ loopCount

/-- `ElementAcquired::endLoop` and `ElementElse::endLoop` -/
def onceEndLoop (loopCount : Int) : Bool := loopCount ≠ 0

mutual

/-- What an element keeps before it is first asked. -/
def Element.init : Element C → Members
  | .simple _ _ => .simple 0
  | .forLoop _ es => .block 0 0 (Element.inits es)
  | .acquired es els => .acquired none (.block 0 0 (Element.inits es)) (.block 0 0 (Element.inits els))

def Element.inits : List (Element C) → List Members
  | [] => []
  | e :: es => e.init :: Element.inits es

end

/-- `ElementAcquired::checkState` -/
def checkState (acquired : Bool) (state : Option Bool) : Bool := state.getD acquired

section
variable (acquired : Bool)

mutual

/-- `Element::defnextCommand` and its overrides. `acquired` is the answer to
EVENT_GET_ACQUIRE_STATE. -/
def Element.defnextCommand : Element C → Members → Answer C
  | .simple kind commands, m =>
    if kind = .common then simpleCommand commands m else (⟨.next, false⟩, none, m)
  | .forLoop max es, m => blockDefnextCommand (forEndLoop max) max (Element.defnextCommands es) m
  | .acquired es els, .acquired state block elseBlock =>
    if checkState acquired state then
      let answer := blockDefnextCommand onceEndLoop 1 (Element.defnextCommands es) block
      (answer.1, answer.2.1, .acquired (some true) answer.2.2 elseBlock)
    else if els = [] then (⟨.next, false⟩, none, .acquired (some false) block elseBlock)
    else
      let answer := blockDefnextCommand onceEndLoop 1 (Element.defnextCommands els) elseBlock
      (answer.1, answer.2.1, .acquired (some false) block answer.2.2)
  | .acquired _ _, m => (⟨.undefined, false⟩, none, m)

def Element.defnextCommands : List (Element C) → List (Members → Answer C)
  | [] => []
  | e :: es => e.defnextCommand :: Element.defnextCommands es

end

variable (client : Client)

mutual

/-- `Element::nextCommand` and its overrides -/
def Element.nextCommand : Element C → Members → Answer C
  | .simple kind commands, m =>
    if kind.answers client then simpleCommand commands m else (⟨.next, false⟩, none, m)
  | .forLoop max es, m => blockNextCommand (forEndLoop max) max (Element.nextCommands es) m
  | .acquired es els, .acquired state block elseBlock =>
    if checkState acquired state then
      let answer := blockNextCommand onceEndLoop 1 (Element.nextCommands es) block
      (answer.1, answer.2.1, .acquired (some true) answer.2.2 elseBlock)
    else if els = [] then (⟨.next, false⟩, none, .acquired (some false) block elseBlock)
    else
      let answer := blockDefnextCommand onceEndLoop 1 (Element.defnextCommands acquired els)
        elseBlock
      (answer.1, answer.2.1, .acquired (some false) block answer.2.2)
  | .acquired _ _, m => (⟨.undefined, false⟩, none, m)

def Element.nextCommands : List (Element C) → List (Members → Answer C)
  | [] => []
  | e :: es => e.nextCommand :: Element.nextCommands es

end

/-! ## Scripts -/

/-- `Script::nextCommand`: `elIter` is the number of elements before `el_iter`. -/
def nextCommandTurns (fs : List (Members → Answer C)) :
    Nat → Nat → List Members → Ret × Option C × Nat × List Members
  | 0, elIter, elements => (⟨.endScript, false⟩, none, elIter, elements)
  | fuel + 1, elIter, elements =>
    match fs[elIter]?, elements[elIter]? with
    | some f, some m =>
      let answer := f m
      let elements := elements.set elIter answer.2.2
      if answer.1 = ⟨.next, false⟩ then nextCommandTurns fs fuel (elIter + 1) elements
      else if answer.1 = ⟨.zero, false⟩ then (answer.1, answer.2.1, elIter + 1, elements)
      else (⟨answer.1.code, false⟩, answer.2.1, elIter, elements)
    | _, _ => (⟨.endScript, false⟩, none, elIter, elements)

def nextCommand (script : List (Element C)) (elIter : Nat) (elements : List Members) :
    Ret × Option C × Nat × List Members :=
  nextCommandTurns (Element.nextCommands acquired client script) (script.length + 1) elIter elements

/-- The commands `Script::nextCommand` gives in `calls` calls, if it has reported the
end by then. -/
def issued (script : List (Element C)) : Nat → Nat → List Members → Option (List C)
  | 0, _, _ => none
  | calls + 1, elIter, elements =>
    let answer := nextCommand acquired client script elIter elements
    match answer.1.code with
    | .endScript => some []
    | .undefined => none
    | _ => (issued script calls answer.2.2.1 answer.2.2.2).map (answer.2.1.toList ++ ·)

end

end Rts2.Script
