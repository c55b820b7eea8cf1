import Rts2.Lib.Doubles
import Rts2.Script.Element
import Mathlib.Logic.Relation

/-! # Blocks of every kind

`Script::nextCommand` asks the present element, and a block asks the present one of its
elements. The blocks differ in `endLoop`: some count how often they have gone round, one
waits for its signal, one for a second of the day. A call goes round for as long as the
elements have nothing to send, so it may have no end: `call` has fuel, and `Calls` is a
call that returns. -/
namespace Rts2.Script.Blocks
open Rts2.Lib (Double)

/-! ## Codes -/

namespace NextCommand

def stopTarget : BitVec 32 := -3#32
def next : BitVec 32 := -2#32
def endScript : BitVec 32 := -1#32
def keep : BitVec 32 := 1#32
def waiting : BitVec 32 := 2#32
def checkWait : BitVec 32 := 4#32
def precisionFailed : BitVec 32 := 5#32
def precisionOk : BitVec 32 := 6#32
def waitAcqusition : BitVec 32 := 7#32
def maskBlock : BitVec 32 := 0x100000#32

/-- The codes after which the next element is the present one. -/
def advancing (ret : BitVec 32) : Bool :=
  ret = 0#32 || ret = checkWait || ret = precisionFailed || ret = precisionOk ||
    ret = waitAcqusition

end NextCommand

/-! ## Elements -/

/-- How an element is asked. -/
inductive Asked where
  | nextCommand (client : Client)
  | defnextCommand
  deriving DecidableEq, Repr

/-- What the blocks ask of the rest of the system, which an answer may leave in another
state. -/
structure Surroundings (ω : Type) where
  /-- `script->getLoopCount ()` -/
  scriptLoopCount : ω → Int
  /-- EVENT_GET_ACQUIRE_STATE -/
  acquireState : ω → Int × ω
  /-- `time` and `gmtime`: the second of the day -/
  currSod : ω → Int × ω
  /-- The client's value `que_exp_num`, if it has one. -/
  queExpNum : ω → Option Int
  /-- `*new_command = NULL` -/
  noCommand : ω → ω

variable {ω : Type}

/-- The classes derived from `ElementBlock`; an `ElementElse` ends as an
`ElementAcquired` does. -/
inductive Kind (ω : Type) where
  /-- `sig_num` becomes -1 with the signal, which an element of the block may send. -/
  | signalEnd (sigNum : ω → Int)
  | acquired
  | forLoop (max : Int)
  | whileSod (endSod : Int)
  | whileLoop (condition : ω → Double) (maxCycles : Int)
  | doLoop (condition : ω → Double) (maxCycles : Int)
  | once
  /-- The number of positions on the path, and what is done at the next one and at the end. -/
  | hex (path : Nat) (setChangeRaDec : Nat → ω → ω) (quickEnable : ω → ω)

/-- A block between whose braces there is something: the elements before the present one,
the present one and those behind. -/
structure Block (ε : Type) where
  loopCount : Nat
  passed : List ε
  currElement : ε
  rest : List ε

inductive AcquiredState where
  | notCalled
  | acqOk
  | acqFailed
  deriving DecidableEq, Repr

/-- An element that is no block keeps what it needs in the rest of the system. -/
inductive Element (ω : Type) where
  | simple (answer : Asked → ω → BitVec 32 × ω)
  | empty (kind : Kind ω) (loopCount : Nat)
  | block (kind : Kind ω) (b : Block (Element ω))
  | acquired (state : AcquiredState) (block : Element ω) (elseBlock : Option (Element ω))

/-! ## Going round -/

variable (W : Surroundings ω) {ε : Type}

/-- `endLoop` -/
def endLoop : Kind ω → Nat → ω → Bool × ω
  | .signalEnd sigNum, _, w => (sigNum w = -1, w)
  | .acquired, loopCount, w => (loopCount ≠ 0, w)
  | .forLoop max, loopCount, w => (max ≤ loopCount, w)
  | .whileSod endSod, _, w => (endSod ≤ (W.currSod w).1, (W.currSod w).2)
  | .whileLoop condition maxCycles, loopCount, w =>
    (maxCycles ≤ loopCount || (condition w).eq (.fin 0), w)
  | .doLoop condition maxCycles, loopCount, w =>
    (loopCount ≠ 0 && (maxCycles ≤ loopCount || (condition w).eq (.fin 0)), w)
  | .once, loopCount, w => (!(W.scriptLoopCount w = 0 && loopCount = 0), w)
  | .hex path _ _, loopCount, w => (path ≤ loopCount, w)

/-- `getNextLoop`, with what an `ElementHex` does on its way. -/
def getNextLoop (kind : Kind ω) (loopCount : Nat) (w : ω) : Bool × ω :=
  let (ended, w) := endLoop W kind loopCount w
  match kind with
  | .hex _ setChangeRaDec quickEnable =>
    (ended, if ended then quickEnable w else setChangeRaDec loopCount w)
  | _ => (ended, w)

namespace Block

/-- `curr_element++`, if that is not the end. -/
def advance (b : Block ε) : Option (Block ε) :=
  match b.rest with
  | [] => none
  | e :: es => some ⟨b.loopCount, b.passed ++ [b.currElement], e, es⟩

/-- `curr_element = blockElements.begin ()` -/
def restart (b : Block ε) (loopCount : Nat) : Block ε :=
  match b.passed with
  | [] => { b with loopCount }
  | e :: es => ⟨loopCount, [], e, es ++ b.currElement :: b.rest⟩

end Block

/-- On to the next element, or to the first one if the block does not end: whether it
ends. -/
def nextElement (kind : Kind ω) (b : Block ε) (w : ω) : Bool × Block ε × ω :=
  match b.advance with
  | some b => (false, b, w)
  | none =>
    let (ended, w) := getNextLoop W kind (b.loopCount + 1) w
    (ended, b.restart (if ended then 0 else b.loopCount + 1), w)

/-- `blockScriptRet` -/
def blockScriptRet (kind : Kind ω) (ret : BitVec 32) (b : Block ε) (w : ω) :
    BitVec 32 × Block ε × ω :=
  if NextCommand.advancing ret then
    let (ended, b, w) := nextElement W kind b w
    (if ended then ret else ret ||| NextCommand.maskBlock, b, w)
  else (ret ||| NextCommand.maskBlock, b, w)

/-- The test of `ElementWhileSod::nextCommand` for a camera: exposures are queued, so the
first element waits. -/
def heldBack (asked : Asked) (kind : Kind ω) (ret : BitVec 32) (b : Block ε) (w : ω) : Bool :=
  match asked, kind with
  | .nextCommand .camera, .whileSod _ =>
    ret = 0#32 && b.passed.isEmpty && (W.queExpNum w).any (1 < ·)
  | _, _ => false

/-- What the loops of `ElementBlock` do with the answer of the present element: they go on
or return. -/
def answered (asked : Asked) (kind : Kind ω) (ret : BitVec 32) (b : Block ε) (w : ω) :
    (Block ε × ω) ⊕ (BitVec 32 × Block ε × ω) :=
  if heldBack W asked kind ret b w then
    .inr (blockScriptRet W kind NextCommand.keep b (W.noCommand w))
  else if ret ≠ NextCommand.next then .inr (blockScriptRet W kind ret b w)
  else
    match nextElement W kind b w with
    | (true, b, w) => .inr (NextCommand.next, b, w)
    | (false, b, w) => .inl (b, w)

/-- `nextCommand` of a block asks first whether the block has ended, `defnextCommand` does
not. -/
def enter (asked : Asked) (kind : Kind ω) (loopCount : Nat) (w : ω) : Bool × ω :=
  match asked with
  | .nextCommand _ => endLoop W kind loopCount w
  | .defnextCommand => (false, w)

/-- `ElementAcquired::checkState` -/
def checkState (state : AcquiredState) (w : ω) : AcquiredState × ω :=
  match state with
  | .notCalled =>
    let (acquireState, w) := W.acquireState w
    (if acquireState = 1 then .acqOk else .acqFailed, w)
  | state => (state, w)

/-! ## Calls -/

mutual

/-- `nextCommand` and `defnextCommand`: the code, the element as the call leaves it and
the rest. `defnextCommand` of an empty block uses `end ()` as an element. -/
def call : Nat → Asked → Element ω → ω → Option (BitVec 32 × Element ω × ω)
  | 0, _, _, _ => none
  | _ + 1, asked, .simple answer, w =>
    some ((answer asked w).1, .simple answer, (answer asked w).2)
  | _ + 1, .nextCommand _, .empty kind loopCount, w =>
    some (NextCommand.next, .empty kind loopCount, (endLoop W kind loopCount w).2)
  | _ + 1, .defnextCommand, .empty _ _, _ => none
  | fuel + 1, asked, .block kind b, w =>
    let (ended, w) := enter W asked kind b.loopCount w
    if ended then some (NextCommand.next, .block kind b, w)
    else blockTurns fuel asked kind b w
  | fuel + 1, asked, .acquired state block elseBlock, w =>
    let (state, w) := checkState W state w
    if state = .acqOk then
      (call fuel asked block w).map fun (ret, block, w) => (ret, .acquired state block elseBlock, w)
    else
      match elseBlock with
      | some e =>
        (call fuel .defnextCommand e w).map fun (ret, e, w) => (ret, .acquired state block (some e), w)
      | none => some (NextCommand.next, .acquired state block none, w)

/-- The loop of `ElementBlock::nextCommand` and `defnextCommand`. -/
def blockTurns : Nat → Asked → Kind ω → Block (Element ω) → ω →
    Option (BitVec 32 × Element ω × ω)
  | 0, _, _, _, _ => none
  | fuel + 1, asked, kind, b, w =>
    (call fuel asked b.currElement w).bind fun (ret, currElement, w) =>
      match answered W asked kind ret { b with currElement } w with
      | .inl (b, w) => blockTurns fuel asked kind b w
      | .inr (ret, b, w) => some (ret, .block kind b, w)

end

variable {W} {fuel : Nat} {asked : Asked} {e : Element ω} {kind : Kind ω} {b : Block (Element ω)}
  {w : ω} {r r' : BitVec 32 × Element ω × ω}

theorem call_ended (h : (enter W asked kind b.loopCount w).1 = true) :
    call W (fuel + 1) asked (.block kind b) w =
      some (NextCommand.next, .block kind b, (enter W asked kind b.loopCount w).2) :=
  if_pos h

theorem call_entered (h : (enter W asked kind b.loopCount w).1 = false) :
    call W (fuel + 1) asked (.block kind b) w =
      blockTurns W fuel asked kind b (enter W asked kind b.loopCount w).2 :=
  if_neg (Bool.eq_false_iff.mp h)

variable {state : AcquiredState} {block : Element ω} {elseBlock : Option (Element ω)}

theorem call_acqOk (h : (checkState W state w).1 = .acqOk) :
    call W (fuel + 1) asked (.acquired state block elseBlock) w =
      (call W fuel asked block (checkState W state w).2).map fun r =>
        (r.1, .acquired (checkState W state w).1 r.2.1 elseBlock, r.2.2) :=
  if_pos h

theorem call_else (h : (checkState W state w).1 ≠ .acqOk) :
    call W (fuel + 1) asked (.acquired state block (some e)) w =
      (call W fuel .defnextCommand e (checkState W state w).2).map fun r =>
        (r.1, .acquired (checkState W state w).1 block (some r.2.1), r.2.2) :=
  if_neg h

theorem call_noElse (h : (checkState W state w).1 ≠ .acqOk) :
    call W (fuel + 1) asked (.acquired state block none) w =
      some (NextCommand.next, .acquired (checkState W state w).1 block none,
        (checkState W state w).2) :=
  if_neg h

theorem blockTurns_inl {ret : BitVec 32} {currElement : Element ω} {w' : ω}
    {s : Block (Element ω) × ω} (hcall : call W fuel asked b.currElement w = some (ret, currElement, w'))
    (h : answered W asked kind ret { b with currElement } w' = .inl s) :
    blockTurns W (fuel + 1) asked kind b w = blockTurns W fuel asked kind s.1 s.2 := by
  simp only [blockTurns, hcall, Option.bind_some, h]

theorem blockTurns_inr {ret : BitVec 32} {currElement : Element ω} {w' : ω}
    {r : BitVec 32 × Block (Element ω) × ω}
    (hcall : call W fuel asked b.currElement w = some (ret, currElement, w'))
    (h : answered W asked kind ret { b with currElement } w' = .inr r) :
    blockTurns W (fuel + 1) asked kind b w = some (r.1, .block kind r.2.1, r.2.2) := by
  simp only [blockTurns, hcall, Option.bind_some, h]

/-- More fuel does not change what a call returns. -/
theorem call_succ :
    (∀ (asked : Asked) (e : Element ω) w r,
      call W fuel asked e w = some r → call W (fuel + 1) asked e w = some r) ∧
    (∀ asked kind b w r, blockTurns W fuel asked kind b w = some r →
      blockTurns W (fuel + 1) asked kind b w = some r) := by
  induction fuel with
  | zero => exact ⟨fun _ _ _ _ h => (by cases h), fun _ _ _ _ _ h => (by cases h)⟩
  | succ fuel ih =>
    constructor
    · intro asked e w r h
      cases e with
      | simple answer => exact h
      | empty kind loopCount =>
        cases asked with
        | nextCommand client => exact h
        | defnextCommand => cases h
      | block kind b =>
        cases hended : (enter W asked kind b.loopCount w).1 with
        | true =>
          rw [call_ended hended] at h ⊢
          exact h
        | false =>
          rw [call_entered hended] at h ⊢
          exact ih.2 _ _ _ _ _ h
      | acquired state block elseBlock =>
        by_cases hok : (checkState W state w).1 = .acqOk
        · rw [call_acqOk hok] at h ⊢
          obtain ⟨r', hr', rfl⟩ := Option.map_eq_some_iff.mp h
          rw [ih.1 _ _ _ _ hr', Option.map_some]
        · cases elseBlock with
          | none =>
            rw [call_noElse hok] at h ⊢
            exact h
          | some e =>
            rw [call_else hok] at h ⊢
            obtain ⟨r', hr', rfl⟩ := Option.map_eq_some_iff.mp h
            rw [ih.1 _ _ _ _ hr', Option.map_some]
    · intro asked kind b w r h
      have hbind := h
      unfold blockTurns at hbind
      obtain ⟨⟨ret, currElement, w'⟩, hcall, -⟩ := Option.bind_eq_some_iff.mp hbind
      have hcall' := ih.1 _ _ _ _ hcall
      cases hanswered : answered W asked kind ret { b with currElement } w' with
      | inl s =>
        rw [blockTurns_inl hcall hanswered] at h
        rw [blockTurns_inl hcall' hanswered]
        exact ih.2 _ _ _ _ _ h
      | inr r' =>
        rw [blockTurns_inr hcall hanswered] at h
        rw [blockTurns_inr hcall' hanswered]
        exact h

theorem call_mono {fuel' : Nat} (hle : fuel ≤ fuel') (h : call W fuel asked e w = some r) :
    call W fuel' asked e w = some r := by
  induction hle with
  | refl => exact h
  | step _ ih => exact call_succ.1 _ _ _ _ ih

theorem blockTurns_mono {fuel' : Nat} (hle : fuel ≤ fuel')
    (h : blockTurns W fuel asked kind b w = some r) :
    blockTurns W fuel' asked kind b w = some r := by
  induction hle with
  | refl => exact h
  | step _ ih => exact call_succ.2 _ _ _ _ _ ih

variable (W asked e w kind) in
/-- The call returns, after so many inner steps as it takes. -/
def Calls (r : BitVec 32 × Element ω × ω) : Prop := ∃ fuel, call W fuel asked e w = some r

theorem Calls.unique (h : Calls W asked e w r) (h' : Calls W asked e w r') : r = r' := by
  obtain ⟨fuel, hfuel⟩ := h
  obtain ⟨fuel', hfuel'⟩ := h'
  have hmax := call_mono (Nat.le_max_left fuel fuel') hfuel
  exact Option.some.inj (hmax.symm.trans (call_mono (Nat.le_max_right fuel fuel') hfuel'))

variable (W asked kind) in
/-- The present element has nothing to send, and the block goes on to the next one. -/
def Passes (s s' : Block (Element ω) × ω) : Prop :=
  ∃ ret currElement w, Calls W asked s.1.currElement s.2 (ret, currElement, w) ∧
    answered W asked kind ret { s.1 with currElement } w = .inl s'

variable (W asked kind) in
/-- The call of the block returns after the answer of the present element. -/
def Ends (s : Block (Element ω) × ω) (r : BitVec 32 × Block (Element ω) × ω) : Prop :=
  ∃ ret currElement w, Calls W asked s.1.currElement s.2 (ret, currElement, w) ∧
    answered W asked kind ret { s.1 with currElement } w = .inr r

variable (W asked kind) in
/-- What the block comes to in going round. -/
abbrev Comes : Block (Element ω) × ω → Block (Element ω) × ω → Prop :=
  Relation.ReflTransGen (Passes W asked kind)

theorem blockTurns_iff : (∃ fuel, blockTurns W fuel asked kind b w = some r) ↔
    ∃ s ret b' w', Comes W asked kind (b, w) s ∧ Ends W asked kind s (ret, b', w') ∧
      r = (ret, .block kind b', w') := by
  constructor
  · intro hcalls
    obtain ⟨fuel, h⟩ := hcalls
    induction fuel generalizing b w with
    | zero => cases h
    | succ fuel ih =>
      have hbind := h
      unfold blockTurns at hbind
      obtain ⟨⟨ret, currElement, w'⟩, hcall, -⟩ := Option.bind_eq_some_iff.mp hbind
      cases hanswered : answered W asked kind ret { b with currElement } w' with
      | inl s =>
        rw [blockTurns_inl hcall hanswered] at h
        obtain ⟨s', ret', b', w'', hcomes, hends⟩ := ih h
        exact ⟨s', ret', b', w'',
          .head ⟨ret, currElement, w', ⟨fuel, hcall⟩, hanswered⟩ hcomes, hends⟩
      | inr r' =>
        rw [blockTurns_inr hcall hanswered] at h
        exact ⟨(b, w), r'.1, r'.2.1, r'.2.2, .refl,
          ⟨ret, currElement, w', ⟨fuel, hcall⟩, hanswered⟩, (Option.some.inj h).symm⟩
  · intro hcalls
    obtain ⟨s, ret, b', w', hcomes, hends, rfl⟩ := hcalls
    generalize hs : (b, w) = s₀ at hcomes
    induction hcomes using Relation.ReflTransGen.head_induction_on generalizing b w with
    | refl =>
      obtain rfl := hs
      obtain ⟨ret', currElement, w'', ⟨fuel, hcall⟩, hanswered⟩ := hends
      exact ⟨fuel + 1, blockTurns_inr hcall hanswered⟩
    | @head s₁ s₂ hpasses _ ih =>
      obtain rfl := hs
      obtain ⟨ret', currElement, w'', ⟨fuel, hcall⟩, hanswered⟩ := hpasses
      obtain ⟨fuel', hturns⟩ := ih rfl
      refine ⟨max fuel fuel' + 1, ?_⟩
      rw [blockTurns_inl (call_mono (Nat.le_max_left fuel fuel') hcall) hanswered]
      exact blockTurns_mono (Nat.le_max_right fuel fuel') hturns

/-! ## Rules -/

section
variable {ε : Type} {ret : BitVec 32} {b : Block ε}

theorem answered_heldBack (h : heldBack W asked kind ret b w = true) :
    answered W asked kind ret b w =
      .inr (blockScriptRet W kind NextCommand.keep b (W.noCommand w)) :=
  if_pos h

theorem answered_ret (h : heldBack W asked kind ret b w = false) (hret : ret ≠ NextCommand.next) :
    answered W asked kind ret b w = .inr (blockScriptRet W kind ret b w) :=
  (if_neg (Bool.eq_false_iff.mp h)).trans (if_pos hret)

theorem answered_next (h : heldBack W asked kind NextCommand.next b w = false) :
    answered W asked kind NextCommand.next b w =
      if (nextElement W kind b w).1 then .inr (NextCommand.next, (nextElement W kind b w).2)
      else .inl (nextElement W kind b w).2 := by
  refine (if_neg (Bool.eq_false_iff.mp h)).trans ((if_neg (not_not.mpr rfl)).trans ?_)
  cases nextElement W kind b w with
  | mk ended s => cases ended <;> rfl

theorem answered_inl {s : Block ε × ω} (h : answered W asked kind ret b w = .inl s) :
    heldBack W asked kind ret b w = false ∧ ret = NextCommand.next ∧
      nextElement W kind b w = (false, s) := by
  cases hheld : heldBack W asked kind ret b w with
  | true =>
    rw [answered_heldBack hheld] at h
    cases h
  | false =>
    by_cases hret : ret = NextCommand.next
    · subst hret
      rw [answered_next hheld] at h
      cases hnext : nextElement W kind b w with
      | mk ended s' =>
        cases ended with
        | true =>
          rw [hnext] at h
          cases h
        | false =>
          rw [hnext] at h
          exact ⟨rfl, rfl, Sum.inl.inj h ▸ rfl⟩
    · rw [answered_ret hheld hret] at h
      cases h

theorem answered_inr {r : BitVec 32 × Block ε × ω} (h : answered W asked kind ret b w = .inr r) :
    heldBack W asked kind ret b w = true ∧
        r = blockScriptRet W kind NextCommand.keep b (W.noCommand w) ∨
      heldBack W asked kind ret b w = false ∧ ret ≠ NextCommand.next ∧
        r = blockScriptRet W kind ret b w ∨
      ret = NextCommand.next ∧ r.1 = NextCommand.next ∧
        nextElement W kind b w = (true, r.2) := by
  cases hheld : heldBack W asked kind ret b w with
  | true =>
    rw [answered_heldBack hheld] at h
    exact .inl ⟨rfl, (Sum.inr.inj h).symm⟩
  | false =>
    by_cases hret : ret = NextCommand.next
    · subst hret
      rw [answered_next hheld] at h
      cases hnext : nextElement W kind b w with
      | mk ended s' =>
        cases ended with
        | true =>
          rw [hnext] at h
          obtain rfl := Sum.inr.inj h
          exact .inr (.inr ⟨rfl, rfl, rfl⟩)
        | false =>
          rw [hnext] at h
          cases h
    · rw [answered_ret hheld hret] at h
      exact .inr (.inl ⟨rfl, hret, (Sum.inr.inj h).symm⟩)

end

theorem calls_iff : Calls W asked e w r ↔ ∃ fuel, call W (fuel + 1) asked e w = some r := by
  constructor
  · intro ⟨fuel, h⟩
    exact ⟨fuel, call_succ.1 _ _ _ _ h⟩
  · intro ⟨fuel, h⟩
    exact ⟨fuel + 1, h⟩

theorem calls_simple {answer : Asked → ω → BitVec 32 × ω} :
    Calls W asked (.simple answer) w r ↔
      r = ((answer asked w).1, .simple answer, (answer asked w).2) := by
  constructor
  · intro h
    exact h.unique ⟨1, rfl⟩
  · intro h
    exact ⟨1, h ▸ rfl⟩

theorem calls_empty {client : Client} {loopCount : Nat} :
    Calls W (.nextCommand client) (.empty kind loopCount) w r ↔
      r = (NextCommand.next, .empty kind loopCount, (endLoop W kind loopCount w).2) := by
  constructor
  · intro h
    exact h.unique ⟨1, rfl⟩
  · intro h
    exact ⟨1, h ▸ rfl⟩

theorem not_calls_empty {loopCount : Nat} :
    ¬Calls W .defnextCommand (.empty kind loopCount) w r := by
  rw [calls_iff]
  intro ⟨fuel, h⟩
  cases h

theorem calls_ended (h : (enter W asked kind b.loopCount w).1 = true) :
    Calls W asked (.block kind b) w r ↔
      r = (NextCommand.next, .block kind b, (enter W asked kind b.loopCount w).2) := by
  constructor
  · intro hr
    exact hr.unique ⟨1, call_ended h⟩
  · intro hr
    exact ⟨1, hr ▸ call_ended h⟩

theorem calls_entered (h : (enter W asked kind b.loopCount w).1 = false) :
    Calls W asked (.block kind b) w r ↔
      ∃ s ret b' w', Comes W asked kind (b, (enter W asked kind b.loopCount w).2) s ∧
        Ends W asked kind s (ret, b', w') ∧ r = (ret, .block kind b', w') := by
  rw [calls_iff, ← blockTurns_iff]
  simp only [call_entered h]

theorem calls_acqOk (h : (checkState W state w).1 = .acqOk) :
    Calls W asked (.acquired state block elseBlock) w r ↔
      ∃ r', Calls W asked block (checkState W state w).2 r' ∧
        r = (r'.1, .acquired (checkState W state w).1 r'.2.1 elseBlock, r'.2.2) := by
  rw [calls_iff]
  simp only [call_acqOk h, Option.map_eq_some_iff]
  constructor
  · intro hcalls
    obtain ⟨fuel, r', hr', rfl⟩ := hcalls
    exact ⟨r', ⟨fuel, hr'⟩, rfl⟩
  · intro hcalls
    obtain ⟨r', ⟨fuel, hr'⟩, rfl⟩ := hcalls
    exact ⟨fuel, r', hr', rfl⟩

theorem calls_else (h : (checkState W state w).1 ≠ .acqOk) :
    Calls W asked (.acquired state block (some e)) w r ↔
      ∃ r', Calls W .defnextCommand e (checkState W state w).2 r' ∧
        r = (r'.1, .acquired (checkState W state w).1 block (some r'.2.1), r'.2.2) := by
  rw [calls_iff]
  simp only [call_else h, Option.map_eq_some_iff]
  constructor
  · intro hcalls
    obtain ⟨fuel, r', hr', rfl⟩ := hcalls
    exact ⟨r', ⟨fuel, hr'⟩, rfl⟩
  · intro hcalls
    obtain ⟨r', ⟨fuel, hr'⟩, rfl⟩ := hcalls
    exact ⟨fuel, r', hr', rfl⟩

theorem calls_noElse (h : (checkState W state w).1 ≠ .acqOk) :
    Calls W asked (.acquired state block none) w r ↔
      r = (NextCommand.next, .acquired (checkState W state w).1 block none,
        (checkState W state w).2) := by
  constructor
  · intro hr
    exact hr.unique ⟨1, call_noElse h⟩
  · intro hr
    exact ⟨1, hr ▸ call_noElse h⟩

/-- Going round is determined. -/
theorem Passes.unique {s s₁ s₂ : Block (Element ω) × ω} (h₁ : Passes W asked kind s s₁)
    (h₂ : Passes W asked kind s s₂) : s₁ = s₂ := by
  obtain ⟨ret, currElement, w, hcall, h⟩ := h₁
  obtain ⟨ret', currElement', w', hcall', h'⟩ := h₂
  cases hcall.unique hcall'
  exact Sum.inl.inj (h.symm.trans h')

theorem Passes.not_ends {s s' : Block (Element ω) × ω} {r : BitVec 32 × Block (Element ω) × ω}
    (h : Passes W asked kind s s') : ¬Ends W asked kind s r := by
  rintro ⟨ret, currElement, w, hcall, hr⟩
  obtain ⟨ret', currElement', w', hcall', h⟩ := h
  cases hcall.unique hcall'
  cases hr.symm.trans h

/-- The present element answers: the block goes on or returns. -/
theorem passes_or_ends {s : Block (Element ω) × ω} {r : BitVec 32 × Element ω × ω}
    (h : Calls W asked s.1.currElement s.2 r) :
    (∃ s', Passes W asked kind s s') ∨ ∃ r', Ends W asked kind s r' := by
  obtain ⟨ret, currElement, w⟩ := r
  cases hanswered : answered W asked kind ret { s.1 with currElement } w with
  | inl s' => exact .inl ⟨s', ret, currElement, w, h, hanswered⟩
  | inr r' => exact .inr ⟨r', ret, currElement, w, h, hanswered⟩

/-- A block that returns goes on from all it comes to before. -/
theorem passes_or_last {s s₁ s₂ : Block (Element ω) × ω} {r : BitVec 32 × Block (Element ω) × ω}
    (h₁ : Comes W asked kind s s₁) (h₂ : Comes W asked kind s s₂) (hends : Ends W asked kind s₂ r) :
    (∃ s', Passes W asked kind s₁ s') ∨ s₁ = s₂ := by
  have hunique : Relator.RightUnique (Passes W asked kind) := fun _ _ _ h h' => h.unique h'
  rcases Relation.ReflTransGen.total_of_right_unique hunique h₁ h₂ with h | h
  · rcases Relation.ReflTransGen.cases_head h with heq | ⟨s', hpasses, -⟩
    · exact .inr heq
    · exact .inl ⟨s', hpasses⟩
  · rcases Relation.ReflTransGen.cases_head h with heq | ⟨s', hpasses, -⟩
    · exact .inr heq.symm
    · exact absurd hends hpasses.not_ends

end Rts2.Script.Blocks
