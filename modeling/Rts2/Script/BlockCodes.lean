import Rts2.Lib.Mask
import Rts2.Script.Blocks

/-! # Codes that pass through blocks

A block marks the code of its present element with NEXT_COMMAND_MASK_BLOCK, so that the
script stays at the block; `Script::nextCommand` takes the mark off. A negative code has
that bit from the start. -/
namespace Rts2.Script.Blocks
open Rts2.Lib

variable {ω : Type} (W : Surroundings ω)

/-! ## Scripts -/

/-- Where a script is: its elements before `el_iter` and those from there on. -/
structure Progress (ω : Type) where
  executedCount : Int
  passed : List (Element ω)
  rest : List (Element ω)

/-- What `Script::nextCommand` does with a code: the mark is taken off, or the script goes
on after the element. -/
def scriptRet (ret : BitVec 32) (s : Progress ω) (e : Element ω) (es : List (Element ω)) (w : ω) :
    BitVec 32 × Progress ω × ω :=
  if ret &&& NextCommand.maskBlock ≠ 0#32 then
    (ret &&& ~~~NextCommand.maskBlock,
      { s with executedCount := s.executedCount + 1, rest := e :: es }, w)
  else if NextCommand.advancing ret then
    (ret, { executedCount := s.executedCount + 1, passed := s.passed ++ [e], rest := es }, w)
  else
    (ret, { s with executedCount := s.executedCount + 1, rest := e :: es },
      if ret = NextCommand.waiting then W.noCommand w else w)

/-- The loop of `Script::nextCommand` -/
def scriptTurns (client : Client) (fuel : Nat) : List (Element ω) → Progress ω → ω →
    Option (BitVec 32 × Progress ω × ω)
  | [], s, w => some (NextCommand.endScript, { s with rest := [] }, w)
  | e :: es, s, w =>
    (call W fuel (.nextCommand client) e w).bind fun (ret, e, w) =>
      if ret = NextCommand.next then scriptTurns client fuel es { s with passed := s.passed ++ [e] } w
      else some (scriptRet W ret s e es w)

/-- `Script::nextCommand` -/
def scriptNextCommand (client : Client) (fuel : Nat) (s : Progress ω) (w : ω) :
    Option (BitVec 32 × Progress ω × ω) :=
  if s.executedCount < 0 then some (NextCommand.endScript, s, W.noCommand w)
  else scriptTurns W client fuel s.rest s (W.noCommand w)

variable {W} {client : Client} {asked : Asked} {e : Element ω} {kind : Kind ω} {w : ω}
  {own : BitVec 32} {held : Bool}

/-! ## Who is heard -/

variable (W) in
/-- The element that a call comes down to, by its code, and whether a `while` block over it
has put NEXT_COMMAND_KEEP in the place of that code. -/
inductive Hears : Asked → Element ω → ω → BitVec 32 → Bool → Prop
  | simple {asked answer w} (h : (answer asked w).1 ≠ NextCommand.next) :
      Hears asked (.simple answer) w (answer asked w).1 false
  | block {asked kind b w s own held ret currElement w'}
      (hin : (enter W asked kind b.loopCount w).1 = false)
      (hcomes : Comes W asked kind (b, (enter W asked kind b.loopCount w).2) s)
      (h : Hears asked s.1.currElement s.2 own held)
      (hcall : Calls W asked s.1.currElement s.2 (ret, currElement, w'))
      (hret : ret ≠ NextCommand.next) :
      Hears asked (.block kind b) w own
        (held || heldBack W asked kind ret { s.1 with currElement } w')
  | acqOk {asked state block elseBlock w own held} (hok : (checkState W state w).1 = .acqOk)
      (h : Hears asked block (checkState W state w).2 own held) :
      Hears asked (.acquired state block elseBlock) w own held
  | elseBlock {asked state block e w own held} (hok : (checkState W state w).1 ≠ .acqOk)
      (h : Hears .defnextCommand e (checkState W state w).2 own held) :
      Hears asked (.acquired state block (some e)) w own held

/-- The code without the mark. -/
def unmarked (ret : BitVec 32) : BitVec 32 := ret &&& ~~~NextCommand.maskBlock

/-- A block changes nothing but the mark. -/
theorem unmarked_blockScriptRet {ε : Type} {ret : BitVec 32} {b : Block ε} :
    unmarked (blockScriptRet W kind ret b w).1 = unmarked ret := by
  unfold blockScriptRet
  split
  · dsimp only
    split
    · rfl
    · exact or_and_not_mask _ _
  · exact or_and_not_mask _ _

theorem unmarked_scriptRet {ret : BitVec 32} {s : Progress ω} {es : List (Element ω)} :
    (scriptRet W ret s e es w).1 = unmarked ret := by
  unfold scriptRet
  split
  · rfl
  · rename_i hmask
    have hunmarked : unmarked ret = ret := (and_not_mask_eq_iff _ _).mpr (not_not.mp hmask)
    split <;> exact hunmarked.symm

theorem ret_of_heldBack {ε : Type} {ret : BitVec 32} {b : Block ε}
    (h : heldBack W asked kind ret b w = true) : ret = 0#32 := by
  unfold heldBack at h
  split at h
  · simp only [Bool.and_eq_true, decide_eq_true_eq] at h
    exact h.1.1
  · cases h

/-- What a code that is handed up has of the code of the element that is heard. -/
def Carries (own : BitVec 32) (held : Bool) (ret : BitVec 32) : Prop :=
  match held with
  | false => unmarked ret = unmarked own
  | true => unmarked ret = NextCommand.keep ∧ unmarked own = 0#32

/-- Where the present element has a code for the block, the loop of the block ends. -/
theorem ends_at {b : Block (Element ω)} {s s' : Block (Element ω) × ω} {ret : BitVec 32}
    {currElement : Element ω} {w' : ω} {r : BitVec 32 × Block (Element ω) × ω}
    (hcomes : Comes W asked kind (b, w) s)
    (hcall : Calls W asked s.1.currElement s.2 (ret, currElement, w'))
    (hret : ret ≠ NextCommand.next) (hcomes' : Comes W asked kind (b, w) s')
    (hends : Ends W asked kind s' r) :
    answered W asked kind ret { s.1 with currElement } w' = .inr r := by
  rcases passes_or_last hcomes hcomes' hends with ⟨s'', hpasses⟩ | rfl
  · obtain ⟨ret', currElement', w'', hcall', hanswered⟩ := hpasses
    cases hcall.unique hcall'
    exact absurd (answered_inl hanswered).2.1 hret
  · obtain ⟨ret', currElement', w'', hcall', hanswered⟩ := hends
    cases hcall.unique hcall'
    exact hanswered

/-- Through all the blocks, by induction on how deep the element lies. -/
theorem Hears.carries {r : BitVec 32 × Element ω × ω} (h : Hears W asked e w own held)
    (hcall : Calls W asked e w r) : Carries own held r.1 := by
  induction h generalizing r with
  | simple =>
    obtain rfl := calls_simple.mp hcall
    rfl
  | @block asked kind b w s own held ret currElement w' hin hcomes _ hinner hret ih =>
    obtain ⟨s', ret', b', w'', hcomes', hends, rfl⟩ := (calls_entered hin).mp hcall
    have hcarries : Carries own held ret := ih hinner
    rcases answered_inr (ends_at hcomes hinner hret hcomes' hends) with
      ⟨hheld, hr⟩ | ⟨hheld, -, hr⟩ | ⟨hnext, -⟩
    · obtain rfl : ret = 0#32 := ret_of_heldBack hheld
      rw [hheld, Bool.or_true]
      cases held with
      | false =>
        refine ⟨?_, hcarries.symm⟩
        exact (congrArg (fun r => unmarked r.1) hr).trans unmarked_blockScriptRet
      | true => exact absurd hcarries.1 (by decide)
    · rw [hheld, Bool.or_false]
      have hsame : unmarked ret' = unmarked ret :=
        (congrArg (fun r => unmarked r.1) hr).trans unmarked_blockScriptRet
      cases held with
      | false => exact hsame.trans hcarries
      | true => exact ⟨hsame.trans hcarries.1, hcarries.2⟩
    · exact absurd hnext hret
  | acqOk hok _ ih =>
    obtain ⟨r', hr', rfl⟩ := (calls_acqOk hok).mp hcall
    have hcarries := ih hr'
    exact hcarries
  | elseBlock hok _ ih =>
    obtain ⟨r', hr', rfl⟩ := (calls_else hok).mp hcall
    have hcarries := ih hr'
    exact hcarries

/-! ## What the caller sees -/

variable (W client) in
/-- `Script::nextCommand` returns. -/
def ScriptCalls (s : Progress ω) (w : ω) (r : BitVec 32 × Progress ω × ω) : Prop :=
  ∃ fuel, scriptNextCommand W client fuel s w = some r

variable (W client) in
/-- The element of the script whose code the caller gets: those before it had nothing to
send. -/
inductive HeardAmong : List (Element ω) → ω → BitVec 32 → Bool → Prop
  | here {e es w own held r} (h : Hears W (.nextCommand client) e w own held)
      (hcall : Calls W (.nextCommand client) e w r) (hr : r.1 ≠ NextCommand.next) :
      HeardAmong (e :: es) w own held
  | later {e es w own held e' w'}
      (hcall : Calls W (.nextCommand client) e w (NextCommand.next, e', w'))
      (h : HeardAmong es w' own held) : HeardAmong (e :: es) w own held

variable (W client) in
/-- The caller of `Script::nextCommand` gets the code of an element. -/
structure Heard (s : Progress ω) (w : ω) (own : BitVec 32) (held : Bool) : Prop where
  executed : 0 ≤ s.executedCount
  among : HeardAmong W client s.rest (W.noCommand w) own held

theorem HeardAmong.exists_carries {es : List (Element ω)} {s : Progress ω} {fuel : Nat}
    {r : BitVec 32 × Progress ω × ω} (h : HeardAmong W client es w own held)
    (hturns : scriptTurns W client fuel es s w = some r) :
    ∃ ret, Carries own held ret ∧ r.1 = unmarked ret := by
  induction h generalizing s with
  | here h hcall hr =>
    obtain ⟨⟨ret, e, w⟩, hcall', hrest⟩ := Option.bind_eq_some_iff.mp hturns
    cases hcall.unique ⟨fuel, hcall'⟩
    obtain rfl := Option.some.inj ((if_neg hr).symm.trans hrest)
    exact ⟨ret, h.carries hcall, unmarked_scriptRet⟩
  | later hcall _ ih =>
    obtain ⟨⟨ret, e, w⟩, hcall', hrest⟩ := Option.bind_eq_some_iff.mp hturns
    cases hcall.unique ⟨fuel, hcall'⟩
    exact ih ((if_pos rfl).symm.trans hrest)

/-- The caller sees the code of the element without the mark, or NEXT_COMMAND_KEEP. -/
theorem seen {s : Progress ω} {r : BitVec 32 × Progress ω × ω} (hcall : ScriptCalls W client s w r)
    (hheard : Heard W client s w own held) :
    if held then r.1 = NextCommand.keep ∧ unmarked own = 0#32 else r.1 = unmarked own := by
  obtain ⟨fuel, hcall⟩ := hcall
  rw [scriptNextCommand, if_neg (Int.not_lt.mpr hheard.executed)] at hcall
  obtain ⟨ret, hcarries, hr⟩ := hheard.among.exists_carries hcall
  cases held with
  | false => exact hr.trans hcarries
  | true => exact ⟨hr.trans hcarries.1, hcarries.2⟩

/-- A script of one element. -/
def alone (answer : Asked → ω → BitVec 32 × ω) : Progress ω := ⟨0, [], [.simple answer]⟩

theorem heard_alone {answer : Asked → ω → BitVec 32 × ω}
    (h : (answer (.nextCommand client) (W.noCommand w)).1 ≠ NextCommand.next) :
    Heard W client (alone answer) w (answer (.nextCommand client) (W.noCommand w)).1 false :=
  ⟨Int.le_refl 0, .here (.simple h) (calls_simple.mpr rfl) h⟩

theorem HeardAmong.ne_next {es : List (Element ω)} (h : HeardAmong W client es w own held) :
    own ≠ NextCommand.next := by
  have hne {asked : Asked} {e : Element ω} {w : ω} {own : BitVec 32} {held : Bool}
      (h : Hears W asked e w own held) : own ≠ NextCommand.next := by
    induction h with
    | simple h => exact h
    | block _ _ _ _ _ ih => exact ih
    | acqOk _ _ ih => exact ih
    | elseBlock _ _ ih => exact ih
  induction h with
  | here h _ _ => exact hne h
  | later _ _ ih => exact ih

/-- The caller sees the same code for an element in blocks as for the element alone, and no
bit of it changed, exactly if the code has not got the bit of the mark from the start and
no `while` block holds the element back. -/
theorem seen_alike_iff {s : Progress ω} {w₀ : ω} {answer : Asked → ω → BitVec 32 × ω}
    {r r₀ : BitVec 32 × Progress ω × ω} (hcall : ScriptCalls W client s w r)
    (hheard : Heard W client s w own held)
    (hown : (answer (.nextCommand client) (W.noCommand w₀)).1 = own)
    (halone : ScriptCalls W client (alone answer) w₀ r₀) :
    r.1 = r₀.1 ∧ r₀.1 = own ↔ own &&& NextCommand.maskBlock = 0#32 ∧ held = false := by
  have hne := hheard.among.ne_next
  subst hown
  have hseen := seen hcall hheard
  have hseen₀ : r₀.1 = unmarked _ := seen halone (heard_alone hne)
  rw [← and_not_mask_eq_iff, hseen₀]
  cases held with
  | false =>
    rw [show r.1 = unmarked _ from hseen]
    exact ⟨fun h => ⟨h.2, rfl⟩, fun h => ⟨rfl, h.1⟩⟩
  | true =>
    obtain ⟨hkeep, hzero⟩ := hseen
    rw [hkeep, hzero]
    exact ⟨fun h => absurd h.1 (by decide), fun h => absurd h.2 (by decide)⟩

/-- No exposure is queued and nothing is acquired. -/
def still : Surroundings Unit where
  scriptLoopCount _ := 0
  acquireState w := (0, w)
  currSod w := (0, w)
  queExpNum _ := none
  noCommand w := w

/-- An element that answers with `own`. -/
def answering (own : BitVec 32) : Asked → Unit → BitVec 32 × Unit := fun _ w => (own, w)

/-- A script with a block around it that runs once. -/
def forOnce (own : BitVec 32) : Progress Unit :=
  ⟨0, [], [.block (.forLoop 1) ⟨0, [], .simple (answering own), []⟩]⟩

theorem heard_forOnce {own : BitVec 32} {r : BitVec 32 × Element Unit × Unit}
    (h : own ≠ NextCommand.next)
    (hcall : Calls still (.nextCommand .camera)
      (.block (.forLoop 1) ⟨0, [], .simple (answering own), []⟩) () r)
    (hr : r.1 ≠ NextCommand.next) : Heard still .camera (forOnce own) () own false := by
  have hsimple : Hears still (.nextCommand .camera) (.simple (answering own)) () own false :=
    .simple h
  have hblock : Hears still (.nextCommand .camera)
      (.block (.forLoop 1) ⟨0, [], .simple (answering own), []⟩) () own
      (false || heldBack still (.nextCommand .camera) (.forLoop 1) own
        (⟨0, [], .simple (answering own), []⟩ : Block (Element Unit)) ()) :=
    .block rfl .refl hsimple (calls_simple.mpr rfl) h
  exact ⟨Int.le_refl 0, .here hblock hcall hr⟩

/-- The code of an exposure comes through. -/
theorem exposure_seen_alike : ∃ r r₀, ScriptCalls still .camera (forOnce 0#32) () r ∧
    ScriptCalls still .camera (alone (answering 0#32)) () r₀ ∧ r.1 = r₀.1 ∧ r₀.1 = 0#32 := by
  have hcall : ScriptCalls still .camera (forOnce 0#32) () _ := ⟨3, rfl⟩
  have halone : ScriptCalls still .camera (alone (answering 0#32)) () _ := ⟨1, rfl⟩
  have hheard := @heard_forOnce 0#32 _ (by decide) ⟨3, rfl⟩ (by decide)
  exact ⟨_, _, hcall, halone, (seen_alike_iff hcall hheard rfl halone).mpr ⟨by decide, rfl⟩⟩

/-- An `exe` that cannot be started stops the target; the caller sees another code. -/
theorem stop_target_changed : ∃ r, ScriptCalls still .camera (forOnce NextCommand.stopTarget) () r ∧
    Heard still .camera (forOnce NextCommand.stopTarget) () NextCommand.stopTarget false ∧
    r.1 ≠ NextCommand.stopTarget := by
  refine ⟨_, ⟨3, rfl⟩, heard_forOnce (by decide) ⟨3, rfl⟩ (by decide), by decide⟩

end Rts2.Script.Blocks
