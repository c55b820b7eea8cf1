import Rts2.Script.Blocks

/-! # Blocks that do not return

A block that counts how often it has gone round ends at last. One that waits for its signal
or for a second of the day goes round for as long as no element has anything to send. -/
namespace Rts2.Script.Blocks

variable {ω : Type} {W : Surroundings ω} {asked : Asked} {e : Element ω} {kind : Kind ω}
  {w : ω} {r : BitVec 32 × Element ω × ω} {d : Nat}

/-- How often a block goes round at most, if it counts. -/
def Kind.bound : Kind ω → Option Nat
  | .signalEnd _ => none
  | .acquired => some 1
  | .forLoop max => some max.toNat
  | .whileSod _ => none
  | .whileLoop _ maxCycles => some maxCycles.toNat
  | .doLoop _ maxCycles => some maxCycles.toNat
  | .once => some 1
  | .hex path _ _ => some path

theorem endLoop_of_bound {m n : Nat} (hbound : kind.bound = some m) (h : m ≤ n + 1) :
    (endLoop W kind (n + 1) w).1 = true := by
  cases kind with
  | signalEnd sigNum => cases hbound
  | whileSod endSod => cases hbound
  | acquired => rfl
  | once => simp [endLoop]
  | forLoop max =>
    obtain rfl := Option.some.inj hbound
    exact decide_eq_true (Int.toNat_le.mp h)
  | whileLoop condition maxCycles =>
    obtain rfl := Option.some.inj hbound
    have hended : maxCycles ≤ ((n + 1 : Nat) : Int) := Int.toNat_le.mp h
    simp only [endLoop, hended, decide_true, Bool.true_or]
  | doLoop condition maxCycles =>
    obtain rfl := Option.some.inj hbound
    have hended : maxCycles ≤ ((n + 1 : Nat) : Int) := Int.toNat_le.mp h
    simp only [endLoop, hended, decide_true, Bool.true_or, Nat.succ_ne_zero, ne_eq,
      not_false_eq_true, Bool.and_self]
  | hex path setChangeRaDec quickEnable =>
    obtain rfl := Option.some.inj hbound
    exact decide_eq_true h

theorem getNextLoop_fst (kind : Kind ω) (n : Nat) (w : ω) :
    (getNextLoop W kind n w).1 = (endLoop W kind n w).1 := by
  cases kind <;> rfl

/-! ## Where a block is -/

section
variable {ε : Type} {b b' : Block ε} {w' : ω}

/-- All its elements. -/
def Block.blockElements (b : Block ε) : List ε := b.passed ++ b.currElement :: b.rest

theorem Block.blockElements_restart (n : Nat) :
    (b.restart n).blockElements = b.blockElements := by
  unfold restart
  cases hpassed : b.passed with
  | nil => simp only [blockElements, hpassed]
  | cons e es => simp only [blockElements, hpassed, List.nil_append, List.cons_append]

theorem Block.blockElements_advance (h : b.advance = some b') :
    b'.blockElements = b.blockElements := by
  unfold advance at h
  cases hrest : b.rest with
  | nil => simp only [hrest, reduceCtorEq] at h
  | cons e es =>
    simp only [hrest, Option.some.injEq] at h
    subst h
    simp only [blockElements, hrest, List.append_assoc, List.cons_append, List.nil_append]

theorem nextElement_of_advance (h : b.advance = some b') :
    nextElement W kind b w = (false, b', w) := by
  simp only [nextElement, h]

theorem nextElement_of_end (h : b.advance = none) :
    nextElement W kind b w = ((getNextLoop W kind (b.loopCount + 1) w).1,
      b.restart (if (getNextLoop W kind (b.loopCount + 1) w).1 then 0 else b.loopCount + 1),
      (getNextLoop W kind (b.loopCount + 1) w).2) := by
  simp only [nextElement, h]

theorem blockElements_nextElement :
    (nextElement W kind b w).2.1.blockElements = b.blockElements := by
  cases h : b.advance with
  | none =>
    rw [nextElement_of_end h]
    exact Block.blockElements_restart _
  | some b' =>
    rw [nextElement_of_advance h]
    exact Block.blockElements_advance h

theorem blockElements_blockScriptRet {ret : BitVec 32} :
    (blockScriptRet W kind ret b w).2.1.blockElements = b.blockElements := by
  unfold blockScriptRet
  split
  · exact blockElements_nextElement
  · rfl

/-- Going on leaves the elements as they are, and so does returning. -/
theorem blockElements_answered_inl {ret : BitVec 32} {s : Block ε × ω}
    (h : answered W asked kind ret b w = .inl s) : s.1.blockElements = b.blockElements := by
  obtain ⟨-, -, hnext⟩ := answered_inl h
  have hkept : (nextElement W kind b w).2.1.blockElements = _ := blockElements_nextElement
  rwa [hnext] at hkept

theorem blockElements_answered_inr {ret : BitVec 32} {r : BitVec 32 × Block ε × ω}
    (h : answered W asked kind ret b w = .inr r) : r.2.1.blockElements = b.blockElements := by
  rcases answered_inr h with ⟨-, rfl⟩ | ⟨-, -, rfl⟩ | ⟨-, -, hnext⟩
  · exact blockElements_blockScriptRet
  · exact blockElements_blockScriptRet
  · have hkept : (nextElement W kind b w).2.1.blockElements = _ := blockElements_nextElement
    rwa [hnext] at hkept

/-- To the next element of the round, or into the next round. -/
theorem nextElement_false {s : Block ε × ω} (h : nextElement W kind b w = (false, s)) :
    s.1.loopCount = b.loopCount ∧ s.1.rest.length < b.rest.length ∨
      s.1.loopCount = b.loopCount + 1 ∧
        (endLoop W kind (b.loopCount + 1) w).1 = false := by
  cases hadvance : b.advance with
  | none =>
    rw [nextElement_of_end hadvance, getNextLoop_fst] at h
    obtain ⟨hended, rfl⟩ := Prod.mk.inj h
    right
    refine ⟨?_, hended⟩
    unfold Block.restart
    split <;> simp only [hended, Bool.false_eq_true, if_false]
  | some b' =>
    rw [nextElement_of_advance hadvance] at h
    obtain ⟨-, rfl⟩ := Prod.mk.inj h
    left
    unfold Block.advance at hadvance
    cases hrest : b.rest with
    | nil => simp only [hrest, reduceCtorEq] at hadvance
    | cons e es =>
      simp only [hrest, Option.some.injEq] at hadvance
      subst hadvance
      exact ⟨rfl, Nat.lt_succ_self _⟩

end

/-! ## Blocks that count -/

/-- No round without an end: what is left of the rounds and of the present one becomes
less with every element. -/
theorem exists_last {m : Nat} (hbound : kind.bound = some m) (s : Block (Element ω) × ω) :
    ∃ s', Comes W asked kind s s' ∧ ¬∃ s'', Passes W asked kind s' s'' := by
  have hwf : WellFounded (Prod.Lex (· < · : Nat → Nat → Prop) (· < · : Nat → Nat → Prop)) :=
    WellFounded.prod_lex Nat.lt_wfRel.wf Nat.lt_wfRel.wf
  induction hm : (m - s.1.loopCount, s.1.rest.length) using hwf.induction generalizing s with
  | _ measure ih =>
    by_cases hlast : ∃ s', Passes W asked kind s s'
    · obtain ⟨s', hpasses⟩ := hlast
      obtain ⟨ret, currElement, w, -, hanswered⟩ := id hpasses
      have hless : Prod.Lex (· < ·) (· < ·) (m - s'.1.loopCount, s'.1.rest.length) measure := by
        rw [← hm]
        obtain ⟨-, -, hnext⟩ := answered_inl hanswered
        rcases nextElement_false hnext with ⟨hcount, hrest⟩ | ⟨hcount, hended⟩
        · rw [hcount]
          exact .right _ hrest
        · have hlt : s.1.loopCount + 1 < m := by
            by_contra hge
            rw [endLoop_of_bound hbound (Nat.not_lt.mp hge)] at hended
            cases hended
          rw [hcount]
          exact .left _ _ (by show m - (s.1.loopCount + 1) < m - s.1.loopCount; omega)
      obtain ⟨s'', hcomes, hlast⟩ := ih _ hless s' rfl
      exact ⟨s'', .head hpasses hcomes, hlast⟩
    · exact ⟨s, .refl, hlast⟩

/-! ## Nesting -/

/-- Blocks nested `d` deep at most, of kinds in `K`; empty ones only if `hole`. -/
inductive Within (K : Kind ω → Prop) (hole : Prop) : Nat → Element ω → Prop
  | simple {d answer} : Within K hole d (.simple answer)
  | empty {d kind loopCount} (h : hole) : Within K hole d (.empty kind loopCount)
  | block {d kind b} (hkind : K kind) (h : ∀ e ∈ Block.blockElements b, Within K hole d e) :
      Within K hole (d + 1) (.block kind b)
  | acquired {d state block elseBlock} (h : Within K hole d block)
      (helse : ∀ e, elseBlock = some e → Within K hole d e) :
      Within K hole (d + 1) (.acquired state block elseBlock)

variable {K : Kind ω → Prop} {hole : Prop}

theorem Within.mono (h : Within K hole d e) {d' : Nat} (hle : d ≤ d') : Within K hole d' e := by
  induction h generalizing d' with
  | simple => exact .simple
  | empty h => exact .empty h
  | block hkind _ ih =>
    obtain ⟨d', rfl⟩ := Nat.exists_eq_add_of_lt hle
    exact .block hkind fun e he => ih e he (by omega)
  | acquired _ _ ih ihelse =>
    obtain ⟨d', rfl⟩ := Nat.exists_eq_add_of_lt hle
    exact .acquired (ih (by omega)) fun e he => ihelse e he (by omega)

mutual

theorem exists_within : (e : Element ω) → ∃ d, Within (fun _ => True) True d e
  | .simple _ => ⟨0, .simple⟩
  | .empty _ _ => ⟨0, .empty trivial⟩
  | .block _ ⟨_, passed, currElement, rest⟩ => by
    obtain ⟨d₁, h₁⟩ := exists_within_all passed
    obtain ⟨d₂, h₂⟩ := exists_within currElement
    obtain ⟨d₃, h₃⟩ := exists_within_all rest
    refine ⟨max d₁ (max d₂ d₃) + 1, .block trivial ?_⟩
    intro e he
    rcases List.mem_append.mp he with he | he
    · exact (h₁ e he).mono (by omega)
    · rcases List.mem_cons.mp he with rfl | he
      · exact h₂.mono (by omega)
      · exact (h₃ e he).mono (by omega)
  | .acquired _ block none => by
    obtain ⟨d, h⟩ := exists_within block
    exact ⟨d + 1, .acquired h fun e he => by cases he⟩
  | .acquired _ block (some e) => by
    obtain ⟨d₁, h₁⟩ := exists_within block
    obtain ⟨d₂, h₂⟩ := exists_within e
    refine ⟨max d₁ d₂ + 1, .acquired (h₁.mono (by omega)) ?_⟩
    intro e' he'
    obtain rfl := Option.some.inj he'
    exact h₂.mono (by omega)

theorem exists_within_all : (es : List (Element ω)) → ∃ d, ∀ e ∈ es, Within (fun _ => True) True d e
  | [] => ⟨0, fun e he => by cases he⟩
  | e :: es => by
    obtain ⟨d₁, h₁⟩ := exists_within e
    obtain ⟨d₂, h₂⟩ := exists_within_all es
    refine ⟨max d₁ d₂, ?_⟩
    intro e' he'
    rcases List.mem_cons.mp he' with rfl | he'
    · exact h₁.mono (by omega)
    · exact (h₂ e' he').mono (by omega)

end

/-- The answer of the present element puts an element as deep in its place. -/
theorem within_currElement {b : Block (Element ω)} {currElement : Element ω}
    (h : ∀ e ∈ b.blockElements, Within K hole d e) (hcurr : Within K hole d currElement) :
    ∀ e ∈ Block.blockElements { b with currElement }, Within K hole d e := by
  intro e he
  rcases List.mem_append.mp he with he | he
  · exact h e (List.mem_append_left _ he)
  · rcases List.mem_cons.mp he with rfl | he
    · exact hcurr
    · exact h e (List.mem_append_right _ (List.mem_cons_of_mem _ he))

theorem mem_blockElements_currElement (b : Block (Element ω)) : b.currElement ∈ b.blockElements :=
  List.mem_append_right _ (List.mem_cons_self ..)

/-- A call leaves the blocks nested `d` deep as deep. -/
def Kept (W : Surroundings ω) (K : Kind ω → Prop) (hole : Prop) (d : Nat) : Prop :=
  ∀ asked e w (r : BitVec 32 × Element ω × ω), Calls W asked e w r → Within K hole d e → Within K hole d r.2.1

theorem within_of_comes (hkept : Kept W K hole d) {s s' : Block (Element ω) × ω}
    (h : Comes W asked kind s s') (hs : ∀ e ∈ s.1.blockElements, Within K hole d e) :
    ∀ e ∈ s'.1.blockElements, Within K hole d e := by
  induction h with
  | refl => exact hs
  | tail _ hpasses ih =>
    obtain ⟨ret, currElement, w, hcall, hanswered⟩ := hpasses
    rw [blockElements_answered_inl hanswered]
    exact within_currElement ih
      (hkept _ _ _ _ hcall (ih _ (mem_blockElements_currElement _)))

theorem within_of_ends (hkept : Kept W K hole d) {s : Block (Element ω) × ω}
    {r : BitVec 32 × Block (Element ω) × ω} (h : Ends W asked kind s r)
    (hs : ∀ e ∈ s.1.blockElements, Within K hole d e) : ∀ e ∈ r.2.1.blockElements, Within K hole d e := by
  obtain ⟨ret, currElement, w, hcall, hanswered⟩ := h
  rw [blockElements_answered_inr hanswered]
  exact within_currElement hs (hkept _ _ _ _ hcall (hs _ (mem_blockElements_currElement _)))

/-- An empty block stays what it is. -/
theorem within_of_calls_empty {asked : Asked} {kind : Kind ω} {loopCount d : Nat} {w : ω}
    {r : BitVec 32 × Element ω × ω} (hhole : hole) (h : Calls W asked (.empty kind loopCount) w r) :
    Within K hole d r.2.1 := by
  cases asked with
  | nextCommand client =>
    obtain rfl := calls_empty.mp h
    exact .empty hhole
  | defnextCommand => exact absurd h not_calls_empty

theorem kept (d : Nat) : Kept W K hole d := by
  induction d with
  | zero =>
    intro asked e w r hcall h
    cases h with
    | simple =>
      obtain rfl := calls_simple.mp hcall
      exact .simple
    | empty hhole => exact within_of_calls_empty hhole hcall
  | succ d ih =>
    intro asked e w r hcall h
    cases h with
    | simple =>
      obtain rfl := calls_simple.mp hcall
      exact .simple
    | empty hhole => exact within_of_calls_empty hhole hcall
    | @block _ kind b hkind hb =>
      cases hended : (enter W asked kind b.loopCount w).1 with
      | true =>
        obtain rfl := (calls_ended hended).mp hcall
        exact .block hkind hb
      | false =>
        obtain ⟨s, ret, b', w', hcomes, hends, rfl⟩ := (calls_entered hended).mp hcall
        exact .block hkind (within_of_ends ih hends (within_of_comes ih hcomes hb))
    | @acquired _ state block elseBlock hblock helse =>
      by_cases hok : (checkState W state w).1 = .acqOk
      · obtain ⟨r', hr', rfl⟩ := (calls_acqOk hok).mp hcall
        exact .acquired (ih _ _ _ _ hr' hblock) helse
      · cases elseBlock with
        | none =>
          obtain rfl := (calls_noElse hok).mp hcall
          exact .acquired hblock helse
        | some e =>
          obtain ⟨r', hr', rfl⟩ := (calls_else hok).mp hcall
          refine .acquired hblock ?_
          intro e' he'
          obtain rfl := Option.some.inj he'
          exact ih _ _ _ _ hr' (helse e rfl)

/-! ## Calls that do not return -/

/-- The call returns after finitely many inner steps. -/
def Returns (W : Surroundings ω) (asked : Asked) (e : Element ω) (w : ω) : Prop :=
  ∃ r, Calls W asked e w r

/-- Where a call does not return: an empty block that is asked by `defnextCommand`, a block
that does not count and has nothing to send in all its rounds, or a block that comes to
such a block among its elements. -/
inductive Stuck (W : Surroundings ω) : Asked → Element ω → ω → Prop
  | empty {kind loopCount w} : Stuck W .defnextCommand (.empty kind loopCount) w
  | endless {asked kind b w} (hin : (enter W asked kind b.loopCount w).1 = false)
      (hbound : kind.bound = none)
      (h : ∀ s, Comes W asked kind (b, (enter W asked kind b.loopCount w).2) s →
        ∃ s', Passes W asked kind s s') :
      Stuck W asked (.block kind b) w
  | inner {asked kind b w s} (hin : (enter W asked kind b.loopCount w).1 = false)
      (hcomes : Comes W asked kind (b, (enter W asked kind b.loopCount w).2) s)
      (h : Stuck W asked s.1.currElement s.2) : Stuck W asked (.block kind b) w
  | acqOk {asked state block elseBlock w} (hok : (checkState W state w).1 = .acqOk)
      (h : Stuck W asked block (checkState W state w).2) :
      Stuck W asked (.acquired state block elseBlock) w
  | elseBlock {asked state block e w} (hok : (checkState W state w).1 ≠ .acqOk)
      (h : Stuck W .defnextCommand e (checkState W state w).2) :
      Stuck W asked (.acquired state block (some e)) w

theorem not_returns_of_stuck (h : Stuck W asked e w) : ¬Returns W asked e w := by
  intro hreturns
  obtain ⟨r, hcall⟩ := hreturns
  induction h generalizing r with
  | empty => exact not_calls_empty hcall
  | endless hin hbound h =>
    obtain ⟨s, ret, b', w', hcomes, hends, rfl⟩ := (calls_entered hin).mp hcall
    obtain ⟨s', hpasses⟩ := h s hcomes
    exact hpasses.not_ends hends
  | @inner asked kind b w s hin hcomes _ ih =>
    obtain ⟨s', ret, b', w', hcomes', hends, rfl⟩ := (calls_entered hin).mp hcall
    -- the present element at `s` has answered: the loop has gone on from it or ended with it
    have hanswers : ∃ r, Calls W asked s.1.currElement s.2 r := by
      rcases passes_or_last hcomes hcomes' hends with ⟨s'', hpasses⟩ | rfl
      · obtain ⟨ret, currElement, w, hcall, -⟩ := hpasses
        exact ⟨_, hcall⟩
      · obtain ⟨ret, currElement, w, hcall, -⟩ := hends
        exact ⟨_, hcall⟩
    obtain ⟨r, hr⟩ := hanswers
    exact ih r hr
  | acqOk hok _ ih =>
    obtain ⟨r', hr', -⟩ := (calls_acqOk hok).mp hcall
    exact ih r' hr'
  | elseBlock hok _ ih =>
    obtain ⟨r', hr', -⟩ := (calls_else hok).mp hcall
    exact ih r' hr'

/-- A block all whose elements return where it comes to them. -/
theorem block_returns {b : Block (Element ω)} (hin : (enter W asked kind b.loopCount w).1 = false)
    (hstuck : ¬Stuck W asked (.block kind b) w)
    (hinner : ∀ s, Comes W asked kind (b, (enter W asked kind b.loopCount w).2) s →
      Returns W asked s.1.currElement s.2) :
    Returns W asked (.block kind b) w := by
  have hlast : ∃ s, Comes W asked kind (b, (enter W asked kind b.loopCount w).2) s ∧
      ¬∃ s', Passes W asked kind s s' := by
    cases hbound : kind.bound with
    | none =>
      by_contra hnone
      refine hstuck (.endless hin hbound fun s hcomes => ?_)
      by_contra hlast
      exact hnone ⟨s, hcomes, hlast⟩
    | some m => exact exists_last hbound _
  obtain ⟨s, hcomes, hlast⟩ := hlast
  obtain ⟨r, hr⟩ := hinner s hcomes
  rcases passes_or_ends hr with hpasses | ⟨⟨ret, b', w'⟩, hends⟩
  · exact absurd hpasses hlast
  · exact ⟨(ret, .block kind b', w'), (calls_entered hin).mpr ⟨s, ret, b', w', hcomes, hends, rfl⟩⟩

theorem empty_returns {kind : Kind ω} {loopCount : Nat} {w : ω}
    (hstuck : ¬Stuck W asked (.empty kind loopCount) w) :
    Returns W asked (.empty kind loopCount) w := by
  cases asked with
  | nextCommand client => exact ⟨_, calls_empty.mpr rfl⟩
  | defnextCommand => exact absurd .empty hstuck

theorem returns_of_not_stuck (h : Within K hole d e) (hstuck : ¬Stuck W asked e w) :
    Returns W asked e w := by
  -- on the depth and not on the element: a call changes the elements, but not how deep they are
  induction d generalizing asked e w with
  | zero =>
    cases h with
    | simple => exact ⟨_, calls_simple.mpr rfl⟩
    | empty => exact empty_returns hstuck
  | succ d ih =>
    cases h with
    | simple => exact ⟨_, calls_simple.mpr rfl⟩
    | empty => exact empty_returns hstuck
    | @block _ kind b hkind hb =>
      cases hin : (enter W asked kind b.loopCount w).1 with
      | true => exact ⟨_, (calls_ended hin).mpr rfl⟩
      | false =>
        refine block_returns hin hstuck fun s hcomes => ?_
        have hdeep := within_of_comes (kept d) hcomes hb
        exact ih (hdeep _ (mem_blockElements_currElement _)) fun h => hstuck (.inner hin hcomes h)
    | @acquired _ state block elseBlock hblock helse =>
      by_cases hok : (checkState W state w).1 = .acqOk
      · obtain ⟨r, hr⟩ := ih hblock fun h => hstuck (.acqOk hok h)
        exact ⟨_, (calls_acqOk hok).mpr ⟨r, hr, rfl⟩⟩
      · cases elseBlock with
        | none => exact ⟨_, (calls_noElse hok).mpr rfl⟩
        | some e =>
          obtain ⟨r, hr⟩ := ih (helse e rfl) fun h => hstuck (.elseBlock hok h)
          exact ⟨_, (calls_else hok).mpr ⟨r, hr, rfl⟩⟩

/-- Nothing is acquired and no exposure is queued; the state is the list of the signals
sent. -/
def signals : Surroundings (List Int) where
  scriptLoopCount _ := 0
  acquireState sent := (0, sent)
  currSod sent := (0, sent)
  queExpNum _ := none
  noCommand sent := sent

/-- `ElementSendSignal::defnextCommand` -/
def sendSignal (sig : Int) : Element (List Int) :=
  .simple fun _ sent => (NextCommand.next, sig :: sent)

end Rts2.Script.Blocks
