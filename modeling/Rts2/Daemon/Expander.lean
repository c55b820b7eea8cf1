import Mathlib.Data.List.TakeWhile
import Rts2.Connection.Params
import Rts2.Lib.Cut
import Rts2.Lib.Strtod

/-! # Expanding a pattern

`Expander::expand` goes over a pattern with one iterator and writes to one stream, whose width and
fill character an item sets for itself. A character stands for a byte. -/
namespace Rts2.Expander
open Rts2.Lib.Strtod (isspace)

/-! ## The stream -/

/-- An `ostringstream` with its formatting. -/
structure Stream where
  text : List Char
  width : Int
  fill : Char
  deriving DecidableEq

/-- A text filled up to a width. -/
def padded (width : Int) (fill : Char) (s : List Char) : List Char :=
  List.replicate (width.toNat - s.length) fill ++ s

/-- `<<`, which sets the width back. -/
def Stream.put (ret : Stream) (s : List Char) : Stream :=
  { ret with text := ret.text ++ padded ret.width ret.fill s, width := 0 }

def Stream.setw (ret : Stream) (width : Int) : Stream := { ret with width }

/-! ## The scanner -/

def isdigit (c : Char) : Bool := c.isDigit

def isalnum (c : Char) : Bool := c.isAlphanum

/-- The characters of a name behind `@`. -/
def nameChar (c : Char) : Bool := isalnum c || c = '_' || c = '-' || c = '.' || c = ':'

/-- `length` and `fill` of the class. -/
structure Formating where
  length : Int
  fill : Char
  deriving DecidableEq

/-- The width that digits stand for; an `int`. -/
def lengthOf (digits : List Char) : Int :=
  digits.foldl (fun length c => Connection.toInt32 (length * 10 + (c.toNat - 48 : Nat))) 0

/-- `Expander::getFormating`: the members are set, the digits are passed. -/
def getFormating (s : List Char) : Formating :=
  ⟨lengthOf (s.takeWhile isdigit), if s.head? = some '0' then '0' else ' '⟩

/-- What `getFormating` does to the stream. -/
def Stream.setFormating (ret : Stream) (format : Formating) : Stream :=
  let ret := { ret with fill := format.fill }
  if 0 < format.length then ret.setw format.length else ret

def isAlphaNum (ch : Char) : Bool :=
  isalnum ch || isspace ch ||
    ['_', '+', '-', '.', '|', '(', ')', '\x7b', '\x7d', ':', '=', '\x27', '"', ',', '\x60', '|',
      '[', ']', '\x00'].contains ch

def replaceNonAlpha (s : List Char) (onlyAlphaNum : Bool) : List Char :=
  if onlyAlphaNum then s.map fun ch => if isAlphaNum ch then ch else '_' else s

/-- The virtual functions `expandVariable`, on the members of the class; the first gets the length
of the text so far and may change whether letters are replaced. -/
structure Variables (σ ε : Type) where
  expandVariable : Formating → Char → Nat → Bool → σ → Except ε (List Char × Bool × σ)
  expandName : List Char → σ → Except ε (List Char × σ)

inductive Result (σ ε : Type) where
  | returned (text : List Char) (members : σ)
  | threw (e : ε)
  /-- The iterator has moved past the end. -/
  | pastEnd
  | running

/-- The loop of `Expander::expand`, a turn for each unit of fuel. -/
def expandLoop {σ ε : Type} (vars : Variables σ ε) (onlyAlphaNum : Bool) :
    Nat → σ → Stream → List Char → Result σ ε
  | _, members, ret, [] => .returned ret.text members
  | 0, _, _, _ :: _ => .running
  | fuel + 1, members, ret, c :: s =>
    if c = '%' then
      let format := getFormating s
      let ret := ret.setFormating format
      match s.dropWhile isdigit with
      | [] => .pastEnd
      | var :: s =>
        match vars.expandVariable format var ret.text.length onlyAlphaNum members with
        | .error e => .threw e
        | .ok (ex, rep, members) =>
          let ret := if ex ≠ [] then ret.put (replaceNonAlpha ex rep) else ret.setw 0
          expandLoop vars onlyAlphaNum fuel members ret s
    else if c = '@' then
      let ret := ret.setFormating (getFormating s)
      let s := s.dropWhile isdigit
      match vars.expandName (s.takeWhile nameChar) members with
      | .error e => .threw e
      | .ok (ex, members) =>
        expandLoop vars onlyAlphaNum fuel members (ret.put (replaceNonAlpha ex onlyAlphaNum))
          (s.dropWhile nameChar)
    else expandLoop vars onlyAlphaNum fuel members (ret.put [c]) s

/-- `Expander::expand` -/
def expand {σ ε : Type} (vars : Variables σ ε) (onlyAlphaNum : Bool) (members : σ)
    (expression : List Char) : Result σ ε :=
  expandLoop vars onlyAlphaNum expression.length members ⟨[], 0, ' '⟩ expression

/-! ## Items -/

inductive Item where
  | literal (c : Char)
  | percent (digits : List Char) (var : Char)
  | named (digits name : List Char)

/-- How an item is written. -/
def Item.pattern : Item → List Char
  | .literal c => [c]
  | .percent digits var => '%' :: (digits ++ [var])
  | .named digits name => '@' :: (digits ++ name)

def Item.Proper : Item → Prop
  | .literal c => c ≠ '%' ∧ c ≠ '@'
  | .percent digits var => (∀ d ∈ digits, isdigit d = true) ∧ isdigit var = false
  | .named digits name => (∀ d ∈ digits, isdigit d = true) ∧ (∀ c ∈ name, nameChar c = true) ∧
      ∀ c ∈ name.head?, isdigit c = false

/-- A name goes as far as it can. -/
def Item.EndsBefore (rest : List Char) : Item → Prop
  | .literal _ => True
  | .percent _ _ => True
  | .named _ _ => ∀ c ∈ rest.head?, nameChar c = false

/-- A pattern and its items. -/
inductive Written : List Char → List Item → Prop
  | nil : Written [] []
  | cons {item : Item} {rest : List Char} {items : List Item} : item.Proper →
      item.EndsBefore rest → Written rest items → Written (item.pattern ++ rest) (item :: items)

/-- The width and the fill character of an item are those of its digits. -/
def Formating.ofDigits (digits : List Char) : Formating :=
  ⟨lengthOf digits, if digits.head? = some '0' then '0' else ' '⟩

section
variable {σ ε : Type} (vars : Variables σ ε) (onlyAlphaNum : Bool)

/-- What an item stands for, behind a text of the length `beg`. -/
def renderItem (members : σ) (beg : Nat) : Item → Except ε (List Char × σ)
  | .literal c => .ok ([c], members)
  | .percent digits var =>
    let format := Formating.ofDigits digits
    match vars.expandVariable format var beg onlyAlphaNum members with
    | .error e => .error e
    | .ok (ex, rep, members) =>
      .ok (if ex ≠ [] then padded format.length format.fill (replaceNonAlpha ex rep) else [],
        members)
  | .named digits name =>
    let format := Formating.ofDigits digits
    match vars.expandName name members with
    | .error e => .error e
    | .ok (ex, members) =>
      .ok (padded format.length format.fill (replaceNonAlpha ex onlyAlphaNum), members)

/-- One item after the other, each behind what the ones before it stand for. -/
def render : σ → List Char → List Item → Except ε (List Char × σ)
  | members, text, [] => .ok (text, members)
  | members, text, item :: items =>
    match renderItem vars onlyAlphaNum members text.length item with
    | .error e => .error e
    | .ok (part, members) => render members (text ++ part) items

/-- The expansion ends within the pattern; what it returns are the items, each on its own. -/
structure Exact (members : σ) (expression : List Char) : Prop where
  ends : expand vars onlyAlphaNum members expression ≠ .running
  inside : expand vars onlyAlphaNum members expression ≠ .pastEnd
  text : ∀ text members', expand vars onlyAlphaNum members expression = .returned text members' →
    ∃ items, Written expression items ∧
      render vars onlyAlphaNum members [] items = .ok (text, members')

end

/-- The pattern is a `%` with no variable behind it, and something before it. -/
def OpenAt (expression pre : List Char) : Prop :=
  ∃ digits, expression = pre ++ '%' :: digits ∧ ∀ d ∈ digits, isdigit d = true

/-! ## One item -/

theorem isdigit_of_not_nameChar {c : Char} (h : nameChar c = false) : isdigit c = false := by
  by_contra hdigit
  have hd : c.isDigit = true := by simpa [isdigit] using hdigit
  simp [nameChar, isalnum, Char.isAlphanum, hd] at h

theorem getFormating_digits {digits rest : List Char} (hdigits : ∀ d ∈ digits, isdigit d = true)
    (hrest : ∀ c ∈ rest.head?, isdigit c = false) :
    getFormating (digits ++ rest) = Formating.ofDigits digits := by
  rw [getFormating, Formating.ofDigits, (Lib.cut hdigits hrest).1]
  congr 1
  cases digits with
  | nil =>
    have hzero : rest.head? ≠ some '0' := fun h => absurd (hrest '0' h) (by decide)
    rw [List.nil_append, if_neg hzero, if_neg (by simp)]
  | cons d digits => rfl

theorem setFormating_put {ret : Stream} (hwidth : ret.width = 0) (format : Formating)
    (s : List Char) : ((ret.setFormating format).put s).text =
      ret.text ++ padded format.length format.fill s := by
  unfold Stream.setFormating
  by_cases hpos : 0 < format.length
  · simp only [if_pos hpos]
    rfl
  · have hzero : format.length.toNat = 0 := Int.toNat_of_nonpos (by omega)
    simp only [if_neg hpos]
    simp [Stream.put, padded, hwidth, hzero]

theorem setFormating_text (ret : Stream) (format : Formating) :
    (ret.setFormating format).text = ret.text := by
  unfold Stream.setFormating
  split <;> rfl

section
variable {σ ε : Type} (vars : Variables σ ε) (onlyAlphaNum : Bool)

theorem expandLoop_literal {c : Char} (hc : c ≠ '%' ∧ c ≠ '@') (fuel : Nat) (members : σ)
    (ret : Stream) (rest : List Char) :
    expandLoop vars onlyAlphaNum (fuel + 1) members ret (c :: rest) =
      expandLoop vars onlyAlphaNum fuel members (ret.put [c]) rest := by
  rw [expandLoop, if_neg hc.1, if_neg hc.2]

theorem expandLoop_percent {digits : List Char} {var : Char}
    (hproper : (Item.percent digits var).Proper) (fuel : Nat) (members : σ) (ret : Stream)
    (rest : List Char) :
    (∀ e, vars.expandVariable (.ofDigits digits) var ret.text.length onlyAlphaNum members =
        .error e →
      expandLoop vars onlyAlphaNum (fuel + 1) members ret ('%' :: (digits ++ var :: rest)) =
        .threw e) ∧
    ∀ ex rep members', vars.expandVariable (.ofDigits digits) var ret.text.length onlyAlphaNum
        members = .ok (ex, rep, members') →
      expandLoop vars onlyAlphaNum (fuel + 1) members ret ('%' :: (digits ++ var :: rest)) =
        expandLoop vars onlyAlphaNum fuel members'
          (if ex ≠ [] then (ret.setFormating (.ofDigits digits)).put (replaceNonAlpha ex rep)
            else (ret.setFormating (.ofDigits digits)).setw 0) rest := by
  have hstop : ∀ c ∈ (var :: rest).head?, isdigit c = false := by
    rintro c ⟨⟩
    exact hproper.2
  have hformat := getFormating_digits hproper.1 hstop
  have hdrop := (Lib.cut hproper.1 hstop).2
  constructor
  · intro e hvar
    rw [expandLoop, if_pos rfl]
    simp only [hdrop, hformat, setFormating_text, hvar]
  · intro ex rep members' hvar
    rw [expandLoop, if_pos rfl]
    simp only [hdrop, hformat, setFormating_text, hvar]

theorem expandLoop_named {digits name rest : List Char}
    (hproper : (Item.named digits name).Proper)
    (hends : (Item.named digits name).EndsBefore rest) (fuel : Nat) (members : σ) (ret : Stream) :
    (∀ e, vars.expandName name members = .error e →
      expandLoop vars onlyAlphaNum (fuel + 1) members ret ('@' :: (digits ++ (name ++ rest))) =
        .threw e) ∧
    ∀ ex members', vars.expandName name members = .ok (ex, members') →
      expandLoop vars onlyAlphaNum (fuel + 1) members ret ('@' :: (digits ++ (name ++ rest))) =
        expandLoop vars onlyAlphaNum fuel members'
          ((ret.setFormating (.ofDigits digits)).put (replaceNonAlpha ex onlyAlphaNum)) rest := by
  have hstop : ∀ c ∈ (name ++ rest).head?, isdigit c = false := by
    intro c hc
    cases name with
    | nil => exact isdigit_of_not_nameChar (hends c hc)
    | cons a name => exact hproper.2.2 c hc
  have hformat := getFormating_digits hproper.1 hstop
  have hdrop := (Lib.cut hproper.1 hstop).2
  obtain ⟨htake, hrest⟩ := Lib.cut hproper.2.1 hends
  constructor
  · intro e hname
    rw [expandLoop, if_neg (by decide), if_pos rfl]
    simp only [hdrop, htake, hname]
  · intro ex members' hname
    rw [expandLoop, if_neg (by decide), if_pos rfl]
    simp only [hdrop, hformat, htake, hrest, hname]

/-- A turn of the loop is an item. The width is 0 at its start and again at its end. -/
theorem expandLoop_item {item : Item} {rest : List Char} (hproper : item.Proper)
    (hends : item.EndsBefore rest) (fuel : Nat) (members : σ) {ret : Stream}
    (hwidth : ret.width = 0) :
    (∀ e, renderItem vars onlyAlphaNum members ret.text.length item = .error e →
      expandLoop vars onlyAlphaNum (fuel + 1) members ret (item.pattern ++ rest) = .threw e) ∧
    ∀ part members',
      renderItem vars onlyAlphaNum members ret.text.length item = .ok (part, members') →
      ∃ ret' : Stream, ret'.text = ret.text ++ part ∧ ret'.width = 0 ∧
        expandLoop vars onlyAlphaNum (fuel + 1) members ret (item.pattern ++ rest) =
          expandLoop vars onlyAlphaNum fuel members' ret' rest := by
  cases item with
  | literal c =>
    refine ⟨fun e h => (by cases h), fun part members' h => ?_⟩
    simp only [renderItem, Except.ok.injEq, Prod.mk.injEq] at h
    obtain ⟨rfl, rfl⟩ := h
    refine ⟨ret.put [c], ?_, rfl, expandLoop_literal vars onlyAlphaNum hproper fuel members ret rest⟩
    simp [Stream.put, padded, hwidth]
  | percent digits var =>
    obtain ⟨herror, hok⟩ := expandLoop_percent vars onlyAlphaNum hproper fuel members ret rest
    have hpattern : (Item.percent digits var).pattern ++ rest =
        '%' :: (digits ++ var :: rest) := by
      simp [Item.pattern]
    rw [hpattern]
    cases hvar : vars.expandVariable (.ofDigits digits) var ret.text.length onlyAlphaNum
        members with
    | error e =>
      simp only [renderItem, hvar]
      refine ⟨?_, fun part members' h => by cases h⟩
      rintro _ ⟨⟩
      exact herror e hvar
    | ok r =>
      obtain ⟨ex, rep, members₁⟩ := r
      simp only [renderItem, hvar, Except.ok.injEq, Prod.mk.injEq]
      refine ⟨fun e h => (by cases h), ?_⟩
      rintro part _ ⟨rfl, rfl⟩
      refine ⟨_, ?_, ?_, hok ex rep members₁ hvar⟩
      · by_cases hex : ex ≠ []
        · rw [if_pos hex, if_pos hex, setFormating_put hwidth]
        · rw [if_neg hex, if_neg hex, List.append_nil]
          exact setFormating_text ret _
      · split <;> rfl
  | named digits name =>
    obtain ⟨herror, hok⟩ := expandLoop_named vars onlyAlphaNum hproper hends fuel members ret
    have hpattern : (Item.named digits name).pattern ++ rest =
        '@' :: (digits ++ (name ++ rest)) := by
      simp [Item.pattern]
    rw [hpattern]
    cases hname : vars.expandName name members with
    | error e =>
      simp only [renderItem, hname]
      refine ⟨?_, fun part members' h => by cases h⟩
      rintro _ ⟨⟩
      exact herror e hname
    | ok r =>
      obtain ⟨ex, members₁⟩ := r
      simp only [renderItem, hname, Except.ok.injEq, Prod.mk.injEq]
      refine ⟨fun e h => (by cases h), ?_⟩
      rintro part _ ⟨rfl, rfl⟩
      exact ⟨_, setFormating_put hwidth _ _, rfl, hok ex members₁ hname⟩

/-! ## The loop -/

theorem Item.pattern_length (item : Item) : 1 ≤ item.pattern.length := by
  cases item with
  | literal c => exact le_rfl
  | percent digits var => exact Nat.succ_le_succ (Nat.zero_le _)
  | named digits name => exact Nat.succ_le_succ (Nat.zero_le _)

theorem Item.EndsBefore.before {item : Item} {rest tail : List Char}
    (h : item.EndsBefore (rest ++ tail)) : item.EndsBefore rest := by
  cases item with
  | literal c => trivial
  | percent digits var => trivial
  | named digits name =>
    intro c hc
    cases rest with
    | nil => cases hc
    | cons a rest => exact h c hc

theorem Item.EndsBefore.append {item : Item} {rest tail : List Char} (h : item.EndsBefore rest)
    (htail : ∀ c ∈ tail.head?, c = '%') : item.EndsBefore (rest ++ tail) := by
  cases item with
  | literal c => trivial
  | percent digits var => trivial
  | named digits name =>
    intro c hc
    cases rest with
    | nil =>
      rw [htail c hc]
      decide
    | cons a rest => exact h c hc

/-- Items are expanded one by one, whatever stands behind them. -/
theorem expandLoop_written {pattern tail : List Char} {items : List Item}
    (h : Written pattern items) (htail : ∀ c ∈ tail.head?, c = '%') :
    ∀ (fuel : Nat) (members : σ) (ret : Stream), ret.width = 0 →
      pattern.length + tail.length ≤ fuel →
      (∀ e, render vars onlyAlphaNum members ret.text items = .error e →
        expandLoop vars onlyAlphaNum fuel members ret (pattern ++ tail) = .threw e) ∧
      ∀ text members', render vars onlyAlphaNum members ret.text items = .ok (text, members') →
        ∃ fuel' ret', tail.length ≤ fuel' ∧ ret'.text = text ∧
          expandLoop vars onlyAlphaNum fuel members ret (pattern ++ tail) =
            expandLoop vars onlyAlphaNum fuel' members' ret' tail := by
  induction h with
  | nil =>
    intro fuel members ret _ hfuel
    refine ⟨fun e he => (by cases he), fun text members' hok => ?_⟩
    simp only [render, Except.ok.injEq, Prod.mk.injEq] at hok
    obtain ⟨rfl, rfl⟩ := hok
    exact ⟨fuel, ret, by simpa using hfuel, rfl, rfl⟩
  | @cons item rest items hproper hends _ ih =>
    intro fuel members ret hwidth hfuel
    have hlength := item.pattern_length
    rw [List.length_append] at hfuel
    obtain ⟨fuel, rfl⟩ : ∃ f, fuel = f + 1 := ⟨fuel - 1, by omega⟩
    obtain ⟨herror, hok⟩ := expandLoop_item vars onlyAlphaNum hproper
      (hends.append htail) fuel members hwidth
    rw [List.append_assoc]
    cases hitem : renderItem vars onlyAlphaNum members ret.text.length item with
    | error e =>
      simp only [render, hitem]
      refine ⟨?_, fun text members' hr => (by cases hr)⟩
      rintro _ ⟨⟩
      exact herror e hitem
    | ok r =>
      obtain ⟨part, members₁⟩ := r
      obtain ⟨ret₁, htext, hwidth₁, hloop⟩ := hok part members₁ hitem
      simp only [render, hitem]
      rw [hloop, ← htext]
      exact ih fuel members₁ ret₁ hwidth₁ (by omega)

/-- A pattern is made of items, or of items and a `%` with no variable. -/
theorem written_or_open (pattern : List Char) : (∃ items, Written pattern items) ∨
    ∃ pre items, OpenAt pattern pre ∧ Written pre items := by
  induction hlen : pattern.length using Nat.strong_induction_on generalizing pattern with
  | _ n ih =>
    -- an item in front of what is shorter
    have hcons : ∀ (item : Item) (rest : List Char), item.Proper → item.EndsBefore rest →
        pattern = item.pattern ++ rest → (∃ items, Written pattern items) ∨
          ∃ pre items, OpenAt pattern pre ∧ Written pre items := by
      intro item rest hproper hends hpattern
      have hlength := item.pattern_length
      have hshort : rest.length < n := by
        rw [← hlen, hpattern, List.length_append]
        omega
      rcases ih rest.length hshort rest rfl with ⟨items, hitems⟩ | ⟨pre, items, hopen, hitems⟩
      · exact .inl ⟨item :: items, hpattern ▸ .cons hproper hends hitems⟩
      · obtain ⟨digits, rfl, hdigits⟩ := hopen
        refine .inr ⟨item.pattern ++ pre, item :: items, ⟨digits, ?_, hdigits⟩,
          .cons hproper ?_ hitems⟩
        · rw [hpattern, List.append_assoc]
        · exact hends.before
    cases pattern with
    | nil => exact .inl ⟨[], .nil⟩
    | cons c s =>
      obtain ⟨digits, rest, rfl, hdigits, hrest⟩ := Lib.cut_exists isdigit s
      by_cases hpercent : c = '%'
      · subst hpercent
        cases rest with
        | nil =>
          refine .inr ⟨[], [], ⟨digits, ?_, hdigits⟩, .nil⟩
          rw [List.append_nil]
          rfl
        | cons var rest =>
          refine hcons (.percent digits var) rest ⟨hdigits, hrest var rfl⟩ trivial ?_
          simp [Item.pattern]
      by_cases hat : c = '@'
      · subst hat
        obtain ⟨name, rest, rfl, hname, hafter⟩ := Lib.cut_exists nameChar rest
        refine hcons (.named digits name) rest ⟨hdigits, hname, fun a ha => hrest a ?_⟩ hafter ?_
        · cases name with
          | nil => cases ha
          | cons b name => exact ha
        · simp [Item.pattern]
      · exact hcons (.literal c) (digits ++ rest) ⟨hpercent, hat⟩ trivial rfl

end

theorem expandLoop_open {σ ε : Type} (vars : Variables σ ε) (onlyAlphaNum : Bool)
    {digits : List Char} (hdigits : ∀ d ∈ digits, isdigit d = true) {fuel : Nat} (hfuel : fuel ≠ 0)
    (members : σ) (ret : Stream) :
    expandLoop vars onlyAlphaNum fuel members ret ('%' :: digits) = .pastEnd := by
  obtain ⟨fuel, rfl⟩ := Nat.exists_eq_succ_of_ne_zero hfuel
  have hdrop : digits.dropWhile isdigit = [] := List.dropWhile_eq_nil_iff.mpr hdigits
  rw [expandLoop, if_pos rfl]
  simp only [hdrop]

/-- **The expansion is right** if and only if the pattern is made of items, or an expansion throws
before a `%` at its end that has no variable. -/
theorem expand_exact_iff {σ ε : Type} (vars : Variables σ ε) (onlyAlphaNum : Bool) (members : σ)
    (expression : List Char) : Exact vars onlyAlphaNum members expression ↔
      (∃ items, Written expression items) ∨ ∃ pre items e, OpenAt expression pre ∧
        Written pre items ∧ render vars onlyAlphaNum members [] items = .error e := by
  have hthrew : ∀ e, expand vars onlyAlphaNum members expression = .threw e →
      Exact vars onlyAlphaNum members expression := by
    intro e he
    refine ⟨?_, ?_, fun text members' hr => ?_⟩
    all_goals rw [he] at *
    · simp
    · simp
    · cases hr
  constructor
  · intro h
    rcases written_or_open expression with hclosed | ⟨pre, items, hopen, hpre⟩
    · exact .inl hclosed
    refine .inr ?_
    obtain ⟨digits, rfl, hdigits⟩ := hopen
    cases hrender : render vars onlyAlphaNum members [] items with
    | error e => exact ⟨pre, items, e, ⟨digits, rfl, hdigits⟩, hpre, hrender⟩
    | ok r =>
      obtain ⟨text, members'⟩ := r
      have htail : ∀ c ∈ ('%' :: digits).head?, c = '%' := by
        rintro c ⟨⟩
        rfl
      obtain ⟨fuel, ret, hfuel, -, hloop⟩ := (expandLoop_written vars onlyAlphaNum hpre htail
        (pre ++ '%' :: digits).length members ⟨[], 0, ' '⟩ rfl (by simp)).2 text members' hrender
      have hpos : fuel ≠ 0 := by
        rw [List.length_cons] at hfuel
        omega
      exact absurd (hloop.trans (expandLoop_open vars onlyAlphaNum hdigits hpos members' ret))
        h.inside
  · rintro (⟨items, hwritten⟩ | ⟨pre, items, e, ⟨digits, rfl, hdigits⟩, hpre, hrender⟩)
    · have htail : ∀ c ∈ ([] : List Char).head?, c = '%' := by simp
      obtain ⟨herror, hok⟩ := expandLoop_written vars onlyAlphaNum hwritten htail expression.length members ⟨[], 0, ' '⟩ rfl le_rfl
      rw [List.append_nil] at herror hok
      cases hrender : render vars onlyAlphaNum members [] items with
      | error e => exact hthrew e (herror e hrender)
      | ok r =>
        obtain ⟨text, members'⟩ := r
        obtain ⟨fuel, ret, -, htext, hloop⟩ := hok text members' hrender
        have hreturned : expand vars onlyAlphaNum members expression = .returned text members' := by
          rw [← htext, expand, hloop, expandLoop]
        refine ⟨?_, ?_, fun text' members₁ hr => ?_⟩
        · rw [hreturned]
          simp
        · rw [hreturned]
          simp
        · rw [hreturned] at hr
          cases hr
          exact ⟨items, hwritten, hrender⟩
    · have htail : ∀ c ∈ ('%' :: digits).head?, c = '%' := by
        rintro c ⟨⟩
        rfl
      exact hthrew e ((expandLoop_written vars onlyAlphaNum hpre htail (pre ++ '%' :: digits).length members
        ⟨[], 0, ' '⟩ rfl (by simp)).1 e hrender)

/-! ## The class -/

/-- A `struct tm`. -/
structure Tm where
  year : Int
  mon : Int
  mday : Int
  yday : Int
  hour : Int
  min : Int
  sec : Int
  isdst : Int

/-- The members of `Expander`. `dateObs` and `julian` are the texts that `getDateObs` and libnova
make of `expandTv`. -/
structure Members where
  epochId : Int
  numPos : Int
  numLenght : Int
  numFill : Char
  localDate : Tm
  utDate : Tm
  nightDate : Tm
  useLocalDate : Bool
  tvSec : Int
  tvUsec : Int
  tzname : List Char × List Char
  dateObs : List Char
  julian : List Char

def Members.expandDate (m : Members) : Tm := if m.useLocalDate then m.localDate else m.utDate

def printed (n : Int) : List Char :=
  if n < 0 then '-' :: Nat.toDigits 10 n.natAbs else Nat.toDigits 10 n.natAbs

/-- A number with zeros in front; all the `get...String` are such. -/
def zeros (width n : Int) : List Char := padded width '0' (printed n)

def getYearString (year : Int) : List Char := zeros 4 year

def getShortYearString (year : Int) : List Char := zeros 2 (year.tmod 100)

def getMonthString (month : Int) : List Char := zeros 2 month

def getDayString (day : Int) : List Char := zeros 2 day

def Members.getEpochString (m : Members) : List Char := zeros 3 m.epochId

def Members.getYDayString (m : Members) : List Char := zeros 3 m.expandDate.yday

def Members.getHourString (m : Members) : List Char := zeros 2 m.expandDate.hour

def Members.getMinString (m : Members) : List Char := zeros 2 m.expandDate.min

def Members.getSecString (m : Members) : List Char := zeros 2 m.expandDate.sec

def Members.getMSecString (m : Members) : List Char := zeros 3 (m.tvUsec.tdiv 1000)

def Members.getNightString (m : Members) : List Char :=
  getYearString (m.nightDate.year + 1900) ++ getMonthString (m.nightDate.mon + 1) ++
    getDayString m.nightDate.mday

/-- "you cannot use multiple u strings" -/
inductive Error where
  | multipleU
  deriving DecidableEq

/-- `Expander::expandVariable` of a character. -/
def Members.expandVariable (format : Formating) (var : Char) (beg : Nat) (rep : Bool)
    (m : Members) : Except Error (List Char × Bool × Members) :=
  if var = 'u' then
    if 0 ≤ m.numPos then .error .multipleU
    else .ok ([], rep,
      { m with
        numPos := Connection.toInt32 beg, numLenght := format.length, numFill := format.fill })
  else if var = 'U' then .ok ([], rep, { m with useLocalDate := false })
  else if var = 'L' then .ok ([], rep, { m with useLocalDate := true })
  else .ok (match var with
    | '%' => ['%']
    | 'y' => getYearString (m.expandDate.year + 1900)
    | 'x' => getShortYearString (m.expandDate.year + 1900)
    | 'A' => m.dateObs
    | 'a' => m.getYDayString
    | 'C' => printed m.tvSec
    | 'J' => m.julian
    | 'N' => m.getNightString
    | 'm' => getMonthString (m.expandDate.mon + 1)
    | 'd' => getDayString m.expandDate.mday
    | 'e' => m.getEpochString
    | 'H' => m.getHourString
    | 'M' => m.getMinString
    | 'S' => m.getSecString
    | 's' => m.getMSecString
    | 'Z' => if 0 < m.expandDate.isdst then m.tzname.2 else m.tzname.1
    | 'Y' => getYearString (m.nightDate.year + 1900)
    | 'X' => getShortYearString (m.nightDate.year + 1900)
    | 'O' => getMonthString (m.nightDate.mon + 1)
    | 'D' => getDayString m.nightDate.mday
    | var => ['%', var], rep, m)

/-- `Expander::expandVariable` of a name. -/
def Members.expandName (expression : List Char) (m : Members) :
    Except Error (List Char × Members) := .ok ('@' :: expression, m)

/-- The virtual functions of the class itself. -/
def classVariables : Variables Members Error := ⟨Members.expandVariable, Members.expandName⟩

/-- `Expander::expand`, which begins with `num_pos = -1`. -/
def Members.expand (m : Members) (expression : List Char) (onlyAlphaNum : Bool) :
    Result Members Error :=
  Expander.expand classVariables onlyAlphaNum { m with numPos := -1 } expression

/-- Second of June 2017, 21:50. -/
def june : Tm := ⟨117, 5, 2, 152, 21, 50, 0, 0⟩

def juneMembers : Members :=
  ⟨-1, -1, 0, ' ', june, june, june, false, 1496440200, 777, ([], []), [], []⟩

/-- A pattern that ends in `%`. -/
theorem not_exact_percent :
    juneMembers.expand ['1', '0', '0', '%'] false = .pastEnd ∧
      ¬ Exact classVariables false juneMembers ['1', '0', '0', '%'] :=
  ⟨rfl, fun h => h.inside rfl⟩

end Rts2.Expander
