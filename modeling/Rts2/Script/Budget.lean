import Rts2.Script.Reading

/-! # The reader with a budget

`parseScript` gives each loop of the reader so many turns, and lets a loop that has used
them up end as if the text had ended. Here such a loop ends the whole reader without an
answer. For every text it does not come to that: a loop that goes on has taken at least a
byte. -/
namespace Rts2.Script.Parse.Budget
open Rts2.Connection

/-- An answer or a fault; `none` when the budget is used up. -/
abbrev Reading (α : Type) := ExceptT ParsingError Option α

/-- The budget was enough. -/
def answer {α : Type} (r : Except ParsingError α) : Reading α := ExceptT.mk (some r)

theorem answer_bind {α β : Type} (r : Except ParsingError α) (f : α → Reading β) :
    (answer r >>= f) =
      match r with
      | .ok a => f a
      | .error fault => answer (.error fault) := by
  cases r <;> rfl

/-- What a check does that throws or is passed. -/
def thrown : Option ParsingError → Except ParsingError Unit
  | none => .ok ()
  | some fault => .error fault

variable {R : Type} (lib : CLib R)

/-! ## Operands -/

/-- A number without its sign. -/
def unsigned : List Byte → List Byte
  | b :: rest => if isSign b then rest else b :: rest
  | [] => []

/-- The loop of `OperandsSet::parseOperand` over numbers with units. -/
def numberFault (mul : MulType) : Nat → List Byte → Reading Unit
  | 0, _ => (none : Option _)
  | fuel + 1, s =>
    if 1 < ((unsigned s).takeWhile isNumberByte).count dot then
      throw (.of "multiple decimal points")
    else
      match (unsigned s).dropWhile isNumberByte with
      | [] => pure ()
      | unit :: rest => if mul.knows unit then numberFault mul fuel rest else throw (.multiplier unit)

/-- `OperandsSet::parseOperand` -/
def parseSetOperand (parseSet : List Byte → Reading (List (Operand R))) (mul : MulType)
    (str : List Byte) : Reading (Operand R) :=
  match skipSpace str with
  | [] => throw (.of "Empty string")
  | b :: rest =>
    if isdigit b || isSign b || b = dot then do
      numberFault mul (str.length + 1) str
      return .number (lib.number str)
    else
      let name := (b :: rest).takeWhile isNameByte
      let after := (b :: rest).dropWhile isNameByte
      if name = bytes "rand" then do
        match ← parseSet after with
        | [low, high] => return .random low high
        | _ => throw ⟨bytes "Invalid number of parameters - expecting two:" ++ after⟩
      else if after = [] then return .string name
      else throw ⟨bytes "Cannot find function with name " ++ name⟩

/-- The loop of `OperandsSet::parse` -/
def parseSetFrom (parse : List Byte → Reading (Operand R)) :
    Bool → SetState → List Byte → Reading (Bool × List (Operand R))
  | _, st, [] => return (st.bracked, [])
  | first, st, b :: rest => do
    let st' ← answer (st.read first b)
    if st.quotes.isNone && st'.ends b then
      let op ← parse st'.operand
      let (bracked, ops) ← parseSetFrom parse false { st' with operand := [] } rest
      return (bracked, op :: ops)
    else
      let operand := if first && st'.bracked then [] else st'.operand ++ [b]
      parseSetFrom parse false { st' with operand := operand } rest

/-- `OperandsSet::parse` -/
def parseSet : Nat → List Byte → Reading (List (Operand R))
  | 0, _ => (none : Option _)
  | fuel + 1, str => do
    let parse := parseSetOperand lib (parseSet fuel) .angle
    let (bracked, ops) ← parseSetFrom parse true .new str
    if bracked then return ops
    else return ops ++ [← parse str]

/-- `ElementTempDisable::getDistTimeSec` -/
def distTimeFault (distime : List Byte) : Reading Unit := do
  match ← parseSetOperand lib (parseSet lib distime.length) .time distime with
  | .string _ => throw (.of "Operand does not support conversion to double")
  | _ => pure ()

/-! ## Conditions -/

mutual

/-- `Script::parseOperand` -/
def parseOperand (defaultDevice : List Byte) :
    Nat → List Byte → Reading (Option (Operand R) × List Byte)
  | 0, _ => (none : Option _)
  | fuel + 1, s =>
    match Found.at (skipSpace s) with
    | .paren => parseOperand defaultDevice fuel (skipSpace ((skipSpace s).drop 1))
    | _ => operandLoop defaultDevice fuel none (skipSpace s)

/-- Its loop -/
def operandLoop (defaultDevice : List Byte) :
    Nat → Option (Operand R) → List Byte → Reading (Option (Operand R) × List Byte)
  | 0, _, _ => (none : Option _)
  | fuel + 1, op, s =>
    if s = [] then return (op, [])
    else
      let s := skipSpace s
      match Found.at s with
      | .close =>
        match op with
        | none => throw (.of "missing expression inside ()")
        | some op => return (some op, s.drop 1)
      | .paren => parseOperand defaultDevice fuel (skipSpace (s.drop 1))
      | .compare =>
        match op with
        | none => throw (.of "expected operand before operator")
        | some op => do
          let (cmp, rest) ← answer (comparator s)
          let (op2, rest) ← parseOperand defaultDevice fuel rest
          return (some (.equation op cmp op2), rest)
      | .number => do
        let op ← parseSetOperand lib (parseSet lib s.length) .angle (s.takeWhile fun b => !isspace b)
        operandLoop defaultDevice fuel (some op) (s.dropWhile fun b => !isspace b)
      | .variable =>
        let word := s.takeWhile isVariableByte
        let op := (systemValue defaultDevice word).orElse fun _ => op
        operandLoop defaultDevice fuel op (s.dropWhile isVariableByte)
      | .other => throw (.of "cannot parse sequence")

end

/-! ## Elements -/

variable (env : Env)

/-- `ElementChangeValue::ElementChangeValue` -/
def parseChange (device word : List Byte) : Reading (Element R) :=
  match word.dropWhile fun b => !isOp b with
  | [] => return .changeValue device [] 0 []
  | op :: rest => do
    let ops ← parseSet lib ((changeOperands op rest).length + 1) (changeOperands op rest)
    return .changeValue device (word.takeWhile fun b => !isOp b) op ops

/-- The condition at the front of a text. -/
def parseCondition (s : List Byte) : Reading (Option (Operand R) × List Byte) :=
  parseOperand lib env.defaultDevice (2 * s.length + 2) s

/-- `parseBuf` up to the `{` of a block. -/
def parseHead (s : List Byte) : Reading (Option (Head R) × List Byte) :=
  let (word, rest) := nextElement s
  let (device, cmd) := splitDevice env.defaultDevice word
  match keyword cmd with
  | some kw => do
    let (condition, rest) ←
      if kw = .blockWhile then parseCondition lib env rest else pure (none, rest)
    match getNextParams lib kw.params rest with
    | (none, rest) => return (none, rest)
    | (some params, rest) => return (kw.head env device condition params, rest)
  | none =>
    if equals ∈ cmd then do
      let el ← parseChange lib device cmd
      return (some (.element el), rest)
    else return (none, rest)

/-- The text behind the block of an element. -/
def close (parseBlock : List Byte → Reading (List (Element R) × List Byte))
    (els : List (Element R)) :
    Opening R → List Byte → Reading (Option (Element R) × List Byte)
  | .block kind, rest => return (some (.block kind els), rest)
  | .acquired tarId, rest =>
    match isNext elseText rest with
    | (false, rest) => return (some (.acquired tarId els []), rest)
    | (true, rest) =>
      match openBlock rest with
      | (false, rest) => return (none, rest)
      | (true, rest) => do
        let (elseEls, rest) ← parseBlock rest
        return (some (.acquired tarId els elseEls), rest)
  | .doLoop max, rest =>
    let (word, rest) := nextElement rest
    if word ≠ Keyword.blockWhile.text then return (none, rest)
    else do
      let (condition, rest) ← parseCondition lib env rest
      return (some (.doLoop max els condition), rest)

/-- `Script::parseBuf` -/
def parseBuf (parseBlock : List Byte → Reading (List (Element R) × List Byte)) (s : List Byte) :
    Reading (Option (Element R) × List Byte) := do
  match ← parseHead lib env s with
  | (none, rest) => return (none, rest)
  | (some (.element el), rest) => return (some el, rest)
  | (some (.opens opening), rest) =>
    match openBlock rest with
    | (false, rest) => return (none, rest)
    | (true, rest) => do
      let (els, rest) ← parseBlock rest
      close lib env parseBlock els opening rest

/-- `checkParameters` -/
def checkParameters : Element R → Reading Unit
  | .command .tarTempDisab _ [.string distime] => distTimeFault lib distime
  | _ => pure ()

/-- A loop over `parseBuf` -/
def parseElements (check : Element R → Reading Unit)
    (parseBuf : List Byte → Reading (Option (Element R) × List Byte)) :
    Nat → List Byte → Reading (List (Element R) × List Byte)
  | 0, _ => (none : Option _)
  | fuel + 1, s => do
    match ← parseBuf s with
    | (none, rest) => return ([], rest)
    | (some el, rest) => do
      check el
      let (els, rest) ← parseElements check parseBuf fuel rest
      return (el :: els, rest)

/-- `Script::parseBlock` -/
def parseBlock : Nat → List Byte → Reading (List (Element R) × List Byte)
  | 0, _ => (none : Option _)
  | fuel + 1, s =>
    parseElements (fun _ => pure ()) (parseBuf lib env (parseBlock fuel)) (s.length + 1) s

/-- `Script::parseScript` -/
def parseScript (commentNumber : Nat) (cmdBuf : List Byte) :
    Reading (List (Element R) × List Byte) := do
  let text := scriptText cmdBuf
  let (els, rest) ← parseElements (checkParameters lib)
    (parseBuf lib env (parseBlock lib env (text.length + 1))) (text.length + 1) text
  return (els ++ scriptComment commentNumber cmdBuf, rest)

/-! ## The budget is enough -/

theorem unsigned_length (s : List Byte) : (unsigned s).length ≤ s.length := by
  unfold unsigned
  split
  · split
    · exact Nat.le_succ _
    · exact Nat.le_refl _
  · exact Nat.le_refl _

theorem numberFault_succ (mul : MulType) (fuel : Nat) (s : List Byte) :
    Parse.numberFault mul (fuel + 1) s =
      if 1 < ((unsigned s).takeWhile isNumberByte).count dot then some (.of "multiple decimal points")
      else
        match (unsigned s).dropWhile isNumberByte with
        | [] => none
        | unit :: rest =>
          if mul.knows unit then Parse.numberFault mul fuel rest else some (.multiplier unit) := by
  cases s <;> rfl

theorem numberFault_eq (mul : MulType) {fuel : Nat} {s : List Byte} (h : s.length < fuel) :
    numberFault mul fuel s = answer (thrown (Parse.numberFault mul fuel s)) := by
  induction fuel generalizing s with
  | zero => omega
  | succ fuel ih =>
    rw [numberFault_succ]
    unfold numberFault
    split
    · rfl
    · cases hunit : (unsigned s).dropWhile isNumberByte with
      | nil => rfl
      | cons unit rest =>
        dsimp only
        split
        · apply ih
          have hle := (List.dropWhile_sublist isNumberByte (l := unsigned s)).length_le
          have hunsigned := unsigned_length s
          rw [hunit, List.length_cons] at hle
          omega
        · rfl

/-- What follows the name of a function is shorter than the operand. -/
theorem after_length {str rest : List Byte} {b : Byte} (hs : skipSpace str = b :: rest)
    (hname : (b :: rest).takeWhile isNameByte = bytes "rand") :
    ((b :: rest).dropWhile isNameByte).length < str.length := by
  have hle := skipSpace_length_le str
  have hsplit := congrArg List.length (List.takeWhile_append_dropWhile (p := isNameByte)
    (l := b :: rest))
  have hfour : (bytes "rand").length = 4 := rfl
  rw [hs] at hle
  rw [hname, List.length_append, hfour] at hsplit
  omega

theorem parseSetOperand_eq {readSet : List Byte → Reading (List (Operand R))}
    {parseSet : List Byte → Except ParsingError (List (Operand R))} {mul : MulType}
    {str : List Byte} (h : ∀ t, t.length < str.length → readSet t = answer (parseSet t)) :
    parseSetOperand lib readSet mul str = answer (Parse.parseSetOperand lib parseSet mul str) := by
  unfold parseSetOperand Parse.parseSetOperand
  cases hs : skipSpace str with
  | nil => rfl
  | cons b rest =>
    dsimp only
    split
    · rw [numberFault_eq mul (Nat.lt_succ_self _), answer_bind]
      cases Parse.numberFault mul (str.length + 1) str <;> rfl
    · split
      · rename_i hname
        rw [h _ (after_length hs hname), answer_bind]
        cases parseSet ((b :: rest).dropWhile isNameByte) with
        | error fault => rfl
        | ok ops =>
          match ops with
          | [] => rfl
          | [_] => rfl
          | [_, _] => rfl
          | _ :: _ :: _ :: _ => rfl
      · split <;> rfl

/-- A byte is not put into the operand before it is known not to end it. -/
theorem read_operand {st st' : SetState} {first : Bool} {b : Byte} (h : st.read first b = .ok st') :
    st'.operand = st.operand := by
  unfold SetState.read at h
  split at h
  · cases h
    rfl
  · split at h
    · cases h
      rfl
    · split at h
      · split at h
        · cases h
        · cases h
          rfl
      · split at h
        · cases h
          rfl
        · split at h
          · split at h
            · cases h
            · cases h
              rfl
          · cases h
            rfl

theorem parseSetFrom_eq {read : List Byte → Reading (Operand R)}
    {parse : List Byte → Except ParsingError (Operand R)} {n : Nat}
    (h : ∀ t, t.length ≤ n → read t = answer (parse t)) (first : Bool) (st : SetState)
    (s : List Byte) (hs : st.operand.length + s.length ≤ n) :
    parseSetFrom read first st s = answer (Parse.parseSetFrom parse first st s) := by
  induction s generalizing first st with
  | nil => rfl
  | cons b rest ih =>
    unfold parseSetFrom Parse.parseSetFrom
    rw [answer_bind]
    cases hread : st.read first b with
    | error fault => rfl
    | ok st' =>
      have hoperand := congrArg List.length (read_operand hread)
      rw [List.length_cons] at hs
      dsimp only
      split
      · rw [h _ (by omega), answer_bind]
        cases parse st'.operand with
        | error fault => rfl
        | ok op =>
          dsimp only
          rw [ih false _ (by simp only [List.length_nil]; omega), answer_bind]
          cases Parse.parseSetFrom parse false { st' with operand := [] } rest <;> rfl
      · apply ih
        dsimp only
        split
        · simp only [List.length_nil]
          omega
        · rw [List.length_append, List.length_singleton]
          omega

theorem parseSet_eq {fuel : Nat} {str : List Byte} (h : str.length < fuel) :
    parseSet lib fuel str = answer (Parse.parseSet lib fuel str) := by
  induction fuel generalizing str with
  | zero => omega
  | succ fuel ih =>
    have hparse : ∀ t, t.length ≤ str.length → parseSetOperand lib (parseSet lib fuel) .angle t =
        answer (Parse.parseSetOperand lib (Parse.parseSet lib fuel) .angle t) := by
      intro t ht
      exact parseSetOperand_eq lib fun u hu => ih (by omega)
    unfold parseSet Parse.parseSet
    dsimp only
    rw [parseSetFrom_eq hparse true .new str (by simp [SetState.new]), answer_bind]
    cases Parse.parseSetFrom (Parse.parseSetOperand lib (Parse.parseSet lib fuel) .angle) true .new
        str with
    | error fault => rfl
    | ok r =>
      obtain ⟨bracked, ops⟩ := r
      cases bracked with
      | true => rfl
      | false =>
        simp only [Bool.false_eq_true, if_false]
        rw [hparse str (Nat.le_refl _), answer_bind]
        cases Parse.parseSetOperand lib (Parse.parseSet lib fuel) .angle str <;> rfl

theorem distTimeFault_eq (distime : List Byte) :
    distTimeFault lib distime = answer (thrown (Parse.distTimeFault lib distime)) := by
  unfold distTimeFault Parse.distTimeFault
  rw [parseSetOperand_eq lib fun t ht => parseSet_eq lib ht, answer_bind]
  cases Parse.parseSetOperand lib (Parse.parseSet lib distime.length) .time distime with
  | error fault => rfl
  | ok op => cases op <;> rfl

/-- A condition: each call and each turn of the loop has taken a byte after two more. -/
theorem operand_eq (defaultDevice : List Byte) (fuel : Nat) :
    (∀ s : List Byte, 2 * s.length + 2 ≤ fuel →
      parseOperand lib defaultDevice fuel s = answer (Parse.parseOperand lib defaultDevice fuel s)) ∧
    ∀ op (s : List Byte), 2 * s.length + 1 ≤ fuel →
      operandLoop lib defaultDevice fuel op s =
        answer (Parse.operandLoop lib defaultDevice fuel op s) := by
  induction fuel with
  | zero => exact ⟨fun s h => by omega, fun op s h => by omega⟩
  | succ fuel ih =>
    obtain ⟨ihOperand, ihLoop⟩ := ih
    have hother {found : Found} {s : List Byte} (h : Found.at (skipSpace s) = found)
        (hne : found ≠ .other) : Found.at (skipSpace s) ≠ .other := h ▸ hne
    constructor
    · intro s hlen
      have hs := skipSpace_length_le s
      unfold parseOperand Parse.parseOperand
      cases hfound : Found.at (skipSpace s) with
      | paren =>
        have hshort := behind_paren (hother hfound Found.noConfusion)
        exact ihOperand _ (by omega)
      | close => exact ihLoop _ _ (by omega)
      | compare => exact ihLoop _ _ (by omega)
      | number => exact ihLoop _ _ (by omega)
      | «variable» => exact ihLoop _ _ (by omega)
      | other => exact ihLoop _ _ (by omega)
    · intro op s hlen
      have hs := skipSpace_length_le s
      unfold operandLoop Parse.operandLoop
      split
      · rfl
      · dsimp only
        cases hfound : Found.at (skipSpace s) with
        | close => cases op <;> rfl
        | paren =>
          have hshort := behind_paren (hother hfound Found.noConfusion)
          exact ihOperand _ (by omega)
        | compare =>
          cases op with
          | none => rfl
          | some op =>
            dsimp only
            rw [answer_bind]
            cases hcmp : comparator (skipSpace s) with
            | error fault => rfl
            | ok r =>
              obtain ⟨cmp, rest⟩ := r
              have hlt := comparator_rest hcmp
              dsimp only
              rw [ihOperand rest (by omega), answer_bind]
              cases Parse.parseOperand lib defaultDevice fuel rest <;> rfl
        | number =>
          have hshort := behind_word (hother hfound Found.noConfusion)
          have hword := (List.takeWhile_sublist (fun b => !isspace b) (l := skipSpace s)).length_le
          dsimp only
          rw [parseSetOperand_eq lib fun t ht => parseSet_eq lib (Nat.lt_of_lt_of_le ht hword),
            answer_bind]
          cases Parse.parseSetOperand lib (Parse.parseSet lib (skipSpace s).length) .angle
              ((skipSpace s).takeWhile fun b => !isspace b) with
          | error fault => rfl
          | ok op => exact ihLoop _ _ (by omega)
        | «variable» =>
          have hshort := behind_variable (hother hfound Found.noConfusion) hfound
          exact ihLoop _ _ (by omega)
        | other => rfl

theorem parseChange_eq (device word : List Byte) :
    parseChange lib device word = answer (Parse.parseChange lib device word) := by
  unfold parseChange Parse.parseChange
  cases word.dropWhile fun b => !isOp b with
  | nil => rfl
  | cons op rest =>
    dsimp only
    rw [parseSet_eq lib (Nat.lt_succ_self _), answer_bind]
    cases Parse.parseSet lib _ (changeOperands op rest) <;> rfl

theorem parseCondition_eq (s : List Byte) :
    parseCondition lib env s = answer (Parse.parseCondition lib env s) :=
  (operand_eq lib env.defaultDevice _).1 s (Nat.le_refl _)

theorem parseHead_eq (s : List Byte) : parseHead lib env s = answer (Parse.parseHead lib env s) := by
  unfold parseHead Parse.parseHead
  dsimp only
  cases keyword (splitDevice env.defaultDevice (nextElement s).1).2 with
  | none =>
    dsimp only
    split
    · rw [parseChange_eq, answer_bind]
      cases Parse.parseChange lib (splitDevice env.defaultDevice (nextElement s).1).1
        (splitDevice env.defaultDevice (nextElement s).1).2 <;> rfl
    · rfl
  | some kw =>
    dsimp only
    by_cases hkw : kw = .blockWhile
    · simp only [if_pos hkw]
      rw [parseCondition_eq, answer_bind]
      cases Parse.parseCondition lib env (nextElement s).2 with
      | error fault => rfl
      | ok r =>
        dsimp only
        cases getNextParams lib kw.params r.2 with
        | mk params rest => cases params <;> rfl
    · simp only [if_neg hkw, pure_bind]
      cases getNextParams lib kw.params (nextElement s).2 with
      | mk params rest => cases params <;> rfl

section
variable {readBlock : List Byte → Reading (List (Element R) × List Byte)}
  {parseBlock : List Byte → Except ParsingError (List (Element R) × List Byte)} {s : List Byte}

theorem close_eq (els : List (Element R)) (opening : Opening R)
    (h : ∀ t, t.length ≤ s.length → readBlock t = answer (parseBlock t)) :
    close lib env readBlock els opening s = answer (opening.close lib env parseBlock els s) := by
  cases opening with
  | block kind => rfl
  | acquired tarId =>
    have hle := isNext_rest elseText s
    cases hnext : isNext elseText s with
    | mk found rest =>
      rw [hnext] at hle
      cases found with
      | false =>
        simp only [close, Opening.close, hnext]
        rfl
      | true =>
        have hle' := openBlock_rest rest
        cases hopen : openBlock rest with
        | mk found rest' =>
          rw [hopen] at hle'
          simp only [close, Opening.close, hnext, hopen]
          cases found with
          | false => rfl
          | true =>
            dsimp only at hle hle' ⊢
            rw [h rest' (Nat.le_trans hle' hle), answer_bind]
            cases parseBlock rest' <;> rfl
  | doLoop max =>
    simp only [close, Opening.close]
    split
    · rfl
    · rw [parseCondition_eq, answer_bind]
      cases Parse.parseCondition lib env (nextElement s).2 <;> rfl

theorem parseBuf_eq (h : ∀ t, t.length < s.length → readBlock t = answer (parseBlock t))
    (hrest : ∀ t els rest, t.length < s.length → parseBlock t = .ok (els, rest) →
      rest.length ≤ t.length) :
    parseBuf lib env readBlock s = answer (Parse.parseBuf lib env parseBlock s) := by
  unfold parseBuf Parse.parseBuf
  rw [parseHead_eq, answer_bind]
  cases hhead : Parse.parseHead lib env s with
  | error fault => rfl
  | ok r =>
    obtain ⟨head, rest⟩ := r
    cases head with
    | none => rfl
    | some head =>
      have hlt := (parseHead_rest lib env hhead).2 nofun
      cases head with
      | element el => rfl
      | opens opening =>
        dsimp only
        have hle := openBlock_rest rest
        cases hopen : openBlock rest with
        | mk found rest' =>
          rw [hopen] at hle
          cases found with
          | false => rfl
          | true =>
            dsimp only at hle ⊢
            rw [h rest' (by omega), answer_bind]
            cases hblock : parseBlock rest' with
            | error fault => rfl
            | ok r =>
              obtain ⟨els, rest''⟩ := r
              have hle' := hrest _ _ _ (by omega) hblock
              exact close_eq lib env els opening fun t (ht : t.length ≤ rest''.length) => h t (by omega)

end

/-! ## What an element takes -/

/-- What the reader leaves of a block is no longer than the block. -/
theorem parseBlock_rest {nesting : Nat} {s rest : List Byte} {els : List (Element R)}
    (hn : s.length < nesting) (h : Parse.parseBlock lib env nesting s = .ok (els, rest)) :
    rest.length ≤ s.length := by
  obtain ⟨n, rfl⟩ : ∃ n, nesting = n + 1 := ⟨nesting - 1, by omega⟩
  have hreads := reads_of_parseLoop lib env n _ true s els rest (by omega) (Nat.lt_succ_self _) h
  exact (parseLoop_of_reads lib env hreads).1

/-- An element takes a byte at least. -/
theorem parseBuf_takes {nesting : Nat} {s rest : List Byte} {el : Element R}
    (hn : s.length ≤ nesting)
    (h : Parse.parseBuf lib env (Parse.parseBlock lib env nesting) s = .ok (some el, rest)) :
    rest.length < s.length := by
  refine (readsOn_of_parseBuf lib env ?_ h).1
  intro v inner u hlt hv
  obtain ⟨n, rfl⟩ : ∃ n, nesting = n + 1 := ⟨nesting - 1, by omega⟩
  exact reads_of_parseLoop lib env n _ true v inner u (by omega) (Nat.lt_succ_self _) hv

/-- Only the time of a temporary disabling is checked, by either reader. -/
theorem checkParameters_other {el : Element R}
    (hother : ∀ device distime, el ≠ .command .tarTempDisab device [.string distime]) :
    checkParameters lib el = pure () ∧ el.checkParameters lib = none := by
  constructor
  · unfold checkParameters
    split
    · exact absurd rfl (hother _ _)
    · rfl
  · unfold Element.checkParameters
    split
    · exact absurd rfl (hother _ _)
    · rfl

theorem checkParameters_eq (el : Element R) :
    checkParameters lib el = answer (thrown (el.checkParameters lib)) := by
  by_cases hdisab : ∃ device distime, el = .command .tarTempDisab device [.string distime]
  · obtain ⟨device, distime, rfl⟩ := hdisab
    exact distTimeFault_eq lib distime
  · have hother : ∀ device distime, el ≠ .command .tarTempDisab device [.string distime] :=
      fun device distime h => hdisab ⟨device, distime, h⟩
    obtain ⟨hread, hcheck⟩ := checkParameters_other lib hother
    rw [hread, hcheck]
    rfl

theorem parseElements_eq {readCheck : Element R → Reading Unit}
    {check : Element R → Option ParsingError}
    (hcheck : ∀ el, readCheck el = answer (thrown (check el)))
    {nesting fuel : Nat} {s : List Byte}
    (hblock : ∀ t, t.length < nesting → parseBlock lib env nesting t =
      answer (Parse.parseBlock lib env nesting t))
    (hn : s.length ≤ nesting) (h : s.length < fuel) :
    parseElements readCheck (parseBuf lib env (parseBlock lib env nesting)) fuel s =
      answer (Parse.parseElements check (Parse.parseBuf lib env (Parse.parseBlock lib env nesting))
        fuel s) := by
  induction fuel generalizing s with
  | zero => omega
  | succ fuel ih =>
    unfold parseElements Parse.parseElements
    rw [parseBuf_eq lib env (fun t ht => hblock t (by omega))
      fun t els rest ht => parseBlock_rest lib env (by omega), answer_bind]
    cases hbuf : Parse.parseBuf lib env (Parse.parseBlock lib env nesting) s with
    | error fault => rfl
    | ok r =>
      obtain ⟨el, rest⟩ := r
      cases el with
      | none => rfl
      | some el =>
        have htakes := parseBuf_takes lib env hn hbuf
        dsimp only
        rw [hcheck, answer_bind]
        cases check el with
        | some fault => rfl
        | none =>
          dsimp only
          rw [ih (by omega) (by omega), answer_bind]
          cases Parse.parseElements check _ fuel rest <;> rfl

theorem parseBlock_eq {nesting : Nat} {s : List Byte} (h : s.length < nesting) :
    parseBlock lib env nesting s = answer (Parse.parseBlock lib env nesting s) := by
  induction nesting generalizing s with
  | zero => omega
  | succ nesting ih =>
    unfold parseBlock Parse.parseBlock
    have hcheck (el : Element R) :
        (pure () : Reading Unit) = answer (thrown ((fun _ : Element R => none) el)) := rfl
    exact parseElements_eq lib env hcheck (fun t ht => ih ht) (Nat.le_of_lt_succ h)
      (Nat.lt_succ_self _)

theorem parseScript_eq (commentNumber : Nat) (cmdBuf : List Byte) :
    parseScript lib env commentNumber cmdBuf =
      answer (Parse.parseScript lib env commentNumber cmdBuf) := by
  unfold parseScript Parse.parseScript
  dsimp only
  rw [parseElements_eq lib env (checkParameters_eq lib) (fun t ht => parseBlock_eq lib env ht)
    (Nat.le_succ _) (Nat.lt_succ_self _), answer_bind]
  cases Parse.parseElements _ _ _ (scriptText cmdBuf) <;> rfl

/-- The reader of scripts comes to its end over every text: a word of the text takes a byte
or there is none, an element takes a byte, and the budgets of the loops, which the length
of the text gives, are enough for a condition, for a block and for the script. -/
theorem script_reader_ends (commentNumber : Nat) (cmdBuf : List Byte) :
    (∀ s, (nextElement s).2.length < s.length ∨ (nextElement s).1 = []) ∧
    (∀ s, ∃ r, parseOperand lib env.defaultDevice (2 * s.length + 2) s = answer r ∧
      ∀ op rest, r = .ok (op, rest) → rest.length ≤ s.length) ∧
    (∀ s, ∃ r, parseBuf lib env (parseBlock lib env s.length) s = answer r ∧
      ∀ el rest, r = .ok (some el, rest) → rest.length < s.length) ∧
    (∀ s, ∃ r, parseBlock lib env (s.length + 1) s = answer r ∧
      ∀ els rest, r = .ok (els, rest) → rest.length ≤ s.length) ∧
    parseScript lib env commentNumber cmdBuf =
      answer (Parse.parseScript lib env commentNumber cmdBuf) := by
  refine ⟨fun s => ?_, fun s => ?_, fun s => ?_, fun s => ?_,
    parseScript_eq lib env commentNumber cmdBuf⟩
  · by_cases hword : (nextElement s).1 = []
    · exact .inr hword
    · exact .inl (nextElement_rest_lt hword)
  · exact ⟨_, (operand_eq lib env.defaultDevice _).1 s (Nat.le_refl _),
      fun op rest => (operand_rest lib env.defaultDevice _).1 s op rest⟩
  · refine ⟨_, ?_, fun el rest => parseBuf_takes lib env (Nat.le_refl _)⟩
    exact parseBuf_eq lib env (fun t => parseBlock_eq lib env)
      fun t els rest => parseBlock_rest lib env
  · exact ⟨_, parseBlock_eq lib env (Nat.lt_succ_self _),
      fun els rest => parseBlock_rest lib env (Nat.lt_succ_self _)⟩

end Rts2.Script.Parse.Budget
