import Rts2.Script.Words

/-! # Operands of a script

`OperandsSet` reads the operands of a value that is changed, `Script::parseOperand`
the condition of a loop. Both throw `ParsingError` for what they do not know. -/
namespace Rts2.Script.Parse
open Rts2.Connection

/-- `ParsingError`, with its text. -/
structure ParsingError where
  msg : List Byte
  deriving DecidableEq, Repr

def ParsingError.of (msg : String) : ParsingError := ⟨bytes msg⟩

/-- `UnknowOperantMultiplier` -/
def ParsingError.multiplier (b : Byte) : ParsingError :=
  ⟨bytes "unknow multiplier '" ++ [b] ++ bytes "'"⟩

inductive Comparator where
  | equal
  | less
  | lessEqu
  | greatEqu
  | great
  deriving DecidableEq, Repr

/-- `Operand`: a `Number`, a `SystemValue` of a device, a `String`, a
`RandomNumber` or an `OperandsLREquation`, whose right side is `NULL` when the
text ends before it. -/
inductive Operand (R : Type) where
  | number (val : R)
  | systemValue (device value : List Byte)
  | string (str : List Byte)
  | random (low high : Operand R)
  | equation (l : Operand R) (cmp : Comparator) (r : Option (Operand R))

/-- `isalpha` and `isalnum` of the C locale. -/
def isalpha (b : Byte) : Bool := (65 ≤ b && b ≤ 90) || (97 ≤ b && b ≤ 122)

def isalnum (b : Byte) : Bool := isalpha b || isdigit b

def isSign (b : Byte) : Bool := b = 45 || b = 43

/-- A byte of the name of a `String` operand. -/
def isNameByte (b : Byte) : Bool := isalnum b || b = 95 || isSign b || b = dot

/-- The units of `mulType_t`. -/
inductive MulType where
  | angle
  | time
  deriving DecidableEq, Repr

def MulType.knows : MulType → Byte → Bool
  | .angle, b => b ∈ bytes "dhm's\""
  | .time, b => b ∈ bytes "dhw"

/-- A byte of a number. -/
def isNumberByte (b : Byte) : Bool := isdigit b || b = dot

/-- The loop of `OperandsSet::parseOperand` over numbers with units: what it
throws, if it throws. -/
def numberFault (mul : MulType) : Nat → List Byte → Option ParsingError
  | 0, _ => none
  | fuel + 1, s =>
    let digits := match s with
      | b :: rest => if isSign b then rest else s
      | [] => []
    if 1 < (digits.takeWhile isNumberByte).count dot then some (.of "multiple decimal points")
    else
      match digits.dropWhile isNumberByte with
      | [] => none
      | unit :: rest => if mul.knows unit then numberFault mul fuel rest else some (.multiplier unit)

section Operands
variable {R : Type} (lib : CLib R)

/-- `OperandsSet::parseOperand`; `parseSet` reads the operands of `rand`. -/
def parseSetOperand (parseSet : List Byte → Except ParsingError (List (Operand R))) (mul : MulType)
    (str : List Byte) : Except ParsingError (Operand R) :=
  match skipSpace str with
  | [] => .error (.of "Empty string")
  | b :: rest =>
    if isdigit b || isSign b || b = dot then
      match numberFault mul (str.length + 1) str with
      | some fault => .error fault
      | none => .ok (.number (lib.number str))
    else
      let name := (b :: rest).takeWhile isNameByte
      let after := (b :: rest).dropWhile isNameByte
      if name = bytes "rand" then
        match parseSet after with
        | .error fault => .error fault
        | .ok [low, high] => .ok (.random low high)
        | .ok _ => .error ⟨bytes "Invalid number of parameters - expecting two:" ++ after⟩
      else if after = [] then .ok (.string name)
      else .error ⟨bytes "Cannot find function with name " ++ name⟩

/-- What the loop of `OperandsSet::parse` knows of the bytes behind it: whether
the string began with a bracket, the open braces, the quote it is in, and the
operand that has begun. -/
structure SetState where
  bracked : Bool
  simpleBraces : Nat
  curvedBraces : Nat
  quotes : Option Byte
  operand : List Byte
  deriving DecidableEq, Repr

def SetState.new : SetState := ⟨false, 0, 0, none, []⟩

/-- The braces and quotes at a byte; `first` at the first one. -/
def SetState.read (st : SetState) (first : Bool) (b : Byte) : Except ParsingError SetState :=
  match st.quotes with
  | some q => .ok { st with quotes := if b = q then none else some q }
  | none =>
    if b = openParen then
      .ok { st with bracked := st.bracked || first, simpleBraces := st.simpleBraces + 1 }
    else if b = closeParen then
      if st.simpleBraces = 0 then .error (.of "too many closing simple braces - )")
      else .ok { st with simpleBraces := st.simpleBraces - 1 }
    else if b = openBrace then .ok { st with curvedBraces := st.curvedBraces + 1 }
    else if b = closeBrace then
      if st.curvedBraces = 0 then .error (.of "too many closing curved braces - \x7d")
      else .ok { st with curvedBraces := st.curvedBraces - 1 }
    else .ok { st with quotes := if b = quote ∨ b = apostrophe then some b else none }

/-- The byte ends an operand. -/
def SetState.ends (st : SetState) (b : Byte) : Bool :=
  st.curvedBraces = 0 && st.quotes.isNone &&
    ((b = comma && st.simpleBraces = 1) || (st.simpleBraces = 0 && st.bracked))

/-- The loop of `OperandsSet::parse`. A byte inside quotes ends nothing. -/
def parseSetFrom (parse : List Byte → Except ParsingError (Operand R)) :
    Bool → SetState → List Byte → Except ParsingError (Bool × List (Operand R))
  | _, st, [] => .ok (st.bracked, [])
  | first, st, b :: rest =>
    match st.read first b with
    | .error fault => .error fault
    | .ok st' =>
      if st.quotes.isNone && st'.ends b then
        match parse st'.operand with
        | .error fault => .error fault
        | .ok op =>
          match parseSetFrom parse false { st' with operand := [] } rest with
          | .error fault => .error fault
          | .ok (bracked, ops) => .ok (bracked, op :: ops)
      else
        let operand := if first && st'.bracked then [] else st'.operand ++ [b]
        parseSetFrom parse false { st' with operand := operand } rest

/-- `OperandsSet::parse` -/
def parseSet : Nat → List Byte → Except ParsingError (List (Operand R))
  | 0, _ => .error (.of "Empty string")
  | fuel + 1, str =>
    let parse := parseSetOperand lib (parseSet fuel) .angle
    match parseSetFrom parse true .new str with
    | .error fault => .error fault
    | .ok (true, ops) => .ok ops
    | .ok (false, ops) =>
      match parse str with
      | .error fault => .error fault
      | .ok op => .ok (ops ++ [op])

/-- `ElementTempDisable::getDistTimeSec`: what it throws. -/
def distTimeFault (distime : List Byte) : Option ParsingError :=
  match parseSetOperand lib (parseSet lib distime.length) .time distime with
  | .error fault => some fault
  | .ok (.string _) => some (.of "Operand does not support conversion to double")
  | .ok _ => none

/-! ## Conditions -/

/-- The comparison at the front of a text that begins with one of `=<>`. -/
def comparator : List Byte → Except ParsingError (Comparator × List Byte)
  | 61 :: 61 :: rest => .ok (.equal, rest)
  | 60 :: 61 :: rest => .ok (.lessEqu, rest)
  | 62 :: 61 :: rest => .ok (.greatEqu, rest)
  | 60 :: rest => .ok (.less, rest)
  | 62 :: rest => .ok (.great, rest)
  | _ => .error (.of "In conditions, only == is allowed")

/-- A byte of the name of a variable. -/
def isVariableByte (b : Byte) : Bool := isalnum b || b = dot || b = 95

/-- `device.value`, or `.value` of the default device; nothing without a
point. -/
def systemValue (defaultDevice word : List Byte) : Option (Operand R) :=
  if dot ∈ word then
    let device := word.takeWhile (· ≠ dot)
    let value := (word.dropWhile (· ≠ dot)).drop 1
    some (.systemValue (if device = [] then defaultDevice else device) value)
  else none

/-- What the loop of `parseOperand` finds behind spaces. -/
inductive Found where
  | close
  | paren
  | compare
  | number
  | variable
  | other
  deriving DecidableEq, Repr

def Found.at : List Byte → Found
  | [] => .other
  | b :: rest =>
    if b = closeParen then .close
    else if b = openParen then .paren
    else if b = equals || b = 62 || b = 60 then .compare
    else if isdigit b || (b = dot && rest.head?.any isdigit) then .number
    else if isalpha b || b = dot then .variable
    else .other

mutual

/-- `Script::parseOperand`: the operand, `NULL` when there is none, and what
follows. -/
def parseOperand (defaultDevice : List Byte) :
    Nat → List Byte → Except ParsingError (Option (Operand R) × List Byte)
  | 0, s => .ok (none, s)
  | fuel + 1, s =>
    match Found.at (skipSpace s) with
    | .paren => parseOperand defaultDevice fuel (skipSpace ((skipSpace s).drop 1))
    | _ => operandLoop defaultDevice fuel none (skipSpace s)

/-- Its loop, with the operand read so far. -/
def operandLoop (defaultDevice : List Byte) :
    Nat → Option (Operand R) → List Byte → Except ParsingError (Option (Operand R) × List Byte)
  | 0, op, s => .ok (op, s)
  | fuel + 1, op, s =>
    if s = [] then .ok (op, [])
    else
      let s := skipSpace s
      match Found.at s with
      | .close =>
        match op with
        | none => .error (.of "missing expression inside ()")
        | some op => .ok (some op, s.drop 1)
      | .paren => parseOperand defaultDevice fuel (skipSpace (s.drop 1))
      | .compare =>
        match op with
        | none => .error (.of "expected operand before operator")
        | some op =>
          match comparator s with
          | .error fault => .error fault
          | .ok (cmp, rest) =>
            match parseOperand defaultDevice fuel rest with
            | .error fault => .error fault
            | .ok (op2, rest) => .ok (some (.equation op cmp op2), rest)
      | .number =>
        match parseSetOperand lib (parseSet lib s.length) .angle (s.takeWhile fun b => !isspace b) with
        | .error fault => .error fault
        | .ok op => operandLoop defaultDevice fuel (some op) (s.dropWhile fun b => !isspace b)
      | .variable =>
        let word := s.takeWhile isVariableByte
        let op := (systemValue defaultDevice word).orElse fun _ => op
        operandLoop defaultDevice fuel op (s.dropWhile isVariableByte)
      | .other => .error (.of "cannot parse sequence")

end

theorem comparator_rest {s : List Byte} {cmp : Comparator} {rest : List Byte}
    (h : comparator s = .ok (cmp, rest)) : rest.length < s.length := by
  unfold comparator at h
  split at h <;> cases h <;> simp only [List.length_cons] <;> omega

/-- A condition leaves a part of the text behind. -/
theorem operand_rest (defaultDevice : List Byte) (fuel : Nat) :
    (∀ s op rest, parseOperand lib defaultDevice fuel s = .ok (op, rest) →
      rest.length ≤ s.length) ∧
    ∀ op s op' rest, operandLoop lib defaultDevice fuel op s = .ok (op', rest) →
      rest.length ≤ s.length := by
  induction fuel with
  | zero =>
    constructor
    · intro s op rest h
      cases h
      exact Nat.le_refl _
    · intro op s op' rest h
      cases h
      exact Nat.le_refl _
  | succ fuel ih =>
    obtain ⟨ihOperand, ihLoop⟩ := ih
    have hskip := skipSpace_length_le
    have hparen : ∀ (s : List Byte) op rest,
        parseOperand lib defaultDevice fuel (skipSpace (s.drop 1)) = .ok (op, rest) →
          rest.length ≤ s.length := by
      intro s op rest h
      have h' := ihOperand _ _ _ h
      have := hskip (s.drop 1)
      rw [List.length_drop] at this
      omega
    constructor
    · intro s op rest h
      unfold parseOperand at h
      split at h
      · exact Nat.le_trans (hparen _ _ _ h) (hskip s)
      · exact Nat.le_trans (ihLoop _ _ _ _ h) (hskip s)
    · intro op s op' rest h
      have hs := hskip s
      unfold operandLoop at h
      split at h
      · cases h
        exact Nat.zero_le _
      · dsimp only at h
        split at h
        · split at h
          · cases h
          · cases h
            rw [List.length_drop]
            omega
        · exact Nat.le_trans (hparen _ _ _ h) hs
        · split at h
          · cases h
          · split at h
            · cases h
            · next cmp rest' hcmp =>
              have hlt := comparator_rest hcmp
              split at h
              · cases h
              · next hop =>
                cases h
                have := ihOperand _ _ _ hop
                omega
        · split at h
          · cases h
          · have := ihLoop _ _ _ _ h
            have := (List.dropWhile_sublist (fun b => !isspace b) (l := skipSpace s)).length_le
            omega
        · have := ihLoop _ _ _ _ h
          have := (List.dropWhile_sublist isVariableByte (l := skipSpace s)).length_le
          omega
        · cases h

/-- What stands behind spaces is there, and is no space. -/
theorem Found.at_cons {s : List Byte} (h : Found.at (skipSpace s) ≠ .other) :
    ∃ b rest, skipSpace s = b :: rest ∧ isspace b = false ∧
      (Found.at (skipSpace s) = .variable → isVariableByte b = true) := by
  cases hs : skipSpace s with
  | nil =>
    rw [hs] at h
    exact absurd rfl h
  | cons b rest =>
    have hb : isspace b = false := by
      have := List.head?_dropWhile_not isspace s
      rw [show s.dropWhile isspace = b :: rest from hs] at this
      simpa using this
    refine ⟨b, rest, rfl, hb, fun hvar => ?_⟩
    unfold Found.at at hvar
    simp only at hvar
    split at hvar <;> try cases hvar
    split at hvar <;> try cases hvar
    split at hvar <;> try cases hvar
    split at hvar <;> try cases hvar
    split at hvar
    · next hb => simp only [isVariableByte, isalnum]; grind
    · cases hvar

/-- What is behind a parenthesis, a word or a variable is shorter. -/
theorem behind_paren {s : List Byte} (h : Found.at (skipSpace s) ≠ .other) :
    (skipSpace ((skipSpace s).drop 1)).length < s.length := by
  obtain ⟨b, rest, hs, -⟩ := Found.at_cons h
  have h1 := skipSpace_length_le s
  have h2 := skipSpace_length_le ((skipSpace s).drop 1)
  rw [hs] at h1 h2
  simp only [List.drop_succ_cons, List.drop_zero, List.length_cons, hs] at h1 h2 ⊢
  omega

theorem behind_word {s : List Byte} (h : Found.at (skipSpace s) ≠ .other) :
    ((skipSpace s).dropWhile fun b => !isspace b).length < s.length := by
  obtain ⟨b, rest, hs, hb, -⟩ := Found.at_cons h
  have hle := skipSpace_length_le s
  have hrest := (List.dropWhile_sublist (fun b => !isspace b) (l := rest)).length_le
  rw [hs] at hle ⊢
  simp only [List.dropWhile_cons, hb, List.length_cons] at hle ⊢
  simp only [Bool.not_false, if_true]
  omega

theorem behind_variable {s : List Byte} (h : Found.at (skipSpace s) ≠ .other)
    (hvar : Found.at (skipSpace s) = .variable) :
    ((skipSpace s).dropWhile isVariableByte).length < s.length := by
  obtain ⟨b, rest, hs, -, hb⟩ := Found.at_cons h
  have hle := skipSpace_length_le s
  have hrest := (List.dropWhile_sublist isVariableByte (l := rest)).length_le
  rw [hs] at hle ⊢
  simp only [List.dropWhile_cons, hb hvar, List.length_cons, if_true] at hle ⊢
  omega

/-- The fuel is enough: more of it changes nothing. -/
theorem operand_fuel (defaultDevice : List Byte) (fuel : Nat) :
    (∀ s : List Byte, 2 * s.length + 2 ≤ fuel →
      parseOperand lib defaultDevice (fuel + 1) s = parseOperand lib defaultDevice fuel s) ∧
    ∀ op (s : List Byte), 2 * s.length + 1 ≤ fuel →
      operandLoop lib defaultDevice (fuel + 1) op s = operandLoop lib defaultDevice fuel op s := by
  induction fuel with
  | zero => exact ⟨fun s h => by omega, fun op s h => by omega⟩
  | succ fuel ih =>
    obtain ⟨ihOperand, ihLoop⟩ := ih
    constructor
    · intro s hlen
      rw [parseOperand.eq_2 _ _ s (fuel + 1), parseOperand.eq_2 _ _ s fuel]
      have hs := skipSpace_length_le s
      split
      · next hfound =>
        have hshort := behind_paren (s := s) (by rw [hfound]; nofun)
        exact ihOperand _ (by omega)
      · exact ihLoop _ _ (by omega)
    · intro op s hlen
      have hs := skipSpace_length_le s
      rw [operandLoop.eq_2 _ _ op s (fuel + 1), operandLoop.eq_2 _ _ op s fuel]
      split
      · rfl
      · dsimp only
        split
        · rfl
        · next hfound =>
          have hshort := behind_paren (s := s) (by rw [hfound]; nofun)
          exact ihOperand _ (by omega)
        · split
          · rfl
          · split
            · rfl
            · next hcmp =>
              have hlt := comparator_rest hcmp
              rw [ihOperand _ (by omega)]
        · next hfound =>
          split
          · rfl
          · have hshort := behind_word (s := s) (by rw [hfound]; nofun)
            exact ihLoop _ _ (by omega)
        · next hfound =>
          have hshort := behind_variable (s := s) (by rw [hfound]; nofun) hfound
          exact ihLoop _ _ (by omega)
        · rfl

end Operands
end Rts2.Script.Parse
