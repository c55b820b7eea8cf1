import Mathlib.Tactic.Linarith
import Rts2.Lib.Strtod

/-! # Angles

`parseDMS` reads degrees, minutes and seconds, with letters for the units or in turn. After a
letter one more character is taken for a separator. -/
namespace Rts2.Values
open Rts2.Lib

inductive Errno where
  | ok
  | erange
  | einval
  deriving DecidableEq

/-- The angle, none for `NAN`, the unit of its last field, and `errno`. -/
structure Dms where
  value : Option ℚ
  mul : ℚ
  errno : Errno
  deriving DecidableEq

/-- The last character of a field that specifies a multiplication. -/
def unit (c : Char) : Option ℚ :=
  match c with
  | 'd' => some 1
  -- 15, and then as the minutes
  | 'h' | 'm' | '\'' => some (1 / 60)
  | 's' | '"' => some (1 / 3600)
  | _ => none

/-- The unit of a field, and what follows it. -/
def unitOf (mul : ℚ) (endptr : List Char) : ℚ × List Char :=
  match endptr with
  | c :: rest =>
    match unit c with
    | some u => (u, rest)
    | none => (mul, c :: rest)
  | [] => (mul, [])

/-- The loop of `parseDMS`, of at most so many rounds. -/
def dmsFrom (m_sign : ℚ) : Nat → List Char → ℚ → ℚ → Option Dms
  | 0, _, _, _ => none
  | fuel + 1, locptr, mul, ret =>
    let n := strtod locptr
    match n.value with
    | none => some ⟨none, mul, .erange⟩
    | some x =>
      let (mul, endptr) := unitOf mul n.rest
      let ret := ret + x * mul
      if n.erange then some ⟨none, mul, .erange⟩
      else match endptr with
        | [] => some ⟨some (ret * m_sign), mul, .ok⟩
        | c :: rest =>
          -- nothing was read
          if (c :: rest).length = locptr.length then some ⟨none, mul, .einval⟩
          else dmsFrom m_sign fuel rest (mul / 60) ret

/-- `parseDMS` -/
def parseDMS (hptr : List Char) : Option Dms :=
  let (m_sign, locptr) := match hptr with
    | '-' :: rest => ((-1 : ℚ), rest)
    | _ => (1, hptr)
  if locptr = [] then some ⟨some 0, 1, .ok⟩
  else dmsFrom m_sign (locptr.length + 1) locptr 1 0

/-! ## The loop ends -/

theorem unitOf_length (mul : ℚ) (endptr : List Char) :
    (unitOf mul endptr).2.length ≤ endptr.length := by
  unfold unitOf
  split
  · split
    · exact Nat.le_succ _
    · exact Nat.le_refl _
  · exact Nat.le_refl _

theorem dmsFrom_isSome (m_sign : ℚ) {fuel : Nat} {locptr : List Char} (h : locptr.length < fuel)
    (mul ret : ℚ) : (dmsFrom m_sign fuel locptr mul ret).isSome = true := by
  induction fuel generalizing locptr mul ret with
  | zero => omega
  | succ fuel ih =>
    simp only [dmsFrom]
    split
    · rfl
    · split
      · rfl
      · split
        · rfl
        · next c rest heq =>
          split
          · rfl
          · have hunit := unitOf_length mul (strtod locptr).rest
            have hrest := (strtod_suffix locptr).length_le
            rw [heq, List.length_cons] at hunit
            exact ih (by omega) _ _

theorem parseDMS_isSome (hptr : List Char) : (parseDMS hptr).isSome = true := by
  unfold parseDMS
  split
  · next m_sign locptr heq =>
    split
    · rfl
    · exact dmsFrom_isSome _ (Nat.lt_succ_self _) _ _

/-! ## Angles -/

/-- The letters of degrees, minutes and seconds. -/
inductive Letter where
  | degrees
  | minutes
  | quote
  | seconds
  | doubleQuote
  deriving DecidableEq

def Letter.char : Letter → Char
  | .degrees => 'd'
  | .minutes => 'm'
  | .quote => '\''
  | .seconds => 's'
  | .doubleQuote => '"'

def Letter.value : Letter → ℚ
  | .degrees => 1
  | .minutes | .quote => 1 / 60
  | .seconds | .doubleQuote => 1 / 3600

/-- A number and the letter that it may have. -/
structure Part where
  number : Strtod.Decimal
  letter : Option Letter

def Part.text (f : Part) : List Char :=
  f.number.text ++ match f.letter with
    | some l => [l.char]
    | none => []

/-- The unit of a field where the turn is at `mul`. -/
def Part.unit (f : Part) (mul : ℚ) : ℚ :=
  match f.letter with
  | some l => l.value
  | none => mul

/-- A character between fields: no unit, and nothing that goes a number on. -/
structure Separator where
  char : Char
  notUnit : unit char = none
  notNumber : Strtod.Stops [char]

def textFrom (first : Part) : List (Separator × Part) → List Char
  | [] => first.text
  | (sep, next) :: rest => first.text ++ sep.char :: textFrom next rest

/-- The sum of the fields; a field without a letter has a sixtieth of the unit before. -/
def sumFrom (mul : ℚ) (first : Part) : List (Separator × Part) → ℚ
  | [] => first.number.value * first.unit mul
  | (_, next) :: rest =>
    first.number.value * first.unit mul + sumFrom (first.unit mul / 60) next rest

def lastUnit (mul : ℚ) (first : Part) : List (Separator × Part) → ℚ
  | [] => first.unit mul
  | (_, next) :: rest => lastUnit (first.unit mul / 60) next rest

def signed (minus : Bool) (text : List Char) : List Char := if minus then '-' :: text else text

/-- A number is that of a `double`. -/
def Part.InRange (f : Part) : Prop :=
  Strtod.tooLarge f.number.value = false ∧ Strtod.tooSmall f.number.value = false

theorem Letter.stops (l : Letter) (tail : List Char) : Strtod.Stops (l.char :: tail) := by
  intro c hc
  cases hc
  cases l <;> decide

theorem Letter.unit_char (l : Letter) : unit l.char = some l.value := by
  cases l <;> rfl

theorem Separator.stops (sep : Separator) (tail : List Char) :
    Strtod.Stops (sep.char :: tail) := by
  intro c hc
  cases hc
  exact sep.notNumber _ rfl

theorem Separator.unitOf (sep : Separator) (mul : ℚ) (tail : List Char) :
    unitOf mul (sep.char :: tail) = (mul, sep.char :: tail) := by
  simp only [Values.unitOf, sep.notUnit]

/-- A field before the end or a separator. -/
theorem strtod_part (f : Part) (mul : ℚ) {tail : List Char} (hstops : Strtod.Stops tail)
    (hunit : unitOf mul tail = (mul, tail)) :
    (strtod (f.text ++ tail)).value = (Strtod.ofNumber f.number.value []).value ∧
      (strtod (f.text ++ tail)).erange = (Strtod.ofNumber f.number.value []).erange ∧
      unitOf mul (strtod (f.text ++ tail)).rest = (f.unit mul, tail) := by
  obtain ⟨number, letter⟩ := f
  have hof (rest : List Char) : (Strtod.ofNumber number.value rest).value =
        (Strtod.ofNumber number.value []).value ∧
      (Strtod.ofNumber number.value rest).erange = (Strtod.ofNumber number.value []).erange ∧
      (Strtod.ofNumber number.value rest).rest = rest := by
    unfold Strtod.ofNumber
    split
    · exact ⟨rfl, rfl, rfl⟩
    · exact ⟨rfl, rfl, rfl⟩
  cases letter with
  | none =>
    obtain ⟨hvalue, herange, hrest⟩ := hof tail
    simp only [Part.text, List.append_nil, Part.unit, strtod_decimal number hstops]
    exact ⟨hvalue, herange, by rw [hrest, hunit]⟩
  | some l =>
    obtain ⟨hvalue, herange, hrest⟩ := hof (l.char :: tail)
    simp only [Part.text, List.append_assoc, List.cons_append, List.nil_append, Part.unit,
      strtod_decimal number (l.stops tail)]
    refine ⟨hvalue, herange, ?_⟩
    rw [hrest]
    simp only [Values.unitOf, l.unit_char]

/-- A round that reads a part. -/
theorem dmsFrom_part (m_sign : ℚ) (fuel : Nat) (f : Part) (mul ret : ℚ) {tail : List Char}
    (hstops : Strtod.Stops tail) (hunit : unitOf mul tail = (mul, tail)) (hf : f.InRange) :
    dmsFrom m_sign (fuel + 1) (f.text ++ tail) mul ret =
      match tail with
      | [] => some ⟨some ((ret + f.number.value * f.unit mul) * m_sign), f.unit mul, .ok⟩
      | _ :: rest => dmsFrom m_sign fuel rest (f.unit mul / 60)
          (ret + f.number.value * f.unit mul) := by
  obtain ⟨hvalue, herange, hrest⟩ := strtod_part f mul hstops hunit
  rw [Strtod.ofNumber, if_neg (by simp [hf.1])] at hvalue herange
  rw [hf.2] at herange
  simp only [dmsFrom, hvalue, herange, hrest, Bool.false_eq_true, if_false]
  cases tail with
  | nil => rfl
  | cons c rest =>
    have hlength : (c :: rest).length ≠ (f.text ++ c :: rest).length := by
      have hpos := List.length_pos_iff.mpr f.number.text_ne_nil
      rw [List.length_append, Part.text, List.length_append]
      omega
    simp only [if_neg hlength]

theorem dmsFrom_reads (m_sign : ℚ) {fuel : Nat} (f : Part) (rest : List (Separator × Part))
    (mul ret : ℚ) (hfuel : (textFrom f rest).length < fuel) (hf : f.InRange)
    (hrest : ∀ p ∈ rest, p.2.InRange) :
    dmsFrom m_sign fuel (textFrom f rest) mul ret =
      some ⟨some ((ret + sumFrom mul f rest) * m_sign), lastUnit mul f rest, .ok⟩ := by
  induction rest generalizing fuel f mul ret with
  | nil =>
    cases fuel with
    | zero => omega
    | succ fuel =>
      have hstops : Strtod.Stops [] := fun c hc => by cases hc
      have hround := dmsFrom_part m_sign fuel f mul ret hstops rfl hf
      rw [List.append_nil] at hround
      exact hround
  | cons p rest ih =>
    obtain ⟨sep, next⟩ := p
    cases fuel with
    | zero => omega
    | succ fuel =>
      have hshort : (textFrom next rest).length < fuel := by
        simp only [textFrom, List.length_append, List.length_cons] at hfuel
        omega
      have hnext : next.InRange := hrest (sep, next) (List.mem_cons_self ..)
      have hmore : ∀ p ∈ rest, p.2.InRange := fun p hp => hrest p (List.mem_cons_of_mem _ hp)
      simp only [textFrom]
      rw [dmsFrom_part m_sign fuel f mul ret (sep.stops _) (sep.unitOf mul _) hf]
      simp only
      rw [ih next _ _ hshort hnext hmore]
      simp only [sumFrom, lastUnit, add_assoc]

/-- What comes when a number is due: one that is not finite or out of range, or none and no
unit. -/
def Unreadable (bad : List Char) : Prop :=
  (strtod bad).value = none ∨ (strtod bad).erange = true ∨
    ((strtod bad).rest = bad ∧ ∃ c, bad.head? = some c ∧ unit c = none)

/-- Parts with separators after them. -/
def textBefore (parts : List (Part × Separator)) (bad : List Char) : List Char :=
  parts.foldr (fun p text => p.1.text ++ p.2.char :: text) bad

theorem dmsFrom_unreadable (m_sign : ℚ) {fuel : Nat} {bad : List Char} (h : Unreadable bad)
    (mul ret : ℚ) : ∃ d, dmsFrom m_sign (fuel + 1) bad mul ret = some d ∧ d.value = none := by
  simp only [dmsFrom]
  cases hvalue : (strtod bad).value with
  | none => exact ⟨_, rfl, rfl⟩
  | some x =>
    simp only
    by_cases herange : (strtod bad).erange = true
    · exact ⟨⟨none, (unitOf mul (strtod bad).rest).1, .erange⟩, by rw [if_pos herange], rfl⟩
    · rw [if_neg herange]
      rcases h with h | h | ⟨hrest, c, hc, hunit⟩
      · rw [hvalue] at h
        cases h
      · exact absurd h herange
      · obtain ⟨rest, rfl⟩ : ∃ rest, bad = c :: rest := by
          cases bad with
          | nil => cases hc
          | cons c' rest =>
            cases hc
            exact ⟨rest, rfl⟩
        rw [hrest]
        simp only [unitOf, hunit, if_true]
        exact ⟨_, rfl, rfl⟩

theorem dmsFrom_refused (m_sign : ℚ) {fuel : Nat} (parts : List (Part × Separator))
    {bad : List Char} (hbad : Unreadable bad) (mul ret : ℚ)
    (hfuel : (textBefore parts bad).length < fuel) :
    ∃ d, dmsFrom m_sign fuel (textBefore parts bad) mul ret = some d ∧ d.value = none := by
  induction parts generalizing fuel mul ret with
  | nil =>
    cases fuel with
    | zero => omega
    | succ fuel => exact dmsFrom_unreadable m_sign hbad mul ret
  | cons p parts ih =>
    obtain ⟨f, sep⟩ := p
    cases fuel with
    | zero => omega
    | succ fuel =>
      have htext : textBefore ((f, sep) :: parts) bad =
          f.text ++ sep.char :: textBefore parts bad := rfl
      rw [htext] at hfuel ⊢
      by_cases hf : f.InRange
      · rw [dmsFrom_part m_sign fuel f mul ret (sep.stops _) (sep.unitOf mul _) hf]
        rw [List.length_append, List.length_cons] at hfuel
        exact ih _ _ (by omega)
      · -- the part itself is out of range
        have hstrtod := strtod_part f mul (sep.stops (textBefore parts bad)) (sep.unitOf mul _)
        refine dmsFrom_unreadable m_sign ?_ mul ret
        unfold Unreadable
        rw [hstrtod.1, hstrtod.2.1, Strtod.ofNumber]
        by_cases hlarge : Strtod.tooLarge f.number.value = true
        · exact .inl (by rw [if_pos hlarge])
        · refine .inr (.inl ?_)
          rw [if_neg hlarge]
          by_contra hsmall
          exact hf ⟨by simpa using hlarge, by simpa using hsmall⟩

theorem parseDMS_signed {minus : Bool} {text : List Char} (hne : text ≠ [])
    (hminus : minus = false → text.head? ≠ some '-') :
    parseDMS (signed minus text) =
      dmsFrom (if minus then -1 else 1) (text.length + 1) text 1 0 := by
  unfold parseDMS signed
  cases minus with
  | true => simp only [if_true, if_neg hne]
  | false =>
    simp only [Bool.false_eq_true, if_false]
    split
    · exact absurd rfl (hminus rfl)
    · rw [if_neg hne]

theorem part_head (f : Part) (tail : List Char) :
    f.text ++ tail ≠ [] ∧ (f.text ++ tail).head? ≠ some '-' := by
  obtain ⟨c, t, htext⟩ := List.exists_cons_of_ne_nil f.number.text_ne_nil
  have hbegins := (f.number.begins c (by rw [htext]; exact List.mem_cons_self ..)).spec
  unfold Part.text
  rw [htext]
  refine ⟨by simp, fun h => ?_⟩
  exact hbegins.2.1 (Option.some.inj h)

/-- **Angles**: parts with separators between them are read as their sum, with the sign for all
of them; where a part cannot be read there is none; and every text is read to an end. -/
theorem parseDMS_reads :
    (∀ (minus : Bool) (f : Part) (rest : List (Separator × Part)), f.InRange →
      (∀ p ∈ rest, p.2.InRange) →
      parseDMS (signed minus (textFrom f rest)) =
        some ⟨some ((if minus then -1 else 1) * sumFrom 1 f rest), lastUnit 1 f rest, .ok⟩) ∧
    (∀ (minus : Bool) (parts : List (Part × Separator)) (bad : List Char), Unreadable bad →
      (minus = false → (textBefore parts bad).head? ≠ some '-') →
      ∃ d, parseDMS (signed minus (textBefore parts bad)) = some d ∧ d.value = none) ∧
    ∀ hptr, (parseDMS hptr).isSome = true := by
  refine ⟨?_, ?_, parseDMS_isSome⟩
  · intro minus f rest hf hrest
    have hhead : textFrom f rest ≠ [] ∧ (textFrom f rest).head? ≠ some '-' := by
      cases rest with
      | nil => simpa only [textFrom, List.append_nil] using part_head f []
      | cons p rest => exact part_head f _
    rw [parseDMS_signed hhead.1 fun _ => hhead.2,
      dmsFrom_reads _ f rest 1 0 (Nat.lt_succ_self _) hf hrest, zero_add, mul_comm]
  · intro minus parts bad hbad hminus
    have hne : textBefore parts bad ≠ [] := by
      cases parts with
      | nil =>
        rintro rfl
        rcases hbad with h | h | ⟨-, c, h, -⟩
        · cases h
        · cases h
        · cases h
      | cons p parts => exact (part_head p.1 _).1
    rw [parseDMS_signed hne hminus]
    exact dmsFrom_refused _ parts hbad 1 0 (Nat.lt_succ_self _)

def colon : Separator where
  char := ':'
  notUnit := rfl
  notNumber c hc := by
    cases hc
    decide

instance Part.InRange.decidable (f : Part) : Decidable f.InRange :=
  inferInstanceAs (Decidable (_ ∧ _))

def plainPart (d : Fin 10) (ds : List (Fin 10)) : Part :=
  ⟨⟨d :: ds, none, .inl (List.cons_ne_nil d ds)⟩, none⟩

/-- The sign is that of all parts, also of "-0:30". -/
theorem parseDMS_reads_negative :
    parseDMS "-0:30".toList = some ⟨some (-1 / 2), 1 / 60, .ok⟩ :=
  (parseDMS_reads.1 true (plainPart 0 []) [(colon, plainPart 3 [0])] (by decide +kernel)
    (List.forall_mem_singleton.mpr (by decide +kernel))).trans (by decide +kernel)

/-- No text, a separator at the end and a blank between the parts are read. The letter of hours
is one of minutes, and after a letter the first digit is lost. -/
theorem parseDMS_lenient :
    parseDMS [] = some ⟨some 0, 1, .ok⟩ ∧
      parseDMS "12:".toList = some ⟨some 12, 1 / 60, .ok⟩ ∧
      parseDMS "12 30".toList = some ⟨some (25 / 2), 1 / 60, .ok⟩ ∧
      parseDMS "1h".toList = some ⟨some (1 / 60), 1 / 60, .ok⟩ ∧
      parseDMS "12d30m".toList = some ⟨some 12, 1 / 60, .ok⟩ := by
  decide +kernel

end Rts2.Values
