import Mathlib.Data.Rat.Defs
import Mathlib.Algebra.Order.Field.Rat
import Mathlib.Tactic.Ring

/-! # `strtod`

A number at the beginning of a text, as the C library reads it: decimal or hexadecimal, infinite
or not a number. Values are exact, and only their range is that of a `double`. -/
namespace Rts2.Lib

/-- What `strtod` returns: the value, none if it is not finite, whether `errno` is `ERANGE`, and
where it stopped. -/
structure Strtod where
  value : Option ℚ
  erange : Bool
  rest : List Char
  deriving DecidableEq

namespace Strtod

def isspace (c : Char) : Bool := c = ' ' || (9 ≤ c.toNat && c.toNat ≤ 13)

/-- The digit of a character, in bases up to 16. -/
def digit (base : Nat) (c : Char) : Option Nat :=
  let n :=
    if c.isDigit then some (c.toNat - 48)
    else if 97 ≤ c.toNat ∧ c.toNat ≤ 102 then some (c.toNat - 87)
    else if 65 ≤ c.toNat ∧ c.toNat ≤ 70 then some (c.toNat - 55)
    else none
  n.filter (· < base)

/-- The digits at the beginning of a text. -/
def digits (base : Nat) : List Char → List Nat × List Char
  | [] => ([], [])
  | c :: s =>
    match digit base c with
    | some n => (n :: (digits base s).1, (digits base s).2)
    | none => ([], c :: s)

def whole (base : Nat) (ds : List Nat) : Nat := ds.foldl (fun n d => base * n + d) 0

def fraction (base : Nat) (ds : List Nat) : ℚ := whole base ds / base ^ ds.length

/-- Digits with a point among them. -/
def mantissa (base : Nat) (s : List Char) : Option (ℚ × List Char) :=
  let (ws, rest) := digits base s
  match rest with
  | '.' :: rest' =>
    let (fs, rest'') := digits base rest'
    if ws = [] ∧ fs = [] then none else some (whole base ws + fraction base fs, rest'')
  | _ => if ws = [] then none else some (whole base ws, rest)

def sign : List Char → ℚ × List Char
  | '-' :: s => (-1, s)
  | '+' :: s => (1, s)
  | s => (1, s)

/-- An exponent after its letter; a letter without digits is none. -/
def exponent (letter : Char) (s : List Char) : Int × List Char :=
  match s with
  | c :: s' =>
    if c.toLower = letter then
      let (neg, s'') := sign s'
      let (ds, rest) := digits 10 s''
      if ds = [] then (0, s) else (if neg < 0 then -whole 10 ds else whole 10 ds, rest)
    else (0, s)
  | [] => (0, s)

/-- The rest after a word in any case. -/
def word (w s : List Char) : Option (List Char) :=
  if (s.take w.length).map Char.toLower = w then some (s.drop w.length) else none

/-- Infinity, or not a number with what it may have in brackets. -/
def nonfinite (s : List Char) : Option (List Char) :=
  match word "infinity".toList s with
  | some rest => some rest
  | none =>
    match word "inf".toList s with
    | some rest => some rest
    | none =>
      match word "nan".toList s with
      | some ('(' :: rest) =>
        match rest.dropWhile fun c => c.isAlphanum || c = '_' with
        | ')' :: rest' => some rest'
        | _ => some ('(' :: rest)
      | rest => rest

/-- The number, without a sign; hexadecimal if it begins so and has a digit. -/
def magnitude (s : List Char) : Option (ℚ × List Char) :=
  let decimal := (mantissa 10 s).map fun (x, rest) =>
    let (e, rest) := exponent 'e' rest
    (x * 10 ^ e, rest)
  match s with
  | '0' :: c :: s' =>
    if c.toLower = 'x' then
      match mantissa 16 s' with
      | some (x, rest) =>
        let (e, rest) := exponent 'p' rest
        some (x * 2 ^ e, rest)
      | none => decimal
    else decimal
  | _ => decimal

/-- The range of a `double`, after rounding to the nearest. -/
def tooLarge (x : ℚ) : Bool := 2 ^ 1024 - 2 ^ 970 ≤ |x|

/-- A number other than 0 that is less than the least normal one. -/
def tooSmall (x : ℚ) : Bool := x ≠ 0 ∧ |x| < 1 / 2 ^ 1022

/-- A number is handed out. -/
def ofNumber (x : ℚ) (rest : List Char) : Strtod :=
  if tooLarge x then ⟨none, true, rest⟩ else ⟨some x, tooSmall x, rest⟩

end Strtod

open Strtod

/-- `strtod (s, &endptr)`; without a number it is 0, and stops where it began. -/
def strtod (s : List Char) : Strtod :=
  let (neg, s') := sign (s.dropWhile isspace)
  match nonfinite s' with
  | some rest => ⟨none, false, rest⟩
  | none =>
    match magnitude s' with
    | some (x, rest) => ofNumber (neg * x) rest
    | none => ⟨some 0, false, s⟩

namespace Strtod

/-! ## What is left is the end of the text -/

theorem digits_suffix (base : Nat) (s : List Char) : (digits base s).2 <:+ s := by
  induction s with
  | nil => exact List.suffix_rfl
  | cons c s ih =>
    simp only [digits]
    split
    · exact ih.trans (List.suffix_cons c s)
    · exact List.suffix_rfl

theorem sign_suffix (s : List Char) : (sign s).2 <:+ s := by
  unfold sign
  split
  · exact List.suffix_cons _ _
  · exact List.suffix_cons _ _
  · exact List.suffix_rfl

theorem mantissa_suffix {base : Nat} {s rest : List Char} {x : ℚ}
    (h : mantissa base s = some (x, rest)) : rest <:+ s := by
  have hdigits := digits_suffix base s
  unfold mantissa at h
  simp only at h
  split at h
  · next rest' heq =>
    rw [heq] at hdigits
    split at h
    · cases h
    · cases h
      exact (digits_suffix base rest').trans ((List.suffix_cons _ _).trans hdigits)
  · split at h
    · cases h
    · cases h
      exact hdigits

theorem exponent_suffix (letter : Char) (s : List Char) : (exponent letter s).2 <:+ s := by
  unfold exponent
  split
  · next c s' =>
    split
    · simp only
      split
      · exact List.suffix_rfl
      · exact (digits_suffix 10 _).trans ((sign_suffix s').trans (List.suffix_cons c s'))
    · exact List.suffix_rfl
  · exact List.suffix_rfl

theorem word_suffix {w s rest : List Char} (h : word w s = some rest) : rest <:+ s := by
  unfold word at h
  split at h
  · cases h
    exact List.drop_suffix _ _
  · cases h

theorem nonfinite_suffix {s rest : List Char} (h : nonfinite s = some rest) : rest <:+ s := by
  unfold nonfinite at h
  split at h
  · next hword =>
    cases h
    exact word_suffix hword
  · split at h
    · next hword =>
      cases h
      exact word_suffix hword
    · split at h
      · next rest' hword =>
        have hsuffix := word_suffix hword
        split at h
        · next rest'' heq =>
          cases h
          have hdrop := List.dropWhile_suffix (fun c => c.isAlphanum || c = '_') (l := rest')
          rw [heq] at hdrop
          exact (List.suffix_cons _ _).trans (hdrop.trans ((List.suffix_cons _ _).trans hsuffix))
        · cases h
          exact hsuffix
      · exact word_suffix h

theorem magnitude_suffix {s rest : List Char} {x : ℚ} (h : magnitude s = some (x, rest)) :
    rest <:+ s := by
  have hdecimal : ∀ {r : ℚ × List Char}, (mantissa 10 s).map (fun x =>
      (x.1 * 10 ^ (exponent 'e' x.2).1, (exponent 'e' x.2).2)) = some r → r.2 <:+ s := by
    intro r hr
    obtain ⟨⟨y, rest'⟩, hm, rfl⟩ := Option.map_eq_some_iff.mp hr
    exact (exponent_suffix 'e' rest').trans (mantissa_suffix hm)
  unfold magnitude at h
  split at h
  · next c s' =>
    split at h
    · split at h
      · next y rest' hm =>
        cases h
        exact (exponent_suffix 'p' rest').trans ((mantissa_suffix hm).trans
          ((List.suffix_cons c s').trans (List.suffix_cons '0' _)))
      · exact hdecimal h
    · exact hdecimal h
  · exact hdecimal h

/-! ## Decimal numbers -/

/-- Decimal digits, with a point among them or not. -/
structure Decimal where
  whole : List (Fin 10)
  frac : Option (List (Fin 10))
  digits : whole ≠ [] ∨ ∃ f, frac = some f ∧ f ≠ []

def digitChar (d : Fin 10) : Char := Char.ofNat (48 + d)

namespace Decimal

def text (d : Decimal) : List Char :=
  d.whole.map digitChar ++
    match d.frac with
    | some f => '.' :: f.map digitChar
    | none => []

def value (d : Decimal) : ℚ :=
  Strtod.whole 10 (d.whole.map Fin.val) +
    match d.frac with
    | some f => fraction 10 (f.map Fin.val)
    | none => 0

end Decimal

/-- A text that goes no number on. -/
def Stops (rest : List Char) : Prop :=
  ∀ c, rest.head? = some c →
    digit 10 c = none ∧ c ≠ '.' ∧ c.toLower ≠ 'e' ∧ c.toLower ≠ 'x'

/-- A character that a number begins with. -/
def Begins (c : Char) : Prop := c = '.' ∨ ∃ d, c = digitChar d

theorem digit_digitChar (d : Fin 10) : digit 10 (digitChar d) = some d.val := by
  revert d
  decide

theorem Begins.spec {c : Char} (h : Begins c) :
    isspace c = false ∧ c ≠ '-' ∧ c ≠ '+' ∧ c.toLower ≠ 'i' ∧ c.toLower ≠ 'n' ∧
      c.toLower ≠ 'x' := by
  rcases h with rfl | ⟨d, rfl⟩
  · decide
  · revert d
    decide

theorem digits_append {ds : List (Fin 10)} {rest : List Char}
    (hrest : ∀ c, rest.head? = some c → digit 10 c = none) :
    digits 10 (ds.map digitChar ++ rest) = (ds.map Fin.val, rest) := by
  induction ds with
  | nil =>
    cases rest with
    | nil => rfl
    | cons c rest =>
      have hc := hrest c rfl
      simp only [List.map_nil, List.nil_append, digits, hc]
  | cons d ds ih =>
    simp only [List.map_cons, List.cons_append, digits, digit_digitChar, ih]

theorem mantissa_decimal (d : Decimal) {rest : List Char}
    (hrest : ∀ c, rest.head? = some c → digit 10 c = none ∧ c ≠ '.') :
    mantissa 10 (d.text ++ rest) = some (d.value, rest) := by
  have hstop : ∀ c, rest.head? = some c → digit 10 c = none := fun c hc => (hrest c hc).1
  obtain ⟨ws, frac, hd⟩ := d
  cases frac with
  | none =>
    have hne : ws.map Fin.val ≠ [] := by
      rcases hd with h | ⟨f, h, -⟩
      · exact fun hnil => h (List.map_eq_nil_iff.mp hnil)
      · cases h
    simp only [Decimal.text, Decimal.value, List.append_nil, mantissa, digits_append hstop]
    cases rest with
    | nil => simp only [if_neg hne, add_zero]
    | cons c rest =>
      have hpoint : c ≠ '.' := (hrest c rfl).2
      split
      · next heq => exact absurd (List.cons.inj heq).1 hpoint
      · simp only [if_neg hne, add_zero]
  | some fs =>
    have hpoint : ∀ c, ('.' :: (fs.map digitChar ++ rest)).head? = some c → digit 10 c = none := by
      intro c hc
      cases hc
      rfl
    have hne : ¬(ws.map Fin.val = [] ∧ fs.map Fin.val = []) := by
      rintro ⟨hws, hfs⟩
      rcases hd with h | ⟨f, h, hf⟩
      · exact h (List.map_eq_nil_iff.mp hws)
      · cases h
        exact hf (List.map_eq_nil_iff.mp hfs)
    simp only [Decimal.text, Decimal.value, List.append_assoc, List.cons_append, mantissa,
      digits_append hpoint, digits_append hstop, if_neg hne]

theorem Decimal.begins (d : Decimal) : ∀ c ∈ d.text, Begins c := by
  intro c hc
  rw [Decimal.text, List.mem_append] at hc
  rcases hc with hc | hc
  · obtain ⟨n, -, rfl⟩ := List.mem_map.mp hc
    exact .inr ⟨n, rfl⟩
  · split at hc
    · rcases List.mem_cons.mp hc with rfl | hc
      · exact .inl rfl
      · obtain ⟨n, -, rfl⟩ := List.mem_map.mp hc
        exact .inr ⟨n, rfl⟩
    · cases hc

theorem Decimal.text_ne_nil (d : Decimal) : d.text ≠ [] := by
  intro hnil
  obtain ⟨hws, hfrac⟩ := List.append_eq_nil_iff.mp hnil
  rcases d.digits with h | ⟨f, h, -⟩
  · exact h (List.map_eq_nil_iff.mp hws)
  · rw [h] at hfrac
    cases hfrac

theorem exponent_stops {rest : List Char} (hrest : Stops rest) : exponent 'e' rest = (0, rest) := by
  cases rest with
  | nil => rfl
  | cons c rest => exact if_neg (hrest c rfl).2.2.1

end Strtod

open Strtod

/-- The sign of a negative number. -/
def signText (neg : Bool) : List Char := if neg then ['-'] else []

/-- A decimal number is read, with the exponent that follows it. -/
theorem strtod_number (neg : Bool) (d : Decimal) {e : Int} {tail rest : List Char}
    (htail : ∀ c, tail.head? = some c → digit 10 c = none ∧ c ≠ '.' ∧ c.toLower ≠ 'x')
    (he : exponent 'e' tail = (e, rest)) :
    strtod (signText neg ++ (d.text ++ tail)) =
      ofNumber ((if neg then -1 else 1) * (d.value * 10 ^ e)) rest := by
  obtain ⟨c, t, htext⟩ := List.exists_cons_of_ne_nil d.text_ne_nil
  have hbegins := d.begins
  rw [htext] at hbegins
  obtain ⟨hspace, hminus, hplus, hinf, hnan, -⟩ := (hbegins c (List.mem_cons_self ..)).spec
  have hsign : sign ((signText neg ++ (d.text ++ tail)).dropWhile isspace) =
      (if neg then -1 else 1, d.text ++ tail) := by
    rw [htext]
    cases neg with
    | true => rfl
    | false =>
      show sign ((c :: (t ++ tail)).dropWhile isspace) = (1, c :: (t ++ tail))
      rw [List.dropWhile_cons_of_neg (by simp [hspace])]
      unfold sign
      split
      · next heq => exact absurd (List.cons.inj heq).1 hminus
      · next heq => exact absurd (List.cons.inj heq).1 hplus
      · rfl
  have hword (w : Char) (ws : List Char) (hw : c.toLower ≠ w) :
      word (w :: ws) (c :: (t ++ tail)) = none := by
    refine if_neg fun h => ?_
    simp only [List.length_cons, List.take_succ_cons, List.map_cons, List.cons.injEq] at h
    exact hw h.1
  have hfinite : nonfinite (d.text ++ tail) = none := by
    rw [htext, List.cons_append]
    unfold nonfinite
    rw [show "infinity".toList = 'i' :: "nfinity".toList from rfl,
      show "inf".toList = 'i' :: "nf".toList from rfl,
      show "nan".toList = 'n' :: "an".toList from rfl, hword _ _ hinf, hword _ _ hinf,
      hword _ _ hnan]
  have hmagnitude : magnitude (d.text ++ tail) = some (d.value * 10 ^ e, rest) := by
    have hmantissa := mantissa_decimal d fun c hc => ⟨(htail c hc).1, (htail c hc).2.1⟩
    have hdecimal : ((mantissa 10 (d.text ++ tail)).map fun x =>
        (x.1 * 10 ^ (exponent 'e' x.2).1, (exponent 'e' x.2).2)) =
          some (d.value * 10 ^ e, rest) := by
      rw [hmantissa, Option.map_some, he]
    rw [htext, List.cons_append] at hdecimal ⊢
    unfold magnitude
    split
    · next c' s' heq =>
      have hx : c'.toLower ≠ 'x' := by
        obtain ⟨-, hcons⟩ := List.cons.inj heq
        cases t with
        | nil =>
          rw [List.nil_append] at hcons
          exact (htail c' (by rw [hcons]; rfl)).2.2
        | cons c'' t =>
          obtain ⟨rfl, -⟩ := List.cons.inj hcons
          exact (hbegins c'' (by simp)).spec.2.2.2.2.2
      simp only [if_neg hx]
      exact hdecimal
    · exact hdecimal
  unfold strtod
  rw [hsign]
  simp only [hfinite, hmagnitude]

/-- **Decimal numbers** are read as what they are, up to where they stop. -/
theorem strtod_decimal (d : Decimal) {rest : List Char} (hrest : Stops rest) :
    strtod (d.text ++ rest) = ofNumber d.value rest := by
  have h := strtod_number false d
    (fun c hc => ⟨(hrest c hc).1, (hrest c hc).2.1, (hrest c hc).2.2.2⟩) (exponent_stops hrest)
  simpa [signText] using h

theorem strtod_suffix (s : List Char) : (strtod s).rest <:+ s := by
  have hback : (sign (s.dropWhile isspace)).2 <:+ s :=
    (sign_suffix _).trans (List.dropWhile_suffix _)
  unfold strtod
  simp only
  split
  · next hfinite => exact (nonfinite_suffix hfinite).trans hback
  · split
    · next x rest hmagnitude =>
      have hsuffix := (magnitude_suffix hmagnitude).trans hback
      unfold ofNumber
      split
      · exact hsuffix
      · exact hsuffix
    · exact List.suffix_rfl

end Rts2.Lib
