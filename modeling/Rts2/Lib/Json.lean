import Mathlib.Data.List.TakeWhile
import Mathlib.Data.Nat.Notation
import Mathlib.Tactic.Common

/-! # JSON texts

A reader of JSON over bytes. `Spells P t j` says that the text `t` is read as `j` exactly if
`P` holds; it is composed along arrays and objects. -/
namespace Rts2.Lib

/-- Numbers keep their text. -/
inductive Json where
  | null
  | bool (b : Bool)
  | num (text : List UInt8)
  | str (s : List UInt8)
  | arr (items : List Json)
  | obj (members : List (List UInt8 × Json))

namespace Json

/-! ## Strings -/

def isWs (b : UInt8) : Bool := b = 32 || b = 9 || b = 10 || b = 13

def skipWs (t : List UInt8) : List UInt8 := t.dropWhile isWs

/-- The byte of a two character escape. -/
def unescape (b : UInt8) : Option UInt8 :=
  if b = 34 ∨ b = 92 ∨ b = 47 then some b
  else if b = 98 then some 8
  else if b = 102 then some 12
  else if b = 110 then some 10
  else if b = 114 then some 13
  else if b = 116 then some 9
  else none

def hexDigit (b : UInt8) : Option Nat :=
  if 48 ≤ b ∧ b ≤ 57 then some (b.toNat - 48)
  else if 97 ≤ b ∧ b ≤ 102 then some (b.toNat - 87)
  else if 65 ≤ b ∧ b ≤ 70 then some (b.toNat - 55)
  else none

/-- The bytes of a 16 bit unit; the halves of a pair are kept apart. -/
def utf8 (u : Nat) : List UInt8 :=
  if u < 0x80 then [UInt8.ofNat u]
  else if u < 0x800 then [UInt8.ofNat (0xc0 + u / 64), UInt8.ofNat (0x80 + u % 64)]
  else [UInt8.ofNat (0xe0 + u / 4096), UInt8.ofNat (0x80 + u / 64 % 64), UInt8.ofNat (0x80 + u % 64)]

def unit (a b c d : UInt8) : Option (List UInt8) := do
  let a ← hexDigit a
  let b ← hexDigit b
  let c ← hexDigit c
  let d ← hexDigit d
  return utf8 (((a * 16 + b) * 16 + c) * 16 + d)

/-- Put bytes before a string that was read. -/
def before (s : List UInt8) (r : Option (List UInt8 × List UInt8)) :
    Option (List UInt8 × List UInt8) :=
  r.map fun p => (s ++ p.1, p.2)

/-- The rest of a string after its opening quote. -/
def readString : List UInt8 → Option (List UInt8 × List UInt8)
  | [] => none
  | b :: t =>
    if b = 34 then some ([], t)
    else if b = 92 then
      match t with
      | 117 :: h₁ :: h₂ :: h₃ :: h₄ :: t => (unit h₁ h₂ h₃ h₄).bind fun s => before s (readString t)
      | e :: t => (unescape e).bind fun c => before [c] (readString t)
      | [] => none
    else if b < 32 then none
    else before [b] (readString t)

/-- Neither a quote, nor a backslash, nor a control character. -/
def Plain (s : List UInt8) : Prop := ∀ b ∈ s, 32 ≤ b ∧ b ≠ 34 ∧ b ≠ 92

instance (s : List UInt8) : Decidable (Plain s) := inferInstanceAs (Decidable (∀ b ∈ s, _))


/-! ## Reading a string back -/

/-- The bytes before the first quote. -/
def firstQuote (t : List UInt8) : Nat := (t.takeWhile (· ≠ 34)).length

@[simp] theorem firstQuote_quote (t : List UInt8) : firstQuote (34 :: t) = 0 := rfl

theorem firstQuote_cons {b : UInt8} (h : b ≠ 34) (t : List UInt8) :
    firstQuote (b :: t) = firstQuote t + 1 := by
  simp [firstQuote, h]

theorem firstQuote_append {c : List UInt8} (h : 34 ∉ c) (t : List UInt8) :
    firstQuote (c ++ t) = c.length + firstQuote t := by
  induction c with
  | nil => simp
  | cons b c ih =>
    rw [List.mem_cons, not_or] at h
    rw [List.cons_append, firstQuote_cons (Ne.symm h.1), ih h.2, List.length_cons]
    omega

theorem firstQuote_lt {p : List UInt8} (h : 34 ∈ p) (s : List UInt8) :
    firstQuote (p ++ s) < p.length := by
  induction p with
  | nil => cases h
  | cons b p ih =>
    by_cases hb : b = 34
    · rw [hb, List.cons_append, firstQuote_quote]
      exact Nat.succ_pos _
    · have htail := (List.mem_cons.mp h).resolve_left (Ne.symm hb)
      rw [List.cons_append, firstQuote_cons hb]
      exact Nat.succ_lt_succ (ih htail)

/-- A string that was read never gets ahead of the text: its first quote comes earlier, and
without one it is as long as the text before the quote only if nothing was escaped. -/
structure Behind (t s r : List UInt8) : Prop where
  quoted : 34 ∈ s → firstQuote s < firstQuote t
  length : 34 ∉ s → s.length ≤ firstQuote t
  plain : 34 ∉ s → s.length = firstQuote t → Plain s ∧ t = s ++ 34 :: r

/-- An escape is longer than its bytes. -/
theorem Behind.escape {t s r c p : List UInt8} (h : Behind t s r) (hc : 34 ∉ c)
    (hp : p.length < c.length) : Behind (c ++ t) (p ++ s) r := by
  have hfirst := firstQuote_append hc t
  constructor
  · intro hquote
    by_cases hquote' : 34 ∈ p
    · have hlt := firstQuote_lt hquote' s
      omega
    · have hs := h.quoted ((List.mem_append.mp hquote).resolve_left hquote')
      rw [firstQuote_append hquote' s]
      omega
  · intro hquote
    have hs := h.length fun hmem => hquote (List.mem_append_right p hmem)
    rw [List.length_append]
    omega
  · intro hquote hlength
    have hs := h.length fun hmem => hquote (List.mem_append_right p hmem)
    rw [List.length_append] at hlength
    omega

theorem Behind.byte {t s r : List UInt8} (h : Behind t s r) {b : UInt8} (hquote : b ≠ 34)
    (hback : b ≠ 92) (hcontrol : 32 ≤ b) : Behind (b :: t) (b :: s) r := by
  have hmem : 34 ∉ b :: s → 34 ∉ s := fun hs hs' => hs (List.mem_cons_of_mem b hs')
  constructor
  · intro hs
    have hlt := h.quoted ((List.mem_cons.mp hs).resolve_left (Ne.symm hquote))
    rw [firstQuote_cons hquote, firstQuote_cons hquote]
    omega
  · intro hs
    have hle := h.length (hmem hs)
    rw [firstQuote_cons hquote, List.length_cons]
    omega
  · intro hs hlength
    rw [firstQuote_cons hquote, List.length_cons] at hlength
    obtain ⟨hplain, rfl⟩ := h.plain (hmem hs) (by omega)
    refine ⟨?_, rfl⟩
    intro c hc
    rcases List.mem_cons.mp hc with rfl | hc
    · exact ⟨hcontrol, hquote, hback⟩
    · exact hplain c hc

theorem hexDigit_quote {b : UInt8} {n : Nat} (h : hexDigit b = some n) : b ≠ 34 := by
  rintro rfl
  cases h

theorem utf8_length (u : Nat) : (utf8 u).length ≤ 3 := by
  unfold utf8
  split
  · simp
  · split <;> simp

theorem unit_eq {h₁ h₂ h₃ h₄ : UInt8} {p : List UInt8} (h : unit h₁ h₂ h₃ h₄ = some p) :
    p.length ≤ 3 ∧ h₁ ≠ 34 ∧ h₂ ≠ 34 ∧ h₃ ≠ 34 ∧ h₄ ≠ 34 := by
  simp only [unit, Option.bind_eq_bind, Option.bind_eq_some_iff] at h
  obtain ⟨a, ha, b, hb, c, hc, d, hd, h⟩ := h
  rw [← Option.some.inj h]
  exact ⟨utf8_length _, hexDigit_quote ha, hexDigit_quote hb, hexDigit_quote hc,
    hexDigit_quote hd⟩

theorem before_eq {p s r : List UInt8} {x : Option (List UInt8 × List UInt8)}
    (h : before p x = some (s, r)) : ∃ s', x = some (s', r) ∧ s = p ++ s' := by
  obtain ⟨⟨s', r'⟩, rfl, h⟩ := Option.map_eq_some_iff.mp h
  cases h
  exact ⟨s', rfl, rfl⟩

theorem readString_behind {t s r : List UInt8} (h : readString t = some (s, r)) :
    Behind t s r := by
  fun_induction readString t generalizing s r with
  | case1 => cases h
  | case2 t =>
    cases h
    exact ⟨fun hs => absurd hs List.not_mem_nil, fun _ => Nat.zero_le _,
      fun _ _ => ⟨fun b hb => absurd hb List.not_mem_nil, rfl⟩⟩
  | case3 h₁ h₂ h₃ h₄ t _ ih =>
    obtain ⟨p, hp, h⟩ := Option.bind_eq_some_iff.mp h
    obtain ⟨s', hs', rfl⟩ := before_eq h
    obtain ⟨hlength, hq₁, hq₂, hq₃, hq₄⟩ := unit_eq hp
    refine Behind.escape (c := [92, 117, h₁, h₂, h₃, h₄]) (ih hs') ?_ (by simp; omega)
    simp [Ne.symm hq₁, Ne.symm hq₂, Ne.symm hq₃, Ne.symm hq₄]
  | case4 e t _ _ ih =>
    obtain ⟨c, hc, h⟩ := Option.bind_eq_some_iff.mp h
    obtain ⟨s', hs', rfl⟩ := before_eq h
    by_cases he : e = 34
    · -- an escaped quote: the string has it earlier than the text
      subst he
      cases hc
      refine ⟨fun _ => ?_, fun hs => ?_, fun hs => ?_⟩
      · rw [firstQuote_cons (by decide), List.singleton_append, firstQuote_quote]
        exact Nat.succ_pos _
      · exact absurd (by simp) hs
      · exact absurd (by simp) hs
    · exact Behind.escape (c := [92, e]) (ih hs') (by simp [Ne.symm he]) (by simp)
  | case5 => cases h
  | case6 => cases h
  | case7 b t hquote hback hcontrol ih =>
    obtain ⟨s', hs', rfl⟩ := before_eq h
    exact (ih hs').byte hquote hback (UInt8.not_lt.mp hcontrol)

theorem readString_byte {b : UInt8} (hquote : b ≠ 34) (hback : b ≠ 92) (hcontrol : 32 ≤ b)
    (t : List UInt8) : readString (b :: t) = before [b] (readString t) := by
  rw [readString.eq_def]
  simp only [if_neg hquote, if_neg hback, if_neg (UInt8.not_lt.mpr hcontrol)]

theorem firstQuote_of_mem {s : List UInt8} (h : 34 ∈ s) (t : List UInt8) :
    firstQuote (s ++ t) = firstQuote s := by
  induction s with
  | nil => cases h
  | cons b s ih =>
    by_cases hb : b = 34
    · rw [hb, List.cons_append, firstQuote_quote, firstQuote_quote]
    · rw [List.cons_append, firstQuote_cons hb, firstQuote_cons hb,
        ih ((List.mem_cons.mp h).resolve_left (Ne.symm hb))]

/-- A string is read back exactly if it is plain. -/
theorem readString_iff (s rest r : List UInt8) :
    readString (s ++ 34 :: rest) = some (s, r) ↔ Plain s ∧ r = rest := by
  constructor
  · intro h
    have hbehind := readString_behind h
    have hquote : 34 ∉ s := fun hs => by
      have hlt := hbehind.quoted hs
      rw [firstQuote_of_mem hs] at hlt
      exact absurd hlt (lt_irrefl _)
    have hlength : s.length = firstQuote (s ++ 34 :: rest) := by
      rw [firstQuote_append hquote, firstQuote_quote, Nat.add_zero]
    obtain ⟨hplain, heq⟩ := hbehind.plain hquote hlength
    exact ⟨hplain, (List.cons.inj (List.append_cancel_left heq)).2.symm⟩
  · rintro ⟨hplain, rfl⟩
    induction s with
    | nil =>
      rw [List.nil_append, readString.eq_def]
      rfl
    | cons b s ih =>
      obtain ⟨hcontrol, hquote, hback⟩ := hplain b List.mem_cons_self
      have hs := ih fun c hc => hplain c (List.mem_cons_of_mem b hc)
      rw [List.cons_append, readString_byte hquote hback hcontrol, hs]
      rfl

/-! ## Numbers -/

def isDigit (b : UInt8) : Bool := 48 ≤ b && b ≤ 57

/-- The bytes that numbers consist of. -/
def isNumByte (b : UInt8) : Bool :=
  isDigit b || b = 45 || b = 43 || b = 46 || b = 101 || b = 69

def isExponent : List UInt8 → Bool
  | [] => true
  | e :: t =>
    let digits := if t.head? = some 45 ∨ t.head? = some 43 then t.tail else t
    (e = 101 || e = 69) && !digits.isEmpty && digits.all isDigit

def isFraction : List UInt8 → Bool
  | 46 :: t => !(t.takeWhile isDigit).isEmpty && isExponent (t.dropWhile isDigit)
  | t => isExponent t

/-- A number: no leading zero. -/
def isNumber (t : List UInt8) : Bool :=
  let t := if t.head? = some 45 then t.tail else t
  let digits := t.takeWhile isDigit
  !digits.isEmpty && (digits.length = 1 || digits.head? ≠ some 48) &&
    isFraction (t.dropWhile isDigit)

/-! ## Values -/

def readLiteral (word : List UInt8) (j : Json) (t : List UInt8) : Option (Json × List UInt8) :=
  if word.isPrefixOf t then some (j, t.drop word.length) else none

def readNumber (t : List UInt8) : Option (Json × List UInt8) :=
  let text := t.takeWhile isNumByte
  if isNumber text then some (num text, t.dropWhile isNumByte) else none

mutual
/-- The value at the beginning of a text, and the rest of it. -/
def readValue : Nat → List UInt8 → Option (Json × List UInt8)
  | 0, _ => none
  | fuel + 1, t =>
    match skipWs t with
    | 123 :: t =>
      if (skipWs t).head? = some 125 then some (obj [], (skipWs t).tail)
      else (readMembers fuel t).map fun p => (obj p.1, p.2)
    | 91 :: t =>
      if (skipWs t).head? = some 93 then some (arr [], (skipWs t).tail)
      else (readItems fuel t).map fun p => (arr p.1, p.2)
    | 34 :: t => (readString t).map fun p => (str p.1, p.2)
    | 116 :: t => readLiteral [114, 117, 101] (bool true) t
    | 102 :: t => readLiteral [97, 108, 115, 101] (bool false) t
    | 110 :: t => readLiteral [117, 108, 108] null t
    | t => readNumber t

/-- The items of an array up to its end. -/
def readItems : Nat → List UInt8 → Option (List Json × List UInt8)
  | 0, _ => none
  | fuel + 1, t => do
    let (j, t) ← readValue fuel t
    match skipWs t with
    | 93 :: t => some ([j], t)
    | 44 :: t => (readItems fuel t).map fun p => (j :: p.1, p.2)
    | _ => none

/-- The members of an object up to its end. -/
def readMembers : Nat → List UInt8 → Option (List (List UInt8 × Json) × List UInt8)
  | 0, _ => none
  | fuel + 1, t =>
    match skipWs t with
    | 34 :: t => do
      let (name, t) ← readString t
      match skipWs t with
      | 58 :: t => do
        let (j, t) ← readValue fuel t
        match skipWs t with
        | 125 :: t => some ([(name, j)], t)
        | 44 :: t => (readMembers fuel t).map fun p => ((name, j) :: p.1, p.2)
        | _ => none
      | _ => none
    | _ => none
end

/-- A JSON text is one value. -/
def parse (t : List UInt8) : Option Json :=
  match readValue (t.length + 1) t with
  | some (j, t) => if skipWs t = [] then some j else none
  | none => none

/-! ## Texts that are read as a value -/

/-- No number goes on into the rest. -/
def Ends (rest : List UInt8) : Prop := ∀ b ∈ rest.head?, isNumByte b = false

/-- The text `t` is read as `j` exactly if `P` holds. -/
structure Spells (P : Prop) (t : List UInt8) (j : Json) : Prop where
  first : ∃ b, t.head? = some b ∧ isWs b = false ∧ b ≠ 93 ∧ b ≠ 125
  reads : P → ∀ rest fuel, Ends rest → t.length ≤ fuel → readValue fuel (t ++ rest) = some (j, rest)
  only : ∀ rest fuel r, Ends rest → readValue fuel (t ++ rest) = some (j, r) → P ∧ r = rest

section
variable {P : Prop} {t : List UInt8} {j : Json}

theorem Spells.congr {Q : Prop} (h : Spells P t j) (hPQ : P ↔ Q) : Spells Q t j :=
  ⟨h.first, fun hQ => h.reads (hPQ.mpr hQ), fun rest fuel r hends hread =>
    ⟨hPQ.mp (h.only rest fuel r hends hread).1, (h.only rest fuel r hends hread).2⟩⟩

theorem skipWs_cons {b : UInt8} (h : isWs b = false) (t : List UInt8) : skipWs (b :: t) = b :: t := by
  simp [skipWs, h]

/-- A text that is spelled out is parsed exactly if `P` holds. -/
theorem Spells.parse_iff (h : Spells P t j) : parse t = some j ↔ P := by
  have hends : Ends [] := fun b hb => by cases hb
  constructor
  · intro hparse
    unfold parse at hparse
    split at hparse
    · next j' r hread =>
      split at hparse
      · cases hparse
        rw [← List.append_nil t] at hread
        exact (h.only [] _ _ hends hread).1
      · cases hparse
    · cases hparse
  · intro hP
    have hread := h.reads hP [] (t.length + 1) hends (Nat.le_succ _)
    rw [List.append_nil] at hread
    unfold parse
    rw [hread]
    rfl

end

theorem spells_str (s : List UInt8) : Spells (Plain s) (34 :: s ++ [34]) (str s) := by
  have hvalue : ∀ fuel rest, readValue (fuel + 1) (34 :: s ++ [34] ++ rest) =
      (readString (s ++ 34 :: rest)).map fun p => (str p.1, p.2) := by
    intro fuel rest
    rw [List.append_assoc, List.cons_append, readValue, skipWs_cons rfl]
    rfl
  refine ⟨⟨34, rfl, rfl, by decide, by decide⟩, ?_, ?_⟩
  · intro hplain rest fuel hends hfuel
    obtain ⟨fuel, rfl⟩ := Nat.exists_eq_succ_of_ne_zero (n := fuel) (by simp at hfuel; omega)
    rw [hvalue, (readString_iff s rest rest).mpr ⟨hplain, rfl⟩]
    rfl
  · intro rest fuel r hends hread
    cases fuel with
    | zero => cases hread
    | succ fuel =>
      rw [hvalue] at hread
      obtain ⟨⟨s', r'⟩, hs, hread⟩ := Option.map_eq_some_iff.mp hread
      cases hread
      exact (readString_iff _ rest _).mp hs

/-- A value that is read in one step, whatever follows. -/
theorem spells_of_read {t : List UInt8} {j : Json} {b : UInt8} (hb : t.head? = some b)
    (hws : isWs b = false) (hb' : b ≠ 93 ∧ b ≠ 125)
    (h : ∀ rest fuel, Ends rest → readValue (fuel + 1) (t ++ rest) = some (j, rest)) :
    Spells True t j := by
  refine ⟨⟨b, hb, hws, hb'⟩, ?_, ?_⟩
  · intro _ rest fuel hends hfuel
    cases fuel with
    | zero =>
      obtain ⟨l, rfl⟩ := List.head?_eq_some_iff.mp hb
      cases hfuel
    | succ fuel => exact h rest fuel hends
  · intro rest fuel r hends hread
    cases fuel with
    | zero => cases hread
    | succ fuel =>
      rw [h rest fuel hends] at hread
      cases hread
      exact ⟨trivial, rfl⟩

theorem spells_true : Spells True [116, 114, 117, 101] (bool true) :=
  spells_of_read rfl rfl (by decide) fun _ _ _ => by simp [readValue, skipWs, isWs, readLiteral]

theorem spells_false : Spells True [102, 97, 108, 115, 101] (bool false) :=
  spells_of_read rfl rfl (by decide) fun _ _ _ => by simp [readValue, skipWs, isWs, readLiteral]

theorem spells_null : Spells True [110, 117, 108, 108] null :=
  spells_of_read rfl rfl (by decide) fun _ _ _ => by simp [readValue, skipWs, isWs, readLiteral]

theorem isNumByte_of_isDigit {b : UInt8} (h : isDigit b = true) : isNumByte b = true := by
  simp [isNumByte, h]

theorem isWs_of_isNumByte {b : UInt8} (h : isNumByte b = true) : isWs b = false := by
  cases hws : isWs b with
  | false => rfl
  | true =>
    simp only [isWs, Bool.or_eq_true, decide_eq_true_eq] at hws
    obtain ((rfl | rfl) | rfl) | rfl := hws <;> exact absurd h (by decide)

theorem readNumber_append {t rest : List UInt8} (hnumber : isNumber t = true)
    (hbytes : ∀ b ∈ t, isNumByte b = true) (hends : Ends rest) :
    readNumber (t ++ rest) = some (num t, rest) := by
  have htake : (t ++ rest).takeWhile isNumByte = t := by
    rw [List.takeWhile_append_of_pos hbytes]
    cases rest with
    | nil => simp
    | cons b rest => simp [hends b rfl]
  have hdrop : (t ++ rest).dropWhile isNumByte = rest := by
    rw [List.dropWhile_append_of_pos hbytes]
    cases rest with
    | nil => rfl
    | cons b rest => simp [hends b rfl]
  simp only [readNumber, htake, hdrop, hnumber, if_true]

theorem spells_num {t : List UInt8} (hnumber : isNumber t = true)
    (hbytes : ∀ b ∈ t, isNumByte b = true) : Spells True t (num t) := by
  cases t with
  | nil => cases hnumber
  | cons b t =>
    have hb := hbytes b List.mem_cons_self
    have hws := isWs_of_isNumByte hb
    have hne : ∀ c, isNumByte c = false → b ≠ c := by
      rintro c hc rfl
      exact absurd (hb.symm.trans hc) (by decide)
    refine spells_of_read rfl hws ⟨hne 93 rfl, hne 125 rfl⟩ fun rest fuel hends => ?_
    rw [← readNumber_append hnumber hbytes hends, List.cons_append, readValue, skipWs_cons hws]
    -- no other value begins with a byte of a number
    split
    · next heq => exact absurd (List.cons.inj heq).1 (hne 123 rfl)
    · next heq => exact absurd (List.cons.inj heq).1 (hne 91 rfl)
    · next heq => exact absurd (List.cons.inj heq).1 (hne 34 rfl)
    · next heq => exact absurd (List.cons.inj heq).1 (hne 116 rfl)
    · next heq => exact absurd (List.cons.inj heq).1 (hne 102 rfl)
    · next heq => exact absurd (List.cons.inj heq).1 (hne 110 rfl)
    · rfl

/-! ## Arrays and objects -/

/-- Texts with commas between them. -/
def commas : List (List UInt8) → List UInt8
  | [] => []
  | [t] => t
  | t :: ts => t ++ 44 :: commas ts

section
variable {α : Type} {P : α → Prop} {text : α → List UInt8} {json : α → Json}

theorem commas_cons (t t' : List UInt8) (ts : List (List UInt8)) :
    commas (t :: t' :: ts) = t ++ 44 :: commas (t' :: ts) := rfl

theorem ends_cons {b : UInt8} (h : isNumByte b = false) (t : List UInt8) : Ends (b :: t) := by
  intro c hc
  cases hc
  exact h

theorem readItems_last {fuel : Nat} {t r : List UInt8} {j : Json}
    (h : readValue fuel t = some (j, 93 :: r)) : readItems (fuel + 1) t = some ([j], r) := by
  simp [readItems, h, skipWs, isWs]

theorem readItems_more {fuel : Nat} {t r : List UInt8} {j : Json}
    (h : readValue fuel t = some (j, 44 :: r)) :
    readItems (fuel + 1) t = (readItems fuel r).map fun p => (j :: p.1, p.2) := by
  simp [readItems, h, skipWs, isWs]

theorem readItems_reads (l : List α) (h : ∀ a ∈ l, Spells (P a) (text a) (json a))
    (hP : ∀ a ∈ l, P a) (hne : l ≠ []) (rest : List UInt8) (fuel : Nat)
    (hfuel : (commas (l.map text)).length < fuel) :
    readItems fuel (commas (l.map text) ++ 93 :: rest) = some (l.map json, rest) := by
  induction l generalizing fuel with
  | nil => exact absurd rfl hne
  | cons a l ih =>
    obtain ⟨fuel, rfl⟩ := Nat.exists_eq_succ_of_ne_zero (Nat.ne_of_gt (Nat.zero_lt_of_lt hfuel))
    have ha := h a List.mem_cons_self
    have hPa := hP a List.mem_cons_self
    cases l with
    | nil => exact readItems_last (ha.reads hPa _ fuel (ends_cons rfl _) (Nat.le_of_lt_succ hfuel))
    | cons a' l =>
      have hlength : (text a).length + ((commas ((a' :: l).map text)).length + 1) < fuel + 1 := by
        simpa [commas_cons] using hfuel
      have hrest := ih (fun b hb => h b (List.mem_cons_of_mem a hb))
        (fun b hb => hP b (List.mem_cons_of_mem a hb)) (List.cons_ne_nil _ _) fuel (by omega)
      have hread := ha.reads hPa (44 :: (commas ((a' :: l).map text) ++ 93 :: rest)) fuel
        (ends_cons rfl _) (by omega)
      rw [List.map_cons, List.map_cons, commas_cons, List.append_assoc, List.cons_append,
        ← List.map_cons, readItems_more hread, hrest]
      rfl

theorem readItems_succ {fuel : Nat} {t r : List UInt8} {js : List Json}
    (h : readItems (fuel + 1) t = some (js, r)) :
    ∃ j t', readValue fuel t = some (j, t') ∧ js.head? = some j := by
  simp only [readItems, Option.bind_eq_bind, Option.bind_eq_some_iff] at h
  obtain ⟨⟨j, t'⟩, hread, h⟩ := h
  refine ⟨j, t', hread, ?_⟩
  split at h
  · cases h
    rfl
  · obtain ⟨p, -, h⟩ := Option.map_eq_some_iff.mp h
    cases h
    rfl
  · cases h

theorem readItems_only (l : List α) (h : ∀ a ∈ l, Spells (P a) (text a) (json a)) (hne : l ≠ [])
    (rest r : List UInt8) (fuel : Nat)
    (hread : readItems fuel (commas (l.map text) ++ 93 :: rest) = some (l.map json, r)) :
    (∀ a ∈ l, P a) ∧ r = rest := by
  induction l generalizing fuel with
  | nil => exact absurd rfl hne
  | cons a l ih =>
    cases fuel with
    | zero => cases hread
    | succ fuel =>
      have ha := h a List.mem_cons_self
      obtain ⟨j, t', hvalue, hj⟩ := readItems_succ hread
      cases hj
      cases l with
      | nil =>
        obtain ⟨hP, rfl⟩ := ha.only _ fuel t' (ends_cons rfl _) hvalue
        rw [readItems_last hvalue] at hread
        cases hread
        exact ⟨fun b hb => List.mem_singleton.mp hb ▸ hP, rfl⟩
      | cons a' l =>
        rw [List.map_cons, List.map_cons, commas_cons, List.append_assoc, List.cons_append] at *
        obtain ⟨hP, rfl⟩ := ha.only _ fuel t' (ends_cons rfl _) hvalue
        rw [readItems_more hvalue] at hread
        obtain ⟨⟨js, r'⟩, hrest, heq⟩ := Option.map_eq_some_iff.mp hread
        cases heq
        obtain ⟨hPs, hr⟩ := ih (fun b hb => h b (List.mem_cons_of_mem a hb))
          (List.cons_ne_nil _ _) fuel hrest
        refine ⟨fun b hb => ?_, hr⟩
        rcases List.mem_cons.mp hb with rfl | hb
        · exact hP
        · exact hPs b hb

theorem readValue_arr_nil (fuel : Nat) (t : List UInt8) :
    readValue (fuel + 1) (91 :: 93 :: t) = some (arr [], t) := by
  simp [readValue, skipWs, isWs]

theorem readValue_arr {fuel : Nat} {t : List UInt8} {b : UInt8} (hb : t.head? = some b)
    (hws : isWs b = false) (hne : b ≠ 93) :
    readValue (fuel + 1) (91 :: t) = (readItems fuel t).map fun p => (arr p.1, p.2) := by
  obtain ⟨l, rfl⟩ := List.head?_eq_some_iff.mp hb
  rw [readValue, skipWs_cons rfl]
  simp [skipWs_cons hws, hne]

/-- The first byte of the texts. -/
theorem commas_head (a : α) (l : List α) (h : Spells (P a) (text a) (json a)) (rest : List UInt8) :
    ∃ b, (commas ((a :: l).map text) ++ rest).head? = some b ∧ isWs b = false ∧ b ≠ 93 := by
  obtain ⟨b, hb, hws, hne, -⟩ := h.first
  obtain ⟨t, ht⟩ := List.head?_eq_some_iff.mp hb
  refine ⟨b, ?_, hws, hne⟩
  cases l with
  | nil => simp [commas, ht]
  | cons a' l => simp [commas_cons, ht]

/-- An array of texts is spelled out if all of them are. -/
theorem spells_arr (l : List α) (h : ∀ a ∈ l, Spells (P a) (text a) (json a)) :
    Spells (∀ a ∈ l, P a) (91 :: commas (l.map text) ++ [93]) (arr (l.map json)) := by
  have hassoc : ∀ rest, 91 :: commas (l.map text) ++ [93] ++ rest =
      91 :: (commas (l.map text) ++ 93 :: rest) := fun rest => by simp
  refine ⟨⟨91, rfl, rfl, by decide, by decide⟩, ?_, ?_⟩
  · intro hP rest fuel _ hfuel
    have hlength : (commas (l.map text)).length + 2 ≤ fuel := by
      simp only [List.cons_append, List.length_cons, List.length_append, List.length_nil] at hfuel
      omega
    obtain ⟨fuel, rfl⟩ := Nat.exists_eq_succ_of_ne_zero (n := fuel) (by omega)
    rw [hassoc]
    cases l with
    | nil => exact readValue_arr_nil fuel rest
    | cons a l =>
      obtain ⟨b, hb, hws, hne⟩ := commas_head a l (h a List.mem_cons_self) (93 :: rest)
      rw [readValue_arr hb hws hne, readItems_reads _ h hP (List.cons_ne_nil _ _) rest fuel
        (by omega)]
      rfl
  · intro rest fuel r _ hread
    cases fuel with
    | zero => cases hread
    | succ fuel =>
      rw [hassoc] at hread
      cases l with
      | nil =>
        rw [List.map_nil, commas, List.nil_append, readValue_arr_nil] at hread
        cases hread
        exact ⟨fun a ha => absurd ha List.not_mem_nil, rfl⟩
      | cons a l =>
        obtain ⟨b, hb, hws, hne⟩ := commas_head a l (h a List.mem_cons_self) (93 :: rest)
        rw [readValue_arr hb hws hne] at hread
        obtain ⟨⟨js, r'⟩, hitems, heq⟩ := Option.map_eq_some_iff.mp hread
        cases heq
        exact readItems_only _ h (List.cons_ne_nil _ _) rest _ fuel hitems

/-! ## Objects -/

/-- A member of an object. -/
def member (name t : List UInt8) : List UInt8 := 34 :: name ++ 34 :: 58 :: t

theorem readMembers_last {fuel : Nat} {name t t' r : List UInt8} {j : Json}
    (hname : readString t = some (name, 58 :: t'))
    (h : readValue fuel t' = some (j, 125 :: r)) :
    readMembers (fuel + 1) (34 :: t) = some ([(name, j)], r) := by
  simp [readMembers, hname, h, skipWs, isWs]

theorem readMembers_more {fuel : Nat} {name t t' r : List UInt8} {j : Json}
    (hname : readString t = some (name, 58 :: t'))
    (h : readValue fuel t' = some (j, 44 :: r)) :
    readMembers (fuel + 1) (34 :: t) = (readMembers fuel r).map fun p => ((name, j) :: p.1, p.2) := by
  simp [readMembers, hname, h, skipWs, isWs]

theorem readMembers_succ {fuel : Nat} {t r : List UInt8} {ms : List (List UInt8 × Json)}
    (h : readMembers (fuel + 1) (34 :: t) = some (ms, r)) :
    ∃ name j t₁ t₂ t₃, readString t = some (name, t₁) ∧ skipWs t₁ = 58 :: t₂ ∧
      readValue fuel t₂ = some (j, t₃) ∧ ms.head? = some (name, j) := by
  rw [readMembers, skipWs_cons rfl] at h
  simp only [Option.bind_eq_bind, Option.bind_eq_some_iff] at h
  obtain ⟨⟨name, t₁⟩, hname, h⟩ := h
  split at h
  · next t₂ hcolon =>
    simp only [Option.bind_eq_some_iff] at h
    obtain ⟨⟨j, t₃⟩, hvalue, h⟩ := h
    refine ⟨name, j, t₁, t₂, t₃, hname, hcolon, hvalue, ?_⟩
    split at h
    · cases h
      rfl
    · obtain ⟨p, -, h⟩ := Option.map_eq_some_iff.mp h
      cases h
      rfl
    · cases h
  · cases h

section
variable {name : α → List UInt8}

theorem readMembers_reads (l : List α) (h : ∀ a ∈ l, Spells (P a) (text a) (json a))
    (hP : ∀ a ∈ l, Plain (name a) ∧ P a) (hne : l ≠ []) (rest : List UInt8) (fuel : Nat)
    (hfuel : (commas (l.map fun a => member (name a) (text a))).length < fuel) :
    readMembers fuel (commas (l.map fun a => member (name a) (text a)) ++ 125 :: rest) =
      some (l.map fun a => (name a, json a), rest) := by
  induction l generalizing fuel with
  | nil => exact absurd rfl hne
  | cons a l ih =>
    obtain ⟨fuel, rfl⟩ := Nat.exists_eq_succ_of_ne_zero (Nat.ne_of_gt (Nat.zero_lt_of_lt hfuel))
    have ha := h a List.mem_cons_self
    obtain ⟨hplain, hPa⟩ := hP a List.mem_cons_self
    have hname : ∀ t, readString (name a ++ 34 :: t) = some (name a, t) := fun t =>
      (readString_iff _ t t).mpr ⟨hplain, rfl⟩
    cases l with
    | nil =>
      have hlength : (text a).length ≤ fuel := by
        simp [commas, member] at hfuel
        omega
      have hread := ha.reads hPa (125 :: rest) fuel (ends_cons rfl _) hlength
      have hlast := readMembers_last (hname _) hread
      simpa [commas, member] using hlast
    | cons a' l =>
      have hlength : (text a).length +
          ((commas ((a' :: l).map fun a => member (name a) (text a))).length + 1) < fuel + 1 := by
        simp only [List.map_cons, commas_cons, List.length_append, List.length_cons, member] at hfuel ⊢
        omega
      have hrest := ih (fun b hb => h b (List.mem_cons_of_mem a hb))
        (fun b hb => hP b (List.mem_cons_of_mem a hb)) (List.cons_ne_nil _ _) fuel (by omega)
      have hread := ha.reads hPa
        (44 :: (commas ((a' :: l).map fun a => member (name a) (text a)) ++ 125 :: rest)) fuel
        (ends_cons rfl _) (by omega)
      have hmore := readMembers_more (hname _) hread
      rw [hrest] at hmore
      simpa [commas_cons, member] using hmore

/-- The member that was read has the name and the value of the text. -/
theorem readMembers_head {P : Prop} {n t rest : List UInt8} {j : Json} (h : Spells P t j)
    {c : UInt8} (hc : isNumByte c = false) {fuel : Nat} {r : List UInt8}
    {ms : List (List UInt8 × Json)}
    (hread : readMembers (fuel + 1) (member n t ++ c :: rest) = some ((n, j) :: ms, r)) :
    (Plain n ∧ P) ∧ readString (n ++ 34 :: 58 :: (t ++ c :: rest)) =
      some (n, 58 :: (t ++ c :: rest)) ∧ readValue fuel (t ++ c :: rest) = some (j, c :: rest) := by
  have htext : member n t ++ c :: rest = 34 :: (n ++ 34 :: 58 :: (t ++ c :: rest)) := by
    simp [member]
  rw [htext] at hread
  obtain ⟨name', j', t₁, t₂, t₃, hname, hcolon, hvalue, hhead⟩ := readMembers_succ hread
  cases hhead
  obtain ⟨hplain, rfl⟩ := (readString_iff n _ t₁).mp hname
  rw [skipWs_cons rfl] at hcolon
  cases hcolon
  obtain ⟨hP, rfl⟩ := h.only _ fuel t₃ (ends_cons hc _) hvalue
  exact ⟨⟨hplain, hP⟩, hname, hvalue⟩

theorem readMembers_only (l : List α) (h : ∀ a ∈ l, Spells (P a) (text a) (json a))
    (hne : l ≠ []) (rest r : List UInt8) (fuel : Nat)
    (hread : readMembers fuel (commas (l.map fun a => member (name a) (text a)) ++ 125 :: rest) =
      some (l.map fun a => (name a, json a), r)) :
    (∀ a ∈ l, Plain (name a) ∧ P a) ∧ r = rest := by
  induction l generalizing fuel with
  | nil => exact absurd rfl hne
  | cons a l ih =>
    cases fuel with
    | zero => cases hread
    | succ fuel =>
      have ha := h a List.mem_cons_self
      cases l with
      | nil =>
        obtain ⟨hP, hname, hvalue⟩ := readMembers_head ha rfl hread
        have hlast := readMembers_last hname hvalue
        have heq : member (name a) (text a) ++ 125 :: rest =
            34 :: (name a ++ 34 :: 58 :: (text a ++ 125 :: rest)) := by
          simp [member]
        rw [List.map_singleton, commas, heq, hlast] at hread
        cases hread
        exact ⟨fun b hb => List.mem_singleton.mp hb ▸ hP, rfl⟩
      | cons a' l =>
        rw [List.map_cons, List.map_cons, commas_cons, List.append_assoc, List.cons_append] at hread
        obtain ⟨hP, hname, hvalue⟩ := readMembers_head ha rfl hread
        have hmore := readMembers_more hname hvalue
        have heq : ∀ t, member (name a) (text a) ++ t = 34 :: (name a ++ 34 :: 58 :: (text a ++ t)) :=
          fun t => by simp [member]
        rw [heq, hmore] at hread
        obtain ⟨⟨ms, r'⟩, hrest, hms⟩ := Option.map_eq_some_iff.mp hread
        cases hms
        obtain ⟨hPs, hr⟩ := ih (fun b hb => h b (List.mem_cons_of_mem a hb))
          (List.cons_ne_nil _ _) fuel hrest
        refine ⟨fun b hb => ?_, hr⟩
        rcases List.mem_cons.mp hb with rfl | hb
        · exact hP
        · exact hPs b hb

theorem readValue_obj_nil (fuel : Nat) (t : List UInt8) :
    readValue (fuel + 1) (123 :: 125 :: t) = some (obj [], t) := by
  simp [readValue, skipWs, isWs]

theorem readValue_obj (fuel : Nat) (t : List UInt8) :
    readValue (fuel + 1) (123 :: 34 :: t) =
      (readMembers fuel (34 :: t)).map fun p => (obj p.1, p.2) := by
  simp [readValue, skipWs, isWs]

/-- An object of named texts is spelled out if all names are plain and all texts are spelled
out. -/
theorem spells_obj (l : List α) (h : ∀ a ∈ l, Spells (P a) (text a) (json a)) :
    Spells (∀ a ∈ l, Plain (name a) ∧ P a)
      (123 :: commas (l.map fun a => member (name a) (text a)) ++ [125])
      (obj (l.map fun a => (name a, json a))) := by
  have hassoc : ∀ rest, 123 :: commas (l.map fun a => member (name a) (text a)) ++ [125] ++ rest =
      123 :: (commas (l.map fun a => member (name a) (text a)) ++ 125 :: rest) :=
    fun rest => by simp
  refine ⟨⟨123, rfl, rfl, by decide, by decide⟩, ?_, ?_⟩
  · intro hP rest fuel _ hfuel
    have hlength : (commas (l.map fun a => member (name a) (text a))).length + 2 ≤ fuel := by
      simp only [List.cons_append, List.length_cons, List.length_append, List.length_nil] at hfuel
      omega
    obtain ⟨fuel, rfl⟩ := Nat.exists_eq_succ_of_ne_zero (n := fuel) (by omega)
    rw [hassoc]
    cases l with
    | nil => exact readValue_obj_nil fuel rest
    | cons a l =>
      have hreads := readMembers_reads _ h hP (List.cons_ne_nil _ _) rest fuel (by omega)
      obtain ⟨t, ht⟩ : ∃ t, commas ((a :: l).map fun a => member (name a) (text a)) ++ 125 :: rest =
          34 :: t := by
        cases l with
        | nil => exact ⟨_, rfl⟩
        | cons a' l => exact ⟨_, rfl⟩
      rw [ht] at hreads ⊢
      rw [readValue_obj, hreads]
      rfl
  · intro rest fuel r _ hread
    cases fuel with
    | zero => cases hread
    | succ fuel =>
      rw [hassoc] at hread
      cases l with
      | nil =>
        rw [List.map_nil, commas, List.nil_append, readValue_obj_nil] at hread
        cases hread
        exact ⟨fun a ha => absurd ha List.not_mem_nil, rfl⟩
      | cons a l =>
        obtain ⟨t, ht⟩ : ∃ t, commas ((a :: l).map fun a => member (name a) (text a)) ++
            125 :: rest = 34 :: t := by
          cases l with
          | nil => exact ⟨_, rfl⟩
          | cons a' l => exact ⟨_, rfl⟩
        rw [ht, readValue_obj, ← ht] at hread
        obtain ⟨⟨ms, r'⟩, hmembers, heq⟩ := Option.map_eq_some_iff.mp hread
        cases heq
        exact readMembers_only _ h (List.cons_ne_nil _ _) rest _ fuel hmembers

end
end

end Json
end Rts2.Lib
