import Mathlib.Algebra.Field.Rat
import Mathlib.Algebra.Order.Ring.Rat
import Mathlib.Data.Nat.Digits.Lemmas
import Mathlib.Tactic.FieldSimp
import Mathlib.Tactic.Linarith
import Mathlib.Tactic.Ring
import Rts2.Connection.ValueLine
import Rts2.Connection.ValueList

/-! # Times of a command

`paramNextDoubleTime` reads a time in seconds, as a number or as numbers with the units of days, hours,
minutes and seconds; behind a plus it is a time from now. Doubles are rationals here. -/
namespace Rts2.Connection.DoubleTime
open ValueList (tolower)

/-! ## The reader -/

def point : Byte := 46
def plus : Byte := 43
def minus : Byte := 45

/-- `nan` -/
def nanText : List Byte := [110, 97, 110]

inductive Fault where
  /-- -1 is returned. -/
  | rejected
  /-- `div` is no `int`. -/
  | overflow
  deriving DecidableEq

/-- The seconds of `D`, `h`, `m` and `s`. -/
def seconds (b : Byte) : Option ℚ :=
  if b = 68 then some 86400
  else if b = 104 then some 3600
  else if b = 109 then some 60
  else if b = 115 then some 1
  else none

/-- `*str_num - '0'` -/
def digit (b : Byte) : ℚ := (b.toNat - 48 : ℕ)

/-- The loop over `str_num`. -/
def loop : List Byte → ℚ → ℚ → ℕ → Except Fault ℚ
  | [], num, cur, _ => .ok (num + cur)
  | b :: str_num, num, cur, div =>
    if isdigit b then
      if 0 < div then
        if div * 10 < 2 ^ 31 then loop str_num num (cur + digit b / div) (div * 10)
        else .error .overflow
      else loop str_num num (cur * 10 + digit b) div
    else if b = point then loop str_num num cur 1
    else (seconds b).elim (.error .rejected) fun k => loop str_num (num + cur * k) 0 0

/-- `paramNextDoubleTime`; no number is `NAN`. -/
def paramNextDoubleTime (getNow : ℚ) (s : List Byte) : Except Fault (Option ℚ × List Byte) :=
  match paramNextString s [comma] with
  | none => .error .rejected
  | some (str_num, rest) =>
    if str_num.map tolower = nanText then .ok (none, rest)
    else if str_num.head? = some plus then
      (loop str_num.tail 0 0 0).map fun num => (some (num + getNow), rest)
    else (loop str_num 0 0 0).map fun num => (some num, rest)

/-! ## Tokens -/

/-- A decimal number. -/
structure Number where
  whole : List Byte
  fraction : Option (List Byte)
  ne : whole ≠ [] ∨ fraction.getD [] ≠ []
  whole_digits : ∀ b ∈ whole, isdigit b = true
  fraction_digits : ∀ f ∈ fraction, ∀ b ∈ f, isdigit b = true

namespace Number
variable (x : Number)

def text : List Byte := x.whole ++ x.fraction.elim [] (point :: ·)

/-- The digits behind the point. -/
def places : List Byte := x.fraction.getD []

def value : ℚ := digitsValue 0 x.whole + digitsValue 0 x.places / 10 ^ x.places.length

/-- There are only zeros behind the point, and no more than nine. -/
def Plain : Prop := x.places.length ≤ 9 ∧ ∀ b ∈ x.places, b = 48

end Number

/-- The units; a day is written `d` or `D`. -/
inductive TimeUnit where
  | d
  | D
  | h
  | m
  | s
  deriving DecidableEq

namespace TimeUnit

def byte : TimeUnit → Byte
  | .d => 100
  | .D => 68
  | .h => 104
  | .m => 109
  | .s => 115

def value : TimeUnit → ℚ
  | .d => 86400
  | .D => 86400
  | .h => 3600
  | .m => 60
  | .s => 1

theorem value_pos (u : TimeUnit) : 0 < u.value := by
  cases u with
  | d => exact Nat.ofNat_pos
  | D => exact Nat.ofNat_pos
  | h => exact Nat.ofNat_pos
  | m => exact Nat.ofNat_pos
  | s => exact one_pos

end TimeUnit

inductive Sign where
  | plus
  | minus
  deriving DecidableEq

/-- A time: numbers with units, and a number of seconds. -/
structure Token where
  sign : Option Sign
  items : List (Number × TimeUnit)
  last : Option Number
  ne : items ≠ [] ∨ last ≠ none

namespace Token
variable (t : Token)

def body : List Byte := t.items.flatMap (fun i => i.1.text ++ [i.2.byte]) ++ t.last.elim [] Number.text

def text : List Byte :=
  match t.sign with
  | none => t.body
  | some .plus => DoubleTime.plus :: t.body
  | some .minus => DoubleTime.minus :: t.body

/-- The seconds that are written. -/
def total : ℚ := (t.items.map fun i => i.1.value * i.2.value).sum + t.last.elim 0 Number.value

/-- The time a token stands for. -/
def value (getNow : ℚ) : ℚ :=
  match t.sign with
  | none => t.total
  | some .plus => t.total + getNow
  | some .minus => -t.total

/-- The token is read as the time it stands for, whatever follows. -/
def Exact : Prop :=
  ∀ getNow tail, (∀ b ∈ tail.head?, isspace b = true) →
    paramNextDoubleTime getNow (t.text ++ tail) = .ok (some (t.value getNow), tail.drop 1)

/-- No minus, no `d`, and only zeros behind points. -/
structure Plain : Prop where
  sign : t.sign ≠ some .minus
  items : ∀ i ∈ t.items, i.1.Plain ∧ i.2 ≠ .d
  last : ∀ x ∈ t.last, x.Plain

end Token

/-! ## Digits -/

theorem digitsValue_eq (acc : ℕ) (digits : List Byte) :
    digitsValue acc digits = acc * 10 ^ digits.length + digitsValue 0 digits := by
  induction digits generalizing acc with
  | nil => exact (Nat.mul_one acc).symm
  | cons b digits ih =>
    have hstep (n : ℕ) : digitsValue n (b :: digits) =
        (10 * n + (b.toNat - 48)) * 10 ^ digits.length + digitsValue 0 digits := ih _
    rw [hstep acc, hstep 0, List.length_cons, pow_succ]
    ring

theorem digitsValue_cons (b : Byte) (digits : List Byte) : digitsValue 0 (b :: digits) =
    (b.toNat - 48) * 10 ^ digits.length + digitsValue 0 digits := by
  have hnext : digitsValue 0 (b :: digits) = digitsValue (10 * 0 + (b.toNat - 48)) digits := rfl
  rw [hnext, digitsValue_eq, Nat.mul_zero, Nat.zero_add]

theorem digit_eq_zero {b : Byte} (h : isdigit b = true) : b.toNat - 48 = 0 ↔ b = 48 := by
  simp only [isdigit, Bool.and_eq_true, decide_eq_true_eq, UInt8.le_iff_toNat_le] at h
  have h48 : (48 : Byte).toNat = 48 := rfl
  rw [← UInt8.toNat_inj]
  omega

/-- Digits have no value if and only if they are zeros. -/
theorem digitsValue_eq_zero {digits : List Byte} (hd : ∀ b ∈ digits, isdigit b = true) :
    digitsValue 0 digits = 0 ↔ ∀ b ∈ digits, b = 48 := by
  induction digits with
  | nil => exact iff_of_true rfl fun b hb => by cases hb
  | cons b digits ih =>
    have hrest := ih fun c hc => hd c (List.mem_cons_of_mem b hc)
    have hpow : 10 ^ digits.length ≠ 0 := pow_ne_zero _ (by omega)
    rw [digitsValue_cons, Nat.add_eq_zero_iff, Nat.mul_eq_zero, or_iff_left hpow, hrest,
      digit_eq_zero (hd b List.mem_cons_self), List.forall_mem_cons]

/-- A byte that is no digit. -/
theorem loop_unit (u : TimeUnit) (str_num : List Byte) (num cur : ℚ) (div : ℕ) :
    loop (u.byte :: str_num) num cur div =
      if u = .d then .error .rejected else loop str_num (num + cur * u.value) 0 0 := by
  cases u with
  | d => rfl
  | D => rfl
  | h => rfl
  | m => rfl
  | s => rfl

/-- The tenth power of ten is the first that is no `int`. -/
theorem div_fits {k : ℕ} (hk : k < 9) : 10 ^ k * 10 < 2 ^ 31 := by
  have hle : 10 ^ (k + 1) ≤ 10 ^ 9 := Nat.pow_le_pow_right (by omega) hk
  rw [← Nat.pow_succ]
  omega

section
variable {digits : List Byte} (hd : ∀ b ∈ digits, isdigit b = true) (rest : List Byte) (num : ℚ)
include hd

/-- Digits in front of a point. -/
theorem loop_whole (n : ℕ) :
    loop (digits ++ rest) num n 0 = loop rest num (digitsValue n digits : ℕ) 0 := by
  induction digits generalizing n with
  | nil => rfl
  | cons b digits ih =>
    have hnext : (n : ℚ) * 10 + digit b = ((10 * n + (b.toNat - 48) : ℕ) : ℚ) := by
      unfold digit
      push_cast
      ring
    rw [List.cons_append, loop, if_pos (hd b List.mem_cons_self), if_neg (Nat.lt_irrefl 0), hnext,
      ih fun c hc => hd c (List.mem_cons_of_mem b hc)]
    rfl

/-- Digits behind a point count ten times as much as they stand for. -/
theorem loop_places (cur : ℚ) {k : ℕ} (hk : k + digits.length ≤ 9) :
    loop (digits ++ rest) num cur (10 ^ k) =
      loop rest num (cur + 10 * (digitsValue 0 digits / 10 ^ (k + digits.length)))
        (10 ^ (k + digits.length)) := by
  induction digits generalizing cur k with
  | nil =>
    have hzero : cur + 10 * ((digitsValue 0 [] : ℕ) / 10 ^ (k + ([] : List Byte).length)) = cur := by
      show cur + 10 * (((0 : ℕ) : ℚ) / 10 ^ k) = cur
      rw [Nat.cast_zero, zero_div, mul_zero, add_zero]
    rw [hzero]
    rfl
  | cons b digits ih =>
    rw [List.length_cons] at hk
    have hpow : 10 ^ k * 10 < 2 ^ 31 := div_fits (by omega)
    have hplace : k + 1 + digits.length = k + (digits.length + 1) := by omega
    have hnext : cur + digit b / (10 ^ k : ℕ) + 10 * (digitsValue 0 digits / 10 ^ (k + (digits.length + 1))) =
        cur + 10 * ((digitsValue 0 (b :: digits) : ℕ) / 10 ^ (k + (digits.length + 1))) := by
      rw [digitsValue_cons]
      unfold digit
      push_cast
      field_simp
      ring
    rw [List.cons_append, loop, if_pos (hd b List.mem_cons_self), if_pos (Nat.pow_pos (by omega)),
      if_pos hpow, ← Nat.pow_succ, ih (fun c hc => hd c (List.mem_cons_of_mem b hc)) _ (by omega), hplace,
      hnext]
    rfl

/-- The tenth digit behind a point overflows. -/
theorem loop_overflow (cur : ℚ) {k : ℕ} (hk : k ≤ 9) (hlarge : 9 < k + digits.length) :
    loop (digits ++ rest) num cur (10 ^ k) = .error .overflow := by
  induction digits generalizing cur k with
  | nil => exact absurd hlarge (by rw [List.length_nil]; omega)
  | cons b digits ih =>
    rw [List.length_cons] at hlarge
    rw [List.cons_append, loop, if_pos (hd b List.mem_cons_self), if_pos (Nat.pow_pos (by omega))]
    rcases Nat.lt_or_ge k 9 with hless | hge
    · rw [if_pos (div_fits hless), ← Nat.pow_succ]
      exact ih (fun c hc => hd c (List.mem_cons_of_mem b hc)) _ (by omega) (by omega)
    · have hnine : k = 9 := by omega
      rw [if_neg (by rw [hnine]; omega)]

end

/-! ## Numbers -/

namespace Number
variable (x : Number)

/-- What the digits behind the point stand for. -/
def part : ℚ := digitsValue 0 x.places / 10 ^ x.places.length

/-- What is read. -/
def taken : ℚ := digitsValue 0 x.whole + 10 * x.part

theorem taken_eq : x.taken = x.value + 9 * x.part := by
  have hvalue : x.value = digitsValue 0 x.whole + x.part := rfl
  rw [hvalue]
  unfold taken
  ring

theorem places_digits : ∀ b ∈ x.places, isdigit b = true := by
  intro b hb
  unfold places at hb
  cases hf : x.fraction with
  | none =>
    rw [hf] at hb
    cases hb
  | some f =>
    rw [hf] at hb
    exact x.fraction_digits f hf b hb

theorem part_nonneg : 0 ≤ x.part := div_nonneg (Nat.cast_nonneg _) (pow_nonneg (by norm_num) _)

theorem part_eq_zero : x.part = 0 ↔ ∀ b ∈ x.places, b = 48 := by
  have hpow : (10 : ℚ) ^ x.places.length ≠ 0 := pow_ne_zero _ (by norm_num)
  unfold part
  rw [div_eq_zero_iff, or_iff_left hpow, Nat.cast_eq_zero, digitsValue_eq_zero x.places_digits]

/-- The loop over a number, from its start. -/
theorem loop_text (rest : List Byte) (num : ℚ) :
    (x.places.length ≤ 9 → ∃ div, loop (x.text ++ rest) num 0 0 = loop rest num x.taken div) ∧
    (9 < x.places.length → loop (x.text ++ rest) num 0 0 = .error .overflow) := by
  have hwhole (str_num : List Byte) : loop (x.whole ++ str_num) num 0 0 =
      loop str_num num (digitsValue 0 x.whole : ℕ) 0 := by
    have hloop := loop_whole x.whole_digits str_num num 0
    rw [Nat.cast_zero] at hloop
    exact hloop
  unfold text
  rw [List.append_assoc, hwhole]
  cases hf : x.fraction with
  | none =>
    have hplaces : x.places = [] := by
      unfold places
      rw [hf]
      rfl
    have htaken : x.taken = (digitsValue 0 x.whole : ℕ) := by
      have hzero : ((digitsValue 0 [] : ℕ) : ℚ) = 0 := Nat.cast_zero
      unfold taken part
      rw [hplaces, hzero, zero_div, mul_zero, add_zero]
    rw [hplaces, htaken]
    exact ⟨fun _ => ⟨0, rfl⟩, fun h => absurd h (Nat.not_lt_zero 9)⟩
  | some f =>
    have hplaces : x.places = f := by
      unfold places
      rw [hf]
      rfl
    have hpoint : loop ((some f).elim [] (point :: ·) ++ rest) num (digitsValue 0 x.whole : ℕ) 0 =
        loop (f ++ rest) num (digitsValue 0 x.whole : ℕ) (10 ^ 0) := rfl
    have hdigits := x.fraction_digits f hf
    rw [hplaces, hpoint]
    constructor
    · intro hsmall
      rw [loop_places hdigits rest num _ (by omega), Nat.zero_add]
      unfold taken part
      rw [hplaces]
      exact ⟨_, rfl⟩
    · exact fun hlarge => loop_overflow hdigits rest num _ (by omega) (by omega)

end Number

/-! ## Tokens -/

/-- The text of numbers with units. -/
def itemsText (items : List (Number × TimeUnit)) : List Byte :=
  items.flatMap fun i => i.1.text ++ [i.2.byte]

/-- What is read of them. -/
def takenItems (items : List (Number × TimeUnit)) : ℚ := (items.map fun i => i.1.taken * i.2.value).sum

theorem itemsText_cons (i : Number × TimeUnit) (items : List (Number × TimeUnit)) (rest : List Byte) :
    itemsText (i :: items) ++ rest = i.1.text ++ (i.2.byte :: (itemsText items ++ rest)) := by
  unfold itemsText
  simp

/-- Numbers with units are read, -/
theorem loop_items {items : List (Number × TimeUnit)}
    (h : ∀ i ∈ items, i.1.places.length ≤ 9 ∧ i.2 ≠ .d) (rest : List Byte) (num : ℚ) :
    loop (itemsText items ++ rest) num 0 0 = loop rest (num + takenItems items) 0 0 := by
  induction items generalizing num with
  | nil => exact congrArg (fun x => loop rest x 0 0) (add_zero num).symm
  | cons i items ih =>
    obtain ⟨hsmall, hunit⟩ := h i List.mem_cons_self
    obtain ⟨div, hnumber⟩ := (i.1.loop_text (i.2.byte :: (itemsText items ++ rest)) num).1 hsmall
    have hsum : num + i.1.taken * i.2.value + takenItems items = num + takenItems (i :: items) := by
      unfold takenItems
      rw [List.map_cons, List.sum_cons, add_assoc]
    rw [itemsText_cons, hnumber, loop_unit, if_neg hunit,
      ih (fun j hj => h j (List.mem_cons_of_mem i hj)), hsum]

/-- or one of them is not. -/
theorem loop_items_error {items : List (Number × TimeUnit)}
    (h : ¬ ∀ i ∈ items, i.1.places.length ≤ 9 ∧ i.2 ≠ .d) (rest : List Byte) (num : ℚ) :
    ∃ e, loop (itemsText items ++ rest) num 0 0 = .error e := by
  induction items generalizing num with
  | nil => exact absurd (fun i hi => by cases hi) h
  | cons i items ih =>
    have hnumber := i.1.loop_text (i.2.byte :: (itemsText items ++ rest)) num
    rw [itemsText_cons]
    by_cases hsmall : i.1.places.length ≤ 9
    · obtain ⟨div, hloop⟩ := hnumber.1 hsmall
      rw [hloop, loop_unit]
      by_cases hunit : i.2 = .d
      · exact ⟨.rejected, by rw [if_pos hunit]⟩
      · rw [if_neg hunit]
        exact ih (fun hall => h (List.forall_mem_cons.mpr ⟨⟨hsmall, hunit⟩, hall⟩)) _
    · exact ⟨.overflow, hnumber.2 (by omega)⟩

/-- Fractions make the sum of numbers with units larger. -/
theorem takenItems_eq (items : List (Number × TimeUnit)) : ∃ more, 0 ≤ more ∧
    takenItems items = (items.map fun i => i.1.value * i.2.value).sum + more ∧
      (more = 0 ↔ ∀ i ∈ items, ∀ b ∈ i.1.places, b = 48) := by
  induction items with
  | nil => exact ⟨0, le_refl 0, (add_zero _).symm, iff_of_true rfl fun i hi => by cases hi⟩
  | cons i items ih =>
    obtain ⟨more, hmore, hsum, hzero⟩ := ih
    have hunit := i.2.value_pos
    have hpart := mul_nonneg i.1.part_nonneg hunit.le
    refine ⟨9 * (i.1.part * i.2.value) + more, by linarith, ?_, ?_⟩
    · have hcons : takenItems (i :: items) = i.1.taken * i.2.value + takenItems items := rfl
      rw [hcons, hsum, i.1.taken_eq, List.map_cons, List.sum_cons]
      ring
    · rw [List.forall_mem_cons, ← hzero, ← i.1.part_eq_zero]
      constructor
      · intro h
        have hboth : i.1.part * i.2.value = 0 ∧ more = 0 := ⟨by linarith, by linarith⟩
        exact ⟨(mul_eq_zero.mp hboth.1).resolve_right hunit.ne', hboth.2⟩
      · rintro ⟨hi, hrest⟩
        rw [hi, hrest]
        ring

namespace Token
variable (t : Token)

/-- What is read of a token. -/
def taken : ℚ := takenItems t.items + t.last.elim 0 Number.taken

/-- The loop comes to the end. -/
structure Readable : Prop where
  items : ∀ i ∈ t.items, i.1.places.length ≤ 9 ∧ i.2 ≠ .d
  last : ∀ x ∈ t.last, x.places.length ≤ 9

variable {t}

theorem loop_body (h : t.Readable) : loop t.body 0 0 0 = .ok t.taken := by
  have hbody : t.body = itemsText t.items ++ t.last.elim [] Number.text := rfl
  rw [hbody, loop_items h.items, zero_add]
  unfold taken
  cases hlast : t.last with
  | none => rfl
  | some x =>
    obtain ⟨div, hloop⟩ := (x.loop_text [] (takenItems t.items)).1 (h.last x hlast)
    rw [List.append_nil] at hloop
    exact hloop

theorem loop_body_error (h : ¬ t.Readable) : ∃ e, loop t.body 0 0 0 = .error e := by
  have hbody : t.body = itemsText t.items ++ t.last.elim [] Number.text := rfl
  rw [hbody]
  by_cases hitems : ∀ i ∈ t.items, i.1.places.length ≤ 9 ∧ i.2 ≠ .d
  · rw [loop_items hitems]
    cases hlast : t.last with
    | none =>
      refine absurd ⟨hitems, fun x hx => ?_⟩ h
      rw [hlast] at hx
      cases hx
    | some x =>
      have hlarge : 9 < x.places.length := by
        by_contra hsmall
        refine h ⟨hitems, fun y hy => ?_⟩
        rw [hlast] at hy
        cases hy
        omega
      have hloop := (x.loop_text [] (0 + takenItems t.items)).2 hlarge
      rw [List.append_nil] at hloop
      exact ⟨.overflow, hloop⟩
  · exact loop_items_error hitems _ 0

variable (t)

/-- What is read is what is written if and only if there are only zeros behind points. -/
theorem taken_eq_iff : t.taken = t.total ↔
    (∀ i ∈ t.items, ∀ b ∈ i.1.places, b = 48) ∧ ∀ x ∈ t.last, ∀ b ∈ x.places, b = 48 := by
  obtain ⟨more, hmore, hsum, hzero⟩ := takenItems_eq t.items
  unfold taken total
  rw [hsum, ← hzero]
  cases hlast : t.last with
  | none =>
    constructor
    · intro h
      refine ⟨?_, fun x hx => by cases hx⟩
      have helim : (none : Option Number).elim 0 Number.taken = (none : Option Number).elim 0 Number.value := rfl
      rw [helim] at h
      linarith
    · rintro ⟨h, -⟩
      rw [h, add_zero]
      rfl
  | some x =>
    have hpart := x.part_nonneg
    have htaken : (some x).elim 0 Number.taken = (some x).elim 0 Number.value + 9 * x.part := x.taken_eq
    rw [htaken]
    constructor
    · intro h
      refine ⟨by linarith, fun y hy => ?_⟩
      cases hy
      exact x.part_eq_zero.mp (by linarith)
    · rintro ⟨hrest, hplaces⟩
      rw [hrest, x.part_eq_zero.mpr (hplaces x rfl)]
      ring

end Token

/-! ## The text of a token -/

/-- A byte that stands inside of a parameter. -/
structure Inside (b : Byte) : Prop where
  space : isspace b = false
  comma : b ≠ comma
  quote : b ≠ quote
  plus : b ≠ plus

theorem inside_digit {b : Byte} (h : isdigit b = true) : Inside b := by
  obtain ⟨hspace, hcomma, hquote, -, hplus⟩ := not_isspace_of_isdigit h
  exact ⟨hspace, hcomma, hquote, hplus⟩

theorem inside_unit (u : TimeUnit) : Inside u.byte := by
  cases u with
  | d => exact ⟨rfl, by decide, by decide, by decide⟩
  | D => exact ⟨rfl, by decide, by decide, by decide⟩
  | h => exact ⟨rfl, by decide, by decide, by decide⟩
  | m => exact ⟨rfl, by decide, by decide, by decide⟩
  | s => exact ⟨rfl, by decide, by decide, by decide⟩

namespace Number
variable (x : Number)

theorem mem_text {b : Byte} (hb : b ∈ x.text) : isdigit b = true ∨ b = point := by
  unfold text at hb
  rcases List.mem_append.mp hb with hb | hb
  · exact .inl (x.whole_digits b hb)
  · cases hf : x.fraction with
    | none =>
      rw [hf] at hb
      cases hb
    | some f =>
      rw [hf] at hb
      rcases List.mem_cons.mp hb with rfl | hb
      · exact .inr rfl
      · exact .inl (x.fraction_digits f hf b hb)

theorem inside_text : ∀ b ∈ x.text, Inside b := by
  intro b hb
  rcases x.mem_text hb with hdigit | rfl
  · exact inside_digit hdigit
  · exact ⟨rfl, by decide, by decide, by decide⟩

theorem exists_digit : ∃ b ∈ x.text, isdigit b = true := by
  unfold text
  rcases x.ne with hwhole | hplaces
  · obtain ⟨b, w, hw⟩ := List.exists_cons_of_ne_nil hwhole
    have hb : b ∈ x.whole := hw ▸ List.mem_cons_self
    exact ⟨b, List.mem_append_left _ hb, x.whole_digits b hb⟩
  · cases hf : x.fraction with
    | none =>
      rw [hf] at hplaces
      exact absurd rfl hplaces
    | some f =>
      rw [hf] at hplaces
      obtain ⟨b, w, rfl⟩ := List.exists_cons_of_ne_nil hplaces
      exact ⟨b, List.mem_append_right _ (List.mem_cons_of_mem _ List.mem_cons_self),
        x.fraction_digits _ hf b List.mem_cons_self⟩

end Number

namespace Token
variable (t : Token)

theorem inside_body : ∀ b ∈ t.body, Inside b := by
  intro b hb
  rcases List.mem_append.mp hb with hb | hb
  · obtain ⟨i, -, hb⟩ := List.mem_flatMap.mp hb
    rcases List.mem_append.mp hb with hb | hb
    · exact i.1.inside_text b hb
    · exact List.mem_singleton.mp hb ▸ inside_unit i.2
  · cases hlast : t.last with
    | none =>
      rw [hlast] at hb
      cases hb
    | some x =>
      rw [hlast] at hb
      exact x.inside_text b hb

theorem exists_digit : ∃ b ∈ t.body, isdigit b = true := by
  unfold body
  rcases t.ne with hitems | hlast
  · obtain ⟨i, l, hl⟩ := List.exists_cons_of_ne_nil hitems
    obtain ⟨b, hb, hdigit⟩ := i.1.exists_digit
    rw [hl, List.flatMap_cons]
    exact ⟨b, List.mem_append_left _ (List.mem_append_left _ (List.mem_append_left _ hb)), hdigit⟩
  · obtain ⟨x, hx⟩ := Option.ne_none_iff_exists'.mp hlast
    obtain ⟨b, hb, hdigit⟩ := x.exists_digit
    rw [hx]
    exact ⟨b, List.mem_append_right _ hb, hdigit⟩

/-- A text with a digit is not `nan`. -/
theorem ne_nan {str_num : List Byte} (h : ∃ b ∈ str_num, isdigit b = true) :
    str_num.map tolower ≠ nanText := by
  obtain ⟨b, hb, hdigit⟩ := h
  intro hnan
  have hmem : tolower b ∈ nanText := hnan ▸ List.mem_map_of_mem hb
  simp only [isdigit, Bool.and_eq_true, decide_eq_true_eq, UInt8.le_iff_toNat_le] at hdigit
  have h57 : (57 : Byte).toNat = 57 := rfl
  have hlow : tolower b = b := by
    unfold tolower
    refine if_neg fun hupper => ?_
    have h65 : (65 : Byte).toNat ≤ b.toNat := UInt8.le_iff_toNat_le.mp hupper.1
    have hvalue : (65 : Byte).toNat = 65 := rfl
    omega
  rw [hlow] at hmem
  have hcases : b = 110 ∨ b = 97 := by
    rcases List.mem_cons.mp hmem with h | h
    · exact .inl h
    · rcases List.mem_cons.mp h with h | h
      · exact .inr h
      · exact .inl (List.mem_singleton.mp h)
  have h110 : (110 : Byte).toNat = 110 := rfl
  have h97 : (97 : Byte).toNat = 97 := rfl
  rcases hcases with rfl | rfl
  · omega
  · omega

/-- What is made of a token. -/
def read (getNow : ℚ) : Except Fault ℚ :=
  match t.sign with
  | none => loop t.body 0 0 0
  | some .plus => (loop t.body 0 0 0).map (· + getNow)
  | some .minus => .error .rejected

section
variable (getNow : ℚ) {tail : List Byte} (htail : ∀ b ∈ tail.head?, isspace b = true)
include htail

/-- A parameter of such bytes that has a digit. -/
theorem paramNextDoubleTime_word {w : List Byte} (hw : ∀ b ∈ w, isspace b = false ∧ b ≠ comma ∧ b ≠ quote)
    (hdigit : ∃ b ∈ w, isdigit b = true) : paramNextDoubleTime getNow (w ++ tail) =
      if w.head? = some plus then (loop w.tail 0 0 0).map fun num => (some (num + getNow), tail.drop 1)
      else (loop w 0 0 0).map fun num => (some num, tail.drop 1) := by
  have hne : w ≠ [] := by
    rintro rfl
    obtain ⟨b, hb, -⟩ := hdigit
    cases hb
  have hword : ∀ b ∈ w, isspace b = false ∧ b ∉ [comma] := fun b hb =>
    ⟨(hw b hb).1, fun h => (hw b hb).2.1 (List.mem_singleton.mp h)⟩
  have hquote : w.head? ≠ some quote := fun h => (hw quote (List.mem_of_mem_head? h)).2.2 rfl
  unfold paramNextDoubleTime
  rw [paramNextString_word tail [comma] hne hword hquote htail]
  exact if_neg (ne_nan hdigit)

theorem paramNextDoubleTime_text : paramNextDoubleTime getNow (t.text ++ tail) =
    (t.read getNow).map fun num => (some num, tail.drop 1) := by
  obtain ⟨b, hb, hdigit⟩ := t.exists_digit
  have hbody : ∀ b ∈ t.body, isspace b = false ∧ b ≠ comma ∧ b ≠ quote := fun b hb =>
    ⟨(t.inside_body b hb).space, (t.inside_body b hb).comma, (t.inside_body b hb).quote⟩
  unfold text read
  cases t.sign with
  | none =>
    have hplus : t.body.head? ≠ some plus := fun h => (t.inside_body plus (List.mem_of_mem_head? h)).plus rfl
    exact (paramNextDoubleTime_word getNow htail hbody ⟨b, hb, hdigit⟩).trans (if_neg hplus)
  | some sign =>
    cases sign with
    | plus =>
      have hword : ∀ b ∈ plus :: t.body, isspace b = false ∧ b ≠ comma ∧ b ≠ quote :=
        List.forall_mem_cons.mpr ⟨⟨rfl, by decide, by decide⟩, hbody⟩
      have hread := paramNextDoubleTime_word getNow htail hword ⟨b, List.mem_cons_of_mem _ hb, hdigit⟩
      refine hread.trans ((if_pos rfl).trans ?_)
      show (loop t.body 0 0 0).map _ = ((loop t.body 0 0 0).map _).map _
      cases loop t.body 0 0 0 with
      | error e => rfl
      | ok num => rfl
    | minus =>
      have hword : ∀ b ∈ minus :: t.body, isspace b = false ∧ b ≠ comma ∧ b ≠ quote :=
        List.forall_mem_cons.mpr ⟨⟨rfl, by decide, by decide⟩, hbody⟩
      exact paramNextDoubleTime_word getNow htail hword ⟨b, List.mem_cons_of_mem _ hb, hdigit⟩

end

variable {t}

theorem Plain.readable (h : t.Plain) : t.Readable :=
  ⟨fun i hi => ⟨(h.items i hi).1.1, (h.items i hi).2⟩, fun x hx => (h.last x hx).1⟩

/-- A plain token is read as it is written, -/
theorem read_of_plain (h : t.Plain) (getNow : ℚ) : t.read getNow = .ok (t.value getNow) := by
  have htotal : t.taken = t.total :=
    t.taken_eq_iff.mpr ⟨fun i hi => (h.items i hi).1.2, fun x hx => (h.last x hx).2⟩
  have hloop := loop_body h.readable
  have hsign := h.sign
  rw [htotal] at hloop
  unfold read value
  cases hs : t.sign with
  | none => exact hloop
  | some sign =>
    cases sign with
    | plus => exact congrArg (Except.map (· + getNow)) hloop
    | minus => exact absurd hs hsign

/-- and no other one. -/
theorem plain_of_read {getNow : ℚ} (h : t.read getNow = .ok (t.value getNow)) : t.Plain := by
  have hread (hsign : t.sign ≠ some .minus) (htaken : t.Readable → t.taken = t.total)
      (hok : t.Readable) : t.Plain := by
    obtain ⟨hitems, hlast⟩ := t.taken_eq_iff.mp (htaken hok)
    exact ⟨hsign, fun i hi => ⟨⟨(hok.items i hi).1, hitems i hi⟩, (hok.items i hi).2⟩,
      fun x hx => ⟨hok.last x hx, hlast x hx⟩⟩
  unfold read value at h
  cases hs : t.sign with
  | none =>
    rw [hs] at h hread
    have hok : t.Readable := by
      by_contra hnot
      obtain ⟨e, he⟩ := loop_body_error hnot
      cases he.symm.trans h
    exact hread (Option.some_ne_none Sign.minus).symm (fun hok => Except.ok.inj ((loop_body hok).symm.trans h)) hok
  | some sign =>
    rw [hs] at h hread
    cases sign with
    | plus =>
      have hok : t.Readable := by
        by_contra hnot
        obtain ⟨e, he⟩ := loop_body_error hnot
        have hmap : (loop t.body 0 0 0).map (· + getNow) = .ok (t.total + getNow) := h
        rw [he] at hmap
        cases hmap
      refine hread (fun hsign => by cases hsign) (fun hok => ?_) hok
      have hmap : (loop t.body 0 0 0).map (· + getNow) = .ok (t.total + getNow) := h
      rw [loop_body hok] at hmap
      exact add_right_cancel (Except.ok.inj hmap)
    | minus => cases h

theorem exact_iff (t : Token) : t.Exact ↔ t.Plain := by
  constructor
  · intro h
    have hread := h 0 [] fun b hb => by cases hb
    rw [t.paramNextDoubleTime_text 0 fun b hb => by cases hb] at hread
    have hvalue : t.read 0 = .ok (t.value 0) := by
      cases hr : t.read 0 with
      | error e =>
        rw [hr] at hread
        cases hread
      | ok num =>
        rw [hr] at hread
        exact congrArg Except.ok (Option.some.inj (Prod.mk.inj (Except.ok.inj hread)).1)
    exact plain_of_read hvalue
  · intro h getNow tail htail
    rw [t.paramNextDoubleTime_text getNow htail, read_of_plain h]
    rfl

end Token

/-! ## Times that are printed -/

/-- `n` with six digits. -/
def padded (n : ℕ) : List Byte := List.replicate (6 - (decimalNat n).length) 48 ++ decimalNat n

/-- A time in microseconds, as `std::fixed` prints its seconds. -/
def fixed (time : ℤ) : List Byte :=
  (if time < 0 then [minus] else []) ++
    (decimalNat (time.natAbs / 10 ^ 6) ++ point :: padded (time.natAbs % 10 ^ 6))

/-- `queue_at` -/
def queueAtText : List Byte := [113, 117, 101, 117, 101, 95, 97, 116]

/-- `CommandQueueAt`; the name of a queue is a word, as that of a value. -/
def CommandQueueAt (queue : ValueName) (tar_id : Int32) (t_start t_end : ℤ) : List Byte :=
  queueAtText ++ 32 :: (queue.text ++ 32 :: (decimal tar_id.toInt ++
    32 :: (fixed t_start ++ 32 :: fixed t_end)))

/-- The first entry of a command with times: the queue, the target and the times. -/
def queueFromConn (getNow : ℚ) (line : List Byte) :
    Except Fault (List Byte × Int × Option ℚ × Option ℚ) :=
  match paramNextString ((line.dropWhile (!isspace ·)).drop 1) [] with
  | none => .error .rejected
  | some (name, rest) =>
    match paramNextInteger rest with
    | none => .error .rejected
    | some (tar_id, rest) =>
      (paramNextDoubleTime getNow rest).bind fun t_start =>
        (paramNextDoubleTime getNow t_start.2).map fun t_end => (name, tar_id, t_start.1, t_end.1)

/-- The times of a printed command are read back. -/
def Recovered (queue : ValueName) (tar_id : Int32) (t_start t_end : ℤ) : Prop :=
  ∀ getNow, queueFromConn getNow (CommandQueueAt queue tar_id t_start t_end) =
    .ok (queue.text, tar_id.toInt, some (t_start / 10 ^ 6), some (t_end / 10 ^ 6))

theorem isdigit_padded (n : ℕ) : ∀ b ∈ padded n, isdigit b = true := by
  intro b hb
  rcases List.mem_append.mp hb with hb | hb
  · rw [List.eq_of_mem_replicate hb]
    rfl
  · exact isdigit_decimalNat n b hb

theorem digitsValue_padded (n : ℕ) : digitsValue 0 (padded n) = n := by
  have hzeros (k : ℕ) (digits : List Byte) :
      digitsValue 0 (List.replicate k 48 ++ digits) = digitsValue 0 digits := by
    induction k with
    | zero => rfl
    | succ k ih =>
      rw [List.replicate_succ, List.cons_append, digitsValue_cons, ih]
      show 0 * _ + _ = _
      rw [Nat.zero_mul, Nat.zero_add]
  unfold padded
  rw [hzeros, digitsValue_decimalNat]

theorem length_padded {n : ℕ} (h : n < 10 ^ 6) : (padded n).length = 6 := by
  have hle : (decimalNat n).length ≤ 6 := by
    unfold decimalNat
    split
    · exact Nat.le_of_ble_eq_true rfl
    · rw [List.length_map, List.length_reverse]
      exact (Nat.digits_length_le_iff (by omega) n).mpr h
  unfold padded
  rw [List.length_append, List.length_replicate]
  omega

theorem printed_fraction {n : ℕ} : ∀ f ∈ some (padded n), ∀ b ∈ f, isdigit b = true := by
  intro f hf
  cases hf
  exact isdigit_padded n

def printedNumber (time : ℤ) : Number where
  whole := decimalNat (time.natAbs / 10 ^ 6)
  fraction := some (padded (time.natAbs % 10 ^ 6))
  ne := .inl (decimalNat_ne_nil _)
  whole_digits := isdigit_decimalNat _
  fraction_digits := printed_fraction

/-- A printed time is a token. -/
def printed (time : ℤ) : Token where
  sign := if time < 0 then some .minus else none
  items := []
  last := some (printedNumber time)
  ne := .inr (Option.some_ne_none _)

theorem printed_text (time : ℤ) : (printed time).text = fixed time := by
  unfold Token.text fixed
  by_cases hneg : time < 0
  · have hsign : (printed time).sign = some .minus := if_pos hneg
    rw [hsign, if_pos hneg]
    rfl
  · have hsign : (printed time).sign = none := if_neg hneg
    rw [hsign, if_neg hneg]
    rfl

theorem printedNumber_value (time : ℤ) : (printedNumber time).value = (time.natAbs : ℚ) / 10 ^ 6 := by
  have hlength : (padded (time.natAbs % 10 ^ 6)).length = 6 := length_padded (Nat.mod_lt _ (by omega))
  have hvalue : (printedNumber time).value =
      digitsValue 0 (decimalNat (time.natAbs / 10 ^ 6)) +
        digitsValue 0 (padded (time.natAbs % 10 ^ 6)) / 10 ^ (padded (time.natAbs % 10 ^ 6)).length := rfl
  have hdiv := Nat.div_add_mod time.natAbs (10 ^ 6)
  have hcast : (time.natAbs : ℚ) =
      10 ^ 6 * (time.natAbs / 10 ^ 6 : ℕ) + (time.natAbs % 10 ^ 6 : ℕ) := by
    exact_mod_cast hdiv.symm
  rw [hvalue, hlength, digitsValue_decimalNat, digitsValue_padded, hcast]
  ring

theorem printed_value (time : ℤ) (getNow : ℚ) : (printed time).value getNow = time / 10 ^ 6 := by
  have htotal : (printed time).total = 0 + (printedNumber time).value := rfl
  unfold Token.value
  by_cases hneg : time < 0
  · have hsign : (printed time).sign = some .minus := if_pos hneg
    have habs : (time : ℚ) = -(time.natAbs : ℚ) := by
      exact_mod_cast (by omega : time = -(time.natAbs : ℤ))
    rw [hsign, habs]
    show -(printed time).total = _
    rw [htotal, zero_add, printedNumber_value]
    ring
  · have hsign : (printed time).sign = none := if_neg hneg
    have habs : (time : ℚ) = (time.natAbs : ℚ) := by
      rw [← Int.cast_natCast, Int.natAbs_of_nonneg (by omega)]
    rw [hsign, habs]
    show (printed time).total = _
    rw [htotal, zero_add, printedNumber_value]

/-- A printed time is a plain token if and only if it is a number of seconds and not negative. -/
theorem printed_plain (time : ℤ) : (printed time).Plain ↔ 0 ≤ time ∧ 10 ^ 6 ∣ time := by
  have hlength : (padded (time.natAbs % 10 ^ 6)).length = 6 := length_padded (Nat.mod_lt _ (by omega))
  have hzeros : (∀ b ∈ padded (time.natAbs % 10 ^ 6), b = 48) ↔ 10 ^ 6 ∣ time := by
    rw [← digitsValue_eq_zero (isdigit_padded _), digitsValue_padded, ← Nat.dvd_iff_mod_eq_zero]
    omega
  have hsign : (printed time).sign ≠ some .minus ↔ 0 ≤ time := by
    have hdef : (printed time).sign = if time < 0 then some .minus else none := rfl
    rw [hdef]
    split
    · exact iff_of_false (fun h => h rfl) (by omega)
    · exact iff_of_true (Option.some_ne_none Sign.minus).symm (by omega)
  rw [← hsign, ← hzeros]
  constructor
  · rintro ⟨hminus, -, hlast⟩
    exact ⟨hminus, (hlast _ rfl).2⟩
  · rintro ⟨hminus, hplaces⟩
    refine ⟨hminus, fun i hi => (by cases hi), fun x hx => ?_⟩
    cases hx
    have hsmall : (padded (time.natAbs % 10 ^ 6)).length ≤ 9 := by omega
    exact ⟨hsmall, hplaces⟩

/-- The times are read behind the queue and the target. -/
theorem queueFromConn_line (queue : ValueName) (tar_id : Int32) (t_start t_end : ℤ) (getNow : ℚ) :
    queueFromConn getNow (CommandQueueAt queue tar_id t_start t_end) =
      (((printed t_start).read getNow).bind fun s => ((printed t_end).read getNow).map fun e =>
        (queue.text, tar_id.toInt, some s, some e)) := by
  have hspace (l : List Byte) : ∀ b ∈ (32 :: l).head?, isspace b = true := by
    intro b hb
    cases hb
    rfl
  have hparams : ((CommandQueueAt queue tar_id t_start t_end).dropWhile (!isspace ·)).drop 1 =
      queue.text ++ 32 :: (decimal tar_id.toInt ++ 32 :: (fixed t_start ++ 32 :: fixed t_end)) := rfl
  have hqueue := paramNextString_word (32 :: (decimal tar_id.toInt ++ 32 :: (fixed t_start ++ 32 :: fixed t_end)))
    [] queue.ne_nil (fun b hb => ⟨(queue.word b hb).1, List.not_mem_nil⟩) queue.unquoted (hspace _)
  have htarget := paramNextInteger_decimal tar_id (32 :: (fixed t_start ++ 32 :: fixed t_end)) (hspace _)
  have hstart := (printed t_start).paramNextDoubleTime_text getNow (hspace (fixed t_end))
  have hend : paramNextDoubleTime getNow ((printed t_end).text ++ []) = _ :=
    (printed t_end).paramNextDoubleTime_text getNow fun b hb => by cases hb
  rw [printed_text] at hstart hend
  rw [List.append_nil] at hend
  rw [List.drop_one, List.tail_cons] at hqueue htarget hstart
  unfold queueFromConn
  rw [hparams, hqueue]
  dsimp only
  rw [htarget]
  dsimp only
  rw [hstart]
  cases (printed t_start).read getNow with
  | error e => rfl
  | ok s =>
    show (paramNextDoubleTime getNow (fixed t_end)).map _ = _
    rw [hend]
    cases (printed t_end).read getNow with
    | error e => rfl
    | ok e => rfl

/-- The printed times are read back as they are if both are plain tokens, and only then. -/
theorem recovered_iff (queue : ValueName) (tar_id : Int32) (t_start t_end : ℤ) :
    Recovered queue tar_id t_start t_end ↔ (printed t_start).Plain ∧ (printed t_end).Plain := by
  unfold Recovered
  constructor
  · intro h
    have hread := h 0
    rw [queueFromConn_line] at hread
    cases hs : (printed t_start).read 0 with
    | error e =>
      rw [hs] at hread
      cases hread
    | ok s =>
      cases he : (printed t_end).read 0 with
      | error e =>
        rw [hs, he] at hread
        cases hread
      | ok e =>
        rw [hs, he] at hread
        obtain ⟨hstart, hend⟩ := Prod.mk.inj (Prod.mk.inj (Prod.mk.inj (Except.ok.inj hread)).2).2
        rw [Option.some.inj hstart, ← printed_value t_start 0] at hs
        rw [Option.some.inj hend, ← printed_value t_end 0] at he
        exact ⟨Token.plain_of_read hs, Token.plain_of_read he⟩
  · rintro ⟨hstart, hend⟩ getNow
    rw [queueFromConn_line, Token.read_of_plain hstart, Token.read_of_plain hend, printed_value, printed_value]
    rfl

/-- A token is read as the time it stands for if and only if it has no minus, no `d` and only zeros behind
points; the times of `queue_at` are read back if and only if they are numbers of seconds and not negative. -/
theorem paramNextDoubleTime_exact_iff (t : Token) (queue : ValueName) (tar_id : Int32)
    (t_start t_end : ℤ) :
    (t.Exact ↔ t.Plain) ∧ (Recovered queue tar_id t_start t_end ↔
      (0 ≤ t_start ∧ 10 ^ 6 ∣ t_start) ∧ 0 ≤ t_end ∧ 10 ^ 6 ∣ t_end) := by
  refine ⟨t.exact_iff, ?_⟩
  rw [recovered_iff, printed_plain, printed_plain]

/-- Half a second is read as five seconds. -/
theorem paramNextDoubleTime_half : ¬ (printed 500000).Exact := by
  intro h
  have hread := h 0 [] fun b hb => by cases hb
  have htext : (printed 500000).text = [48, 46, 53, 48, 48, 48, 48, 48] := by decide +kernel
  have hfive : paramNextDoubleTime 0 ([48, 46, 53, 48, 48, 48, 48, 48] ++ []) = .ok (some 5, []) := by
    decide +kernel
  have hhalf : (printed 500000).value 0 = 1 / 2 := by decide +kernel
  rw [htext, hfive, hhalf] at hread
  have hfalse : (5 : ℚ) = 1 / 2 := Option.some.inj (Prod.mk.inj (Except.ok.inj hread)).1
  norm_num at hfalse

end Rts2.Connection.DoubleTime
