import Mathlib.Algebra.Field.Rat
import Mathlib.Algebra.Order.Ring.Rat
import Mathlib.Data.Nat.GCD.Basic
import Mathlib.Tactic.Linarith
import Mathlib.Tactic.Ring
import Rts2.Expression.Parser

/-! # Constants

The digits behind a point are divided by a power of ten as integers, which leaves nothing of them.
The power is a `long`: from `10^64` on it is zero, and digits count as if there were no point. -/
namespace Rts2.Rts2Expression

/-- The number that digits stand for, behind others. -/
def natFrom (n : ℕ) (digits : List Char) : ℕ :=
  digits.foldl (fun n c => n * 10 + (c.toNat - 48)) n

def natOf (digits : List Char) : ℕ := natFrom 0 digits

/-- Digits, and a point with digits. -/
structure Constant where
  whole : List Char
  fraction : Option (List Char)
  whole_ne : whole ≠ []
  whole_digits : ∀ c ∈ whole, c.isDigit = true
  fraction_digits : ∀ f ∈ fraction, ∀ c ∈ f, c.isDigit = true

namespace Constant
variable (c : Constant)

def text : List Char := c.whole ++ c.fraction.elim [] ('.' :: ·)

/-- The digits behind the point. -/
def places : List Char := c.fraction.getD []

/-- The number that is written. -/
def value : ℚ := natOf c.whole + natOf c.places / 10 ^ c.places.length

/-- There are only zeros behind the point, and no more than 63 of them behind a number other than
zero. -/
def Plain : Prop :=
  (∀ d ∈ c.places, d = '0') ∧ (c.places.length ≤ 63 ∨ ∀ d ∈ c.whole, d = '0')

/-- What is left of a constant when its first character is passed over; a point in front is passed
over, too. -/
def tailText : List Char :=
  if c.whole.tail = [] then c.places else c.whole.tail ++ c.fraction.elim [] ('.' :: ·)

end Constant

/-! ## The loop over a number -/

/-- A digit is one of ten. -/
theorem digit_lt {c : Char} (h : c.isDigit = true) : c.toNat - 48 < 10 := by
  have h57 : c.toNat ≤ 57 := (Char.isDigit_iff_toNat.mp h).2
  omega

theorem digit_eq_zero {c : Char} (h : c.isDigit = true) : c.toNat - 48 = 0 ↔ c = '0' := by
  have h48 : 48 ≤ c.toNat := (Char.isDigit_iff_toNat.mp h).1
  constructor
  · intro hzero
    have hnat : c.toNat = '0'.toNat := by
      show c.toNat = 48
      omega
    exact Char.toNat_inj.mp hnat
  · rintro rfl
    rfl

theorem isDigit_ne_point {c : Char} (h : c.isDigit = true) : c ≠ '.' := by
  rintro rfl
  cases h

/-- The power of ten in the variable `fraction`. -/
def fractionAt (k : ℕ) : ℤ := toLong (10 ^ (k + 1))

theorem fractionAt_next (k : ℕ) : toLong (fractionAt k * 10) = fractionAt (k + 1) := by
  unfold fractionAt toLong
  rw [Int.bmod_mul_bmod, ← Int.pow_succ]

theorem fractionAt_large : ∀ k < 63, 9 < (fractionAt k).natAbs := by decide +kernel

theorem fractionAt_zero {k : ℕ} (h : 63 ≤ k) : fractionAt k = 0 := by
  obtain ⟨j, rfl⟩ := Nat.exists_eq_add_of_le h
  induction j with
  | zero => decide +kernel
  | succ j ih =>
    have hprev := ih (Nat.le_add_right 63 j)
    rw [← Nat.add_assoc, ← fractionAt_next, hprev]
    rfl

section
variable {digits : List Char}

/-- Digits of the whole part. -/
theorem numberLoop_whole (hd : ∀ c ∈ digits, c.isDigit = true) (rest : List Char) (n : ℕ) :
    numberLoop (digits ++ rest) n 0 = numberLoop rest (natFrom n digits : ℕ) 0 := by
  induction digits generalizing n with
  | nil => rfl
  | cons c digits ih =>
    have hc := hd c List.mem_cons_self
    have hnext : (n : ℚ) * 10 + (digit c : ℤ) = ((n * 10 + (c.toNat - 48) : ℕ) : ℚ) := by
      unfold digit
      push_cast
      rfl
    rw [List.cons_append, numberLoop, if_neg (isDigit_ne_point hc), if_pos hc, if_neg (by simp),
      hnext, ih fun d hd' => hd d (List.mem_cons_of_mem c hd')]
    rfl

/-- Digits behind the point, from one of the places on. -/
theorem numberLoop_fraction (hd : ∀ c ∈ digits, c.isDigit = true) (n k : ℕ) :
    numberLoop digits n (fractionAt k) = .val (natFrom n (digits.drop (63 - k)) : ℕ) := by
  induction digits generalizing n k with
  | nil => rw [List.drop_nil]; rfl
  | cons c digits ih =>
    have hc := hd c List.mem_cons_self
    have hrest : ∀ d ∈ digits, d.isDigit = true := fun d hd' => hd d (List.mem_cons_of_mem c hd')
    rcases Nat.lt_or_ge k 63 with hk | hk
    · have hlarge := fractionAt_large k hk
      have hne : fractionAt k ≠ 0 := fun h0 => by simp [h0] at hlarge
      have hdiv : (digit c).tdiv (fractionAt k) = 0 := by
        have hlt := digit_lt hc
        rw [← Int.natAbs_eq_zero, Int.natAbs_tdiv]
        exact Nat.div_eq_of_lt (show c.toNat - 48 < (fractionAt k).natAbs by omega)
      have hplaces : 63 - k = 63 - (k + 1) + 1 := by omega
      rw [numberLoop, if_neg (isDigit_ne_point hc), if_pos hc, if_pos hne, hdiv, fractionAt_next,
        Int.cast_zero, add_zero, ih hrest, hplaces, List.drop_succ_cons]
    · have hzero := fractionAt_zero hk
      have hwhole := numberLoop_whole hd [] n
      rw [List.append_nil] at hwhole
      rw [hzero, hwhole, Nat.sub_eq_zero_of_le hk]
      rfl

theorem natFrom_eq (n : ℕ) (digits : List Char) :
    natFrom n digits = n * 10 ^ digits.length + natOf digits := by
  unfold natOf
  induction digits generalizing n with
  | nil => simp [natFrom]
  | cons c digits ih =>
    have hn := ih (n * 10 + (c.toNat - 48))
    have h0 := ih (0 * 10 + (c.toNat - 48))
    show natFrom (n * 10 + (c.toNat - 48)) digits =
      n * 10 ^ (digits.length + 1) + natFrom (0 * 10 + (c.toNat - 48)) digits
    rw [hn, h0]
    ring

theorem natOf_cons (c : Char) (digits : List Char) :
    natOf (c :: digits) = (c.toNat - 48) * 10 ^ digits.length + natOf digits := by
  show natFrom (0 * 10 + (c.toNat - 48)) digits = _
  rw [natFrom_eq, Nat.zero_mul, Nat.zero_add]

theorem natOf_lt (hd : ∀ c ∈ digits, c.isDigit = true) : natOf digits < 10 ^ digits.length := by
  induction digits with
  | nil => exact Nat.one_pos
  | cons c digits ih =>
    have hrest := ih fun d hd' => hd d (List.mem_cons_of_mem c hd')
    have hc := digit_lt (hd c List.mem_cons_self)
    rw [natOf_cons, List.length_cons, Nat.pow_succ]
    nlinarith

theorem natOf_eq_zero (hd : ∀ c ∈ digits, c.isDigit = true) :
    natOf digits = 0 ↔ ∀ c ∈ digits, c = '0' := by
  induction digits with
  | nil => simp [natOf, natFrom]
  | cons c digits ih =>
    have hrest := ih fun d hd' => hd d (List.mem_cons_of_mem c hd')
    rw [natOf_cons, Nat.add_eq_zero_iff, Nat.mul_eq_zero, hrest,
      digit_eq_zero (hd c List.mem_cons_self), List.forall_mem_cons]
    simp

end

/-- A number with less than one behind it. -/
theorem whole_of_mul {n w p f : ℕ} (h : n * p = w * p + f) (hf : f < p) : n = w := by
  apply Nat.le_antisymm
  · by_contra hlt
    have hmul := Nat.mul_le_mul_right p (Nat.lt_of_not_le hlt)
    rw [Nat.succ_mul] at hmul
    omega
  · exact Nat.le_of_mul_le_mul_right (by omega) (Nat.zero_lt_of_lt hf)

/-- More zeros behind a number change it, unless it is zero. -/
theorem mul_pow_eq_self {n m : ℕ} : n * 10 ^ m = n ↔ m = 0 ∨ n = 0 := by
  constructor
  · intro h
    rcases Nat.eq_zero_or_pos m with hm | hm
    · exact .inl hm
    · have hten : 10 ^ 1 ≤ 10 ^ m := Nat.pow_le_pow_right (by decide) hm
      have hmore := Nat.mul_le_mul_left n hten
      exact .inr (by omega)
  · rintro (rfl | rfl)
    · exact Nat.mul_one n
    · exact Nat.zero_mul _

/-- More zeros behind a number do not make up for a digit in front of it. -/
theorem mul_pow_eq_iff {d n k m : ℕ} (hn : n < 10 ^ k) :
    n * 10 ^ m = d * 10 ^ k + n ↔ d = 0 ∧ (m = 0 ∨ n = 0) := by
  have hk : 0 < 10 ^ k := Nat.zero_lt_of_lt hn
  constructor
  · intro h
    rcases Nat.eq_zero_or_pos m with rfl | hm
    · rw [Nat.pow_zero, Nat.mul_one] at h
      have hd : d * 10 ^ k = 0 := by omega
      exact ⟨(Nat.mul_eq_zero.mp hd).resolve_right hk.ne', .inl rfl⟩
    · have hpos : 0 < 10 ^ m := Nat.pow_pos (by decide)
      have hcoprime : Nat.Coprime (10 ^ k) (10 ^ m - 1) := by
        have hnext : Nat.Coprime (1 + (10 ^ m - 1)) (10 ^ m - 1) :=
          Nat.coprime_add_self_left.mpr (Nat.coprime_one_left _)
        rw [Nat.add_sub_cancel' hpos] at hnext
        exact (hnext.coprime_dvd_left (dvd_pow_self 10 hm.ne')).pow_left k
      have hdvd : 10 ^ k ∣ n * (10 ^ m - 1) := by
        refine ⟨d, ?_⟩
        rw [Nat.mul_sub_one, h, Nat.add_sub_cancel, Nat.mul_comm]
      have hzero : n = 0 := Nat.eq_zero_of_dvd_of_lt (hcoprime.dvd_of_dvd_mul_right hdvd) hn
      rw [hzero, Nat.zero_mul, Nat.add_zero] at h
      exact ⟨(Nat.mul_eq_zero.mp h.symm).resolve_right hk.ne', .inr hzero⟩
  · rintro ⟨rfl, h⟩
    rw [mul_pow_eq_self.mpr h, Nat.zero_mul, Nat.zero_add]

/-! ## Constants -/

namespace Constant
variable (c : Constant)

theorem places_digits : ∀ d ∈ c.places, d.isDigit = true := by
  unfold places
  cases hf : c.fraction with
  | none => simp
  | some f => exact c.fraction_digits f (Option.mem_def.mpr hf)

/-- What the scanner reads of a constant: the digits behind the point only from the 64th on. -/
theorem numberLoop_text : numberLoop c.text 0 0 =
    .val (natFrom (natOf c.whole) (c.places.drop 63) : ℕ) := by
  have hwhole := numberLoop_whole c.whole_digits (c.fraction.elim [] ('.' :: ·)) 0
  rw [Nat.cast_zero] at hwhole
  unfold text places
  rw [hwhole]
  cases hf : c.fraction with
  | none => rfl
  | some f =>
    have hfirst : fractionAt 0 = 10 := by decide +kernel
    have hfraction :=
      numberLoop_fraction (c.fraction_digits f (Option.mem_def.mpr hf)) (natOf c.whole) 0
    rw [hfirst] at hfraction
    exact hfraction

/-- A whole number is the constant only if there are only zeros behind the point. -/
theorem eq_value_iff (n : ℕ) :
    (n : ℚ) = c.value ↔ n = natOf c.whole ∧ natOf c.places = 0 := by
  have hpow : (0 : ℚ) < 10 ^ c.places.length := pow_pos (by norm_num) _
  unfold value
  constructor
  · intro h
    have hmul : n * 10 ^ c.places.length =
        natOf c.whole * 10 ^ c.places.length + natOf c.places := by
      have hcast := congrArg (· * (10 : ℚ) ^ c.places.length) h
      simp only [add_mul, div_mul_cancel₀ _ hpow.ne'] at hcast
      exact_mod_cast hcast
    -- a part of one would be lost
    have hwhole := whole_of_mul hmul (natOf_lt c.places_digits)
    rw [hwhole] at hmul
    exact ⟨hwhole, by omega⟩
  · rintro ⟨rfl, hzero⟩
    rw [hzero]
    simp

/-- Plain, in numbers. -/
theorem plain_iff : c.Plain ↔
    natOf c.places = 0 ∧ (c.places.length - 63 = 0 ∨ natOf c.whole = 0) := by
  unfold Plain
  rw [natOf_eq_zero c.places_digits, natOf_eq_zero c.whole_digits, Nat.sub_eq_zero_iff_le]

theorem natOf_drop (h : natOf c.places = 0) (n : ℕ) : natOf (c.places.drop n) = 0 := by
  have hzero := (natOf_eq_zero c.places_digits).mp h
  rw [natOf_eq_zero fun d hd => c.places_digits d (List.mem_of_mem_drop hd)]
  exact fun d hd => hzero d (List.mem_of_mem_drop hd)

/-- A constant is read exactly if and only if it is plain. -/
theorem reads_iff : numberLoop c.text 0 0 = .val c.value ↔ c.Plain := by
  rw [numberLoop_text, Number.val.injEq, eq_value_iff, plain_iff, natFrom_eq, List.length_drop]
  constructor
  · rintro ⟨hwhole, hzero⟩
    rw [c.natOf_drop hzero, Nat.add_zero] at hwhole
    exact ⟨hzero, mul_pow_eq_self.mp hwhole⟩
  · rintro ⟨hzero, hshort⟩
    rw [c.natOf_drop hzero, Nat.add_zero]
    exact ⟨mul_pow_eq_self.mpr hshort, hzero⟩

/-- What is left of a constant is none, digits behind the point, or the constant without its first
digit. -/
theorem tailText_cases {d : Char} {w : List Char} (hw : c.whole = d :: w) :
    w = [] ∧ c.tailText = c.places ∨
      ∃ c' : Constant, c'.whole = w ∧ c'.places = c.places ∧ c.tailText = c'.text := by
  have htail : c.tailText = if w = [] then c.places else w ++ c.fraction.elim [] ('.' :: ·) := by
    unfold tailText
    rw [hw, List.tail_cons]
  rw [htail]
  by_cases hnil : w = []
  · exact .inl ⟨hnil, if_pos hnil⟩
  · refine .inr ⟨⟨w, c.fraction, hnil, fun d' hd => c.whole_digits d' ?_, c.fraction_digits⟩, rfl, rfl,
      if_neg hnil⟩
    rw [hw]
    exact List.mem_cons_of_mem d hd

/-- Without its first character a constant is read exactly if and only if this is a zero, and the
constant is plain. -/
theorem tailText_reads_iff :
    numberLoop c.tailText 0 0 = .val c.value ↔ c.whole.head? = some '0' ∧ c.Plain := by
  obtain ⟨d, w, hw⟩ := List.exists_cons_of_ne_nil c.whole_ne
  have hd : d.isDigit = true := c.whole_digits d (hw ▸ List.mem_cons_self)
  have hdigits : ∀ d' ∈ w, d'.isDigit = true := fun d' hd' =>
    c.whole_digits d' (hw ▸ List.mem_cons_of_mem d hd')
  have hhead : c.whole.head? = some '0' ↔ d.toNat - 48 = 0 := by
    rw [hw, List.head?_cons, Option.some.injEq, digit_eq_zero hd]
  have hnat : natOf c.whole = (d.toNat - 48) * 10 ^ w.length + natOf w := by rw [hw, natOf_cons]
  rw [hhead, plain_iff]
  rcases c.tailText_cases hw with ⟨rfl, htext⟩ | ⟨c', rfl, hplaces, htext⟩
  · have hloop := numberLoop_whole c.places_digits [] 0
    rw [List.append_nil, Nat.cast_zero] at hloop
    have hone : natOf c.whole = d.toNat - 48 := by simpa [natOf, natFrom] using hnat
    rw [htext, hloop, numberLoop, Number.val.injEq, eq_value_iff, hone]
    show natOf c.places = d.toNat - 48 ∧ natOf c.places = 0 ↔ _
    omega
  · rw [htext, numberLoop_text, Number.val.injEq, eq_value_iff, natFrom_eq, List.length_drop, hplaces,
      hnat]
    constructor
    · rintro ⟨hwhole, hzero⟩
      rw [c.natOf_drop hzero, Nat.add_zero] at hwhole
      obtain ⟨hfirst, hshort⟩ := (mul_pow_eq_iff (natOf_lt hdigits)).mp hwhole
      refine ⟨hfirst, hzero, hshort.imp_right fun hrest => ?_⟩
      rw [hfirst, hrest, Nat.zero_mul]
    · rintro ⟨hfirst, hzero, hshort⟩
      rw [c.natOf_drop hzero, Nat.add_zero]
      rw [hfirst, Nat.zero_mul, Nat.zero_add] at hshort
      exact ⟨(mul_pow_eq_iff (natOf_lt hdigits)).mpr ⟨hfirst, hshort⟩, hzero⟩

end Constant

end Rts2.Rts2Expression
