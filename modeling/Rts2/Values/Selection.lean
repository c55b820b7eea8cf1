import Mathlib.Data.Nat.Prime.Basic
import Rts2.Values.IntegerLike

/-! # Operators of a selection

`x += n` and `x -= n` of a value that is the index of one of its options. The sum is taken modulo the
number of options, the difference is corrected in a loop. -/
namespace Rts2.Values.Selection
open Rts2.Connection

/-! ## The operators -/

/-- What a call comes to. -/
inductive Outcome where
  | divisionByZero
  /-- A sum that is no `int`. -/
  | overflow
  /-- The loop still runs. -/
  | running
  /-- What is returned, and the value after the call. -/
  | returned (ret : Int) (value : Int32)
  deriving DecidableEq

def InInt (x : Int) : Prop := -2 ^ 31 ≤ x ∧ x < 2 ^ 31

instance instDecidableInInt (x : Int) : Decidable (InInt x) :=
  inferInstanceAs (Decidable (-2 ^ 31 ≤ x ∧ x < 2 ^ 31))

/-- `(size_t) x` -/
def toSizeT (x : Int) : Int := x % 2 ^ 64

/-- `while (new_val < 0) new_val += values.size ();`, of less than so many rounds. -/
def correct (size : ℕ) : ℕ → Int → Option Int
  | 0, _ => none
  | fuel + 1, new_val =>
    if new_val < 0 then correct size fuel (toInt32 (toSizeT (new_val + size))) else some new_val

/-- `setValueInteger` of a value. -/
def setValueInteger (names : List (List Byte)) (value : Int32) (in_value : Int) : Outcome :=
  match selIndex names in_value with
  | some i => .returned 0 i
  | none => .returned (-1) value

/-- `new->doOpValue (op, old)`. -/
def doOpValue (names : List (List Byte)) (fuel : ℕ) (new : Int32) (op : Char) (old : Int32) : Outcome :=
  match op with
  | '+' =>
    if ¬ InInt (old.toInt + new.toInt) then .overflow
    else if names.length = 0 then .divisionByZero
    else setValueInteger names new (toInt32 (toSizeT (old.toInt + new.toInt) % names.length))
  | '-' =>
    if ¬ InInt (old.toInt - new.toInt) then .overflow
    else (correct names.length fuel (old.toInt - new.toInt)).elim .running (setValueInteger names new)
  | '=' => setValueInteger names new new.toInt
  | _ => .returned (-1) new

/-- The call ends, with the index of the result where there are options. -/
def Right (names : List (List Byte)) (new : Int32) (op : Char) (old : Int32) (result : Int) : Prop :=
  ∃ fuel ret value, doOpValue names fuel new op old = .returned ret value ∧
    (0 < names.length → ret = 0 ∧ (0 ≤ value.toInt ∧ value.toInt < names.length) ∧
      value.toInt = result % names.length)

/-- A sum that is taken modulo the number of options. -/
structure Addable (size : ℕ) (x : Int) : Prop where
  options : 0 < size
  int : InInt x
  /-- A negative sum is taken modulo 2^64 first. -/
  positive : 0 ≤ x ∨ size ∣ 2 ^ 31

/-- A difference that is taken modulo the number of options. -/
structure Subtractable (size : ℕ) (x : Int) : Prop where
  int : InInt x
  ends : size = 0 → 0 ≤ x
  /-- Only a negative difference is corrected. -/
  small : 0 < size → x < size ∧ x % size < 2 ^ 31

/-! ## Indices -/

theorem toInt32_eq {x : Int} (h : InInt x) : toInt32 x = x := by
  unfold InInt at h
  exact Int.bmod_eq_of_le (by omega) (by omega)

theorem toInt32_in (x : Int) : InInt (toInt32 x) := by
  have hlow := Int.le_bmod (x := x) (m := 2 ^ 32) (by omega)
  have hhigh := Int.bmod_lt (x := x) (m := 2 ^ 32) (by omega)
  unfold InInt toInt32
  omega

theorem ofInt_toInt {x : Int} (h : InInt x) : (Int32.ofInt x).toInt = x :=
  Int32.toInt_ofInt.trans (toInt32_eq h)

theorem toInt_in (x : Int32) : InInt x.toInt := by
  have hlow := x.le_toInt
  have hhigh := x.toInt_lt
  exact ⟨hlow, hhigh⟩

section
variable {names : List (List Byte)} {value : Int32} {x : Int}

/-- An index is taken. -/
theorem setValueInteger_index (hlow : 0 ≤ x) (hhigh : x < names.length) :
    setValueInteger names value x = .returned 0 (Int32.ofInt x) := by
  have hsel : selIndex names x = some (Int32.ofInt x) := if_neg (by omega)
  unfold setValueInteger
  rw [hsel]

/-- Only an index is taken. -/
theorem setValueInteger_zero {v : Int32} (h : setValueInteger names value x = .returned 0 v) :
    (0 ≤ x ∧ x < names.length) ∧ v = Int32.ofInt x := by
  by_cases hindex : x < 0 ∨ (names.length : Int) ≤ x
  · have hsel : selIndex names x = none := if_pos hindex
    unfold setValueInteger at h
    rw [hsel] at h
    cases h
  · rw [setValueInteger_index (by omega) (by omega)] at h
    cases h
    exact ⟨by omega, rfl⟩

theorem setValueInteger_returned : ∃ ret v, setValueInteger names value x = .returned ret v := by
  unfold setValueInteger
  cases selIndex names x with
  | some i => exact ⟨0, i, rfl⟩
  | none => exact ⟨-1, value, rfl⟩

end

/-! ## The loop -/

theorem toInt32_toSizeT (x : Int) : toInt32 (toSizeT x) = toInt32 x := by
  unfold toInt32 toSizeT
  have hdvd : (2 ^ 64 : Int) = ((2 ^ 32 : ℕ) : Int) * 2 ^ 32 := rfl
  rw [Int.bmod_def, Int.bmod_def, Int.emod_emod_of_dvd x ⟨2 ^ 32, hdvd⟩]

theorem correct_of_nonneg (size fuel : ℕ) {x : Int} (h : 0 ≤ x) : correct size (fuel + 1) x = some x :=
  if_neg (by omega)

/-- Nothing is added for no options. -/
theorem correct_zero (fuel : ℕ) {x : Int} (hx : InInt x) (hneg : x < 0) : correct 0 fuel x = none := by
  induction fuel with
  | zero => rfl
  | succ fuel ih =>
    have hsame : toInt32 (toSizeT (x + (0 : ℕ))) = x := by
      rw [toInt32_toSizeT, Nat.cast_zero, Int.add_zero, toInt32_eq hx]
    unfold correct
    rw [if_pos hneg, hsame, ih]

/-- The loop ends at the remainder. -/
theorem correct_mod {size : ℕ} (hsize : 0 < size) {x : Int} (hx : InInt x) (hneg : x < 0)
    (hmod : x % size < 2 ^ 31) : ∃ fuel, correct size fuel x = some (x % size) := by
  -- Every round takes the distance to 0 down by `size`.
  induction hdist : (-x).toNat using Nat.strong_induction_on generalizing x with
  | _ dist ih =>
    have hadd : (x + size) % size = x % size := Int.add_emod_right x size
    have hin : InInt (x + size) := by
      unfold InInt at hx ⊢
      refine ⟨by omega, ?_⟩
      by_cases hless : x + size < 0
      · omega
      · have hrem : (x + size) % size = x + size := Int.emod_eq_of_lt (by omega) (by omega)
        omega
    have hround (fuel : ℕ) : correct size (fuel + 1) x = correct size fuel (x + size) := by
      have hnext : toInt32 (toSizeT (x + size)) = x + size := by
        rw [toInt32_toSizeT, toInt32_eq hin]
      rw [correct, if_pos hneg, hnext]
    by_cases hless : x + size < 0
    · obtain ⟨fuel, hfuel⟩ := ih (-(x + size)).toNat (by omega) hin hless (hadd ▸ hmod) rfl
      exact ⟨fuel + 1, by rw [hround, hfuel, hadd]⟩
    · have hrem : (x + size) % size = x + size := Int.emod_eq_of_lt (by omega) (by omega)
      exact ⟨2, by rw [hround, correct_of_nonneg size 0 (by omega), ← hadd, hrem]⟩

/-! ## Addition -/

/-- A remainder below 2^32 that is an `int` after the conversion was one before. -/
theorem of_toInt32 {x : Int} (hlow : 0 ≤ x) (hhigh : x < 2 ^ 32) (h : 0 ≤ toInt32 x) :
    toInt32 x = x := by
  unfold toInt32 at h ⊢
  rw [Int.bmod_def] at h ⊢
  have hmod : x % ((2 ^ 32 : ℕ) : Int) = x := Int.emod_eq_of_lt hlow (by omega)
  rw [hmod] at h ⊢
  split at h
  · rw [if_pos ‹_›]
  · omega

/-- Modulo 2^64 first is no other remainder for the divisors of 2^31 only. -/
theorem mod_sizeT_iff {size : ℕ} (hsmall : size < 2 ^ 32) {x : Int} (hx : InInt x) (hneg : x < 0) :
    toSizeT x % size = x % size ↔ size ∣ 2 ^ 31 := by
  have hsize : toSizeT x = x + 2 ^ 64 := by
    unfold InInt at hx
    unfold toSizeT
    omega
  have hdvd : (x + 2 ^ 64) % size = x % size ↔ (size : Int) ∣ 2 ^ 64 := by
    rw [Int.emod_eq_emod_iff_emod_sub_eq_zero, add_sub_cancel_left, ← Int.dvd_iff_emod_eq_zero]
  have hcast : ((size : Int) ∣ 2 ^ 64) ↔ size ∣ 2 ^ 64 := by
    exact_mod_cast Int.natCast_dvd_natCast (m := size) (n := 2 ^ 64)
  rw [hsize, hdvd, hcast]
  constructor
  · intro h
    obtain ⟨k, -, hk⟩ := (Nat.dvd_prime_pow Nat.prime_two).mp h
    have hless : k < 32 := (Nat.pow_lt_pow_iff_right (by omega)).mp (hk ▸ hsmall)
    exact hk ▸ Nat.pow_dvd_pow 2 (by omega)
  · exact fun h => h.trans (Nat.pow_dvd_pow 2 (by omega))

theorem doOpValue_add {names : List (List Byte)} {new old : Int32} (fuel : ℕ)
    (hint : InInt (old.toInt + new.toInt)) (hne : names.length ≠ 0) :
    doOpValue names fuel new '+' old =
      setValueInteger names new (toInt32 (toSizeT (old.toInt + new.toInt) % names.length)) := by
  have hop : doOpValue names fuel new '+' old = if ¬ InInt (old.toInt + new.toInt) then .overflow
      else if names.length = 0 then .divisionByZero
      else setValueInteger names new (toInt32 (toSizeT (old.toInt + new.toInt) % names.length)) := rfl
  rw [hop, if_neg (not_not.mpr hint), if_neg hne]

/-- A negative `int` that becomes its remainder as an index. -/
theorem dvd_of_index {size : ℕ} (hpos : 0 < size) {x : Int} (hx : InInt x) (hneg : x < 0)
    (hlow : 0 ≤ toInt32 (toSizeT x % size)) (hindex : toInt32 (toSizeT x % size) = x % size) :
    size ∣ 2 ^ 31 := by
  have hw := toInt32_in (toSizeT x % size)
  have hsmall : size < 2 ^ 32 := by
    by_contra hlarge
    have hrem : x % size = x + size := by
      rw [← Int.add_emod_right, Int.emod_eq_of_lt]
      · unfold InInt at hx
        omega
      · omega
    unfold InInt at hw hx
    omega
  refine (mod_sizeT_iff hsmall hx hneg).mp ?_
  have hbound := Int.emod_lt_of_pos (toSizeT x) (b := size) (by omega)
  have hnonneg := Int.emod_nonneg (toSizeT x) (b := size) (by omega)
  rw [of_toInt32 hnonneg (by omega) hlow] at hindex
  exact hindex

/-- The remainder of a sum that can be taken modulo the number of options is an `int`. -/
theorem Addable.remainder {size : ℕ} {x : Int} (h : Addable size x) :
    toSizeT x % size = x % size ∧ x % size < 2 ^ 31 := by
  obtain ⟨hpos, hint, hsign⟩ := h
  have hbound := Int.emod_lt_of_pos x (b := size) (by omega)
  by_cases hneg : x < 0
  · have hdvd := hsign.resolve_left (by omega)
    have hle : size ≤ 2 ^ 31 := Nat.le_of_dvd (by omega) hdvd
    exact ⟨(mod_sizeT_iff (by omega) hint hneg).mpr hdvd, by omega⟩
  · have hsame : toSizeT x = x := by
      unfold InInt at hint
      unfold toSizeT
      omega
    refine ⟨by rw [hsame], ?_⟩
    by_cases hless : x < size
    · rw [Int.emod_eq_of_lt (by omega) hless]
      exact hint.2
    · have hlarge := hint.2
      omega

/-- A call that takes the remainder as the index is right. -/
theorem right_of_remainder {names : List (List Byte)} {new old : Int32} {op : Char} {x : Int} {fuel : ℕ}
    (hpos : 0 < names.length) (hrem : x % names.length < 2 ^ 31)
    (hop : doOpValue names fuel new op old = setValueInteger names new (x % names.length)) :
    Right names new op old x := by
  have hnonneg := Int.emod_nonneg x (b := names.length) (by omega)
  have hbound := Int.emod_lt_of_pos x (b := names.length) (by omega)
  have hin : InInt (x % names.length) := ⟨by omega, hrem⟩
  refine ⟨fuel, 0, Int32.ofInt (x % names.length), ?_, fun _ => ⟨rfl, ?_, ofInt_toInt hin⟩⟩
  · rw [hop]
    exact setValueInteger_index hnonneg hbound
  · rw [ofInt_toInt hin]
    exact ⟨hnonneg, hbound⟩

/-- A sum is taken modulo the number of options if and only if there are options, it is an `int`, and
it is not negative or their number divides 2^31. -/
theorem add_right (names : List (List Byte)) (new old : Int32) :
    Right names new '+' old (old.toInt + new.toInt) ↔
      Addable names.length (old.toInt + new.toInt) := by
  constructor
  · rintro ⟨fuel, ret, value, hret, hvalue⟩
    have hop : doOpValue names fuel new '+' old = if ¬ InInt (old.toInt + new.toInt) then .overflow
        else if names.length = 0 then .divisionByZero
        else setValueInteger names new (toInt32 (toSizeT (old.toInt + new.toInt) % names.length)) := rfl
    rw [hop] at hret
    split at hret
    · cases hret
    · next hint =>
      have hint := not_not.mp hint
      split at hret
      · cases hret
      · next hne =>
        have hpos := Nat.pos_of_ne_zero hne
        refine ⟨hpos, hint, ?_⟩
        by_cases hneg : old.toInt + new.toInt < 0
        · obtain ⟨rfl, -, hresult⟩ := hvalue hpos
          obtain ⟨⟨hlow, -⟩, hv⟩ := setValueInteger_zero hret
          rw [hv, ofInt_toInt (toInt32_in _)] at hresult
          exact .inr (dvd_of_index hpos hint hneg hlow hresult)
        · exact .inl (by omega)
  · intro h
    have hpos := h.options
    have hremainder := h.remainder
    have hin : InInt ((old.toInt + new.toInt) % names.length) :=
      ⟨by have := Int.emod_nonneg (old.toInt + new.toInt) (b := names.length) (by omega); omega, hremainder.2⟩
    refine @right_of_remainder names new old '+' (old.toInt + new.toInt) 0 hpos hremainder.2 ?_
    rw [doOpValue_add 0 h.int (by omega), hremainder.1, toInt32_eq hin]

/-! ## Subtraction -/

/-- A difference is taken modulo the number of options if and only if it is an `int` and below that number,
and the remainder is an `int`, and without options if it is not negative. -/
theorem sub_right (names : List (List Byte)) (new old : Int32) :
    Right names new '-' old (old.toInt - new.toInt) ↔
      Subtractable names.length (old.toInt - new.toInt) := by
  have hop (fuel : ℕ) : doOpValue names fuel new '-' old =
      if ¬ InInt (old.toInt - new.toInt) then .overflow
      else (correct names.length fuel (old.toInt - new.toInt)).elim .running
        (setValueInteger names new) := rfl
  constructor
  · rintro ⟨fuel, ret, value, hret, hvalue⟩
    rw [hop] at hret
    split at hret
    · cases hret
    · next hint =>
      have hint := not_not.mp hint
      refine ⟨hint, fun hsize => ?_, fun hpos => ?_⟩
      · by_contra hneg
        rw [hsize, correct_zero fuel hint (by omega)] at hret
        cases hret
      · obtain ⟨rfl, -, hresult⟩ := hvalue hpos
        have hbound := (toInt_in value).2
        refine ⟨?_, hresult ▸ hbound⟩
        by_contra hlarge
        cases fuel with
        | zero => cases hret
        | succ fuel =>
          rw [correct_of_nonneg _ fuel (by omega)] at hret
          exact hlarge (setValueInteger_zero hret).1.2
  · rintro ⟨hint, hends, hsmall⟩
    by_cases hneg : old.toInt - new.toInt < 0
    · have hpos : 0 < names.length := by
        by_contra hzero
        have hnonneg := hends (by omega)
        omega
      obtain ⟨fuel, hfuel⟩ := correct_mod hpos hint hneg (hsmall hpos).2
      have hcall : doOpValue names fuel new '-' old =
          setValueInteger names new ((old.toInt - new.toInt) % names.length) := by
        rw [hop, if_neg (not_not.mpr hint), hfuel]
        rfl
      exact right_of_remainder hpos (hsmall hpos).2 hcall
    · have hloop : doOpValue names 1 new '-' old = setValueInteger names new (old.toInt - new.toInt) := by
        rw [hop, if_neg (not_not.mpr hint), correct_of_nonneg _ 0 (by omega)]
        rfl
      obtain ⟨ret, value, hret⟩ := @setValueInteger_returned names new (old.toInt - new.toInt)
      refine ⟨1, ret, value, hloop.trans hret, fun hpos => ?_⟩
      have hless := (hsmall hpos).1
      rw [setValueInteger_index (by omega) hless] at hret
      cases hret
      rw [ofInt_toInt hint, Int.emod_eq_of_lt (by omega) hless]
      exact ⟨rfl, ⟨by omega, hless⟩, rfl⟩

/-! ## Operands of a command -/

/-- The operators work modulo the number of options if and only if nothing overflows, there are options or
nothing is to be corrected, a negative sum meets a number of options that divides 2^31, and a difference is
below that number. -/
theorem doOpValue_right_iff (names : List (List Byte)) (new old : Int32) :
    (Right names new '+' old (old.toInt + new.toInt) ↔
      Addable names.length (old.toInt + new.toInt)) ∧
    (Right names new '-' old (old.toInt - new.toInt) ↔
      Subtractable names.length (old.toInt - new.toInt)) :=
  ⟨add_right names new old, sub_right names new old⟩

/-- Without options nothing can be added to 0. -/
theorem doOpValue_divided : ¬ Right [] 0 '+' 0 0 := by
  rintro ⟨fuel, ret, value, hret, -⟩
  have hdivided : doOpValue [] fuel 0 '+' 0 = .divisionByZero := rfl
  cases hdivided.symm.trans hret

end Rts2.Values.Selection
