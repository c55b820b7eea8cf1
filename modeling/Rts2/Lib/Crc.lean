import Mathlib.Data.List.Basic
import Mathlib.Data.List.Induction
import Mathlib.Logic.Function.Iterate

/-! # Cyclic redundancy checks

A register that is shifted right, bit after bit of a message; where the bit that falls out and the bit
of the message differ, a polynomial is added. The check of a message is linear in the message, and the
check of a message with its own check behind it is zero. So what damage does to a check depends on the
damage alone. -/
namespace Rts2.Lib.Crc

variable {w : ℕ} (poly : BitVec w)

/-- One bit of a message. -/
def step (s : BitVec w) (b : Bool) : BitVec w :=
  if s.getLsbD 0 ^^ b then (s >>> 1) ^^^ poly else s >>> 1

/-- The register after a message. -/
def crc (s : BitVec w) (bits : List Bool) : BitVec w := bits.foldl (step poly) s

/-- The bits of a word, the lowest first. -/
def lowBits {v : ℕ} (n : ℕ) (x : BitVec v) : List Bool := (List.range n).map x.getLsbD

theorem lowBits_succ {v : ℕ} (n : ℕ) (x : BitVec v) :
    lowBits (n + 1) x = lowBits n x ++ [x.getLsbD n] := by
  rw [lowBits, List.range_succ, List.map_append, List.map_singleton]
  rfl

theorem crc_append (s : BitVec w) (xs ys : List Bool) :
    crc poly s (xs ++ ys) = crc poly (crc poly s xs) ys := List.foldl_append

theorem step_xor (s t : BitVec w) (b c : Bool) :
    step poly (s ^^^ t) (b ^^ c) = step poly s b ^^^ step poly t c := by
  have hcancel : ∀ x y p : BitVec w, x ^^^ p ^^^ (y ^^^ p) = x ^^^ y := by
    intro x y p
    rw [BitVec.xor_comm y p, BitVec.xor_assoc, ← BitVec.xor_assoc p, BitVec.xor_self, BitVec.zero_xor]
  simp only [step, BitVec.getLsbD_xor, BitVec.ushiftRight_xor_distrib]
  cases s.getLsbD 0 <;> cases t.getLsbD 0 <;> cases b <;> cases c <;>
    simp [hcancel] <;> ac_rfl

theorem crc_xor (s t : BitVec w) {xs ys : List Bool} (h : xs.length = ys.length) :
    crc poly (s ^^^ t) (List.zipWith xor xs ys) = crc poly s xs ^^^ crc poly t ys := by
  induction xs generalizing s t ys with
  | nil =>
    obtain rfl := List.length_eq_zero_iff.mp h.symm
    rfl
  | cons x xs ih =>
    cases ys with
    | nil => cases h
    | cons y ys =>
      have hstep := step_xor poly s t x y
      simp only [crc, List.zipWith_cons_cons, List.foldl_cons] at ih ⊢
      rw [hstep]
      exact ih _ _ (Nat.succ.inj h)

/-! ## Messages with their check -/

/-- Zero bits only shift the register. -/
theorem crc_zeros_xor (s t : BitVec w) (n : ℕ) :
    crc poly (s ^^^ t) (List.replicate n false) =
      crc poly s (List.replicate n false) ^^^ crc poly t (List.replicate n false) := by
  have hzip : List.zipWith xor (List.replicate n false) (List.replicate n false) =
      List.replicate n false := by
    rw [List.zipWith_replicate, Nat.min_self]
    rfl
  rw [← crc_xor poly s t rfl, hzip]

theorem crc_zero_zeros (n : ℕ) : crc poly 0 (List.replicate n false) = 0 := by
  have hxor := crc_zeros_xor poly 0 0 n
  simpa using hxor

/-- A register that is fed with its own bits is emptied. -/
theorem crc_lowBits_self (s : BitVec w) (n : ℕ) : crc poly s (lowBits n s) = s >>> n := by
  induction n with
  | zero => exact (BitVec.ushiftRight_zero s).symm
  | succ n ih =>
    have hlow : (s >>> n).getLsbD 0 = s.getLsbD n := by
      rw [BitVec.getLsbD_ushiftRight, Nat.add_zero]
    rw [lowBits_succ, crc_append, ih]
    simp only [crc, List.foldl_cons, List.foldl_nil, step, hlow, Bool.xor_self]
    rw [if_neg Bool.false_ne_true, ← BitVec.shiftRight_add]

theorem crc_lowBits_width (s : BitVec w) : crc poly s (lowBits w s) = 0 := by
  rw [crc_lowBits_self]
  exact BitVec.ushiftRight_eq_zero (Nat.le_refl w)

variable {poly}

/-- With its highest bit in the polynomial, no register but the empty one is emptied by zeros. -/
theorem crc_zeros_ne_zero (hpoly : poly.getLsbD (w - 1) = true) {s : BitVec w} (hs : s ≠ 0) (n : ℕ) :
    crc poly s (List.replicate n false) ≠ 0 := by
  induction n generalizing s with
  | zero => exact hs
  | succ n ih =>
    rw [List.replicate_succ]
    refine ih (s := step poly s false) fun hzero => ?_
    rw [step, Bool.xor_false] at hzero
    split at hzero
    · have hbit := congrArg (fun x => x.getLsbD (w - 1)) hzero
      have hout : w ≤ 1 + (w - 1) := by omega
      simp only [BitVec.getLsbD_xor, BitVec.getLsbD_ushiftRight, BitVec.getLsbD_of_ge _ _ hout, hpoly]
        at hbit
      exact absurd hbit (by simp)
    · next hlow =>
      refine hs (BitVec.eq_of_getLsbD_eq fun i _ => ?_)
      cases i with
      | zero =>
        rw [Bool.eq_false_iff.mpr hlow]
        exact BitVec.getLsbD_zero.symm
      | succ i =>
        have hbit := congrArg (fun x => x.getLsbD i) hzero
        simp only [BitVec.getLsbD_ushiftRight] at hbit
        rw [Nat.add_comm, hbit]
        simp

/-- The check of a message and a word behind it is zero exactly when the word is the check of the
message. -/
theorem crc_append_eq_zero_iff (hpoly : poly.getLsbD (w - 1) = true) (s : BitVec w)
    (bits : List Bool) (t : BitVec w) :
    crc poly s (bits ++ lowBits w t) = 0 ↔ crc poly s bits = t := by
  rw [crc_append]
  generalize crc poly s bits = c
  have hsum : crc poly c (lowBits w t) = crc poly (c ^^^ t) (List.replicate w false) := by
    have hzip : List.zipWith xor (List.replicate w false) (lowBits w t) = lowBits w t := by
      refine List.ext_getElem (by simp [lowBits]) fun i _ _ => ?_
      simp
    have hlen : (List.replicate w false).length = (lowBits w t).length := by simp [lowBits]
    have hsplit := crc_xor poly (c ^^^ t) t hlen
    rw [hzip, crc_lowBits_width, BitVec.xor_assoc, BitVec.xor_self] at hsplit
    simpa using hsplit
  rw [hsum]
  constructor
  · intro hzero
    by_contra hne
    refine crc_zeros_ne_zero hpoly (fun hxor => hne ?_) w hzero
    calc c = c ^^^ (t ^^^ t) := by rw [BitVec.xor_self, BitVec.xor_zero]
      _ = c ^^^ t ^^^ t := (BitVec.xor_assoc c t t).symm
      _ = t := by rw [hxor]; exact BitVec.zero_xor
  · rintro rfl
    rw [BitVec.xor_self]
    exact crc_zero_zeros poly w

/-! ## Damage -/

/-- What of the bits of a message is turned around: some bits within the width of the register, or an
odd number of bits. -/
inductive Damage (w : ℕ) : List Bool → Prop where
  | burst (before after : ℕ) (bits : List Bool) : bits.length ≤ w → true ∈ bits →
      Damage w (List.replicate before false ++ bits ++ List.replicate after false)
  | odd (bits : List Bool) : bits.count true % 2 = 1 → Damage w bits

theorem crc_burst (hpoly : poly.getLsbD (w - 1) = true) {bits : List Bool} (hlen : bits.length ≤ w)
    (hone : true ∈ bits) : crc poly 0 bits ≠ 0 := by
  have hlow : lowBits bits.length ((BitVec.ofBoolListLE bits).setWidth w) = bits := by
    refine List.ext_getElem (by simp [lowBits]) fun i _ hi => ?_
    have hiw : i < w := by omega
    simp only [lowBits, List.getElem_map, List.getElem_range]
    rw [BitVec.getLsbD_setWidth, BitVec.getLsbD_ofBoolListLE, List.getD_eq_getElem?_getD,
      List.getElem?_eq_getElem hi, decide_eq_true hiw, Bool.true_and, Option.getD_some]
  generalize hv : (BitVec.ofBoolListLE bits).setWidth w = v at hlow
  have hne : v ≠ 0 := by
    rintro rfl
    rw [← hlow] at hone
    simp [lowBits] at hone
  have hshift : v >>> bits.length = 0 := by
    refine BitVec.eq_of_getLsbD_eq fun i _ => ?_
    rw [← hv, BitVec.getLsbD_ushiftRight, BitVec.getLsbD_setWidth, BitVec.getLsbD_ofBoolListLE,
      List.getD_eq_getElem?_getD, List.getElem?_eq_none (by omega)]
    simp
  have hzip : List.zipWith xor bits (List.replicate bits.length false) = bits := by
    refine List.ext_getElem (by simp) fun i _ _ => ?_
    simp
  have hlen : bits.length = (List.replicate bits.length false).length := by simp
  have hsplit := crc_xor poly v v hlen
  have hself := crc_lowBits_self poly v bits.length
  rw [hlow, hshift] at hself
  rw [hzip, BitVec.xor_self, hself] at hsplit
  intro hzero
  refine crc_zeros_ne_zero hpoly hne bits.length ?_
  rw [← hsplit.trans BitVec.zero_xor]
  exact hzero

/-- The sum of the lowest bits. -/
def parity : ℕ → BitVec w → Bool
  | 0, _ => false
  | n + 1, s => parity n s ^^ s.getLsbD n

theorem parity_xor (n : ℕ) (s t : BitVec w) : parity n (s ^^^ t) = (parity n s ^^ parity n t) := by
  induction n with
  | zero => rfl
  | succ n ih =>
    rw [parity, parity, parity, ih, BitVec.getLsbD_xor]
    cases parity n s <;> cases parity n t <;> cases s.getLsbD n <;> cases t.getLsbD n <;> rfl

theorem parity_shift (n : ℕ) (s : BitVec w) :
    parity n (s >>> 1) = (parity (n + 1) s ^^ s.getLsbD 0) := by
  induction n with
  | zero => simp [parity]
  | succ n ih =>
    have hnext : parity (n + 1 + 1) s = (parity (n + 1) s ^^ s.getLsbD (n + 1)) := rfl
    rw [parity, ih, hnext, BitVec.getLsbD_ushiftRight, Nat.add_comm 1 n]
    cases parity (n + 1) s <;> cases s.getLsbD 0 <;> cases s.getLsbD (n + 1) <;> rfl

/-- A polynomial of an odd number of terms counts the bits of a message. -/
theorem parity_crc (hodd : parity w poly = true) (s : BitVec w) (bits : List Bool) :
    parity w (crc poly s bits) = (parity w s ^^ decide (bits.count true % 2 = 1)) := by
  induction bits using List.reverseRecOn with
  | nil => simp [crc]
  | append_singleton bits b ih =>
    rw [crc_append]
    generalize crc poly s bits = c at ih
    have hout : parity (w + 1) c = parity w c := by
      rw [parity, BitVec.getLsbD_of_ge c w (Nat.le_refl w), Bool.xor_false]
    have hstep : parity w (step poly c b) = (parity w c ^^ b) := by
      have hshift := parity_shift w c
      rw [hout] at hshift
      rw [step]
      cases hc : c.getLsbD 0 <;> cases b <;> simp [parity_xor, hshift, hodd, hc]
    simp only [crc, List.foldl_cons, List.foldl_nil, hstep, ih, List.count_append,
      List.count_singleton]
    cases b with
    | false => simp
    | true =>
      rcases Nat.mod_two_eq_zero_or_one (bits.count true) with h | h
      · have hnext : (bits.count true + 1) % 2 = 1 := by omega
        simp [h, hnext]
      · have hnext : (bits.count true + 1) % 2 = 0 := by omega
        simp [h, hnext]

/-- Damage does not leave a check of zero as it was. -/
theorem Damage.crc_ne_zero (hpoly : poly.getLsbD (w - 1) = true) (hodd : parity w poly = true)
    {bits : List Bool} (h : Damage w bits) : crc poly 0 bits ≠ 0 := by
  cases h with
  | burst before after bits hlen hone =>
    rw [crc_append, crc_append, crc_zero_zeros]
    exact crc_zeros_ne_zero hpoly (crc_burst hpoly hlen hone) after
  | odd bits hcount =>
    intro hzero
    have hpar := parity_crc hodd 0 bits
    rw [hzero, hcount] at hpar
    simp at hpar

end Rts2.Lib.Crc
