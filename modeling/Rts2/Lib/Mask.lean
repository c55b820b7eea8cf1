import Mathlib.Data.BitVec

/-! # Fields of a word

A word is cut into fields by masks. `setField` replaces one field and leaves the
others: reading it back gives what was written, and a mask disjoint from it
reads what was there before. -/
namespace Rts2.Lib

variable {n : Nat}

/-- Replace the field `mask` of `w` by the bits of `v`. -/
def setField (w mask v : BitVec n) : BitVec n :=
  (w &&& ~~~mask) ||| (v &&& mask)

theorem getLsbD_setField (w mask v : BitVec n) (i : Nat) :
    (setField w mask v).getLsbD i = if mask.getLsbD i then v.getLsbD i else w.getLsbD i := by
  by_cases hi : i < n
  · cases hm : mask.getLsbD i <;> simp [setField, hi, hm, -BitVec.getLsbD_eq_getElem]
  · simp [Nat.le_of_not_lt hi]

/-- The field reads as it was written. -/
@[simp] theorem setField_and_mask (w mask v : BitVec n) :
    setField w mask v &&& mask = v &&& mask := by
  apply BitVec.eq_of_getLsbD_eq
  intro i _
  simp only [BitVec.getLsbD_and, getLsbD_setField]
  cases mask.getLsbD i <;> simp

/-- A disjoint mask does not see the write. -/
theorem setField_and_of_disjoint {w mask v other : BitVec n} (h : mask &&& other = 0#n) :
    setField w mask v &&& other = w &&& other := by
  apply BitVec.eq_of_getLsbD_eq
  intro i _
  have hi : mask.getLsbD i = false ∨ other.getLsbD i = false := by
    have hbit : (mask &&& other).getLsbD i = false := by rw [h, BitVec.getLsbD_zero]
    rwa [BitVec.getLsbD_and, Bool.and_eq_false_iff] at hbit
  simp only [BitVec.getLsbD_and, getLsbD_setField]
  rcases hi with h' | h' <;> simp [h']

/-- Taking a flag off again. -/
theorem or_and_not_mask (w mask : BitVec n) : (w ||| mask) &&& ~~~mask = w &&& ~~~mask := by
  ext i hi
  simp only [BitVec.getElem_and, BitVec.getElem_or, BitVec.getElem_not]
  cases w[i] <;> cases mask[i] <;> rfl

/-- Taking a flag off changes nothing where it is not set. -/
theorem and_not_mask_eq_iff (w mask : BitVec n) : w &&& ~~~mask = w ↔ w &&& mask = 0#n := by
  constructor
  · intro h
    rw [← h, BitVec.and_assoc, BitVec.and_comm (~~~mask), BitVec.and_not_self]
    exact BitVec.and_zero
  · intro h
    ext i hi
    have hbit : (w &&& mask)[i] = false := by rw [h, BitVec.getElem_zero]
    simp only [BitVec.getElem_and, BitVec.getElem_not] at hbit ⊢
    revert hbit
    cases w[i] <;> cases mask[i] <;> decide

end Rts2.Lib
