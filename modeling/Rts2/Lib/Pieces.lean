import Mathlib.Data.List.Basic
import Mathlib.Tactic.Common

/-! # Pieces of one size

A list that is put together of pieces of one size, and the pieces taken from it again. -/
namespace Rts2.Lib

variable {α β : Type*} {size : Nat} {l : List (List α)}

/-- All pieces are of the size. -/
def Sized (size : Nat) (l : List (List α)) : Prop := ∀ p ∈ l, p.length = size

theorem Sized.tail {p : List α} (h : Sized size (p :: l)) : Sized size l :=
  fun q hq => h q (List.mem_cons_of_mem _ hq)

theorem Sized.drop (h : Sized size l) (k : Nat) : Sized size (l.drop k) :=
  fun p hp => h p (List.mem_of_mem_drop hp)

theorem sized_map (f : β → List α) (hf : ∀ b, (f b).length = size) (l : List β) :
    Sized size (l.map f) := by
  intro p hp
  obtain ⟨b, -, rfl⟩ := List.mem_map.mp hp
  exact hf b

theorem Sized.length_flatten (h : Sized size l) : l.flatten.length = size * l.length := by
  induction l with
  | nil => rfl
  | cons p l ih =>
    rw [List.flatten_cons, List.length_append, h p List.mem_cons_self, ih h.tail, List.length_cons,
      Nat.mul_succ, Nat.add_comm]

theorem Sized.take_flatten (h : Sized size l) (k : Nat) :
    l.flatten.take (size * k) = (l.take k).flatten := by
  induction l generalizing k with
  | nil => simp
  | cons p l ih =>
    cases k with
    | zero => simp
    | succ k =>
      have hp := h p List.mem_cons_self
      have hlength : size * (k + 1) = p.length + size * k := by rw [hp, Nat.mul_succ, Nat.add_comm]
      rw [List.flatten_cons, hlength, List.take_length_add_append, ih h.tail, List.take_succ_cons,
        List.flatten_cons]

theorem Sized.drop_flatten (h : Sized size l) (k : Nat) :
    l.flatten.drop (size * k) = (l.drop k).flatten := by
  induction l generalizing k with
  | nil => simp
  | cons p l ih =>
    cases k with
    | zero => simp
    | succ k =>
      have hp := h p List.mem_cons_self
      have hlength : size * (k + 1) = p.length + size * k := by rw [hp, Nat.mul_succ, Nat.add_comm]
      rw [List.flatten_cons, hlength, List.drop_length_add_append, ih h.tail, List.drop_succ_cons]

/-- The first pieces of a list. -/
def pieces (size : Nat) : Nat → List α → List (List α)
  | 0, _ => []
  | n + 1, data => data.take size :: pieces size n (data.drop size)

/-- What is behind the pieces does not matter. -/
theorem pieces_take {n m : Nat} (h : size * n ≤ m) (data : List α) :
    pieces size n (data.take m) = pieces size n data := by
  induction n generalizing m data with
  | zero => rfl
  | succ n ih =>
    rw [Nat.mul_succ] at h
    have hfirst : (data.take m).take size = data.take size := by
      rw [List.take_take, Nat.min_eq_left (Nat.le_of_add_left_le h)]
    have hrest : (data.take m).drop size = (data.drop size).take (m - size) := by
      rw [List.drop_take]
    rw [pieces, pieces, hfirst, hrest, ih (Nat.le_sub_of_add_le h)]

theorem Sized.pieces_flatten (h : Sized size l) {n : Nat} (hn : n ≤ l.length) :
    pieces size n l.flatten = l.take n := by
  induction l generalizing n with
  | nil =>
    have hzero : n = 0 := Nat.le_zero.mp hn
    rw [hzero]
    rfl
  | cons p l ih =>
    cases n with
    | zero => rfl
    | succ n =>
      have hp := h p List.mem_cons_self
      rw [pieces, List.flatten_cons, ← hp, List.take_left, List.drop_left, hp,
        ih h.tail (Nat.le_of_succ_le_succ hn), List.take_succ_cons]

end Rts2.Lib
