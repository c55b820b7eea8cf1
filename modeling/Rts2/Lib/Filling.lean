import Mathlib.Logic.Function.Basic
import Mathlib.Data.Int.Order.Basic

/-! # Buffers filled from outside

A buffer is filled piece by piece by something that hands over data, and a program
looks at what it holds. The trace keeps what was stored from outside, which places
were tested and where the program put its fill index. `Clean` says that nothing was
tested before it was filled and that the index never went back. -/
namespace Rts2.Lib

variable {B : Type}

inductive Access (B : Type) where
  | stored (i : Int) (b : B)
  | tested (i : Int)
  | index (i : Int)

/-- The contents of a buffer and its trace, the newest access first. -/
structure Filling (B : Type) where
  mem : Int → B
  trace : List (Access B)

/-- What was last stored from outside at a place. -/
def lastStored : List (Access B) → Int → Option B
  | [], _ => none
  | .stored j b :: t, i => if j = i then some b else lastStored t i
  | .tested _ :: t, i => lastStored t i
  | .index _ :: t, i => lastStored t i

/-- The places the fill index was put at. -/
def indices : List (Access B) → List Int
  | [] => []
  | .index i :: t => i :: indices t
  | .stored _ _ :: t => indices t
  | .tested _ :: t => indices t

/-- Every tested place was filled before, the fill index never goes back. -/
def Clean : List (Access B) → Prop
  | [] => True
  | .stored _ _ :: t => Clean t
  | .tested i :: t => (lastStored t i).isSome ∧ Clean t
  | .index i :: t => (∀ j ∈ indices t, j ≤ i) ∧ Clean t

instance Clean.decidable : ∀ t : List (Access B), Decidable (Clean t)
  | [] => inferInstanceAs (Decidable True)
  | .stored _ _ :: t => Clean.decidable t
  | .tested i :: t =>
    have := Clean.decidable t
    inferInstanceAs (Decidable ((lastStored t i).isSome = true ∧ Clean t))
  | .index i :: t =>
    have := Clean.decidable t
    inferInstanceAs (Decidable ((∀ j ∈ indices t, j ≤ i) ∧ Clean t))

namespace Filling

/-- Data from outside, stored from a place on. -/
def store (f : Filling B) (i : Int) : List B → Filling B
  | [] => f
  | b :: bs => store ⟨Function.update f.mem i b, .stored i b :: f.trace⟩ (i + 1) bs

/-- The program itself writes. -/
def put (f : Filling B) (i : Int) (b : B) : Filling B :=
  { f with mem := Function.update f.mem i b }

/-- The program looks at a place. -/
def test (f : Filling B) (i : Int) : Filling B := { f with trace := .tested i :: f.trace }

/-- The program moves its fill index. -/
def moveTo (f : Filling B) (i : Int) : Filling B := { f with trace := .index i :: f.trace }

/-- All places below `hi` hold what was last stored there from outside, and the fill
index was never above `top`. -/
structure Upto (f : Filling B) (top hi : Int) : Prop where
  clean : Clean f.trace
  index_le : ∀ j ∈ indices f.trace, j ≤ top
  backed : ∀ i, 0 ≤ i → i < hi → lastStored f.trace i = some (f.mem i)

variable {f : Filling B} {top hi : Int}

theorem Upto.filled (h : f.Upto top hi) {i : Int} (h0 : 0 ≤ i) (hi' : i < hi) :
    (lastStored f.trace i).isSome := by
  rw [h.backed i h0 hi']
  rfl

theorem Upto.store_one (h : f.Upto top hi) (b : B) :
    Upto ⟨Function.update f.mem hi b, .stored hi b :: f.trace⟩ top (hi + 1) := by
  refine ⟨h.clean, h.index_le, ?_⟩
  intro i h0 hlt
  by_cases he : hi = i
  · subst he
    simp [lastStored]
  · have hb := h.backed i h0 (by omega)
    simp only [lastStored, if_neg he, hb, Function.update_of_ne (Ne.symm he)]

/-- Storing just above what is filled extends it. -/
theorem Upto.store (h : f.Upto top hi) (bs : List B) :
    (f.store hi bs).Upto top (hi + bs.length) := by
  induction bs generalizing f hi with
  | nil => simpa [Filling.store] using h
  | cons b bs ih =>
    have hrest := ih (h.store_one b)
    have hlen : hi + ((b :: bs).length : Int) = hi + 1 + bs.length := by
      rw [List.length_cons]
      omega
    rw [hlen]
    exact hrest

/-- What the program writes above the filled part leaves it as it is. -/
theorem Upto.put (h : f.Upto top hi) {i : Int} (hle : hi ≤ i) (b : B) :
    (f.put i b).Upto top hi := by
  refine ⟨h.clean, h.index_le, ?_⟩
  intro j h0 hlt
  have hne : j ≠ i := by omega
  rw [show (f.put i b).mem j = f.mem j from Function.update_of_ne hne _ _]
  exact h.backed j h0 hlt

theorem Upto.test (h : f.Upto top hi) {i : Int} (h0 : 0 ≤ i) (hlt : i < hi) :
    (f.test i).Upto top hi :=
  ⟨⟨h.filled h0 hlt, h.clean⟩, h.index_le, h.backed⟩

theorem Upto.moveTo (h : f.Upto top hi) {i : Int} (hle : top ≤ i) :
    (f.moveTo i).Upto i hi := by
  refine ⟨⟨?_, h.clean⟩, ?_, h.backed⟩
  · intro j hj
    exact le_trans (h.index_le j hj) hle
  · intro j hj
    rcases List.mem_cons.mp hj with rfl | hj
    · exact le_rfl
    · exact le_trans (h.index_le j hj) hle

/-- Before anything is read. -/
theorem Upto.start (mem : Int → B) (i : Int) : Upto ⟨mem, []⟩ i 0 := by
  refine ⟨trivial, ?_, ?_⟩
  · intro j hj
    cases hj
  · intro j h0 hlt
    omega

end Filling

end Rts2.Lib
