import Mathlib.Data.Nat.Init

/-! # Loops that are left

`while (1)` with a body that goes on with a new state, or leaves the loop with a result.
The loop may have no end: `Leaves` says that it is left, after so many turns as it takes. -/
namespace Rts2.Lib

variable {σ ρ : Type*} (turn : σ → σ ⊕ ρ)

/-- The result, when so many turns are enough. -/
def turns : Nat → σ → Option ρ
  | 0, _ => none
  | fuel + 1, s =>
    match turn s with
    | .inl s' => turns fuel s'
    | .inr r => some r

/-- The loop is left with a result. -/
def Leaves (s : σ) (r : ρ) : Prop := ∃ fuel, turns turn fuel s = some r

variable {turn} {s s' : σ} {r r' : ρ}

theorem turns_inr (h : turn s = .inr r) (fuel : Nat) : turns turn (fuel + 1) s = some r := by
  simp only [turns, h]

theorem turns_inl (h : turn s = .inl s') (fuel : Nat) :
    turns turn (fuel + 1) s = turns turn fuel s' := by
  simp only [turns, h]

theorem leaves_inr (h : turn s = .inr r) : Leaves turn s r' ↔ r' = r := by
  constructor
  · intro hleaves
    obtain ⟨fuel, hfuel⟩ := hleaves
    cases fuel with
    | zero => cases hfuel
    | succ fuel =>
      rw [turns_inr h] at hfuel
      exact (Option.some.inj hfuel).symm
  · intro heq
    exact ⟨1, heq ▸ turns_inr h 0⟩

theorem leaves_inl (h : turn s = .inl s') : Leaves turn s r ↔ Leaves turn s' r := by
  constructor
  · intro hleaves
    obtain ⟨fuel, hfuel⟩ := hleaves
    cases fuel with
    | zero => cases hfuel
    | succ fuel => exact ⟨fuel, (turns_inl h fuel).symm.trans hfuel⟩
  · intro hleaves
    obtain ⟨fuel, hfuel⟩ := hleaves
    exact ⟨fuel + 1, (turns_inl h fuel).trans hfuel⟩

/-- A measure that every turn makes smaller: as many turns as it has, and one more, are enough. -/
theorem exists_turns {I : σ → Prop} (measure : σ → Nat)
    (hturn : ∀ s s', I s → turn s = .inl s' → I s' ∧ measure s' < measure s) (hs : I s)
    {fuel : Nat} (hfuel : measure s < fuel) : ∃ r, turns turn fuel s = some r := by
  induction fuel generalizing s with
  | zero => exact absurd hfuel (Nat.not_lt_zero _)
  | succ fuel ih =>
    cases h : turn s with
    | inl s' =>
      obtain ⟨hs', hless⟩ := hturn s s' hs h
      rw [turns_inl h]
      exact ih hs' (Nat.lt_of_lt_of_le hless (Nat.le_of_lt_succ hfuel))
    | inr r => exact ⟨r, turns_inr h fuel⟩

/-- What the turns keep is true of the state the loop is left in. -/
theorem Leaves.invariant {I : σ → Prop} (h : Leaves turn s r) (hs : I s)
    (hturn : ∀ s s', I s → turn s = .inl s' → I s') : ∃ s', I s' ∧ turn s' = .inr r := by
  obtain ⟨fuel, hfuel⟩ := h
  induction fuel generalizing s with
  | zero => cases hfuel
  | succ fuel ih =>
    cases h : turn s with
    | inl s' =>
      rw [turns_inl h] at hfuel
      exact ih (hturn s s' hs h) hfuel
    | inr r' =>
      rw [turns_inr h] at hfuel
      exact ⟨s, hs, h.trans (congrArg Sum.inr (Option.some.inj hfuel))⟩

end Rts2.Lib
