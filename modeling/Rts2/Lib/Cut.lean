import Mathlib.Data.List.TakeWhile

/-! # Cutting a list

A list is cut where a predicate first fails: `takeWhile` is what stands before the cut and
`dropWhile` what stands behind it. -/
namespace Rts2.Lib

theorem cut {α : Type} {p : α → Bool} {w rest : List α} (hw : ∀ c ∈ w, p c = true)
    (hrest : ∀ c ∈ rest.head?, p c = false) :
    (w ++ rest).takeWhile p = w ∧ (w ++ rest).dropWhile p = rest := by
  rw [List.takeWhile_append_of_pos hw, List.dropWhile_append_of_pos hw]
  cases rest with
  | nil => simp
  | cons c rest =>
    have hc := hrest c rfl
    simp [hc]

/-- Up to the first of an element. -/
theorem cut_char {α : Type} [DecidableEq α] (q : α) {w : List α} (hw : q ∉ w) (rest : List α) :
    (w ++ q :: rest).takeWhile (· ≠ q) = w ∧ (w ++ q :: rest).dropWhile (· ≠ q) = q :: rest := by
  have hall : ∀ c ∈ w, decide (c ≠ q) = true := fun c hc =>
    decide_eq_true fun h : c = q => hw (h ▸ hc)
  have hstop : ∀ c ∈ (q :: rest).head?, decide (c ≠ q) = false := by simp
  exact cut hall hstop

theorem cut_exists {α : Type} (p : α → Bool) (s : List α) :
    ∃ w rest, s = w ++ rest ∧ (∀ c ∈ w, p c = true) ∧ ∀ c ∈ rest.head?, p c = false := by
  refine ⟨s.takeWhile p, s.dropWhile p, List.takeWhile_append_dropWhile.symm,
    fun c hc => List.mem_takeWhile_imp hc, ?_⟩
  have hhead := List.head?_dropWhile_not p s
  intro c hc
  rw [hc] at hhead
  simpa using hhead

end Rts2.Lib
