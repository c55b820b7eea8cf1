import Mathlib.Data.List.Basic

/-! # Thinned lists

A list is thinned when elements leave it, each for a reason that may look at the
element and at those behind it. Who stays, stays once and in place. -/
namespace Rts2.Lib

variable {α : Type} {P Q : List α → α → Prop} {l k m : List α}

/-- `k` is what is left of `l`, where `P later a` lets `a` go before `later`. -/
inductive Thinned (P : List α → α → Prop) : List α → List α → Prop where
  | nil : Thinned P [] []
  | keep (a : α) {l k : List α} (h : Thinned P l k) : Thinned P (a :: l) (a :: k)
  | drop (a : α) {l k : List α} (hP : P l a) (h : Thinned P l k) : Thinned P (a :: l) k

namespace Thinned

theorem refl (P : List α → α → Prop) (l : List α) : Thinned P l l := by
  induction l with
  | nil => exact nil
  | cons a l ih => exact keep a ih

theorem sublist (h : Thinned P l k) : k.Sublist l := by
  induction h with
  | nil => exact List.Sublist.refl _
  | keep a h ih => exact ih.cons_cons a
  | drop a hP h ih => exact ih.cons a

theorem mono (h : Thinned P l k) (hPQ : ∀ later a, P later a → Q later a) : Thinned Q l k := by
  induction h with
  | nil => exact nil
  | keep a h ih => exact keep a ih
  | drop a hP h ih => exact drop a (hPQ _ _ hP) ih

/-- Thinning twice, where the second reason does not mind the elements that have
left behind it. -/
theorem trans (h : Thinned P l k) (h' : Thinned Q k m)
    (hQ : ∀ later later' a, later'.Sublist later → Q later' a → P later a) : Thinned P l m := by
  induction h generalizing m with
  | nil =>
    cases h'
    exact nil
  | keep a h ih =>
    cases h' with
    | keep _ h' => exact keep a (ih h')
    | drop _ hq h' => exact drop a (hQ _ _ a h.sublist hq) (ih h')
  | drop a hP h ih => exact drop a hP (ih h')

theorem append (h : Thinned P l k) {l' k' : List α} (h' : Thinned P l' k')
    (hP : ∀ later later' a, later'.Sublist later → P later' a → P later a) :
    Thinned P (l ++ l') (k ++ k') := by
  induction h with
  | nil => exact h'
  | keep a h ih => exact keep a ih
  | drop a ha h ih => exact drop a (hP _ _ a (List.sublist_append_left ..) ha) ih

theorem filter {p : α → Bool} (l : List α) (hp : ∀ later, ∀ a ∈ l, p a = false → P later a) :
    Thinned P l (l.filter p) := by
  induction l with
  | nil => exact nil
  | cons a l ih =>
    have hrest := ih fun later b hb => hp later b (List.mem_cons_of_mem _ hb)
    by_cases ha : p a = true
    · rw [List.filter_cons_of_pos ha]
      exact keep a hrest
    · rw [List.filter_cons_of_neg ha]
      exact drop a (hp l a (List.mem_cons_self ..) (by simpa using ha)) hrest

end Thinned
end Rts2.Lib
