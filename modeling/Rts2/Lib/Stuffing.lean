import Mathlib.Data.List.Count

/-! # Doubled flags

A text in which every flag stands twice, so that a single flag can mark the beginning
of a frame. -/
namespace Rts2.Lib

variable {α : Type} [DecidableEq α] {flag : α}

/-- The text with every flag doubled. -/
def stuff (flag : α) : List α → List α
  | [] => []
  | b :: bs => if b = flag then b :: b :: stuff flag bs else b :: stuff flag bs

@[simp] theorem stuff_nil (flag : α) : stuff flag [] = [] := rfl

theorem stuff_flag (flag : α) (bs : List α) :
    stuff flag (flag :: bs) = flag :: flag :: stuff flag bs := if_pos rfl

theorem stuff_other {b : α} (h : b ≠ flag) (bs : List α) :
    stuff flag (b :: bs) = b :: stuff flag bs := if_neg h

theorem stuff_append (flag : α) (as bs : List α) :
    stuff flag (as ++ bs) = stuff flag as ++ stuff flag bs := by
  induction as with
  | nil => rfl
  | cons a as ih =>
    by_cases h : a = flag
    · subst h
      rw [List.cons_append, stuff_flag, stuff_flag, ih]
      rfl
    · rw [List.cons_append, stuff_other h, stuff_other h, ih]
      rfl

theorem length_stuff (flag : α) (bs : List α) :
    (stuff flag bs).length = bs.length + bs.count flag := by
  induction bs with
  | nil => rfl
  | cons b bs ih =>
    by_cases h : b = flag
    · subst h
      rw [stuff_flag, List.count_cons_self, List.length_cons, List.length_cons, ih,
        List.length_cons]
      omega
    · rw [stuff_other h, List.count_cons_of_ne h, List.length_cons, ih, List.length_cons]
      omega

theorem length_le_stuff (flag : α) (bs : List α) : bs.length ≤ (stuff flag bs).length := by
  rw [length_stuff]
  exact Nat.le_add_right _ _

theorem length_stuff_le (flag : α) (bs : List α) :
    (stuff flag bs).length ≤ 2 * bs.length := by
  have hcount : bs.count flag ≤ bs.length := List.count_le_length
  rw [length_stuff]
  omega

/-- A text without flags is as it was. -/
theorem stuff_plain {bs : List α} (h : flag ∉ bs) : stuff flag bs = bs := by
  induction bs with
  | nil => rfl
  | cons b bs ih =>
    have hb : b ≠ flag := fun he => h (List.mem_cons.mpr (Or.inl he.symm))
    rw [stuff_other hb, ih fun hm => h (List.mem_cons_of_mem b hm)]

/-- With its ends as they are the text is right just when they have no flags. -/
theorem stuff_middle (flag : α) (pre mid post : List α) :
    pre ++ stuff flag mid ++ post = stuff flag (pre ++ mid ++ post) ↔
      flag ∉ pre ∧ flag ∉ post := by
  rw [stuff_append, stuff_append]
  constructor
  · intro h
    have hlen := congrArg List.length h
    simp only [List.length_append, length_stuff] at hlen
    exact ⟨List.count_eq_zero.mp (by omega), List.count_eq_zero.mp (by omega)⟩
  · intro h
    rw [stuff_plain h.1, stuff_plain h.2]

/-- A text of two or more that ends in a flag ends in two. -/
theorem stuff_ends {bs init : List α} {x : α} (h : stuff flag bs = init ++ [x, flag]) :
    x = flag := by
  rcases List.eq_nil_or_concat bs with rfl | ⟨bs, b, rfl⟩
  · exact absurd h.symm (by simp)
  · rw [List.concat_eq_append, stuff_append] at h
    by_cases hb : b = flag
    · subst hb
      rw [stuff_flag, stuff_nil] at h
      have hlast := List.append_inj_right' h rfl
      exact (List.cons.inj hlast).1.symm
    · rw [stuff_other hb, stuff_nil] at h
      have hsplit : init ++ [x, flag] = (init ++ [x]) ++ [flag] := by simp
      rw [hsplit] at h
      have hlast := List.append_inj_right' h rfl
      exact absurd (List.cons.inj hlast).1 hb

end Rts2.Lib
