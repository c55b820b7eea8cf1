import Mathlib.Data.List.Basic
import Mathlib.Order.Lattice
import Mathlib.Order.MinMax

/-! # Lists of intervals

A list of pairs stands for the union of the intervals from the first member to the
second, without its end. In an ordered list each interval ends before the next one
begins. -/
namespace Rts2.Lib

variable {α : Type*} [LinearOrder α] {i j : α × α} {is js : List (α × α)} {lo hi x : α}

/-- One of the intervals holds `x`. -/
def Covers (is : List (α × α)) (x : α) : Prop := ∃ i ∈ is, i.1 ≤ x ∧ x < i.2

/-- No interval ends before it begins, or after the next one begins. -/
def Ordered (is : List (α × α)) : Prop :=
  (∀ i ∈ is, i.1 ≤ i.2) ∧ is.Pairwise fun i j => i.2 ≤ j.1

/-- The intervals lie between `lo` and `hi`. -/
def Within (lo hi : α) (is : List (α × α)) : Prop := ∀ i ∈ is, lo ≤ i.1 ∧ i.2 ≤ hi

instance (is : List (α × α)) (x : α) : Decidable (Covers is x) :=
  inferInstanceAs (Decidable (∃ i ∈ is, _ ∧ _))

instance (is : List (α × α)) : Decidable (Ordered is) := inferInstanceAs (Decidable (_ ∧ _))

instance (lo hi : α) (is : List (α × α)) : Decidable (Within lo hi is) :=
  inferInstanceAs (Decidable (∀ i ∈ is, _ ∧ _))

@[simp] theorem covers_nil : ¬Covers ([] : List (α × α)) x := by
  rintro ⟨i, hi, -⟩
  cases hi

@[simp] theorem covers_cons : Covers (i :: is) x ↔ i.1 ≤ x ∧ x < i.2 ∨ Covers is x := by
  simp [Covers]

theorem covers_flatMap {β : Type*} {bs : List β} {f : β → List (α × α)} :
    Covers (bs.flatMap f) x ↔ ∃ b ∈ bs, Covers (f b) x := by
  constructor
  · rintro ⟨i, hi, hx⟩
    obtain ⟨b, hb, hib⟩ := List.mem_flatMap.mp hi
    exact ⟨b, hb, i, hib, hx⟩
  · rintro ⟨b, hb, i, hib, hx⟩
    exact ⟨i, List.mem_flatMap.mpr ⟨b, hb, hib⟩, hx⟩

@[simp] theorem ordered_nil : Ordered ([] : List (α × α)) := ⟨nofun, .nil⟩

@[simp] theorem ordered_cons :
    Ordered (i :: is) ↔ i.1 ≤ i.2 ∧ (∀ j ∈ is, i.2 ≤ j.1) ∧ Ordered is := by
  unfold Ordered
  rw [List.pairwise_cons]
  constructor
  · rintro ⟨hle, hnext, hrest⟩
    exact ⟨hle i (List.mem_cons_self ..), hnext, fun j hj => hle j (List.mem_cons_of_mem i hj), hrest⟩
  · rintro ⟨hle, hnext, hles, hrest⟩
    refine ⟨?_, hnext, hrest⟩
    intro j hj
    rcases List.mem_cons.mp hj with rfl | hj
    · exact hle
    · exact hles j hj

theorem Ordered.sublist (h : Ordered is) (hsub : js.Sublist is) : Ordered js :=
  ⟨fun j hj => h.1 j (hsub.subset hj), h.2.sublist hsub⟩

@[simp] theorem within_nil : Within lo hi ([] : List (α × α)) := nofun

@[simp] theorem within_cons :
    Within lo hi (i :: is) ↔ (lo ≤ i.1 ∧ i.2 ≤ hi) ∧ Within lo hi is :=
  List.forall_mem_cons

/-- Nothing outside is covered. -/
theorem Within.covers (h : Within lo hi is) (hx : Covers is x) : lo ≤ x ∧ x < hi := by
  obtain ⟨i, hi', hfrom, hto⟩ := hx
  exact ⟨(h i hi').1.trans hfrom, hto.trans_le (h i hi').2⟩

theorem Within.mono {lo' hi' : α} (h : Within lo hi is) (hlo : lo' ≤ lo) (hhi : hi ≤ hi') :
    Within lo' hi' is :=
  fun i hi => ⟨hlo.trans (h i hi).1, (h i hi).2.trans hhi⟩

/-- What each interval is replaced by stays in it, and the whole stays ordered. -/
theorem Ordered.flatMap {f : α × α → List (α × α)} (h : Ordered is)
    (hf : ∀ i ∈ is, Ordered (f i) ∧ Within i.1 i.2 (f i)) : Ordered (is.flatMap f) := by
  refine ⟨?_, ?_⟩
  · intro j hj
    obtain ⟨i, hi, hji⟩ := List.mem_flatMap.mp hj
    exact (hf i hi).1.1 j hji
  · rw [List.pairwise_flatMap]
    refine ⟨fun i hi => (hf i hi).1.2, ?_⟩
    refine h.2.imp_of_mem fun {i j} hi hj hij => ?_
    intro a ha b hb
    exact ((hf i hi).2 a ha).2.trans (hij.trans ((hf j hj).2 b hb).1)

end Rts2.Lib
