import Rts2.Lib.Intervals

/-! # What an ordered list of intervals leaves

The gaps between the intervals of a list, from a point on and up to another one. -/
namespace Rts2.Lib

variable {α : Type*} [LinearOrder α]

/-- The gaps from a point up to `hi`. -/
def gaps (hi : α) : α → List (α × α) → List (α × α)
  | lo, [] => if lo < hi then [(lo, hi)] else []
  | lo, i :: is => if lo < i.1 then (lo, i.1) :: gaps hi i.2 is else gaps hi i.2 is

/-- No interval is empty. -/
def Proper (is : List (α × α)) : Prop := ∀ i ∈ is, i.1 < i.2

/-- Intervals that do not touch. -/
def Apart (is : List (α × α)) : Prop := is.Pairwise fun i j => i.2 < j.1

/-- The intervals begin between `lo` and `hi`. -/
def Begins (lo hi : α) (is : List (α × α)) : Prop := ∀ i ∈ is, lo ≤ i.1 ∧ i.1 ≤ hi

instance (is : List (α × α)) : Decidable (Proper is) :=
  inferInstanceAs (Decidable (∀ i ∈ is, _))

variable {i : α × α} {is : List (α × α)} {lo hi x : α}

theorem Within.begins (h : Within lo hi is) (hordered : Ordered is) : Begins lo hi is :=
  fun i hi => ⟨(h i hi).1, (hordered.1 i hi).trans (h i hi).2⟩

/-- Those behind the first one begin behind its end. -/
theorem Begins.rest (h : Begins lo hi (i :: is)) (hordered : Ordered (i :: is)) : Begins i.2 hi is :=
  fun j hj => ⟨(ordered_cons.mp hordered).2.1 j hj, (h j (List.mem_cons_of_mem i hj)).2⟩

theorem gaps_cons_of_lt (h : lo < i.1) : gaps hi lo (i :: is) = (lo, i.1) :: gaps hi i.2 is := if_pos h

theorem gaps_cons_of_le (h : i.1 ≤ lo) : gaps hi lo (i :: is) = gaps hi i.2 is := if_neg (not_lt.mpr h)

theorem gaps_within (hordered : Ordered is) (hbegins : Begins lo hi is) : Within lo hi (gaps hi lo is) := by
  induction is generalizing lo with
  | nil =>
    unfold gaps
    split
    · exact within_cons.mpr ⟨⟨le_refl _, le_refl _⟩, within_nil⟩
    · exact within_nil
  | cons i is ih =>
    obtain ⟨hle, -, hrest⟩ := ordered_cons.mp hordered
    obtain ⟨hlo, hhi⟩ := hbegins i List.mem_cons_self
    have hlater := (ih hrest (hbegins.rest hordered)).mono (hlo.trans hle) (le_refl hi)
    by_cases hlt : lo < i.1
    · rw [gaps_cons_of_lt hlt]
      exact within_cons.mpr ⟨⟨le_refl _, hhi⟩, hlater⟩
    · rw [gaps_cons_of_le (not_lt.mp hlt)]
      exact hlater

theorem gaps_proper (hi lo : α) (is : List (α × α)) : Proper (gaps hi lo is) := by
  induction is generalizing lo with
  | nil =>
    unfold gaps
    split
    · rename_i hlt
      exact List.forall_mem_singleton.mpr hlt
    · exact fun i hi => absurd hi List.not_mem_nil
  | cons i is ih =>
    by_cases hlt : lo < i.1
    · rw [gaps_cons_of_lt hlt]
      exact List.forall_mem_cons.mpr ⟨hlt, ih i.2⟩
    · rw [gaps_cons_of_le (not_lt.mp hlt)]
      exact ih i.2

theorem gaps_ordered (hordered : Ordered is) (hbegins : Begins lo hi is) : Ordered (gaps hi lo is) := by
  induction is generalizing lo with
  | nil =>
    unfold gaps
    split
    · rename_i hlt
      exact ordered_cons.mpr ⟨hlt.le, fun j hj => absurd hj List.not_mem_nil, ordered_nil⟩
    · exact ordered_nil
  | cons i is ih =>
    obtain ⟨hle, -, hrest⟩ := ordered_cons.mp hordered
    have hbegins' := hbegins.rest hordered
    by_cases hlt : lo < i.1
    · rw [gaps_cons_of_lt hlt]
      refine ordered_cons.mpr ⟨hlt.le, fun j hj => ?_, ih hrest hbegins'⟩
      exact hle.trans (gaps_within hrest hbegins' j hj).1
    · rw [gaps_cons_of_le (not_lt.mp hlt)]
      exact ih hrest hbegins'

/-- Gaps do not touch, if no interval between them is empty. -/
theorem gaps_apart (hordered : Ordered is) (hbegins : Begins lo hi is) (hproper : Proper is) :
    Apart (gaps hi lo is) := by
  induction is generalizing lo with
  | nil =>
    unfold gaps
    split
    · exact List.pairwise_singleton _ _
    · exact List.Pairwise.nil
  | cons i is ih =>
    obtain ⟨-, -, hrest⟩ := ordered_cons.mp hordered
    obtain ⟨hi, hproper'⟩ := List.forall_mem_cons.mp hproper
    have hbegins' := hbegins.rest hordered
    by_cases hlt : lo < i.1
    · rw [gaps_cons_of_lt hlt]
      refine List.pairwise_cons.mpr ⟨fun j hj => ?_, ih hrest hbegins' hproper'⟩
      exact hi.trans_le (gaps_within hrest hbegins' j hj).1
    · rw [gaps_cons_of_le (not_lt.mp hlt)]
      exact ih hrest hbegins' hproper'

/-- The gaps cover what the intervals do not. -/
theorem gaps_covers (hordered : Ordered is) (hbegins : Begins lo hi is) :
    Covers (gaps hi lo is) x ↔ (lo ≤ x ∧ x < hi) ∧ ¬Covers is x := by
  induction is generalizing lo with
  | nil =>
    unfold gaps
    split
    · simp
    · rename_i hpast
      refine iff_of_false covers_nil fun h => ?_
      exact hpast (h.1.1.trans_lt h.1.2)
  | cons i is ih =>
    obtain ⟨hle, hnext, hrest⟩ := ordered_cons.mp hordered
    obtain ⟨hlo, hhi⟩ := hbegins i List.mem_cons_self
    have hlater := ih hrest (hbegins.rest hordered)
    -- nothing behind the first interval covers what is before its end
    have hbehind : x < i.2 → ¬Covers is x := by
      intro hx hcovers
      obtain ⟨j, hj, hjx⟩ := hcovers
      exact absurd (((hnext j hj).trans hjx.1).trans_lt hx) (lt_irrefl _)
    have hgap : Covers (gaps hi lo (i :: is)) x ↔ (lo ≤ x ∧ x < i.1) ∨ Covers (gaps hi i.2 is) x := by
      by_cases hlt : lo < i.1
      · rw [gaps_cons_of_lt hlt, covers_cons]
      · rw [gaps_cons_of_le (not_lt.mp hlt)]
        refine (or_iff_right fun h => ?_).symm
        exact hlt (h.1.trans_lt h.2)
    rw [hgap, hlater, covers_cons]
    constructor
    · intro h
      rcases h with ⟨hlox, hxi⟩ | ⟨⟨hix, hxhi⟩, hnot⟩
      · refine ⟨⟨hlox, hxi.trans_le hhi⟩, fun hcovers => ?_⟩
        rcases hcovers with hin | hcovers
        · exact absurd hxi (not_lt.mpr hin.1)
        · exact hbehind (hxi.trans_le hle) hcovers
      · refine ⟨⟨hlo.trans (hle.trans hix), hxhi⟩, fun hcovers => ?_⟩
        rcases hcovers with hin | hcovers
        · exact absurd hin.2 (not_lt.mpr hix)
        · exact hnot hcovers
    · intro h
      obtain ⟨⟨hlox, hxhi⟩, hnot⟩ := h
      by_cases hxi : x < i.1
      · exact .inl ⟨hlox, hxi⟩
      · refine .inr ⟨⟨?_, hxhi⟩, fun hcovers => hnot (.inr hcovers)⟩
        exact not_lt.mp fun hx => hnot (.inl ⟨not_lt.mp hxi, hx⟩)

end Rts2.Lib
