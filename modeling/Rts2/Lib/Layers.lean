import Mathlib.Data.Finset.Lattice.Fold
import Mathlib.Data.Fintype.Card
import Mathlib.Data.Fintype.EquivFin
import Mathlib.Data.List.Chain
import Mathlib.Order.Bounds.Basic
import Mathlib.Order.Lattice.Nat
import Mathlib.Order.RelClasses

/-! # Layers of a relation

The elements that nothing comes before are the first layer; those that only elements of the first
layer come before are the second one, and so on. The number of an element's layer is the length of
the longest chain that ends below it. -/
namespace Rts2.Lib

variable {α : Type*} {r : α → α → Prop} {rank : α → ℕ}

/-- Every element lies above all that come before it, and just above one of these. -/
structure IsRank (r : α → α → Prop) (rank : α → ℕ) : Prop where
  lt : ∀ p q, r p q → rank p < rank q
  step : ∀ q, 0 < rank q → ∃ p, r p q ∧ rank p + 1 = rank q

/-- A list in which every element comes before the one it stands behind: `q`, one before `q`, one
before that, and so on. -/
abbrev Descends (r : α → α → Prop) (q : α) (l : List α) : Prop :=
  List.IsChain (fun a b => r b a) (q :: l)

theorem IsRank.exists_descends (h : IsRank r rank) (q : α) :
    ∃ l, Descends r q l ∧ l.length = rank q := by
  induction hn : rank q generalizing q with
  | zero => exact ⟨[], List.isChain_singleton q, rfl⟩
  | succ n ih =>
    obtain ⟨p, hpq, hp⟩ := h.step q (by omega)
    obtain ⟨l, hl, hlen⟩ := ih p (by omega)
    exact ⟨p :: l, List.isChain_cons_cons.mpr ⟨hpq, hl⟩, by rw [List.length_cons, hlen]⟩

theorem IsRank.length_le (h : IsRank r rank) {q : α} {l : List α} (hl : Descends r q l) :
    l.length ≤ rank q := by
  induction l generalizing q with
  | nil => exact Nat.zero_le _
  | cons p l ih =>
    obtain ⟨hpq, hrest⟩ := List.isChain_cons_cons.mp hl
    have hp := ih hrest
    have hlt := h.lt p q hpq
    rw [List.length_cons]
    omega

/-- A rank is the length of the longest chain below. -/
theorem IsRank.isGreatest (h : IsRank r rank) (q : α) :
    IsGreatest {n | ∃ l, Descends r q l ∧ l.length = n} (rank q) := by
  refine ⟨h.exists_descends q, ?_⟩
  rintro n ⟨l, hl, rfl⟩
  exact h.length_le hl

/-- Below an element every smaller rank occurs. -/
theorem IsRank.below (h : IsRank r rank) (htrans : ∀ a b c, r a b → r b c → r a c) {q : α} {k : ℕ}
    (hk : k < rank q) : ∃ p, r p q ∧ rank p = k := by
  induction hn : rank q - k generalizing q with
  | zero => omega
  | succ n ih =>
    obtain ⟨p, hpq, hp⟩ := h.step q (by omega)
    rcases Nat.lt_or_ge k (rank p) with hlt | hge
    · obtain ⟨x, hxp, hx⟩ := ih hlt (by omega)
      exact ⟨x, htrans x p q hxp hpq, hx⟩
    · exact ⟨p, hpq, by omega⟩

/-- Any two elements are comparable if and only if no two have one rank. -/
theorem IsRank.injective_iff (h : IsRank r rank) (htrans : ∀ a b c, r a b → r b c → r a c) :
    Function.Injective rank ↔ ∀ p q, p ≠ q → r p q ∨ r q p := by
  constructor
  · intro hinj p q hne
    rcases Nat.lt_or_gt_of_ne fun heq => hne (hinj heq) with hlt | hlt
    · obtain ⟨x, hxq, hx⟩ := h.below htrans hlt
      exact .inl (hinj hx ▸ hxq)
    · obtain ⟨x, hxp, hx⟩ := h.below htrans hlt
      exact .inr (hinj hx ▸ hxp)
  · intro htotal p q heq
    by_contra hne
    rcases htotal p q hne with hpq | hqp
    · have := h.lt p q hpq
      omega
    · have := h.lt q p hqp
      omega

/-- Among the numbers below that of the elements every one is a rank if and only if no two elements
have one rank. -/
theorem IsRank.forall_lt_card_iff [Fintype α] (h : IsRank r rank)
    (htrans : ∀ a b c, r a b → r b c → r a c) :
    (∀ k < Fintype.card α, ∃ q, rank q = k) ↔ Function.Injective rank := by
  constructor
  · intro hall
    choose elem helem using fun k : Fin (Fintype.card α) => hall k.1 k.2
    have hinj : Function.Injective elem := fun a b hab => by
      rw [Fin.ext_iff, ← helem a, ← helem b, hab]
    have hsurj : Function.Surjective elem :=
      ((Fintype.bijective_iff_injective_and_card elem).mpr ⟨hinj, Fintype.card_fin _⟩).2
    intro p q heq
    obtain ⟨a, rfl⟩ := hsurj p
    obtain ⟨b, rfl⟩ := hsurj q
    rw [helem, helem] at heq
    rw [Fin.ext heq]
  · intro hinj k hk
    by_contra hmiss
    have hbelow : ∀ q, rank q < k := by
      intro q
      by_contra hge
      rcases Nat.lt_or_ge k (rank q) with hlt | hle
      · obtain ⟨p, -, hp⟩ := h.below htrans hlt
        exact hmiss ⟨p, hp⟩
      · exact hmiss ⟨q, by omega⟩
    have hcard := Fintype.card_le_of_injective (fun q => (⟨rank q, hbelow q⟩ : Fin k))
      fun p q heq => hinj (Fin.ext_iff.mp heq)
    rw [Fintype.card_fin] at hcard
    omega

/-! ## The rank of a strict order -/

section Layer
variable [Fintype α] [DecidableRel r]

/-- The number of an element's layer. -/
def layer (hwf : WellFounded r) : α → ℕ :=
  hwf.fix fun q below => (Finset.univ.filter (r · q)).attach.sup fun p =>
    below p.1 (Finset.mem_filter.mp p.2).2 + 1

theorem layer_eq (hwf : WellFounded r) (q : α) :
    layer hwf q = (Finset.univ.filter (r · q)).sup fun p => layer hwf p + 1 := by
  rw [layer, WellFounded.fix_eq]
  exact Finset.sup_attach _ fun p => layer hwf p + 1

theorem layer_isRank (hwf : WellFounded r) : IsRank r (layer hwf) where
  lt p q hpq := by
    have hmem : p ∈ Finset.univ.filter (r · q) := Finset.mem_filter.mpr ⟨Finset.mem_univ p, hpq⟩
    rw [layer_eq hwf q]
    exact Finset.le_sup (f := fun p => layer hwf p + 1) hmem
  step q hq := by
    rw [layer_eq] at hq ⊢
    obtain hempty | hne := (Finset.univ.filter (r · q)).eq_empty_or_nonempty
    · rw [hempty] at hq
      exact absurd hq (lt_irrefl 0)
    · obtain ⟨p, hp, heq⟩ := Finset.exists_mem_eq_sup _ hne fun p => layer hwf p + 1
      exact ⟨p, (Finset.mem_filter.mp hp).2, heq.symm⟩

end Layer

/-! ## Counting down -/

variable [DecidableEq α]

/-- Every target takes one from its counter; an element whose counter becomes zero is put out. -/
def countDown (s : (α → ℤ) × List α) (q : α) : (α → ℤ) × List α :=
  (Function.update s.1 q (s.1 q - 1), if s.1 q - 1 = 0 then s.2 ++ [q] else s.2)

/-- The counters, and who was put out: those whose counter was met in time. -/
theorem countDown_foldl (c : α → ℤ) (targets : List α) :
    (∀ q, (targets.foldl countDown (c, [])).1 q = c q - targets.count q) ∧
      (targets.foldl countDown (c, [])).2.Nodup ∧
      ∀ q, q ∈ (targets.foldl countDown (c, [])).2 ↔ 1 ≤ c q ∧ c q ≤ targets.count q := by
  induction targets using List.reverseRecOn with
  | nil =>
    refine ⟨fun q => by simp, List.nodup_nil, fun q => ?_⟩
    simp only [List.foldl_nil, List.not_mem_nil, List.count_nil, false_iff]
    omega
  | append_singleton targets t ih =>
    obtain ⟨hcount, hnodup, hmem⟩ := ih
    rw [List.foldl_append, List.foldl_cons, List.foldl_nil]
    have hout : ∀ q, (q ∈ (countDown (targets.foldl countDown (c, [])) t).2 ↔
        q ∈ (targets.foldl countDown (c, [])).2 ∨ (q = t ∧ c t = targets.count t + 1)) := by
      intro q
      simp only [countDown, hcount]
      split
      · next hzero =>
        have hzero' : c t = targets.count t + 1 := by omega
        simp only [List.mem_append, List.mem_singleton, hzero', and_true]
      · next hzero =>
        have hzero' : c t ≠ targets.count t + 1 := by omega
        simp only [hzero', and_false, or_false]
    refine ⟨fun q => ?_, ?_, fun q => ?_⟩
    · by_cases hq : q = t
      · subst hq
        simp only [countDown, Function.update_self, hcount, List.count_append, List.count_singleton_self]
        omega
      · simp only [countDown, Function.update_of_ne hq, hcount, List.count_append]
        rw [List.count_eq_zero_of_not_mem (show q ∉ [t] by simpa using hq)]
        omega
    · simp only [countDown, hcount]
      split
      · next hzero =>
        refine List.nodup_append.mpr ⟨hnodup, List.nodup_singleton t, fun a ha b hb => ?_⟩
        rintro rfl
        obtain rfl := List.mem_singleton.mp hb
        have := ((hmem a).mp ha).2
        omega
      · exact hnodup
    · rw [hout, hmem, List.count_append]
      by_cases hq : q = t
      · subst hq
        simp only [true_and, List.count_singleton_self]
        omega
      · rw [List.count_eq_zero_of_not_mem (show q ∉ [t] by simpa using hq)]
        simp [hq]

theorem count_flatMap_eq_countP {targets : α → List α} (hnodup : ∀ p, (targets p).Nodup)
    (front : List α) (q : α) :
    (front.flatMap targets).count q = front.countP fun p => decide (q ∈ targets p) := by
  induction front with
  | nil => rfl
  | cons p front ih =>
    rw [List.flatMap_cons, List.count_append, ih, List.countP_cons, List.Nodup.count (hnodup p)]
    by_cases hq : q ∈ targets p <;> simp [hq, Nat.add_comm]

section Peel
variable [Fintype α] [DecidableRel r]

/-- How many elements from a layer on come before an element. -/
def pending (r : α → α → Prop) [DecidableRel r] (rank : α → ℕ) (i : ℕ) (q : α) : ℤ :=
  (Finset.univ.filter fun p => r p q ∧ i ≤ rank p).card

theorem pending_succ (rank : α → ℕ) (i : ℕ) (q : α) :
    pending r rank i q = pending r rank (i + 1) q +
      (Finset.univ.filter fun p => r p q ∧ rank p = i).card := by
  have hsplit : (Finset.univ.filter fun p => r p q ∧ i ≤ rank p) =
      (Finset.univ.filter fun p => r p q ∧ i + 1 ≤ rank p) ∪
        Finset.univ.filter fun p => r p q ∧ rank p = i := by
    ext p
    simp only [Finset.mem_filter, Finset.mem_univ, true_and, Finset.mem_union, ← and_or_left]
    exact and_congr_right fun _ => by omega
  have hdisj : Disjoint (Finset.univ.filter fun p => r p q ∧ i + 1 ≤ rank p)
      (Finset.univ.filter fun p => r p q ∧ rank p = i) := by
    rw [Finset.disjoint_filter]
    intro p _ hp hp'
    omega
  rw [pending, hsplit, Finset.card_union_of_disjoint hdisj, pending]
  omega

omit [DecidableEq α] in
/-- No element from a layer on comes before those up to this layer. -/
theorem IsRank.pending_eq_zero_iff (h : IsRank r rank) (i : ℕ) (q : α) :
    pending r rank i q = 0 ↔ rank q ≤ i := by
  rw [pending, Int.natCast_eq_zero, Finset.card_eq_zero, Finset.filter_eq_empty_iff]
  constructor
  · intro hnone
    by_contra hgt
    obtain ⟨p, hpq, hp⟩ := h.step q (by omega)
    exact hnone (Finset.mem_univ p) ⟨hpq, by omega⟩
  · intro hle p _ hp
    have := h.lt p q hp.1
    omega

/-- Counting down from a layer leaves the counters of the next one, and puts the next layer out. -/
theorem IsRank.peel (h : IsRank r rank) {targets : α → List α}
    (hmem : ∀ p q, q ∈ targets p ↔ r p q) (hnodup : ∀ p, (targets p).Nodup) {i : ℕ} {front : List α}
    (hfront : front.Nodup) (hi : ∀ q, q ∈ front ↔ rank q = i) :
    (∀ q, ((front.flatMap targets).foldl countDown (pending r rank i, [])).1 q =
        pending r rank (i + 1) q) ∧
      ((front.flatMap targets).foldl countDown (pending r rank i, [])).2.Nodup ∧
      ∀ q, q ∈ ((front.flatMap targets).foldl countDown (pending r rank i, [])).2 ↔
        rank q = i + 1 := by
  obtain ⟨hcount, hnext, hout⟩ := countDown_foldl (pending r rank i) (front.flatMap targets)
  have hmet : ∀ q, (front.flatMap targets).count q =
      (Finset.univ.filter fun p => r p q ∧ rank p = i).card := by
    intro q
    have hset : (Finset.univ.filter fun p => r p q ∧ rank p = i) =
        (front.filter fun p => decide (q ∈ targets p)).toFinset := by
      ext p
      simp only [Finset.mem_filter, Finset.mem_univ, true_and, List.mem_toFinset, List.mem_filter,
        decide_eq_true_eq, hmem, hi, and_comm]
    rw [count_flatMap_eq_countP hnodup, List.countP_eq_length_filter, hset,
      List.toFinset_card_of_nodup (hfront.filter _)]
  refine ⟨fun q => ?_, hnext, fun q => ?_⟩
  · have := pending_succ (r := r) rank i q
    rw [hcount, hmet]
    omega
  · -- put out is what something of this layer comes before, and nothing of a later one
    have hsucc := pending_succ (r := r) rank i q
    have hnow := h.pending_eq_zero_iff i q
    have hlater := h.pending_eq_zero_iff (i + 1) q
    have hpos : 0 ≤ pending r rank (i + 1) q := Int.natCast_nonneg _
    rw [hout, hmet]
    omega

end Peel

end Rts2.Lib
