import Mathlib.Order.Lattice
import Mathlib.Order.RelClasses

/-! # Strict weak orders

What a sort needs of its comparison: to be irreflexive, transitive, and with a transitive relation of
those that neither comes before. Comparisons by a key are such orders. A comparison that is switched by a
test on both arguments is one if what stands between two that pass the test does not turn them around. -/
namespace Rts2.Lib.WeakOrder

variable {α : Type*}

section
variable {r : α → α → Prop}

theorem of_negTrans (hasymm : ∀ a b, r a b → ¬ r b a) (hneg : ∀ a b c, r a c → r a b ∨ r b c) :
    IsStrictWeakOrder α r where
  irrefl a h := hasymm a a h h
  trans a b c hab hbc := (hneg a c b hab).resolve_right (hasymm b c hbc)
  incomp_trans a b c hab hbc :=
    ⟨fun h => (hneg a b c h).elim hab.1 hbc.1, fun h => (hneg c b a h).elim hbc.2 hab.2⟩

theorem of_key {β : Type*} [LinearOrder β] (key : α → β) :
    IsStrictWeakOrder α fun a b => key a < key b := by
  refine of_negTrans (fun a b hab => hab.asymm) fun a b c hac => ?_
  rcases lt_or_ge (key a) (key b) with hab | hba
  · exact .inl hab
  · exact .inr (hba.trans_lt hac)

theorem of_key_desc {β : Type*} [LinearOrder β] (key : α → β) :
    IsStrictWeakOrder α fun a b => key b < key a :=
  of_key fun a => OrderDual.toDual (key a)

theorem asymm_of (h : IsStrictWeakOrder α r) {a b : α} (hab : r a b) : ¬ r b a := fun hba =>
  h.irrefl a (h.trans a b a hab hba)

/-- Of two that are ordered one is ordered with any third. -/
theorem negTrans_of (h : IsStrictWeakOrder α r) (a b c : α) (hac : r a c) : r a b ∨ r b c := by
  by_contra hnone
  obtain ⟨hab, hbc⟩ := not_or.mp hnone
  have hba : ¬ r b a := fun hba => hbc (h.trans b a c hba hac)
  have hcb : ¬ r c b := fun hcb => hab (h.trans a c b hac hcb)
  exact (h.incomp_trans a b c ⟨hab, hba⟩ ⟨hbc, hcb⟩).1 hac

end

section
variable (E : α → Prop) (q r : α → α → Prop)

/-- `q` for two that pass the test, `r` for all others. -/
def Switched (a b : α) : Prop := E a ∧ E b ∧ q a b ∨ ¬ (E a ∧ E b) ∧ r a b

variable {E q r} {a b : α}

theorem switched_both (ha : E a) (hb : E b) : Switched E q r a b ↔ q a b := by
  constructor
  · rintro (⟨-, -, h⟩ | ⟨hnot, -⟩)
    · exact h
    · exact absurd ⟨ha, hb⟩ hnot
  · exact fun h => .inl ⟨ha, hb, h⟩

theorem switched_not (hnot : ¬ (E a ∧ E b)) : Switched E q r a b ↔ r a b := by
  constructor
  · rintro (⟨ha, hb, -⟩ | ⟨-, h⟩)
    · exact absurd ⟨ha, hb⟩ hnot
    · exact h
  · exact fun h => .inr ⟨hnot, h⟩

/-- A switched comparison is a strict weak order if and only if two that pass the test, with one between
them that does not, are ordered as they stand around it. -/
theorem switched_iff (hq : IsStrictWeakOrder α q) (hr : IsStrictWeakOrder α r)
    (hapart : ∀ a w, E a → ¬ E w → r a w ∨ r w a) : IsStrictWeakOrder α (Switched E q r) ↔
      ∀ a b w, E a → E b → ¬ E w → r a w → r w b → q a b := by
  constructor
  · intro h a b w ha hb hw haw hwb
    have hleft : Switched E q r a w := (switched_not fun hboth => hw hboth.2).mpr haw
    have hright : Switched E q r w b := (switched_not fun hboth => hw hboth.1).mpr hwb
    exact (switched_both ha hb).mp (h.trans a w b hleft hright)
  · intro h
    refine of_negTrans (fun a b hab hba => ?_) fun a b c hac => ?_
    · by_cases hboth : E a ∧ E b
      · rw [switched_both hboth.1 hboth.2] at hab
        rw [switched_both hboth.2 hboth.1] at hba
        exact asymm_of hq hab hba
      · rw [switched_not hboth] at hab
        rw [switched_not fun hboth' => hboth hboth'.symm] at hba
        exact asymm_of hr hab hba
    · by_cases ha : E a
      · by_cases hc : E c
        · rw [switched_both ha hc] at hac
          by_cases hb : E b
          · rw [switched_both ha hb, switched_both hb hc]
            exact negTrans_of hq a b c hac
          · rw [switched_not fun h => hb h.2, switched_not fun h => hb h.1]
            rcases hapart a b ha hb with hab | hba
            · exact .inl hab
            · rcases hapart c b hc hb with hcb | hbc
              · exact absurd (h c a b hc ha hb hcb hba) (asymm_of hq hac)
              · exact .inr hbc
        · rw [switched_not fun h => hc h.2] at hac
          by_cases hb : E b
          · rw [switched_both ha hb, switched_not fun h => hc h.2]
            rcases hapart b c hb hc with hbc | hcb
            · exact .inr hbc
            · exact .inl (h a b c ha hb hc hac hcb)
          · rw [switched_not fun h => hb h.2, switched_not fun h => hb h.1]
            exact negTrans_of hr a b c hac
      · rw [switched_not fun h => ha h.1] at hac
        rw [switched_not fun h : E a ∧ E b => ha h.1]
        by_cases hboth : E b ∧ E c
        · rw [switched_both hboth.1 hboth.2]
          rcases hapart b a hboth.1 ha with hba | hab
          · exact .inr (h b c a hboth.1 hboth.2 ha hba hac)
          · exact .inl hab
        · rw [switched_not hboth]
          exact negTrans_of hr a b c hac

end
end Rts2.Lib.WeakOrder
