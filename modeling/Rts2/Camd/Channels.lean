import Mathlib.Algebra.Group.Nat.Defs
import Mathlib.Data.List.Basic
import Mathlib.Data.List.Count
import Mathlib.Order.Lattice

/-! # Data channels

A camera with several channels sends one image for each that is on, and labels it with
the number of the physical channel. -/
namespace Rts2.Camd

/-! ## Labels -/

/-- `for (i = 0; i < ch && j < channels->size (); j++) if ((*channels)[j]) i++;`, the
value of `j` behind it -/
def countChannels : List Bool → Nat → Nat
  | [], _ => 0
  | _, 0 => 0
  | on :: channels, ch + 1 =>
    countChannels channels (if on then ch else ch + 1) + 1

/-- `Camera::getPhysicalChannel`; a camera without the array has one channel. -/
def getPhysicalChannel (channels : Option (List Bool)) (ch : Nat) : Nat :=
  match channels with
  | none => ch
  | some channels => countChannels channels ch

/-- `dataChannels`, as an exposure starts -/
def dataChannels (channels : List Bool) : Nat := channels.count true

/-- `fhd->channel` of the data channel, in `readoutStart` and `sendFirstLine` -/
def headerChannel (channels : List Bool) (i : Nat) : Nat :=
  getPhysicalChannel (some channels) i % 2 ^ 16

/-! ## The channels that are on -/

/-- The channels that are on, in their order. -/
def enabled : List Bool → List Nat
  | [] => []
  | on :: channels => (if on then [0] else []) ++ (enabled channels).map (· + 1)

variable {channels : List Bool} {k j : Nat}

theorem enabled_length (channels : List Bool) : (enabled channels).length = dataChannels channels := by
  induction channels with
  | nil => rfl
  | cons on channels ih =>
    cases on
    · simpa [enabled, dataChannels] using ih
    · simpa [enabled, dataChannels] using ih

theorem mem_enabled : j ∈ enabled channels ↔ channels[j]? = some true := by
  induction channels generalizing j with
  | nil => simp [enabled]
  | cons on channels ih =>
    cases j with
    | zero => cases on <;> simp [enabled]
    | succ j => cases on <;> simp [enabled, ih]

theorem countChannels_zero (channels : List Bool) : countChannels channels 0 = 0 := by
  cases channels <;> rfl

/-- The loop ends behind the last channel it counted. -/
theorem countChannels_succ (h : k < (enabled channels).length) :
    countChannels channels (k + 1) = (enabled channels)[k] + 1 := by
  induction channels generalizing k with
  | nil => exact absurd h (Nat.not_lt_zero k)
  | cons on channels ih =>
    cases on with
    | false =>
      have hk : k < (enabled channels).length := by simpa [enabled] using h
      simpa [countChannels, enabled] using ih hk
    | true =>
      cases k with
      | zero => simp [countChannels, enabled, countChannels_zero]
      | succ k =>
        have hk : k < (enabled channels).length := by simpa [enabled] using h
        simpa [countChannels, enabled] using ih hk

/-- No channel that is off stands before one that is on. -/
def Leading (channels : List Bool) : Prop :=
  ∀ i j : Nat, i < j → channels[j]? = some true → channels[i]? = some true

theorem enabled_of_leading (h : Leading channels) :
    enabled channels = List.range (dataChannels channels) := by
  induction channels with
  | nil => rfl
  | cons on channels ih =>
    have hrest : Leading channels := fun i j hij hj => h (i + 1) (j + 1) (by omega) hj
    cases on with
    | true =>
      have hcount : dataChannels (true :: channels) = dataChannels channels + 1 :=
        List.count_cons_self ..
      rw [hcount, List.range_succ_eq_map, ← ih hrest]
      rfl
    | false =>
      -- the first channel is off, so that none behind it is on
      have hnone : enabled channels = [] := by
        refine List.eq_nil_iff_forall_not_mem.mpr fun j hj => ?_
        have hon : channels[j]? = some true := mem_enabled.mp hj
        have hfirst := h 0 (j + 1) (Nat.succ_pos j) hon
        cases hfirst
      have hcount : dataChannels (false :: channels) = 0 := by
        rw [← enabled_length]
        simp [enabled, hnone]
      rw [hcount, List.range_zero]
      simp [enabled, hnone]

/-- Every data channel has the number of its channel, and the labels are those of
channels that are on, one after another. -/
structure Labelled (channels : List Bool) : Prop where
  physical : ∀ k (h : k < (enabled channels).length),
    getPhysicalChannel (some channels) k = (enabled channels)[k]
  on : ∀ k, k < dataChannels channels → channels[headerChannel channels k]? = some true
  increasing : ∀ k l, k < l → l < dataChannels channels →
    headerChannel channels k < headerChannel channels l

/-- A channel that is counted right comes right behind the one before. -/
theorem Labelled.enabled_eq (h : Labelled channels) {k : Nat} (hk : k < (enabled channels).length) :
    (enabled channels)[k] = k := by
  induction k with
  | zero =>
    rw [← h.physical 0 hk]
    exact countChannels_zero channels
  | succ k ih =>
    rw [← h.physical (k + 1) hk]
    show countChannels channels (k + 1) = k + 1
    rw [countChannels_succ (Nat.lt_of_succ_lt hk), ih (Nat.lt_of_succ_lt hk)]

theorem Labelled.leading (h : Labelled channels) : Leading channels := by
  intro i j hij hj
  obtain ⟨k, hk, hkj⟩ := List.getElem_of_mem (mem_enabled.mpr hj)
  have hkeq : k = j := (h.enabled_eq hk).symm.trans hkj
  have hi : i < (enabled channels).length := by omega
  have hmem : (enabled channels)[i] ∈ enabled channels := List.getElem_mem hi
  rw [h.enabled_eq hi] at hmem
  exact mem_enabled.mp hmem

theorem Leading.physical (h : Leading channels) (hk : k < (enabled channels).length) :
    getPhysicalChannel (some channels) k = k ∧ (enabled channels)[k] = k := by
  have hget : ∀ k (hk : k < (enabled channels).length), (enabled channels)[k] = k := by
    intro k hk
    simp only [enabled_of_leading h, List.getElem_range]
  refine ⟨?_, hget k hk⟩
  cases k with
  | zero => exact countChannels_zero channels
  | succ k =>
    show countChannels channels (k + 1) = k + 1
    rw [countChannels_succ (Nat.lt_of_succ_lt hk), hget]

/-- Images are labelled with the channels they are of when the channels that are on come
first, and their numbers fit the header. -/
theorem labelled_iff (channels : List Bool) :
    Labelled channels ↔ Leading channels ∧ dataChannels channels ≤ 2 ^ 16 := by
  constructor
  · intro h
    have hlead := h.leading
    refine ⟨hlead, ?_⟩
    by_contra hmany
    have hlast : 2 ^ 16 < dataChannels channels := not_le.mp hmany
    have hwrap : headerChannel channels (2 ^ 16) = 0 := by
      rw [headerChannel, (hlead.physical (by rwa [enabled_length])).1, Nat.mod_self]
    have hless := h.increasing 0 (2 ^ 16) (Nat.two_pow_pos 16) hlast
    omega
  · intro hcond
    obtain ⟨hlead, hfew⟩ := hcond
    have hheader : ∀ k, k < dataChannels channels → headerChannel channels k = k := by
      intro k hk
      rw [headerChannel, (hlead.physical (by rwa [enabled_length])).1]
      exact Nat.mod_eq_of_lt (by omega)
    refine ⟨?_, ?_, ?_⟩
    · intro k hk
      rw [(hlead.physical hk).1, (hlead.physical hk).2]
    · intro k hk
      rw [hheader k hk, ← mem_enabled, enabled_of_leading hlead]
      exact List.mem_range.mpr hk
    · intro k l hkl hl
      rw [hheader k (by omega), hheader l hl]
      exact hkl

/-- The only channel that is on is the second, the image has the number of the first. -/
theorem first_channel_off : ¬Labelled [false, true] := by
  intro h
  have hfirst : (0 : Nat) = 1 := h.physical 0 (by decide)
  cases hfirst

end Rts2.Camd
