import Mathlib.Data.List.Basic
import Mathlib.Data.List.Nodup

/-! # Lists with keys

A list has one entry for a key, and every entry describes something. An entry is put in the place of
the one with its key, or at the end; an entry is taken out by its key. -/
namespace Rts2.Lib

/-- Changes the first element that is meant, or puts a new one at the end. -/
def putFirst {α : Type*} (meant : α → Bool) (update : α → α) (new : α) : List α → List α
  | [] => [new]
  | a :: as => if meant a then update a :: as else a :: putFirst meant update new as

section
variable {α κ γ : Type*} {key : α → κ} {meant : α → Bool} {k : κ} {update : α → α} {new : α}
  {describes : α → γ → Prop} {there there' : γ → Prop} {l : List α}

/-- What holds of the old elements, of the one that is meant when it is changed, and of the new one. -/
theorem forall_putFirst (hmeant : ∀ a, meant a = true ↔ key a = k) {P : α → Prop}
    (hl : ∀ a ∈ l, P a) (hupdate : ∀ a ∈ l, key a = k → P (update a)) (hnew : P new) :
    ∀ a ∈ putFirst meant update new l, P a := by
  induction l with
  | nil => exact List.forall_mem_singleton.mpr hnew
  | cons b l ih =>
    obtain ⟨hb, hl⟩ := List.forall_mem_cons.mp hl
    obtain ⟨hub, hul⟩ := List.forall_mem_cons.mp hupdate
    unfold putFirst
    split
    · next hkey => exact List.forall_mem_cons.mpr ⟨hub ((hmeant b).mp hkey), hl⟩
    · exact List.forall_mem_cons.mpr ⟨hb, ih hl hul⟩

/-- The element that is meant is in the list. -/
theorem exists_putFirst (hmeant : ∀ a, meant a = true ↔ key a = k) {P : α → Prop}
    (hupdate : ∀ a ∈ l, key a = k → P (update a)) (hnew : P new) :
    ∃ a ∈ putFirst meant update new l, P a := by
  induction l with
  | nil => exact ⟨new, List.mem_singleton_self new, hnew⟩
  | cons b l ih =>
    obtain ⟨hub, hul⟩ := List.forall_mem_cons.mp hupdate
    unfold putFirst
    split
    · next hkey => exact ⟨_, List.mem_cons_self, hub ((hmeant b).mp hkey)⟩
    · obtain ⟨a, ha, hP⟩ := ih hul
      exact ⟨a, List.mem_cons_of_mem b ha, hP⟩

theorem mem_putFirst_of_ne (hmeant : ∀ a, meant a = true ↔ key a = k) {a : α} (ha : a ∈ l)
    (hne : key a ≠ k) : a ∈ putFirst meant update new l := by
  induction l with
  | nil => cases ha
  | cons b l ih =>
    unfold putFirst
    split
    · next hkey =>
      rcases List.mem_cons.mp ha with rfl | ha
      · exact absurd ((hmeant a).mp hkey) hne
      · exact List.mem_cons_of_mem _ ha
    · rcases List.mem_cons.mp ha with rfl | ha
      · exact List.mem_cons_self
      · exact List.mem_cons_of_mem b (ih ha)

theorem nodup_putFirst (hmeant : ∀ a, meant a = true ↔ key a = k)
    (hupdate : ∀ a, key (update a) = key a) (hnew : key new = k) (hnodup : (l.map key).Nodup) :
    ((putFirst meant update new l).map key).Nodup := by
  induction l with
  | nil => exact List.nodup_singleton _
  | cons b l ih =>
    have hcons := hnodup
    rw [List.map_cons, List.nodup_cons, List.mem_map] at hcons
    have hlater : ∀ a ∈ l, key a ≠ key b := fun a ha h => hcons.1 ⟨a, ha, h⟩
    unfold putFirst
    split
    · rw [List.map_cons, hupdate]
      exact hnodup
    · next hb =>
      have hput := forall_putFirst hmeant hlater (fun a ha _ => hupdate a ▸ hlater a ha)
        fun h => hb ((hmeant b).mpr (h ▸ hnew))
      rw [List.map_cons, List.nodup_cons, List.mem_map]
      exact ⟨fun ⟨a, ha, h⟩ => hput a ha h, ih hcons.2⟩

theorem key_ne_of_mem_eraseP (hmeant : ∀ a, meant a = true ↔ key a = k)
    (hnodup : (l.map key).Nodup) {a : α} (ha : a ∈ l.eraseP meant) : key a ≠ k := by
  induction l with
  | nil => cases ha
  | cons b l ih =>
    rw [List.map_cons, List.nodup_cons, List.mem_map] at hnodup
    by_cases hb : key b = k
    · rw [List.eraseP_cons_of_pos ((hmeant b).mpr hb)] at ha
      exact fun h => hnodup.1 ⟨a, ha, h.trans hb.symm⟩
    · rw [List.eraseP_cons_of_neg fun h => hb ((hmeant b).mp h)] at ha
      rcases List.mem_cons.mp ha with rfl | ha
      · exact hb
      · exact ih hnodup.2 ha

/-- One entry for a key, and each describes something that is there. -/
structure Tracks (key : α → κ) (describes : α → γ → Prop) (there : γ → Prop) (l : List α) :
    Prop where
  nodup : (l.map key).Nodup
  sound : ∀ a ∈ l, ∃ c, there c ∧ describes a c

theorem Tracks.mono (h : Tracks key describes there l)
    (hsub : ∀ a ∈ l, ∀ c, there c → describes a c → there' c) : Tracks key describes there' l := by
  refine ⟨h.nodup, fun a ha => ?_⟩
  obtain ⟨c, hc, hdesc⟩ := h.sound a ha
  exact ⟨c, hsub a ha c hc hdesc, hdesc⟩

/-- An entry is put for `c`; what was described stays so, unless by an entry with the key of `c`. -/
theorem Tracks.put (h : Tracks key describes there l) (hmeant : ∀ a, meant a = true ↔ key a = k)
    (update : α → α) (new : α) (hupdate : ∀ a, key (update a) = key a) (hnew : key new = k) {c : γ}
    (hc : there c) (hcnew : describes new c) (hcupdate : ∀ a ∈ l, key a = k → describes (update a) c) :
    Tracks key describes there (putFirst meant update new l) ∧
      (∃ a ∈ putFirst meant update new l, describes a c) ∧
      ∀ d, (∀ a ∈ l, describes a d → key a = k → d = c) → (∃ a ∈ l, describes a d) →
        ∃ a ∈ putFirst meant update new l, describes a d := by
  have hput : ∃ a ∈ putFirst meant update new l, describes a c :=
    exists_putFirst hmeant hcupdate hcnew
  refine ⟨⟨nodup_putFirst hmeant hupdate hnew h.nodup, forall_putFirst hmeant h.sound
    (fun a ha hkey => ⟨c, hc, hcupdate a ha hkey⟩) ⟨c, hc, hcnew⟩⟩, hput, ?_⟩
  intro d hother hd
  obtain ⟨a, ha, hdesc⟩ := hd
  by_cases hkey : key a = k
  · exact hother a ha hdesc hkey ▸ hput
  · exact ⟨a, mem_putFirst_of_ne hmeant ha hkey, hdesc⟩

/-- The entry of a key is taken out. -/
theorem Tracks.erase (h : Tracks key describes there l) (hmeant : ∀ a, meant a = true ↔ key a = k)
    (there' : γ → Prop) (hleft : ∀ a ∈ l, key a ≠ k → ∀ c, there c → describes a c → there' c) :
    Tracks key describes there' (l.eraseP meant) ∧
      ∀ d, (∀ a ∈ l, describes a d → key a ≠ k) → (∃ a ∈ l, describes a d) →
        ∃ a ∈ l.eraseP meant, describes a d := by
  refine ⟨⟨h.nodup.sublist (List.eraseP_sublist.map key), fun a ha => ?_⟩, fun d hother hd => ?_⟩
  · have hal := List.mem_of_mem_eraseP ha
    obtain ⟨c, hc, hdesc⟩ := h.sound a hal
    exact ⟨c, hleft a hal (key_ne_of_mem_eraseP hmeant h.nodup ha) c hc hdesc, hdesc⟩
  · obtain ⟨a, ha, hdesc⟩ := hd
    have hne : ¬ meant a = true := fun hm => hother a ha hdesc ((hmeant a).mp hm)
    exact ⟨a, (List.mem_eraseP_of_neg hne).mpr ha, hdesc⟩

end

end Rts2.Lib
