import Rts2.Values.MinMax

/-! # The value stays within its limits

A request is checked against the limits it brings along, and these are stored
with it; what sets a limit alone checks nothing. -/
namespace Rts2.Values
open Rts2.Connection Rts2.Daemon Rts2.Lib
open Rts2.Modes (sameText)

variable {N : Type} {c : Numbers N} {s : MinMaxState c}

namespace MinMaxState

/-! ## Operations that keep the limits -/

/-- If the change is carried out and the limits let its number through, it is a number, also
within the limits as the value keeps it; and it does not overflow. -/
def Carries (s : MinMaxState c) (op : Char) (new : MinMax c) (ret : Int) : Prop :=
  match MinMax.opNumber op s.v new with
  | none => True
  | some none => False
  | some (some x) =>
    ret = 0 → new.passes x = true → c.isNumber x = true ∧ new.passes (c.stored x) = true

/-- The change is put off, or changes nothing, or `Carries`. -/
def Accepts (s : MinMaxState c) (op : Char) (new : MinMax c) (ret : Int) (queued : Bool) : Prop :=
  s.puts op new queued = false → ¬(op = '=' ∧ s.v.isEqual new = true) → s.Carries op new ret

/-- The new value of an entry. -/
def entryValue (s : MinMaxState c) (text : List Byte) : MinMax c :=
  { s.v with value := c.stored (c.ofText text) }

/-- A limit that an entry sets leaves the value inside. -/
def Bounds (s : MinMaxState c) (text : List Byte) (set : N → MinMax c) : Prop :=
  match c.limit text with
  | some x => (set x).passes s.v.value = true
  | none => False

def EntryOk (use_extenstions : Bool) (s : MinMaxState c) : MinMaxEntry → Prop
  | .other _ => True
  | .own suffix text ret queued =>
    if suffix.length > 0 ∧ use_extenstions then
      if sameText suffix ['m', 'i', 'n'] then s.Bounds text fun x => { s.v with min := x }
      else if sameText suffix ['m', 'a', 'x'] then s.Bounds text fun x => { s.v with max := x }
      else True
    else s.Accepts '=' (s.entryValue text) ret queued

/-- The entry is refused: its suffix is neither limit, its number is not within the limits,
or the driver does not take it. -/
def Refuses (use_extenstions : Bool) (s : MinMaxState c) : MinMaxEntry → Prop
  | .other ok => ok = false
  | .own suffix text ret queued =>
    if suffix.length > 0 ∧ use_extenstions then
      sameText suffix ['m', 'i', 'n'] = false ∧ sameText suffix ['m', 'a', 'x'] = false
    else s.puts '=' (s.entryValue text) queued = false ∧ s.v.isEqual (s.entryValue text) = false ∧
      (s.v.passes (s.entryValue text).value = false ∨ ret = -2)

/-- An entry is refused only while the value is what it was before the section. -/
def SectionOk (use_extenstions : Bool) (before : MinMax c) (s : MinMaxState c) :
    List MinMaxEntry → Prop
  | [] => True
  | e :: es => EntryOk use_extenstions s e ∧ (Refuses use_extenstions s e → s.v = before) ∧
    (¬ Refuses use_extenstions s e →
      SectionOk use_extenstions before (s.setEntry use_extenstions e).2 es)

/-- What keeps the value within its limits. -/
def Ok (s : MinMaxState c) : Op → Prop
  | .set op text ret queued => ∀ new, s.v.setValue text = some new → s.Accepts op new ret queued
  | .loadQueued ret => ∀ q rest, s.queValues = q :: rest → s.Carries q.1 q.2 ret
  | .sect use_extenstions es => s.SectionOk use_extenstions s.v es

/-! ## What holds all along -/

structure Good (s : MinMaxState c) : Prop where
  defined : s.undefined = false
  inLimits : s.v.InLimits
  queue : ∀ q ∈ s.queValues, c.stored q.2.value = q.2.value

/-- What a change can do: overflow, nothing, or store the number it makes. -/
theorem doSetValue_cases (s : MinMaxState c) (op : Char) (new : MinMax c) (ret : Int) :
    MinMax.opNumber op s.v new = some none ∨ (s.doSetValue op new ret).2 = s ∨
    ∃ x, MinMax.opNumber op s.v new = some (some x) ∧ new.passes x = true ∧ ret = 0 ∧
      s.v.isEqual (new.setNumber x) = false ∧
      s.doSetValue op new ret = (0, s.change (s.v.setFromValue (new.setNumber x))) := by
  rcases hop : MinMax.opNumber op s.v new with _ | _ | x
  · have hnone : ValueOps.doOpValue new op s.v = none := by
      simp [ValueOps.doOpValue, MinMax.doOpValue, hop]
    right; left
    simp [MinMaxState.doSetValue, MinMax.overflows, hop, Daemon.doSetValue, hnone, change]
  · exact .inl rfl
  · have hover : new.overflows op s.v = false := by simp [MinMax.overflows, hop]
    have hnew : ValueOps.doOpValue new op s.v =
        if new.passes x = true then some (new.setNumber x) else none := by
      simp [ValueOps.doOpValue, MinMax.doOpValue, hop]
    right
    simp only [MinMaxState.doSetValue, hover, Daemon.doSetValue, hnew]
    by_cases hpasses : new.passes x = true
    · rw [if_pos hpasses]
      dsimp only
      by_cases hneg : ret < 0
      · left
        simp [hneg, change]
      · by_cases hstore : ret = 0 ∧ s.v.isEqual (new.setNumber x) = false
        · exact .inr ⟨x, rfl, hpasses, hstore.1, hstore.2, by simp [hstore, ValueOps.isEqual,
            ValueOps.setFromValue]⟩
        · left
          simp only [ValueOps.isEqual, if_neg hneg, if_neg hstore]
          rfl
    · left
      simp [hpasses, change]

/-- A change that was refused leaves the value. -/
theorem doSetValue_refused {op : Char} {new : MinMax c} {ret : Int}
    (h : (s.doSetValue op new ret).1 < 0) : (s.doSetValue op new ret).2.v = s.v := by
  rcases doSetValue_cases s op new ret with hover | hsame | ⟨x, -, -, -, -, hset⟩
  · simp [doSetValue, MinMax.overflows, hover, undefinedBehaviour]
  · rw [hsame]
  · rw [hset] at h
    exact absurd h (lt_irrefl 0)

/-- A value that keeps its number is stored as it is. -/
theorem setFromValue_eq {old new : MinMax c} (hequal : old.isEqual new = false)
    (hkept : c.stored new.value = new.value) : old.setFromValue new = new := by
  have hne : ¬ c.eq old.value new.value = true := by
    simpa [MinMax.isEqual] using hequal
  simp only [MinMax.setFromValue, MinMax.setNumber, if_neg hne, hkept]

theorem setNumber_kept {new : MinMax c} (hkept : c.stored new.value = new.value) (x : N) :
    c.stored (new.setNumber x).value = (new.setNumber x).value := by
  unfold MinMax.setNumber
  split
  · exact hkept
  · exact c.stored_stored x

theorem setNumber_inLimits {new : MinMax c} {x : N} (hpasses : new.passes x = true)
    (hnumber : c.isNumber x = true) (hstored : new.passes (c.stored x) = true) :
    (new.setNumber x).InLimits := by
  unfold MinMax.setNumber
  split
  · rename_i heq
    have hx := c.eq_sound heq
    exact ⟨hx ▸ hnumber, hx ▸ hpasses⟩
  · exact ⟨(c.isNumber_stored x).trans hnumber, hstored⟩

theorem Good.change (h : Good s) {v : MinMax c} (hv : v.InLimits) : Good (s.change v) :=
  ⟨h.defined, hv, h.queue⟩

theorem Good.doSetValue (h : Good s) {op : Char} {new : MinMax c} {ret : Int}
    (hkept : c.stored new.value = new.value) (hc : s.Carries op new ret) :
    Good (s.doSetValue op new ret).2 := by
  rcases doSetValue_cases s op new ret with hover | hsame | ⟨x, hop, hpasses, hret, hequal, hset⟩
  · simp [Carries, hover] at hc
  · rw [hsame]
    exact h
  · simp only [Carries, hop] at hc
    obtain ⟨hnumber, hstored⟩ := hc hret hpasses
    rw [hset, setFromValue_eq hequal (setNumber_kept hkept x)]
    exact h.change (setNumber_inLimits hpasses hnumber hstored)

theorem Good.setCondValue (h : Good s) {op : Char} {new : MinMax c} {ret : Int} {queued : Bool}
    (hkept : c.stored new.value = new.value) (hc : s.Accepts op new ret queued) :
    Good (s.setCondValue op new ret queued).2 := by
  unfold MinMaxState.setCondValue
  split
  · refine ⟨h.defined, h.inLimits, fun q hq => ?_⟩
    rcases List.mem_append.mp hq with hq | hq
    · exact h.queue q hq
    · obtain rfl := List.mem_singleton.mp hq
      exact hkept
  · rename_i hputs
    split
    · exact h
    · rename_i hequal
      exact h.doSetValue hkept (hc (Bool.not_eq_true _ ▸ hputs) hequal)

theorem setCondValue_refused {op : Char} {new : MinMax c} {ret : Int} {queued : Bool}
    (h : (s.setCondValue op new ret queued).1 < 0) :
    (s.setCondValue op new ret queued).2.v = s.v := by
  unfold MinMaxState.setCondValue at h ⊢
  split
  · rfl
  · rename_i hputs
    rw [if_neg hputs] at h
    split
    · rfl
    · rename_i hequal
      rw [if_neg hequal] at h
      exact doSetValue_refused h

/-- What a request brings is what a value keeps. -/
theorem setValue_kept {old new : MinMax c} {text : List Byte} (h : old.setValue text = some new) :
    c.stored new.value = new.value := by
  simp only [MinMax.setValue, Option.bind_eq_bind, Option.bind_eq_some_iff] at h
  obtain ⟨⟨new_val, rest⟩, -, h⟩ := h
  split at h
  · obtain ⟨-, hnew⟩ := Option.ite_none_right_eq_some.mp h
    obtain rfl := Option.some.inj hnew
    exact c.stored_stored new_val
  · simp only [Option.bind_eq_some_iff] at h
    obtain ⟨⟨min, rest⟩, -, ⟨max, rest'⟩, -, h⟩ := h
    obtain ⟨-, hnew⟩ := Option.ite_none_right_eq_some.mp h
    obtain rfl := Option.some.inj hnew
    exact c.stored_stored new_val

/-! ## Sections -/

theorem Good.setLimit (h : Good s) {text : List Byte} {set : N → MinMax c}
    (hvalue : ∀ x, (set x).value = s.v.value) (hb : s.Bounds text set) :
    Good (s.setLimit text set) := by
  unfold Bounds at hb
  unfold MinMaxState.setLimit
  cases hlimit : c.limit text with
  | none =>
    rw [hlimit] at hb
    exact hb.elim
  | some x =>
    rw [hlimit] at hb
    dsimp only at hb ⊢
    refine h.change ⟨?_, ?_⟩
    · rw [hvalue x]
      exact h.inLimits.1
    · rw [hvalue x]
      exact hb

theorem Good.setEntry (h : Good s) {ext : Bool} {e : MinMaxEntry} (hok : EntryOk ext s e) :
    Good (s.setEntry ext e).2 := by
  cases e with
  | other ok => exact h
  | own suffix text ret queued =>
    simp only [EntryOk] at hok
    simp only [MinMaxState.setEntry]
    split
    · rename_i hsuffix
      rw [if_pos hsuffix] at hok
      split
      · rename_i hmin
        rw [if_pos hmin] at hok
        exact h.setLimit (fun _ => rfl) hok
      · rename_i hmin
        rw [if_neg hmin] at hok
        split
        · rename_i hmax
          rw [if_pos hmax] at hok
          exact h.setLimit (fun _ => rfl) hok
        · exact h
    · rename_i hsuffix
      rw [if_neg hsuffix] at hok
      exact h.setCondValue (c.stored_stored _) hok

/-- An assignment is refused outside the limits, or by the driver. -/
theorem doSetValue_assign_refused {new : MinMax c} {ret : Int} :
    (s.doSetValue '=' new ret).1 = -2 ↔ new.passes new.value = false ∨ ret = -2 := by
  have hover : new.overflows '=' s.v = false := rfl
  have hnew : ValueOps.doOpValue new '=' s.v =
      if new.passes new.value = true then some new else none := by
    simp [ValueOps.doOpValue, MinMax.doOpValue, MinMax.opNumber]
  simp only [doSetValue, hover, Daemon.doSetValue, hnew]
  by_cases hpasses : new.passes new.value = true
  · simp only [hpasses, if_true]
    by_cases hneg : ret < 0
    · simp [hneg]
    · have hret : ret ≠ -2 := by omega
      by_cases hstore : ret = 0 ∧ s.v.isEqual new = false
      · simp [hstore, ValueOps.isEqual]
      · simp only [ValueOps.isEqual, if_neg hneg, if_neg hstore]
        simp [hret]
  · simp [hpasses]

/-- The loop stops at the entries that `Refuses`. -/
theorem setEntry_false_iff {ext : Bool} {e : MinMaxEntry} :
    (s.setEntry ext e).1 = false ↔ Refuses ext s e := by
  cases e with
  | other ok => exact Iff.rfl
  | own suffix text ret queued =>
    simp only [MinMaxState.setEntry, Refuses]
    split
    · split
      · rename_i hmin
        simp [hmin]
      · rename_i hmin
        split
        · rename_i hmax
          simp [hmax]
        · rename_i hmax
          simp [hmin, hmax]
    · have hpasses : ∀ x, s.v.passes x = (s.entryValue text).passes x := fun _ => rfl
      rw [hpasses, ← doSetValue_assign_refused (s := s)]
      simp only [MinMaxState.setCondValue, entryValue, decide_eq_false_iff_not, not_not]
      split
      · rename_i hputs
        simp [hputs]
      · rename_i hputs
        split
        · rename_i hequal
          simp [hequal.2]
        · rename_i hequal
          simp only [true_and, Bool.not_eq_true] at hequal
          simp [hputs, hequal]

theorem setEntry_refused {ext : Bool} {e : MinMaxEntry} (h : (s.setEntry ext e).1 = false) :
    (s.setEntry ext e).2.v = s.v := by
  cases e with
  | other ok => rfl
  | own suffix text ret queued =>
    simp only [MinMaxState.setEntry] at h ⊢
    split
    · rename_i hsuffix
      rw [if_pos hsuffix] at h
      split
      · rename_i hmin
        simp [hmin] at h
      · rename_i hmin
        split
        · rename_i hmax
          simp [hmin, hmax] at h
        · rfl
    · rename_i hsuffix
      rw [if_neg hsuffix] at h
      simp only [decide_eq_false_iff_not, not_not] at h
      exact setCondValue_refused (h.trans_lt (by decide))

/-- A section whose entries are `SectionOk` keeps the limits; refused, it leaves the value. -/
theorem Good.setSectionValues {ext : Bool} {es : List MinMaxEntry} {before : MinMax c}
    (h : Good s) (hok : SectionOk ext before s es) :
    Good (s.setSectionValues ext es).2 ∧
      ((s.setSectionValues ext es).1 = false → (s.setSectionValues ext es).2.v = before) := by
  induction es generalizing s with
  | nil => exact ⟨h, fun hfalse => by cases hfalse⟩
  | cons e es ih =>
    obtain ⟨hentry, hrefuses, hrest⟩ := hok
    unfold MinMaxState.setSectionValues
    split
    · rename_i htaken
      refine ih (h.setEntry hentry) (hrest fun hr => ?_)
      rw [setEntry_false_iff.mpr hr] at htaken
      cases htaken
    · rename_i hrefused
      have hfalse := Bool.not_eq_true _ ▸ hrefused
      exact ⟨h.setEntry hentry, fun _ =>
        (setEntry_refused hfalse).trans (hrefuses (setEntry_false_iff.mp hfalse))⟩

/-! ## Every run -/

theorem Good.setValue (h : Good s) {op : Char} {text : List Byte} {ret : Int} {queued : Bool}
    (hok : ∀ new, s.v.setValue text = some new → s.Accepts op new ret queued) :
    Good (s.setValue op text ret queued).2 ∧ ((s.setValue op text ret queued).1 < 0 →
      (s.setValue op text ret queued).2.v = s.v) := by
  unfold MinMaxState.setValue
  cases hnew : s.v.setValue text with
  | none => exact ⟨h, fun _ => rfl⟩
  | some new => exact ⟨h.setCondValue (setValue_kept hnew) (hok new hnew), setCondValue_refused⟩

theorem Good.loadQueued (h : Good s) {ret : Int}
    (hok : ∀ q rest, s.queValues = q :: rest → s.Carries q.1 q.2 ret) :
    Good (s.loadQueued ret).2 ∧ ((s.loadQueued ret).1 < 0 → (s.loadQueued ret).2.v = s.v) := by
  unfold MinMaxState.loadQueued
  cases hqueue : s.queValues with
  | nil => exact ⟨h, fun _ => rfl⟩
  | cons q rest =>
    have hrest : Good { s with queValues := rest } :=
      ⟨h.defined, h.inLimits, fun q' hq' => h.queue q' (hqueue ▸ List.mem_cons_of_mem _ hq')⟩
    have hkept := h.queue q (hqueue ▸ List.mem_cons_self ..)
    exact ⟨hrest.doSetValue hkept (hok q rest hqueue), doSetValue_refused⟩

theorem Good.perform (h : Good s) {o : Op} (hok : s.Ok o) :
    Good (s.perform o).2 ∧ ((s.perform o).1 = true → (s.perform o).2.v = s.v) := by
  cases o with
  | set op text ret queued =>
    simpa only [MinMaxState.perform, decide_eq_true_eq] using h.setValue hok
  | loadQueued ret => simpa only [MinMaxState.perform, decide_eq_true_eq] using h.loadQueued hok
  | sect ext es =>
    simpa only [MinMaxState.perform, Bool.not_eq_true'] using h.setSectionValues hok

/-- **Within the limits**: in every run whose operations are `Ok`, from a value within its
limits, the value stays within them, a refused operation leaves value and limits, and no sum
overflows. -/
theorem minMax_kept (c : Numbers N) (v : MinMax c) (os : List Op) (hv : v.InLimits)
    (hok : Along step Ok ⟨v, [], false⟩ os) :
    (run step ⟨v, [], false⟩ os).v.InLimits ∧ (run step ⟨v, [], false⟩ os).undefined = false ∧
    ∀ before o after, os = before ++ o :: after →
      ((run step ⟨v, [], false⟩ before).perform o).1 = true →
      (run step ⟨v, [], false⟩ (before ++ [o])).v = (run step ⟨v, [], false⟩ before).v := by
  have hstart : Good (⟨v, [], false⟩ : MinMaxState c) :=
    ⟨rfl, hv, fun _ hq => absurd hq List.not_mem_nil⟩
  have hrun : ∀ {s : MinMaxState c} {os : List Op}, Good s → Along step Ok s os →
      Good (run step s os) := fun h hok =>
    hok.invariant h fun _ _ hs ho => (hs.perform ho).1
  refine ⟨(hrun hstart hok).inLimits, (hrun hstart hok).defined, ?_⟩
  rintro before o after rfl hrefused
  obtain ⟨hbefore, hrest⟩ := (along_append _ _ _).mp hok
  rw [run_append]
  exact ((hrun hstart hbefore).perform hrest.1).2 hrefused

/-- A sum within the limits, and an assignment that is refused. -/
theorem minMax_kept_sum :
    (run step (⟨⟨5, 0, 10⟩, [], false⟩ : MinMaxState integerNumbers)
      [.set '+' (decimal 3) 0 false, .set '=' (decimal 12) 0 false]).v.InLimits ∧
    (run step (⟨⟨5, 0, 10⟩, [], false⟩ : MinMaxState integerNumbers)
      [.set '+' (decimal 3) 0 false, .set '=' (decimal 12) 0 false]).undefined = false := by
  have hkept := minMax_kept integerNumbers ⟨5, 0, 10⟩
    [.set '+' (decimal 3) 0 false, .set '=' (decimal 12) 0 false] (by decide) (by
      refine ⟨fun new hnew => ?_, fun new hnew => ?_, trivial⟩
      · obtain rfl : (⟨3, 0, 10⟩ : MinMax integerNumbers) = new := Option.some.inj (.trans rfl hnew)
        intro _ _ _ _
        exact ⟨rfl, rfl⟩
      · have hnone : (none : Option (MinMax integerNumbers)) = some new := .trans rfl hnew
        cases hnone)
  exact ⟨hkept.1, hkept.2.1⟩

/-- A section sets the upper limit below the value; and two `int`s have no sum. -/
theorem limit_below_value :
    (⟨some 5, some 0, some 10⟩ : MinMax (doubleNumbers false wholeNumbers)).InLimits ∧
    ¬ (run step (⟨⟨some 5, some 0, some 10⟩, [], false⟩ :
        MinMaxState (doubleNumbers false wholeNumbers))
      [.sect true [.own ['m', 'a', 'x'] (decimal 3) 0 false]]).v.InLimits ∧
    (⟨2000000000, 0, 2000000000⟩ : MinMax integerNumbers).InLimits ∧
    (run step (⟨⟨2000000000, 0, 2000000000⟩, [], false⟩ : MinMaxState integerNumbers)
      [.set '+' (decimal 2000000000) 0 false]).undefined = true := by
  decide +kernel

end MinMaxState
end Rts2.Values
